import CircuitDesigner.Exponent
import CircuitDesigner.Proofs.Text.Digits
import Mathlib.Algebra.Field.Rat
import Mathlib.Data.List.Chain
import Mathlib.Data.Nat.Digits.Defs
import Mathlib.Tactic.NormNum

/-! Exponents that are written by the rules.

    Exponents are sums of products of literals, with a sign before the first term at most. There is no parser for them:
    the text is cut into tokens, and one pass over these keeps the terms of the sum, of which it changes the last one
    with each factor and divisor. This is the value of the expression in exact arithmetic (`value?_of_spells`). -/

namespace CircuitDesigner.Exponent

/-! ### Expressions -/

/-- Digits, at least one, and the digits after the point if there is one. -/
structure Literal where
  whole : List (Fin 10)
  fraction : List (Fin 10)
  whole_ne_nil : whole ≠ []
  deriving DecidableEq, Repr

/-- The number that digits make. -/
def numeral (ds : List (Fin 10)) : Nat := Nat.ofDigits 10 (ds.map Fin.val).reverse

def Literal.value (n : Literal) : Rat := numeral n.whole + numeral n.fraction / 10 ^ n.fraction.length

/-- Literals with `*` and `/` between them, which bind from the left. -/
inductive Product where
  | literal (n : Literal)
  | times (p : Product) (n : Literal)
  | divided (p : Product) (n : Literal)

/-- Products with `+` and `-` between them, which bind from the left, the first one with a sign if it is negated. -/
inductive Expression where
  | term (negated : Bool) (p : Product)
  | plus (e : Expression) (p : Product)
  | minus (e : Expression) (p : Product)

/-- The value of a product; none if a divisor is zero. -/
def Product.value? : Product → Option Rat
  | literal n => some n.value
  | times p n => p.value?.map (· * n.value)
  | divided p n => if n.value = 0 then none else p.value?.map (· / n.value)

/-- The value of an expression; none if a divisor is zero. -/
def Expression.value? : Expression → Option Rat
  | term negated p => p.value?.map fun v => if negated then -v else v
  | plus e p => e.value?.bind fun u => p.value?.map fun v => u + v
  | minus e p => e.value?.bind fun u => p.value?.map fun v => u - v

/-! ### Their texts -/

/-- A part of an expression that is written in one piece. -/
inductive Symbol where
  | literal (n : Literal)
  | plus
  | minus
  | times
  | slash
  deriving DecidableEq, Repr

def digits (ds : List (Fin 10)) : List Char := ds.map fun d => Nat.digitChar d.val

def Literal.text (n : Literal) : List Char :=
  digits n.whole ++ if n.fraction = [] then [] else '.' :: digits n.fraction

def Symbol.text : Symbol → List Char
  | literal n => n.text
  | plus => ['+']
  | minus => ['-']
  | times => ['*']
  | slash => ['/']

def Product.symbols : Product → List Symbol
  | literal n => [.literal n]
  | times p n => p.symbols ++ [.times, .literal n]
  | divided p n => p.symbols ++ [.slash, .literal n]

def Expression.symbols : Expression → List Symbol
  | term negated p => if negated then .minus :: p.symbols else p.symbols
  | plus e p => e.symbols ++ .plus :: p.symbols
  | minus e p => e.symbols ++ .minus :: p.symbols

/-- The text has the symbols in it, and nothing but blanks and parentheses before, between and after them. -/
inductive Spells : List Symbol → List Char → Prop
  | nil {gap : List Char} (hgap : ∀ c ∈ gap, isSeparator c = true) : Spells [] gap
  | cons {gap text : List Char} {s : Symbol} {symbols : List Symbol} (hgap : ∀ c ∈ gap, isSeparator c = true)
      (h : Spells symbols text) : Spells (s :: symbols) (gap ++ s.text ++ text)

/-! ### Cutting -/

/-- The token of a symbol. -/
def Symbol.token : Symbol → Token
  | literal n => .literal (numeral (n.whole ++ n.fraction)) n.fraction.length
  | plus => .plus
  | minus => .minus
  | times => .times
  | slash => .over

section Cutting

variable {cs : List Char}

theorem numeral_append (ds es : List (Fin 10)) : numeral (ds ++ es) = 10 ^ es.length * numeral ds + numeral es := by
  unfold numeral
  rw [List.map_append, List.reverse_append, Nat.ofDigits_append, List.length_reverse, List.length_map]
  exact Nat.add_comm _ _

theorem numeral_concat (ds : List (Fin 10)) (d : Fin 10) : numeral (ds ++ [d]) = 10 * numeral ds + d := by
  rw [numeral_append]
  simp [numeral]

/-- No literal goes on in this text. -/
def Ends (cs : List Char) : Prop := ∀ c ∈ cs.head?, Text.digit? c = none ∧ c ≠ '.'

theorem takeDigits_digits (count : Nat) (ds es : List (Fin 10)) (h : ∀ c ∈ cs.head?, Text.digit? c = none) :
    takeDigits (numeral es) count (digits ds ++ cs) = (numeral (es ++ ds), count + ds.length, cs) := by
  induction ds generalizing es count with
  | nil =>
    rw [List.append_nil]
    cases cs with
    | nil => rfl
    | cons c cs => simp [digits, takeDigits, h c rfl]
  | cons d ds ih =>
    have hread : takeDigits (numeral es) count (digits (d :: ds) ++ cs) =
        takeDigits (numeral (es ++ [d])) (count + 1) (digits ds ++ cs) := by
      show takeDigits _ _ (Nat.digitChar d :: (digits ds ++ cs)) = _
      rw [takeDigits, Text.digit?_digitChar d.isLt, numeral_concat]
    rw [hread, ih, List.append_assoc, List.length_cons, Nat.add_assoc, Nat.add_comm 1]
    rfl

theorem takeLiteral_text (d : Fin 10) (ds fraction : List (Fin 10)) (h : Ends cs) :
    takeLiteral d (digits ds ++ ((if fraction = [] then [] else '.' :: digits fraction) ++ cs)) =
      (.literal (numeral (d :: ds ++ fraction)) fraction.length, cs) := by
  have hone : numeral [d] = d := by simp [numeral]
  have hwhole : ∀ cs : List Char, (∀ c ∈ cs.head?, Text.digit? c = none) →
      takeDigits d 0 (digits ds ++ cs) = (numeral (d :: ds), ds.length, cs) := fun cs hcs => by
    rw [← hone, takeDigits_digits 0 ds [d] hcs, Nat.zero_add]
    rfl
  cases fraction with
  | nil =>
    rw [if_pos rfl, List.nil_append, takeLiteral, hwhole cs fun c hc => (h c hc).1, List.append_nil]
    cases cs with
    | nil => rfl
    | cons c cs =>
      have hpoint : c ≠ '.' := (h c rfl).2
      dsimp only
      split
      · rename_i heq
        exact absurd (List.cons.inj heq).1 hpoint
      · rfl
  | cons e es =>
    have hpoint : ∀ c ∈ ('.' :: digits (e :: es) ++ cs).head?, Text.digit? c = none := fun c hc => by
      cases hc
      decide
    have hfraction := takeDigits_digits 1 es (d :: ds ++ [e]) fun c hc => (h c hc).1
    rw [numeral_concat, List.append_assoc] at hfraction
    have hcons : '.' :: digits (e :: es) ++ cs = '.' :: Nat.digitChar e :: (digits es ++ cs) := rfl
    rw [if_neg (List.cons_ne_nil e es), takeLiteral, hwhole _ hpoint, hcons]
    simp only [Text.digit?_digitChar e.isLt, hfraction, Nat.add_comm 1]
    rfl

theorem tokens?_digit {c : Char} {d : Nat} (h : Text.digit? c = some d) : tokens? (c :: cs) =
    (tokens? (takeLiteral d cs).2).map ((takeLiteral d cs).1 :: ·) := by
  have hne : ∀ b, Text.digit? b = none → (c == b) = false := fun b hb => by
    rw [beq_eq_false_iff_ne]
    rintro rfl
    rw [hb] at h
    cases h
  have hseparator : (isSeparator c || c == '.') = false := by
    simp only [isSeparator, Bool.or_eq_false_iff]
    refine ⟨⟨⟨⟨⟨⟨?_, ?_⟩, ?_⟩, ?_⟩, ?_⟩, ?_⟩, ?_⟩ <;> exact hne _ (by decide)
  rw [tokens?, hseparator, hne '+' (by decide), hne '-' (by decide), hne '*' (by decide), hne '/' (by decide), h]
  rfl

/-- A literal is cut off as a whole: it takes all of its digits, and the point with digits after it. -/
theorem tokens?_literal (n : Literal) (h : Ends cs) :
    tokens? (n.text ++ cs) = (tokens? cs).map ((Symbol.literal n).token :: ·) := by
  obtain ⟨whole, fraction, hne⟩ := n
  obtain ⟨d, ds, rfl⟩ := List.exists_cons_of_ne_nil hne
  have htext : Literal.text ⟨d :: ds, fraction, hne⟩ ++ cs =
      Nat.digitChar d :: (digits ds ++ ((if fraction = [] then [] else '.' :: digits fraction) ++ cs)) := by
    simp [Literal.text, digits]
  rw [htext, tokens?_digit (Text.digit?_digitChar d.isLt), takeLiteral_text d ds fraction h]
  rfl

theorem tokens?_symbol (s : Symbol) (h : (∃ n, s = .literal n) → Ends cs) :
    tokens? (s.text ++ cs) = (tokens? cs).map (s.token :: ·) := by
  cases s with
  | literal n => exact tokens?_literal n (h ⟨n, rfl⟩)
  | plus | minus | times | slash => simp [Symbol.text, Symbol.token, tokens?, isSeparator]

theorem tokens?_gap {gap : List Char} (h : ∀ c ∈ gap, isSeparator c = true) : tokens? (gap ++ cs) = tokens? cs := by
  induction gap with
  | nil => rfl
  | cons c gap ih =>
    rw [List.cons_append, tokens?, h c List.mem_cons_self, Bool.true_or, if_pos rfl,
      ih fun c hc => h c (List.mem_cons_of_mem _ hc)]

/-- Two literals cannot be told apart without anything between them. -/
def Apart (s t : Symbol) : Prop := ¬ ((∃ n, s = .literal n) ∧ ∃ n, t = .literal n)

theorem Ends.of_spells {symbols : List Symbol} (h : Spells symbols cs)
    (hhead : ∀ s ∈ symbols.head?, ∀ n, s ≠ .literal n) :
    Ends cs := by
  have hseparator : ∀ c, isSeparator c = true → Text.digit? c = none ∧ c ≠ '.' := fun c hc => by
    simp only [isSeparator, Bool.or_eq_true, beq_iff_eq, or_assoc] at hc
    rcases hc with rfl | rfl | rfl | rfl | rfl | rfl <;> decide
  intro c hc
  cases h with
  | nil hgap => exact hseparator c (hgap c (List.mem_of_mem_head? hc))
  | @cons gap text s symbols hgap _ =>
    cases gap with
    | cons b gap =>
      cases hc
      exact hseparator c (hgap c List.mem_cons_self)
    | nil =>
      cases s with
      | literal n => exact absurd rfl (hhead _ rfl n)
      | plus | minus | times | slash =>
        cases hc
        decide

/-- A text is cut where its symbols end. -/
theorem tokens?_of_spells {symbols : List Symbol} (h : Spells symbols cs) (hapart : symbols.IsChain Apart) :
    tokens? cs = some (symbols.map Symbol.token) := by
  induction h with
  | @nil gap hgap =>
    rw [← List.append_nil gap, tokens?_gap hgap, tokens?]
    rfl
  | @cons gap text s symbols hgap htext ih =>
    have hends : (∃ n, s = .literal n) → Ends text := fun hs => .of_spells htext fun t ht n hn =>
      (List.isChain_cons.mp hapart).1 t ht ⟨hs, n, hn⟩
    rw [List.append_assoc, tokens?_gap hgap, tokens?_symbol s hends, ih (List.isChain_cons.mp hapart).2]
    rfl

end Cutting

/-! ### Adding up -/

section Adding

theorem Literal.quantity_eq (n : Literal) :
    (Quantity.literal (numeral (n.whole ++ n.fraction)) n.fraction.length : Rat) = n.value := by
  have hne : (10 : Rat) ^ n.fraction.length ≠ 0 := pow_ne_zero _ (by norm_num)
  show (numeral (n.whole ++ n.fraction) : Rat) / 10 ^ n.fraction.length = _
  rw [numeral_append, Literal.value]
  push_cast
  rw [add_div, mul_div_cancel_left₀ _ hne]

/-- A value with its sign. -/
def signed (negated : Bool) (v : Rat) : Rat := if negated then -v else v

/-- The sign of a negated product. -/
def signs (negated : Bool) : List Symbol := if negated then [.minus] else []

variable {p : Product} {e : Expression} {u v : Rat}

/-- A product is worked out in the last term, which has its sign from the first literal on. -/
theorem terms?_product (negated : Bool) (hv : p.value? = some v) (tokens : List Token) (terms : List Rat) :
    terms? ((signs negated ++ p.symbols).map Symbol.token ++ tokens) terms =
      terms? tokens (signed negated v :: terms) := by
  induction p generalizing v tokens with
  | literal n =>
    obtain rfl := Option.some.inj hv
    cases negated
    · show terms? tokens (Quantity.literal _ _ :: terms) = _
      rw [n.quantity_eq]
      rfl
    · show terms? tokens (-Quantity.literal _ _ :: terms) = _
      rw [n.quantity_eq]
      rfl
  | times p n ih =>
    obtain ⟨u, hu, rfl⟩ := Option.map_eq_some_iff.mp hv
    rw [Product.symbols, ← List.append_assoc, List.map_append, List.append_assoc, ih hu]
    show terms? tokens (signed negated u * Quantity.literal _ _ :: terms) = _
    rw [n.quantity_eq]
    cases negated <;> simp [signed]
  | divided p n ih =>
    obtain ⟨-, hv⟩ : n.value ≠ 0 ∧ p.value?.map (· / n.value) = some v := by
      simpa [Product.value?] using hv
    obtain ⟨u, hu, rfl⟩ := Option.map_eq_some_iff.mp hv
    rw [Product.symbols, ← List.append_assoc, List.map_append, List.append_assoc, ih hu]
    show terms? tokens (signed negated u / Quantity.literal _ _ :: terms) = _
    rw [n.quantity_eq]
    cases negated <;> simp [signed, neg_div]

/-- The terms that an expression leaves add up to its value. -/
theorem exists_terms (hv : e.value? = some v) : ∃ terms : List Rat, terms.reverse.foldl (· + ·) 0 = v ∧
    ∀ tokens, terms? (e.symbols.map Symbol.token ++ tokens) [] = terms? tokens terms := by
  induction e generalizing v with
  | term negated p =>
    obtain ⟨u, hu, rfl⟩ := Option.map_eq_some_iff.mp hv
    refine ⟨[signed negated u], by simp [signed], fun tokens => ?_⟩
    rw [← terms?_product negated hu]
    cases negated <;> rfl
  | plus e p ih =>
    obtain ⟨u, hu, hv⟩ := Option.bind_eq_some_iff.mp hv
    obtain ⟨w, hw, rfl⟩ := Option.map_eq_some_iff.mp hv
    obtain ⟨terms, hsum, hterms⟩ := ih hu
    refine ⟨w :: terms, by simp [hsum], fun tokens => ?_⟩
    rw [Expression.symbols, List.map_append, List.append_assoc, hterms]
    exact terms?_product false hw tokens terms
  | minus e p ih =>
    obtain ⟨u, hu, hv⟩ := Option.bind_eq_some_iff.mp hv
    obtain ⟨w, hw, rfl⟩ := Option.map_eq_some_iff.mp hv
    obtain ⟨terms, hsum, hterms⟩ := ih hu
    refine ⟨-w :: terms, by simp [hsum, sub_eq_add_neg], fun tokens => ?_⟩
    rw [Expression.symbols, List.map_append, List.append_assoc, hterms]
    exact terms?_product true hw tokens terms

/-! No two literals of an expression are next to each other. -/

theorem Apart.of_left {s t : Symbol} (h : ∀ n, s ≠ .literal n) : Apart s t := fun ⟨⟨n, hn⟩, _⟩ => h n hn

theorem Apart.of_right {s t : Symbol} (h : ∀ n, t ≠ .literal n) : Apart s t := fun ⟨_, n, hn⟩ => h n hn

/-- An operator after some symbols and before others keeps their literals apart. -/
theorem isChain_operator {before after : List Symbol} {s : Symbol} (hs : ∀ n, s ≠ .literal n)
    (hbefore : before.IsChain Apart) (hafter : after.IsChain Apart) : (before ++ s :: after).IsChain Apart :=
  List.isChain_append.mpr ⟨hbefore, List.isChain_cons.mpr ⟨fun _ _ => .of_left hs, hafter⟩, fun _ _ t ht => by
    cases ht
    exact .of_right hs⟩

theorem Product.isChain_symbols (p : Product) : p.symbols.IsChain Apart := by
  induction p with
  | literal n => exact List.isChain_singleton _
  | times p n ih => exact isChain_operator (by simp) ih (List.isChain_singleton _)
  | divided p n ih => exact isChain_operator (by simp) ih (List.isChain_singleton _)

theorem Expression.isChain_symbols (e : Expression) : e.symbols.IsChain Apart := by
  induction e with
  | term negated p =>
    cases negated
    · exact p.isChain_symbols
    · show ([] ++ Symbol.minus :: p.symbols).IsChain Apart
      exact isChain_operator (by simp) List.isChain_nil p.isChain_symbols
  | plus e p ih => exact isChain_operator (by simp) ih p.isChain_symbols
  | minus e p ih => exact isChain_operator (by simp) ih p.isChain_symbols

theorem Product.symbols_ne_nil (p : Product) : p.symbols ≠ [] := by cases p <;> simp [symbols]

theorem Expression.symbols_ne_nil (e : Expression) : e.symbols ≠ [] := by
  cases e with
  | term negated p => cases negated <;> simp [symbols, p.symbols_ne_nil]
  | plus e p | minus e p => simp [symbols]

/-- An exponent has the value of the expression that its text spells, in exact arithmetic: with products and quotients
    before sums and differences, each from the left, and a sign before the first term that applies to all of it. Blanks
    and parentheses mean nothing. -/
theorem value?_of_spells {e : Expression} {text : String} {v : Rat} (htext : Spells e.symbols text.toList)
    (hv : e.value? = some v) : (value? text : Option Rat) = some v := by
  obtain ⟨terms, hsum, hterms⟩ := exists_terms hv
  have hread : terms? (e.symbols.map Symbol.token) [] = some terms.reverse := by
    have := hterms []
    rwa [List.append_nil, terms?] at this
  have hne : (e.symbols.map Symbol.token).isEmpty = false := by
    rw [List.isEmpty_eq_false_iff]
    exact fun h => e.symbols_ne_nil (List.map_eq_nil_iff.mp h)
  simp only [value?, tokens?_of_spells htext e.isChain_symbols, Option.bind_eq_bind, Option.bind_some, hne, hread]
  rw [← hsum]
  rfl

/-- A text put together of symbols with the gaps before them. -/
theorem Spells.join (pieces : List (List Char × Symbol)) (gap : List Char)
    (hpieces : pieces.all (fun p => p.1.all isSeparator) = true) (hgap : gap.all isSeparator = true) :
    Spells (pieces.map Prod.snd) ((pieces.flatMap fun p => p.1 ++ p.2.text) ++ gap) := by
  induction pieces with
  | nil => exact .nil (List.all_eq_true.mp hgap)
  | cons p pieces ih =>
    rw [List.all_cons, Bool.and_eq_true] at hpieces
    rw [List.flatMap_cons, List.append_assoc]
    exact .cons (List.all_eq_true.mp hpieces.1) (ih hpieces.2)

/-- A sign, quotients in a row and a product, and blanks and parentheses that do not group. -/
theorem value?_of_spells_mixed :
    let e : Expression := .plus
      (.minus (.term true (.times (.divided (.divided (.literal ⟨[1, 2], [5, 0], by decide⟩) ⟨[5], [], by decide⟩)
        ⟨[2], [], by decide⟩) ⟨[3], [], by decide⟩)) (.literal ⟨[4], [], by decide⟩))
      (.literal ⟨[0], [2, 5], by decide⟩)
    let text := " -(12.50/5)\n/2 *3)- 4\t+((0.25"
    (Spells e.symbols text.toList ∧ e.value? = some (-15 / 2)) ∧ (value? text : Option Rat) = some (-15 / 2) := by
  intro e text
  let gaps : List (List Char) :=
    [[' '], ['('], [], [], [')', '\n'], [], [' '], [], [')'], [' '], ['\t'], ['(', '(']]
  have hjoin : text.toList = ((gaps.zip e.symbols).flatMap fun p => p.1 ++ p.2.text) ++ [] := by decide
  have htext : Spells e.symbols text.toList := by
    rw [hjoin]
    exact Spells.join (gaps.zip e.symbols) [] (by decide) (by decide)
  have hvalue : e.value? = some (-15 / 2) := by decide +kernel
  exact ⟨⟨htext, hvalue⟩, value?_of_spells htext hvalue⟩

end Adding

end CircuitDesigner.Exponent
