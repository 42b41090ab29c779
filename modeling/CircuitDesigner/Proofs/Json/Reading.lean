import CircuitDesigner.Json.Draft
import CircuitDesigner.Proofs.Text.Digits

/-! Reading what was written.

    A value whose numbers are natural numbers of 64 bits is read back from its compact text: strings in
    `takeString_quote`, numbers in `takeLiteral_toDigits`, and from them all values in `Fits.legible`. -/

namespace CircuitDesigner.Json

/-! ### Strings -/

theorem skipSpace_cons {c : Char} (h : isSpace c = false) (cs : List Char) : skipSpace (c :: cs) = c :: cs := by
  simp [skipSpace, h]

theorem hex4?_hexDigit {n : Nat} (h : n < 32) : hex4? '0' '0' (hexDigit (n / 16)) (hexDigit n) = some n := by
  have : ∀ i : Fin 32, hex4? '0' '0' (hexDigit (i.val / 16)) (hexDigit i.val) = some i.val := by decide
  exact this ⟨n, h⟩

theorem takePieces_cons {c : Char} (hquote : c ≠ '"') (hslash : c ≠ '\\') (h : ¬c.toNat < 32) (cs : List Char) :
    takePieces (c :: cs) = (takePieces cs).map fun r => (.char c :: r.1, r.2) := by
  rw [takePieces.eq_def]
  split
  · rename_i heq
    cases heq
  · rename_i heq
    cases heq
    exact absurd rfl hquote
  · rename_i heq
    cases heq
    exact absurd rfl hslash
  · rename_i heq
    cases heq
    exact absurd rfl hslash
  · rename_i heq
    cases heq
    rw [if_neg h]
    cases takePieces cs <;> rfl

/-- A character is read back from the form in which it stands in a string. -/
theorem exists_piece (c : Char) : ∃ p : Piece,
    (∀ cs, takePieces (escape c ++ cs) = (takePieces cs).map fun r => (p :: r.1, r.2)) ∧
      ∀ ps, join? (p :: ps) = (join? ps).map (c :: ·) := by
  unfold escape
  iterate 7
    split
    · rename_i h
      rw [eq_of_beq h]
      exact ⟨.char _, fun cs => by cases h : takePieces cs <;> simp [takePieces, unescape?, h, bind], fun ps => rfl⟩
  split
  · rename_i h
    refine ⟨.unit c.toNat, fun cs => ?_, fun ps => ?_⟩
    · show takePieces ('\\' :: 'u' :: '0' :: '0' :: hexDigit (c.toNat / 16) :: hexDigit c.toNat :: cs) = _
      rw [takePieces, hex4?_hexDigit h]
      cases takePieces cs <;> rfl
    · have hlow : isLowSurrogate c.toNat = false := by simp [isLowSurrogate]; omega
      have hhigh : isHighSurrogate c.toNat = false := by simp [isHighSurrogate]; omega
      rw [join?.eq_def]
      simp [hlow, hhigh]
  · exact ⟨.char c, takePieces_cons (by simp_all) (by simp_all) ‹_›, fun ps => rfl⟩

theorem exists_takePieces (cs rest : List Char) :
    ∃ ps, takePieces (cs.flatMap escape ++ '"' :: rest) = some (ps, rest) ∧ join? ps = some cs := by
  induction cs with
  | nil => exact ⟨[], rfl, rfl⟩
  | cons c cs ih =>
    obtain ⟨ps, htake, hjoin⟩ := ih
    obtain ⟨p, hpiece, hchar⟩ := exists_piece c
    refine ⟨p :: ps, ?_, ?_⟩
    · rw [List.flatMap_cons, List.append_assoc, hpiece, htake]
      rfl
    · rw [hchar, hjoin]
      rfl

/-- A string is read back after its opening quotation mark. -/
theorem takeString_quote (s : String) (rest : List Char) :
    takeString (s.toList.flatMap escape ++ '"' :: rest) = some (some s, rest) := by
  obtain ⟨ps, htake, hjoin⟩ := exists_takePieces s.toList rest
  simp only [takeString, htake, hjoin, Option.map_some, String.ofList_toList]

/-! ### Numbers -/

/-- After a value the text ends or goes on with a mark of the value around it. -/
def Follows (rest : List Char) : Prop := ∀ c cs, rest = c :: cs → c = ',' ∨ c = ']' ∨ c = '\x7d'

theorem follows_nil : Follows [] := fun _ _ h => by cases h

theorem follows_cons {c : Char} (h : c = ',' ∨ c = ']' ∨ c = '\x7d') (cs : List Char) : Follows (c :: cs) :=
  fun _ _ heq => by cases heq; exact h

theorem spanDigits_of_follows {rest : List Char} (h : Follows rest) : spanDigits rest = ([], rest) := by
  cases rest with
  | nil => rfl
  | cons c cs => rcases h c cs rfl with rfl | rfl | rfl <;> rfl

theorem le_of_appendDigits? {m n : Nat} {cs : List Char} (h : Text.appendDigits? m cs = some n) : m ≤ n := by
  induction cs generalizing m with
  | nil => exact Nat.le_of_eq (Option.some.inj h)
  | cons c cs ih =>
    obtain ⟨d, -, h⟩ := Option.bind_eq_some_iff.mp h
    have := ih h
    omega

/-- Digits are gathered to the number that they write. -/
theorem exists_gather {m n : Nat} {cs rest : List Char} (h : Text.appendDigits? m cs = some n) (hn : n < Text.word)
    (hrest : Follows rest) : ∃ ds, spanDigits (cs ++ rest) = (ds, rest) ∧ gather m ds = (n, 0) ∧
      ds.length = cs.length ∧ ds.head? = cs.head?.bind Text.digit? := by
  induction cs generalizing m with
  | nil =>
    cases h
    exact ⟨[], spanDigits_of_follows hrest, rfl, rfl, rfl⟩
  | cons c cs ih =>
    obtain ⟨d, hd, h⟩ := Option.bind_eq_some_iff.mp h
    obtain ⟨ds, hspan, hgather, hlength, -⟩ := ih h
    refine ⟨d :: ds, ?_, ?_, by rw [List.length_cons, List.length_cons, hlength], hd.symm⟩
    · rw [List.cons_append, spanDigits, hd, hspan]
    · rw [gather, if_pos (Nat.lt_of_le_of_lt (le_of_appendDigits? h) hn), hgather]

theorem eq_zero_of_digit? {c : Char} (h : Text.digit? c = some 0) : c = '0' := by
  unfold Text.digit? at h
  split at h
  · rename_i hc
    have hle : '0'.toNat ≤ c.toNat := hc.1
    have hval : c.toNat - '0'.toNat = 0 := Option.some.inj h
    exact Char.toNat_inj.mp (Nat.le_antisymm (Nat.le_of_sub_eq_zero hval) hle)
  · cases h

/-- A number of several digits does not start with zero. -/
theorem head?_toDigits {n : Nat} (h : 0 < n) : (Nat.toDigits 10 n).head? ≠ some '0' := by
  induction n using Nat.strongRecOn with
  | ind n ih =>
    by_cases hlt : n < 10
    · rw [Nat.toDigits_of_lt_base hlt]
      have : ∀ i : Fin 10, 0 < i.val → [i.val.digitChar].head? ≠ some '0' := by decide
      exact this ⟨n, hlt⟩ h
    · rw [Nat.toDigits_of_base_le (by omega) (by omega), List.head?_append,
        Option.or_eq_left_of_isSome (by simp [Nat.toDigits_ne_nil])]
      exact ih (n / 10) (by omega) (by omega)

/-- A number of 64 bits is read as it is written. -/
theorem takeLiteral_toDigits {n : Nat} (h : n < Text.word) {rest : List Char} (hrest : Follows rest) :
    takeLiteral (Nat.toDigits 10 n ++ rest) = some (.number (.natural n), rest) := by
  obtain ⟨ds, hspan, hgather, hlength, hhead⟩ := exists_gather (Text.appendDigits?_toDigits n) h hrest
  have hnil : ds ≠ [] := by
    rintro rfl
    exact Nat.toDigits_ne_nil (List.length_eq_zero_iff.mp hlength.symm)
  have hwhole : (ds.isEmpty || (ds.head? == some 0 && ds.length > 1)) = false := by
    rw [List.isEmpty_eq_false_iff.mpr hnil, Bool.false_or, Bool.and_eq_false_iff]
    rcases Nat.eq_zero_or_pos n with rfl | hn
    · right
      rw [hlength]
      rfl
    · left
      rw [beq_eq_false_iff_ne, hhead]
      intro hzero
      obtain ⟨c, hc, hdigit⟩ := Option.bind_eq_some_iff.mp hzero
      rw [eq_zero_of_digit? hdigit] at hc
      exact head?_toDigits hn hc
  have hparts : (Parts.mk false ds none none).value = .number (.natural n) := by
    unfold Parts.value
    rw [hgather]
    rfl
  have hpoint : ∀ cs, rest ≠ '.' :: cs := fun cs heq => by
    rcases hrest _ _ heq with h | h | h <;> cases h
  have hmark : takeMark rest = some (none, rest) := by
    unfold takeMark
    split
    · rcases hrest _ _ rfl with h | h | h <;> cases h
    · rcases hrest _ _ rfl with h | h | h <;> cases h
    · rfl
  unfold takeLiteral
  generalize Nat.toDigits 10 n ++ rest = cs at hspan
  split
  rename_i negative cs' hstart
  obtain ⟨rfl, rfl⟩ : negative = false ∧ cs' = cs := by
    split at hstart
    · exact absurd (congrArg Prod.fst hspan).symm hnil
    · cases hstart
      exact ⟨rfl, rfl⟩
  rw [hspan]
  dsimp only
  rw [hwhole]
  simp only [Bool.false_eq_true, if_false]
  rw [hmark]
  exact congrArg (fun l => some (l, rest)) hparts

/-! ### Values -/

/-- Arrays and objects nest at most `depth` deep, and all numbers are natural numbers of 64 bits. -/
inductive Fits : Nat → Json → Prop where
  | null {depth : Nat} : Fits depth .null
  | bool {depth : Nat} (b : Bool) : Fits depth (.bool b)
  | string {depth : Nat} (s : String) : Fits depth (.string s)
  | natural {depth n : Nat} (h : n < Text.word) : Fits depth (.natural n)
  | array {depth : Nat} {items : List Json} (h : ∀ item ∈ items, Fits depth item) : Fits (depth + 1) (.array items)
  | object {depth : Nat} {members : List (String × Json)} (h : ∀ m ∈ members, Fits depth m.2) :
      Fits (depth + 1) (.object members)

theorem not_isSpace_of_isDigit {c : Char} (h : c.isDigit = true) : isSpace c = false := by
  unfold isSpace
  simp only [Bool.or_eq_false_iff, beq_eq_false_iff_ne]
  refine ⟨⟨⟨?_, ?_⟩, ?_⟩, ?_⟩ <;> rintro rfl <;> cases h

theorem exists_toDigits (n : Nat) : ∃ c cs, Nat.toDigits 10 n = c :: cs ∧ c.isDigit = true := by
  obtain ⟨c, cs, hcs⟩ := List.exists_cons_of_ne_nil (Nat.toDigits_ne_nil (n := n) (b := 10))
  have hmem : c ∈ Nat.toDigits 10 n := hcs ▸ List.mem_cons_self
  exact ⟨c, cs, hcs, Nat.isDigit_of_mem_toDigits (by omega) (by omega) hmem⟩

/-- The text of the value is read back, whatever follows it. -/
def Legible (value : Json) : Prop := ∀ fuel rest, 2 * value.chars.length ≤ fuel → Follows rest →
  readValue fuel (value.chars ++ rest) = (draft value, some rest)

/-- No value starts with a blank or with the end of an array. -/
theorem exists_chars {depth : Nat} {value : Json} (h : Fits depth value) :
    ∃ c cs, value.chars = c :: cs ∧ isSpace c = false ∧ c ≠ ']' := by
  cases h with
  | null => exact ⟨'n', _, rfl, rfl, by decide⟩
  | bool b => cases b <;> exact ⟨_, _, rfl, rfl, by decide⟩
  | string s => exact ⟨'"', _, rfl, rfl, by decide⟩
  | @natural _ n h =>
    obtain ⟨c, cs, hcs, hdigit⟩ := exists_toDigits n
    refine ⟨c, cs, hcs, not_isSpace_of_isDigit hdigit, ?_⟩
    rintro rfl
    cases hdigit
  | @array _ items _ => cases items <;> exact ⟨'[', _, rfl, rfl, by decide⟩
  | @object _ members _ => cases members <;> exact ⟨'\x7b', _, rfl, rfl, by decide⟩

theorem Fits.length_pos {depth : Nat} {value : Json} (h : Fits depth value) : 0 < value.chars.length := by
  obtain ⟨c, cs, hcs, -⟩ := exists_chars h
  rw [hcs]
  exact Nat.succ_pos _

theorem follows_itemChars (items : List Json) (rest : List Char) : Follows (itemChars items ++ rest) := by
  cases items with
  | nil => exact follows_cons (.inr (.inl rfl)) _
  | cons item items => exact follows_cons (.inl rfl) _

theorem follows_memberChars (members : List (String × Json)) (rest : List Char) :
    Follows (memberChars members ++ rest) := by
  cases members with
  | nil => exact follows_cons (.inr (.inr rfl)) _
  | cons m members => exact follows_cons (.inl rfl) _

theorem readValue_quote (fuel : Nat) (s : String) (rest : List Char) :
    readValue (fuel + 1) (quote s ++ rest) = (.string s, some rest) := by
  have hquote : quote s ++ rest = '"' :: (s.toList.flatMap escape ++ '"' :: rest) := by simp [quote]
  rw [hquote, readValue, skipSpace_cons rfl]
  simp only [takeString_quote]

section Step

variable {fuel : Nat} {cs rest : List Char} {item value : Draft}

theorem readItems_comma (h : readValue fuel cs = (item, some (',' :: rest))) :
    readItems (fuel + 1) cs = (item :: (readItems fuel rest).1, (readItems fuel rest).2) := by
  rw [readItems, h]
  rfl

theorem readItems_close (h : readValue fuel cs = (item, some (']' :: rest))) :
    readItems (fuel + 1) cs = ([item], some rest) := by
  rw [readItems, h]
  rfl

theorem readMembers_quote (fuel : Nat) (key : String) (cs : List Char) :
    readMembers (fuel + 1) (quote key ++ ':' :: cs) =
      match readValue fuel cs with
      | (value, none) => ([(some key, value)], none)
      | (value, some rest) =>
        match skipSpace rest with
        | ',' :: rest => ((some key, value) :: (readMembers fuel rest).1, (readMembers fuel rest).2)
        | '\x7d' :: rest => ([(some key, value)], some rest)
        | _ => ([(some key, value)], none) := by
  have hquote : quote key ++ ':' :: cs = '"' :: (key.toList.flatMap escape ++ '"' :: ':' :: cs) := by simp [quote]
  rw [hquote, readMembers, skipSpace_cons rfl]
  simp only [takeString_quote]
  rfl

theorem readMembers_comma (key : String) (h : readValue fuel cs = (value, some (',' :: rest))) :
    readMembers (fuel + 1) (quote key ++ ':' :: cs) =
      ((some key, value) :: (readMembers fuel rest).1, (readMembers fuel rest).2) := by
  rw [readMembers_quote, h]
  rfl

theorem readMembers_close (key : String) (h : readValue fuel cs = (value, some ('\x7d' :: rest))) :
    readMembers (fuel + 1) (quote key ++ ':' :: cs) = ([(some key, value)], some rest) := by
  rw [readMembers_quote, h]
  rfl

end Step

/-- Legible items are read up to the end of their array. -/
theorem readItems_chars {item : Json} {items : List Json} (h : ∀ v ∈ item :: items, Legible v) {fuel : Nat}
    {rest : List Char} (hfuel : 2 * (item.chars ++ itemChars items).length < fuel) :
    readItems fuel (item.chars ++ itemChars items ++ rest) = (drafts (item :: items), some rest) := by
  induction items generalizing item fuel with
  | nil =>
    cases fuel with
    | zero => exact absurd hfuel (Nat.not_lt_zero _)
    | succ fuel =>
      rw [List.length_append] at hfuel
      rw [List.append_assoc]
      exact readItems_close (h item List.mem_cons_self fuel _ (by omega) (follows_itemChars [] rest))
  | cons next items ih =>
    cases fuel with
    | zero => exact absurd hfuel (Nat.not_lt_zero _)
    | succ fuel =>
      have hchars : itemChars (next :: items) = ',' :: (next.chars ++ itemChars items) := by simp [itemChars]
      rw [List.length_append, hchars, List.length_cons] at hfuel
      have hitem := h item List.mem_cons_self fuel _ (by omega) (follows_itemChars (next :: items) rest)
      have hnext : readItems fuel (next.chars ++ itemChars items ++ rest) = _ :=
        ih (fun v hv => h v (List.mem_cons_of_mem item hv)) (by omega)
      rw [hchars, List.cons_append] at hitem
      rw [hchars, List.append_assoc, List.cons_append, readItems_comma hitem, hnext]
      rfl

/-- Legible members are read up to the end of their object. -/
theorem readMembers_chars {key : String} {value : Json} {members : List (String × Json)}
    (h : ∀ m ∈ (key, value) :: members, Legible m.2) {fuel : Nat} {rest : List Char}
    (hfuel : 2 * (quote key ++ ':' :: (value.chars ++ memberChars members)).length < fuel) :
    readMembers fuel (quote key ++ ':' :: (value.chars ++ memberChars members) ++ rest) =
      (memberDrafts ((key, value) :: members), some rest) := by
  induction members generalizing key value fuel with
  | nil =>
    cases fuel with
    | zero => exact absurd hfuel (Nat.not_lt_zero _)
    | succ fuel =>
      rw [List.length_append, List.length_cons, List.length_append] at hfuel
      rw [List.append_assoc, List.cons_append, List.append_assoc]
      exact readMembers_close key (h _ List.mem_cons_self fuel _ (by dsimp only; omega) (follows_memberChars [] rest))
  | cons m members ih =>
    obtain ⟨key', value'⟩ := m
    cases fuel with
    | zero => exact absurd hfuel (Nat.not_lt_zero _)
    | succ fuel =>
      have hchars : memberChars ((key', value') :: members) =
          ',' :: (quote key' ++ ':' :: (value'.chars ++ memberChars members)) := by simp [memberChars]
      rw [List.length_append, List.length_cons, List.length_append, hchars, List.length_cons] at hfuel
      have hvalue := h _ List.mem_cons_self fuel _ (by dsimp only; omega)
        (follows_memberChars ((key', value') :: members) rest)
      have hnext : readMembers fuel (quote key' ++ ':' :: (value'.chars ++ memberChars members) ++ rest) = _ :=
        ih (fun m hm => h m (List.mem_cons_of_mem _ hm)) (by omega)
      rw [hchars, List.cons_append] at hvalue
      rw [hchars, List.append_assoc, List.cons_append, List.append_assoc, List.cons_append,
        readMembers_comma key hvalue, hnext]
      rfl

theorem readValue_toDigits {n : Nat} (h : n < Text.word) (fuel : Nat) {rest : List Char} (hrest : Follows rest) :
    readValue (fuel + 1) (Nat.toDigits 10 n ++ rest) = (.number (.natural n), some rest) := by
  have hread := takeLiteral_toDigits h hrest
  obtain ⟨c, cs, hcs, hdigit⟩ := exists_toDigits n
  rw [hcs, List.cons_append] at hread ⊢
  rw [readValue, skipSpace_cons (not_isSpace_of_isDigit hdigit)]
  split
  -- A digit starts none of the other values.
  any_goals
    rename_i heq
    obtain ⟨rfl, -⟩ := List.cons.inj heq
    cases hdigit
  simp only [hread]

theorem readValue_items (fuel : Nat) {c : Char} (hspace : isSpace c = false) (hclose : c ≠ ']') (cs : List Char) :
    readValue (fuel + 1) ('[' :: c :: cs) =
      (.array (readItems fuel (c :: cs)).1 (readItems fuel (c :: cs)).2.isSome, (readItems fuel (c :: cs)).2) := by
  rw [readValue, skipSpace_cons rfl]
  simp only [skipSpace_cons hspace]
  split
  · rename_i heq
    exact absurd (List.cons.inj heq).1 hclose
  · rfl

theorem readValue_members (fuel : Nat) (key : String) (cs : List Char) :
    readValue (fuel + 1) ('\x7b' :: (quote key ++ cs)) =
      (.object (readMembers fuel (quote key ++ cs)).1 (readMembers fuel (quote key ++ cs)).2.isSome,
        (readMembers fuel (quote key ++ cs)).2) := rfl

theorem Fits.legible_of_succ {depth : Nat} {value : Json} (hfits : Fits depth value)
    (h : ∀ fuel rest, 2 * value.chars.length ≤ fuel + 1 → Follows rest →
      readValue (fuel + 1) (value.chars ++ rest) = (draft value, some rest)) : Legible value := by
  intro fuel rest hfuel hrest
  cases fuel with
  | zero =>
    have := hfits.length_pos
    omega
  | succ fuel => exact h fuel rest hfuel hrest

/-- A value that fits is legible. -/
theorem Fits.legible {depth : Nat} {value : Json} (h : Fits depth value) : Legible value := by
  induction h with
  | null => exact (.null : Fits 0 .null).legible_of_succ fun _ _ _ _ => rfl
  | bool b => exact (.bool b : Fits 0 _).legible_of_succ fun _ _ _ _ => by cases b <;> rfl
  | string s => exact (.string s : Fits 0 _).legible_of_succ fun fuel rest _ _ => readValue_quote fuel s rest
  | natural h =>
    exact (.natural h : Fits 0 _).legible_of_succ fun fuel rest _ hrest => readValue_toDigits h fuel hrest
  | @array _ items h ih =>
    refine (Fits.array h).legible_of_succ fun fuel rest hfuel hrest => ?_
    cases items with
    | nil => rfl
    | cons item items =>
      have hchars : chars (.array (item :: items)) = '[' :: (item.chars ++ itemChars items) := by simp [chars]
      have hitems : readItems fuel (item.chars ++ itemChars items ++ rest) = (drafts (item :: items), some rest) :=
        readItems_chars ih (by rw [hchars, List.length_cons] at hfuel; omega)
      obtain ⟨c, cs, hcs, hspace, hclose⟩ := exists_chars (h item List.mem_cons_self)
      rw [hcs, List.cons_append, List.cons_append] at hitems
      rw [hchars, hcs, List.cons_append, List.cons_append, List.cons_append, readValue_items fuel hspace hclose, hitems]
      rfl
  | @object _ members h ih =>
    refine (Fits.object h).legible_of_succ fun fuel rest hfuel hrest => ?_
    cases members with
    | nil => rfl
    | cons m members =>
      obtain ⟨key, value⟩ := m
      have hchars : chars (.object ((key, value) :: members)) =
          '\x7b' :: (quote key ++ ':' :: (value.chars ++ memberChars members)) := by simp [chars]
      have hmembers : readMembers fuel (quote key ++ ':' :: (value.chars ++ memberChars members) ++ rest) =
          (memberDrafts ((key, value) :: members), some rest) :=
        readMembers_chars ih (by rw [hchars, List.length_cons] at hfuel; omega)
      rw [List.append_assoc] at hmembers
      rw [hchars, List.cons_append, List.append_assoc, readValue_members, hmembers]
      rfl

/-- The whole text of a value that fits is read as its draft. -/
theorem Draft.read_render {depth : Nat} {value : Json} (h : Fits depth value) :
    Draft.read value.render = (draft value, true) := by
  have hread := h.legible (2 * value.chars.length + 2) [] (by omega) follows_nil
  unfold Draft.read render
  rw [String.toList_ofList]
  rw [List.append_nil] at hread
  dsimp only
  rw [hread]
  rfl

end CircuitDesigner.Json
