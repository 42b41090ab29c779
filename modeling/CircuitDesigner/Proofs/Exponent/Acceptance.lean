import CircuitDesigner.Proofs.Exponent.Grammar

/-! Which texts are exponents.

    A text is refused where it is cut, for a character that is in no token, or where its terms are collected, for a
    sign or a factor without a literal after it and a factor without a term before it. Nothing else is asked for, so
    that literals may stand side by side and pluses wherever they like. For texts without quotients, where no value is
    undefined, this comes to conditions on the characters other than blanks, parentheses and points (`Denotes`). They
    hold of all texts that are accepted but those that consist of pluses: the sum of no terms is accepted as well, since
    it is the tokens that must not be missing, and not the terms (`isSome_value?_iff`). -/

namespace CircuitDesigner.Exponent

/-! ### Conditions -/

/-- The characters that matter, in their order. -/
def bare (text : List Char) : List Char := text.filter fun c => !(isSeparator c || c == '.')

/-- A text in which every sign and factor has its literals, and there is a literal. -/
structure Denotes (text : List Char) : Prop where
  characters : ∀ c ∈ text, c.isDigit = true ∨ c = '+' ∨ c = '-' ∨ c = '*' ∨ c = '.' ∨ isSeparator c = true
  literal : ∃ c ∈ text, c.isDigit = true
  followed : ∀ before c after, bare text = before ++ c :: after → c = '-' ∨ c = '*' →
    ∃ d, after.head? = some d ∧ d.isDigit = true
  preceded : ∀ before after, bare text = before ++ '*' :: after → ∃ d ∈ before, d.isDigit = true

/-- A text of pluses, at least one, and of what means nothing. -/
structure OnlyPluses (text : List Char) : Prop where
  characters : ∀ c ∈ text, c = '+' ∨ c = '.' ∨ isSeparator c = true
  plus : '+' ∈ text

/-! ### Roles -/

/-- What counts about a token, and about a character of it. -/
inductive Role where
  | literal
  | plus
  | minus
  | factor
  deriving DecidableEq, Repr

def Token.role : Token → Role
  | .literal .. => .literal
  | .plus => .plus
  | .minus => .minus
  | .times | .over => .factor

/-- None for blanks, parentheses and points, and for what is in no token. -/
def role? (c : Char) : Option Role :=
  if c.isDigit then some .literal
  else if c = '+' then some .plus
  else if c = '-' then some .minus
  else if c = '*' ∨ c = '/' then some .factor
  else none

/-- The terms can be collected, after some literal if one has been `seen`. -/
def Fits : Bool → List Role → Prop
  | _, [] => True
  | _, .literal :: rs => Fits true rs
  | seen, .plus :: rs => Fits seen rs
  | seen, .minus :: rs => rs.head? = some .literal ∧ Fits seen rs
  | seen, .factor :: rs => seen = true ∧ rs.head? = some .literal ∧ Fits seen rs

theorem role?_eq_literal_iff {c : Char} : role? c = some .literal ↔ c.isDigit = true := by
  unfold role?
  split_ifs with hc <;> simp [hc]

theorem role?_of_meaningless {c : Char} (h : (isSeparator c || c == '.') = true) : role? c = none := by
  simp only [isSeparator, Bool.or_eq_true, beq_iff_eq, or_assoc] at h
  rcases h with rfl | rfl | rfl | rfl | rfl | rfl | rfl <;> decide

section Tokens

variable {cs : List Char} {ts : List Token}

theorem isSome_terms?_iff (ts : List Token) (terms : List Rat) :
    (terms? ts terms).isSome = true ↔ Fits (!terms.isEmpty) (ts.map Token.role) := by
  fun_induction terms? ts terms with
  | case1 => simp [Fits]
  | case2 tokens terms ih => simpa [Fits, Token.role] using ih
  | case3 digits places tokens terms ih => simpa [Fits, Token.role] using ih
  | case4 digits places tokens terms ih => simpa [Fits, Token.role] using ih
  | case5 digits places tokens term terms ih => simpa [Fits, Token.role] using ih
  | case6 digits places tokens term terms ih => simpa [Fits, Token.role] using ih
  | case7 ts terms hnil hplus hliteral hminus htimes hover =>
    refine iff_of_false (by simp) fun hfits => ?_
    -- A literal after the operator, and a term before a factor, would have been read.
    cases ts with
    | nil => exact hnil rfl
    | cons t ts =>
      have hnext : ∀ ts : List Token, (ts.map Token.role).head? = some .literal →
          ∃ digits places rest, ts = .literal digits places :: rest := fun ts hts => by
        cases ts with
        | nil => cases hts
        | cons t ts => cases t <;> first | exact ⟨_, _, _, rfl⟩ | cases hts
      cases t with
      | literal digits places => exact hliteral _ _ _ rfl
      | plus => exact hplus _ rfl
      | minus =>
        obtain ⟨digits, places, rest, rfl⟩ := hnext ts hfits.1
        exact hminus _ _ _ rfl
      | times =>
        obtain ⟨hseen, hhead, -⟩ := hfits
        obtain ⟨digits, places, rest, rfl⟩ := hnext ts hhead
        cases terms with
        | nil => cases hseen
        | cons term terms => exact htimes _ _ _ _ _ rfl rfl
      | _ =>
        obtain ⟨hseen, hhead, -⟩ := hfits
        obtain ⟨digits, places, rest, rfl⟩ := hnext ts hhead
        cases terms with
        | nil => cases hseen
        | cons term terms => exact hover _ _ _ _ _ rfl rfl

theorem isSome_digit?_iff {c : Char} : (Text.digit? c).isSome = true ↔ c.isDigit = true := by
  unfold Text.digit? Char.isDigit
  split
  · simp_all [Char.le_def]
  · simp_all [Char.le_def]

theorem exists_takeDigits (n count : Nat) (cs : List Char) :
    ∃ used, cs = used ++ (takeDigits n count cs).2.2 ∧ ∀ c ∈ used, c.isDigit = true := by
  induction cs generalizing n count with
  | nil => exact ⟨[], rfl, by simp⟩
  | cons c cs ih =>
    rw [takeDigits]
    split
    · rename_i d hd
      obtain ⟨used, hused, hdigits⟩ := ih (10 * n + d) (count + 1)
      refine ⟨c :: used, by rw [List.cons_append, ← hused], fun b hb => ?_⟩
      rcases List.mem_cons.mp hb with rfl | hb
      · exact isSome_digit?_iff.mp (by rw [hd]; rfl)
      · exact hdigits b hb
    · exact ⟨[], rfl, by simp⟩

theorem exists_takeLiteral (d : Nat) (cs : List Char) :
    ∃ used, cs = used ++ (takeLiteral d cs).2 ∧ ∀ c ∈ used, c.isDigit = true ∨ c = '.' := by
  obtain ⟨whole, hwhole, hdigits⟩ := exists_takeDigits d 0 cs
  have hleft : ∀ c ∈ whole, c.isDigit = true ∨ c = '.' := fun c hc => .inl (hdigits c hc)
  simp only [takeLiteral]
  split
  · rename_i c fraction hrest
    split
    · rename_i e he
      obtain ⟨used, hused, hdigits'⟩ := exists_takeDigits (10 * (takeDigits d 0 cs).1 + e) 1 fraction
      refine ⟨whole ++ '.' :: c :: used, ?_, fun b hb => ?_⟩
      · rw [List.append_assoc, List.cons_append, List.cons_append, ← hused, ← hrest]
        exact hwhole
      · simp only [List.mem_append, List.mem_cons] at hb
        rcases hb with hb | rfl | rfl | hb
        · exact hleft b hb
        · exact .inr rfl
        · exact .inl (isSome_digit?_iff.mp (by rw [he]; rfl))
        · exact .inl (hdigits' b hb)
    · exact ⟨whole, hwhole, hleft⟩
  · exact ⟨whole, hwhole, hleft⟩

theorem role_takeLiteral (d : Nat) (cs : List Char) : (takeLiteral d cs).1.role = .literal := by
  simp only [takeLiteral]
  split
  · split <;> rfl
  · rfl

/-- A character that is in a token or means nothing. -/
def IsWritten (c : Char) : Prop := (role? c).isSome = true ∨ c = '.' ∨ isSeparator c = true

/-- What is cut off as a literal has one digit and more of them, which change nothing. -/
theorem fits_literal {seen : Bool} {used : List Char} {rs : List Role} (h : ∀ c ∈ used, c.isDigit = true ∨ c = '.') :
    Fits seen (.literal :: used.filterMap role? ++ rs) ↔ Fits seen (.literal :: rs) := by
  induction used with
  | nil => rfl
  | cons c used ih =>
    have htail := ih fun b hb => h b (List.mem_cons_of_mem _ hb)
    rcases h c List.mem_cons_self with hc | rfl
    · have hrole : role? c = some .literal := if_pos hc
      rw [List.filterMap_cons, hrole]
      exact htail
    · exact htail

theorem fits_cons_congr {r : Role} {rs rs' : List Role} (hhead : rs.head? = rs'.head?)
    (h : ∀ seen, Fits seen rs ↔ Fits seen rs') (seen : Bool) : Fits seen (r :: rs) ↔ Fits seen (r :: rs') := by
  cases r <;> simp only [Fits, h, hhead]

/-- Tokens and characters that fit alike. -/
structure FitAlike (ts : List Token) (cs : List Char) : Prop where
  head : (ts.map Token.role).head? = (cs.filterMap role?).head?
  fits : ∀ seen, Fits seen (ts.map Token.role) ↔ Fits seen (cs.filterMap role?)

theorem FitAlike.cons {t : Token} {c : Char} (h : FitAlike ts cs) (hc : role? c = some t.role) :
    FitAlike (t :: ts) (c :: cs) := by
  have hroles : (c :: cs).filterMap role? = t.role :: cs.filterMap role? := by rw [List.filterMap_cons, hc]
  refine ⟨by rw [hroles]; rfl, fun seen => ?_⟩
  rw [hroles]
  exact fits_cons_congr h.head h.fits seen

/-- What is cut off a text fits like the text. -/
theorem FitAlike.of_tokens? (h : tokens? cs = some ts) : FitAlike ts cs := by
  fun_induction tokens? cs generalizing ts with
  | case1 =>
    cases h
    exact ⟨rfl, fun _ => Iff.rfl⟩
  | case2 c cs hc ih =>
    have hroles : (c :: cs).filterMap role? = cs.filterMap role? := by
      rw [List.filterMap_cons, role?_of_meaningless hc]
    obtain ⟨hhead, hfits⟩ := ih h
    exact ⟨hroles ▸ hhead, hroles ▸ hfits⟩
  | case3 c cs _ hc ih | case4 c cs _ _ hc ih | case5 c cs _ _ _ hc ih | case6 c cs _ _ _ _ hc ih =>
    obtain ⟨ts, hts, rfl⟩ := Option.map_eq_some_iff.mp h
    cases beq_iff_eq.mp hc
    exact (ih hts).cons (by decide)
  | case7 => cases h
  | case8 c cs _ _ _ _ _ d hd taken =>
    rename_i ih
    obtain ⟨ts, hts, rfl⟩ := Option.map_eq_some_iff.mp h
    obtain ⟨hhead, hfits⟩ := ih hts
    obtain ⟨used, hused, hliteral⟩ := exists_takeLiteral d cs
    have hrole : taken.1.role = .literal := role_takeLiteral d cs
    have hc : role? c = some .literal := if_pos (isSome_digit?_iff.mp (by rw [hd]; rfl))
    have hroles : (c :: cs).filterMap role? = .literal :: used.filterMap role? ++ taken.2.filterMap role? := by
      rw [List.filterMap_cons, hc]
      conv_lhs => rw [hused, List.filterMap_append]
      rfl
    refine ⟨by rw [hroles, List.map_cons, hrole]; rfl, fun seen => ?_⟩
    rw [hroles, fits_literal hliteral, List.map_cons, hrole]
    exact fits_cons_congr hhead hfits seen

/-- A text is cut if nothing is in it but what is in tokens or means nothing. -/
theorem isSome_tokens?_iff (cs : List Char) : (tokens? cs).isSome = true ↔ ∀ c ∈ cs, IsWritten c := by
  fun_induction tokens? cs with
  | case1 => simp
  | case2 c cs hc ih =>
    have hwritten : IsWritten c := by
      simp only [Bool.or_eq_true, beq_iff_eq] at hc
      exact .inr hc.symm
    rw [ih, List.forall_mem_cons]
    exact (and_iff_right hwritten).symm
  | case3 c cs _ hc ih | case4 c cs _ _ hc ih | case5 c cs _ _ _ hc ih | case6 c cs _ _ _ _ hc ih =>
    cases beq_iff_eq.mp hc
    rw [Option.isSome_map, ih, List.forall_mem_cons]
    exact (and_iff_right (.inl (by decide))).symm
  | case7 c cs hseparator hplus hminus htimes hover hc =>
    refine iff_of_false (by simp) fun hall => ?_
    have hdigit : c.isDigit = false := Bool.eq_false_iff.mpr fun h => by
      have := isSome_digit?_iff.mpr h
      rw [hc] at this
      cases this
    rcases hall c List.mem_cons_self with hrole | hc
    · simp_all [role?]
    · exact hseparator (by simpa [or_comm] using hc)
  | case8 c cs _ _ _ _ _ d hd taken ih =>
    obtain ⟨used, hused, hliteral⟩ := exists_takeLiteral d cs
    have hdigit : ∀ {c : Char}, c.isDigit = true → IsWritten c := fun hc => .inl (by simp [role?, hc])
    have hc : IsWritten c := hdigit (isSome_digit?_iff.mp (by rw [hd]; rfl))
    have hleft : ∀ c ∈ used, IsWritten c := fun c hc => (hliteral c hc).elim hdigit fun h => .inr (.inl h)
    rw [Option.isSome_map, ih, List.forall_mem_cons]
    conv_rhs => rw [hused, List.forall_mem_append]
    exact ((and_iff_right hc).trans (and_iff_right hleft)).symm

end Tokens

/-! ### Characters -/

theorem forall_split_cons {α : Type} {P : List α → α → List α → Prop} {a : α} {l : List α} :
    (∀ before b after, a :: l = before ++ b :: after → P before b after) ↔
      P [] a l ∧ ∀ before b after, l = before ++ b :: after → P (a :: before) b after := by
  constructor
  · exact fun h => ⟨h [] a l rfl, fun before b after hl => h (a :: before) b after (by rw [hl]; rfl)⟩
  · rintro ⟨hhead, htail⟩ before b after hl
    cases before with
    | nil =>
      obtain ⟨rfl, rfl⟩ := List.cons.inj hl
      exact hhead
    | cons c before =>
      obtain ⟨rfl, rfl⟩ := List.cons.inj hl
      exact htail before b after rfl

/-- The characters of sums and products. -/
def IsMark (c : Char) : Prop := c.isDigit = true ∨ c = '+' ∨ c = '-' ∨ c = '*'

theorem IsMark.isSome_role? {c : Char} (h : IsMark c) : (role? c).isSome = true := by
  rcases h with h | rfl | rfl | rfl
  · simp [role?, h]
  all_goals decide

theorem IsMark.of_role? {c : Char} (h : (role? c).isSome = true) (hne : c ≠ '/') : IsMark c := by
  unfold role? at h
  split_ifs at h with hdigit hplus hminus hfactor
  · exact .inl hdigit
  · exact .inr (.inl hplus)
  · exact .inr (.inr (.inl hminus))
  · exact .inr (.inr (.inr (hfactor.resolve_right hne)))
  · cases h

theorem fits_marks_iff {cs : List Char} (h : ∀ c ∈ cs, IsMark c) (seen : Bool) :
    Fits seen (cs.filterMap role?) ↔
      (∀ before c after, cs = before ++ c :: after → c = '-' ∨ c = '*' →
        ∃ d, after.head? = some d ∧ d.isDigit = true) ∧
      ∀ before c after, cs = before ++ c :: after → c = '*' → seen = true ∨ ∃ d ∈ before, d.isDigit = true := by
  induction cs generalizing seen with
  | nil => simp [Fits]
  | cons c cs ih =>
    have htail : ∀ b ∈ cs, IsMark b := fun b hb => h b (List.mem_cons_of_mem _ hb)
    have hhead : (cs.filterMap role?).head? = some .literal ↔ ∃ d, cs.head? = some d ∧ d.isDigit = true := by
      cases cs with
      | nil => simp
      | cons b cs =>
        obtain ⟨r, hr⟩ := Option.isSome_iff_exists.mp (htail b List.mem_cons_self).isSome_role?
        rw [List.filterMap_cons, hr]
        simp [← role?_eq_literal_iff, hr]
    rw [forall_split_cons, forall_split_cons, List.filterMap_cons]
    rcases h c List.mem_cons_self with hc | rfl | rfl | rfl
    · -- A digit has no conditions, and no later factor lacks one.
      have hne : c ≠ '-' ∧ c ≠ '*' := by
        constructor <;> rintro rfl <;> cases hc
      rw [role?_eq_literal_iff.mpr hc]
      show Fits true _ ↔ _
      rw [ih htail true]
      simp [hne, hc]
    · rw [show role? '+' = some .plus by decide]
      show Fits seen (cs.filterMap role?) ↔ _
      rw [ih htail seen]
      simp
    · rw [show role? '-' = some .minus by decide]
      show _ ∧ Fits seen _ ↔ _
      rw [ih htail seen, hhead]
      simp [and_assoc]
    · rw [show role? '*' = some .factor by decide]
      show _ ∧ _ ∧ Fits seen _ ↔ _
      rw [ih htail seen, hhead]
      simp
      grind

/-- The characters that matter have the roles of the text. -/
theorem filterMap_role?_bare (cs : List Char) : (bare cs).filterMap role? = cs.filterMap role? := by
  rw [bare, List.filterMap_filter]
  refine List.filterMap_congr fun c _ => ?_
  by_cases hc : (isSeparator c || c == '.') = true
  · have hrole : role? c = none := role?_of_meaningless hc
    simp [hc, hrole]
  · simp [hc]

theorem mem_bare_iff {c : Char} {cs : List Char} :
    c ∈ bare cs ↔ c ∈ cs ∧ ¬ (c = '.' ∨ isSeparator c = true) := by
  simp [bare, List.mem_filter, and_comm]

/-- What matters in a text that is cut are marks and slashes. -/
theorem isMark_of_mem_bare {cs : List Char} (hwritten : ∀ c ∈ cs, IsWritten c) (hover : '/' ∉ cs) :
    ∀ c ∈ bare cs, IsMark c := fun c hc => by
  obtain ⟨hc, hmeaning⟩ := mem_bare_iff.mp hc
  exact .of_role? ((hwritten c hc).resolve_right hmeaning) fun heq => hover (heq ▸ hc)

/-! ### Acceptance -/

/-- The text is cut, something is cut off, and it fits. -/
structure Accepted (cs : List Char) : Prop where
  written : ∀ c ∈ cs, IsWritten c
  token : ∃ c ∈ cs, (role? c).isSome = true
  fits : Fits false (cs.filterMap role?)

theorem isSome_value?_iff_accepted (text : String) :
    (value? text : Option Rat).isSome = true ↔ Accepted text.toList := by
  have haccepted : Accepted text.toList ↔ (∀ c ∈ text.toList, IsWritten c) ∧
      (∃ c ∈ text.toList, (role? c).isSome = true) ∧ Fits false (text.toList.filterMap role?) :=
    ⟨fun h => ⟨h.written, h.token, h.fits⟩, fun h => ⟨h.1, h.2.1, h.2.2⟩⟩
  rw [haccepted, ← isSome_tokens?_iff]
  unfold value?
  cases hts : tokens? text.toList with
  | none => simp
  | some ts =>
    obtain ⟨hhead, hfits⟩ := FitAlike.of_tokens? hts
    have hempty : ts = [] ↔ ¬ ∃ c ∈ text.toList, (role? c).isSome = true := by
      rw [← List.map_eq_nil_iff (f := Token.role), ← List.head?_eq_none_iff, hhead, List.head?_eq_none_iff,
        List.filterMap_eq_nil_iff]
      simp
    have hterms : (terms? ts ([] : List Rat)).isSome = true ↔ Fits false (text.toList.filterMap role?) :=
      (isSome_terms?_iff ts []).trans (hfits false)
    by_cases hne : ts = []
    · simp [hne, hempty.mp hne]
    · rw [← hterms, and_iff_right (by rfl : (some ts).isSome = true), and_iff_right (not_not.mp (mt hempty.mpr hne))]
      simp [hne, Quantity.isNumber, Option.isSome_bind]

section Accepted

variable {cs : List Char}

theorem Denotes.accepted (h : Denotes cs) : Accepted cs := by
  have hmarks : ∀ c ∈ cs, IsMark c ∨ c = '.' ∨ isSeparator c = true := fun c hc => by
    simpa only [IsMark, or_assoc] using h.characters c hc
  obtain ⟨d, hd, hdigit⟩ := h.literal
  refine ⟨fun c hc => (hmarks c hc).imp_left IsMark.isSome_role?, ⟨d, hd, IsMark.isSome_role? (.inl hdigit)⟩, ?_⟩
  rw [← filterMap_role?_bare, fits_marks_iff fun c hc =>
    (hmarks c (mem_bare_iff.mp hc).1).resolve_right (mem_bare_iff.mp hc).2]
  refine ⟨h.followed, fun before c after hsplit hc => .inr ?_⟩
  subst hc
  exact h.preceded before after hsplit

theorem OnlyPluses.accepted (h : OnlyPluses cs) : Accepted cs := by
  have hplus : ∀ c ∈ bare cs, c = '+' := fun c hc =>
    (h.characters c (mem_bare_iff.mp hc).1).resolve_right (mem_bare_iff.mp hc).2
  have hother : ∀ {before c after}, bare cs = before ++ c :: after → c = '+' := fun hsplit =>
    hplus _ (hsplit ▸ List.mem_append_right _ List.mem_cons_self)
  refine ⟨fun c hc => (h.characters c hc).imp_left fun heq => IsMark.isSome_role? (.inr (.inl heq)),
    ⟨'+', h.plus, by decide⟩, ?_⟩
  rw [← filterMap_role?_bare, fits_marks_iff fun c hc => .inr (.inl (hplus c hc))]
  constructor
  · rintro before c after hsplit (rfl | rfl) <;> exact absurd (hother hsplit) (by decide)
  · rintro before c after hsplit rfl
    exact absurd (hother hsplit) (by decide)

/-- Without a literal there can be no signs and no factors. -/
theorem Accepted.onlyPluses (h : Accepted cs) (hover : '/' ∉ cs) (hliteral : ¬ ∃ c ∈ cs, c.isDigit = true) :
    OnlyPluses cs := by
  have hmarks := isMark_of_mem_bare h.written hover
  obtain ⟨hfollowed, -⟩ := (fits_marks_iff hmarks false).mp (filterMap_role?_bare cs ▸ h.fits)
  have hplus : ∀ c ∈ bare cs, c = '+' := fun c hc => by
    by_contra hne
    have hoperator : c = '-' ∨ c = '*' := by
      rcases hmarks c hc with hdigit | heq | heq
      · exact absurd ⟨c, (mem_bare_iff.mp hc).1, hdigit⟩ hliteral
      · exact absurd heq hne
      · exact heq
    obtain ⟨before, after, hsplit⟩ := List.append_of_mem hc
    obtain ⟨d, hd, hdigit⟩ := hfollowed before c after hsplit hoperator
    have hmem : d ∈ bare cs := hsplit ▸
      List.mem_append_right before (List.mem_cons_of_mem c (List.mem_of_mem_head? hd))
    exact hliteral ⟨d, (mem_bare_iff.mp hmem).1, hdigit⟩
  have hmatters : ∀ {c}, c ∈ cs → (role? c).isSome = true → c ∈ bare cs := fun hc hsome =>
    mem_bare_iff.mpr ⟨hc, fun hmeaning => by
      rw [role?_of_meaningless (by simpa [or_comm] using hmeaning)] at hsome
      cases hsome⟩
  obtain ⟨c, hc, hsome⟩ := h.token
  exact ⟨fun c hc => (h.written c hc).imp_left fun hsome => hplus c (hmatters hc hsome),
    hplus c (hmatters hc hsome) ▸ hc⟩

theorem Accepted.denotes (h : Accepted cs) (hover : '/' ∉ cs) (hliteral : ∃ c ∈ cs, c.isDigit = true) :
    Denotes cs := by
  obtain ⟨hfollowed, hpreceded⟩ := (fits_marks_iff (isMark_of_mem_bare h.written hover) false).mp
    (filterMap_role?_bare cs ▸ h.fits)
  refine ⟨fun c hc => ?_, hliteral, hfollowed, fun before after hsplit => ?_⟩
  · rcases h.written c hc with hsome | hmeaning
    · have hmark : IsMark c := .of_role? hsome fun heq => hover (heq ▸ hc)
      rcases hmark with hc | hc | hc | hc <;> simp [hc]
    · rcases hmeaning with hc | hc <;> simp [hc]
  · exact (hpreceded before '*' after hsplit rfl).resolve_left Bool.false_ne_true

end Accepted

/-- A text without quotients is accepted if it denotes a number. If it consists of pluses it is accepted as well, though
    there is no number in it. -/
theorem isSome_value?_iff {text : String} (h : '/' ∉ text.toList) :
    (value? text : Option Rat).isSome = true ↔ Denotes text.toList ∨ OnlyPluses text.toList := by
  rw [isSome_value?_iff_accepted]
  constructor
  · intro haccepted
    by_cases hliteral : ∃ c ∈ text.toList, c.isDigit = true
    · exact .inl (haccepted.denotes h hliteral)
    · exact .inr (haccepted.onlyPluses h hliteral)
  · rintro (hdenotes | hpluses)
    · exact hdenotes.accepted
    · exact hpluses.accepted

/-- A sign at the end has no literal after it. -/
theorem isSome_value?_iff_dangling :
    '/' ∉ "3 -.".toList ∧ ¬ (value? "3 -." : Option Rat).isSome = true := by
  have hover : '/' ∉ "3 -.".toList := by decide
  refine ⟨hover, fun haccepted => ?_⟩
  rcases (isSome_value?_iff hover).mp haccepted with hdenotes | hpluses
  · obtain ⟨d, hd, -⟩ := hdenotes.followed ['3'] '-' [] (by decide) (.inl rfl)
    cases hd
  · exact absurd hpluses.plus (by decide)

/-- A plus is taken for a number. -/
theorem plus_accepted : '/' ∉ "+".toList ∧ (value? "+" : Option Rat) = some 0 ∧ ¬ Denotes "+".toList := by
  refine ⟨by decide, ?_, fun h => ?_⟩
  · simp [value?, tokens?, terms?, isSeparator, Quantity.start, Quantity.isNumber]
  · obtain ⟨c, hc, hdigit⟩ := h.literal
    cases List.mem_singleton.mp hc
    cases hdigit

end CircuitDesigner.Exponent
