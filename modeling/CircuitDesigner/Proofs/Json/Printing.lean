import CircuitDesigner.Proofs.Json.Reading
import CircuitDesigner.Proofs.Text.Lines

/-! Printed values.

    The text of a value holds no control character, so that an object stands on one line. -/

namespace CircuitDesigner.Json

/-- It is no control character. -/
def Printable (c : Char) : Prop := 32 ≤ c.toNat

instance (c : Char) : Decidable (Printable c) := Nat.decLe _ _

theorem printable_of_all {cs : List Char} (h : cs.all (fun c => decide (Printable c)) = true) : ∀ x ∈ cs, Printable x :=
  fun x hx => of_decide_eq_true (List.all_eq_true.mp h x hx)

theorem printable_hexDigit (n : Nat) : Printable (hexDigit n) := by
  have : ∀ i : Fin 16, 32 ≤ (Nat.digitChar i.val).toNat := by decide
  exact this ⟨n % 16, Nat.mod_lt n (by omega)⟩

theorem printable_of_isDigit {c : Char} (h : c.isDigit = true) : Printable c := by
  have hle : 48 ≤ c.toNat := by
    simp only [Char.isDigit, Bool.and_eq_true, decide_eq_true_eq] at h
    exact h.1
  exact Nat.le_trans (by decide) hle

theorem printable_escape (c : Char) : ∀ x ∈ escape c, Printable x := by
  unfold escape
  iterate 7
    split
    · rw [List.forall_mem_cons, List.forall_mem_singleton]
      exact ⟨by decide, by decide⟩
  split
  · simp only [List.forall_mem_cons]
    exact ⟨by decide, by decide, by decide,
      by decide, printable_hexDigit _, printable_hexDigit _, nofun⟩
  · rename_i hcontrol
    rw [List.forall_mem_singleton]
    exact Nat.le_of_not_lt hcontrol

theorem printable_quote (s : String) : ∀ x ∈ quote s, Printable x := by
  have hmark : Printable '"' := by decide
  intro x hx
  rcases List.mem_append.mp hx with hx | hx
  · rcases List.mem_cons.mp hx with rfl | hx
    · exact hmark
    · obtain ⟨c, -, hx⟩ := List.mem_flatMap.mp hx
      exact printable_escape c x hx
  · rw [List.mem_singleton.mp hx]
    exact hmark

theorem printable_itemChars {items : List Json} (h : ∀ item ∈ items, ∀ x ∈ item.chars, Printable x) :
    ∀ x ∈ itemChars items, Printable x := by
  induction items with
  | nil =>
    rw [itemChars, List.forall_mem_singleton]
    decide
  | cons item items ih =>
    rw [List.forall_mem_cons] at h
    rw [itemChars, List.forall_mem_append, List.forall_mem_cons]
    exact ⟨⟨by decide, h.1⟩, ih h.2⟩

theorem printable_memberChars {members : List (String × Json)} (h : ∀ m ∈ members, ∀ x ∈ m.2.chars, Printable x) :
    ∀ x ∈ memberChars members, Printable x := by
  induction members with
  | nil =>
    rw [memberChars, List.forall_mem_singleton]
    decide
  | cons m members ih =>
    obtain ⟨key, value⟩ := m
    rw [List.forall_mem_cons] at h
    rw [memberChars, List.forall_mem_append, List.forall_mem_append, List.forall_mem_cons, List.forall_mem_cons]
    exact ⟨⟨⟨by decide, printable_quote key⟩, by decide, h.1⟩, ih h.2⟩

/-- No control character stands in the text of a value. -/
theorem Fits.printable {depth : Nat} {value : Json} (h : Fits depth value) : ∀ x ∈ value.chars, Printable x := by
  induction h with
  | null => exact printable_of_all rfl
  | bool b => cases b <;> exact printable_of_all rfl
  | string s => exact printable_quote s
  | natural h => exact fun x hx => printable_of_isDigit (Nat.isDigit_of_mem_toDigits (by omega) (by omega) hx)
  | @array _ items h ih =>
    cases items with
    | nil => exact printable_of_all rfl
    | cons item items =>
      rw [List.forall_mem_cons] at ih
      rw [chars, List.forall_mem_append, List.forall_mem_cons]
      exact ⟨⟨by decide, ih.1⟩, printable_itemChars ih.2⟩
  | @object _ members h ih =>
    cases members with
    | nil => exact printable_of_all rfl
    | cons m members =>
      obtain ⟨key, value⟩ := m
      rw [List.forall_mem_cons] at ih
      rw [chars, List.forall_mem_append, List.forall_mem_append, List.forall_mem_cons, List.forall_mem_cons]
      exact ⟨⟨⟨by decide, printable_quote key⟩, by decide, ih.1⟩,
        printable_memberChars ih.2⟩

theorem exists_memberChars (members : List (String × Json)) : ∃ cs, memberChars members = cs ++ ['\x7d'] := by
  induction members with
  | nil => exact ⟨[], rfl⟩
  | cons m members ih =>
    obtain ⟨key, value⟩ := m
    obtain ⟨cs, hcs⟩ := ih
    exact ⟨_, by rw [memberChars, hcs, ← List.append_assoc]⟩

theorem exists_chars_object (members : List (String × Json)) :
    ∃ cs, chars (.object members) = '\x7b' :: (cs ++ ['\x7d']) := by
  cases members with
  | nil => exact ⟨[], rfl⟩
  | cons m members =>
    obtain ⟨key, value⟩ := m
    obtain ⟨cs, hcs⟩ := exists_memberChars members
    exact ⟨quote key ++ ':' :: value.chars ++ cs, by simp [chars, hcs]⟩

/-- An object stands on one line, without blanks around it. -/
theorem Fits.unbroken {depth : Nat} {members : List (String × Json)} (h : Fits depth (.object members)) :
    Text.Unbroken (chars (.object members)) := by
  have hprintable := h.printable
  obtain ⟨cs, hcs⟩ := exists_chars_object members
  rw [hcs] at hprintable ⊢
  refine ⟨List.cons_ne_nil _ _, fun hfeed => absurd (hprintable _ hfeed) (by decide), ?_⟩
  have hend : ((cs ++ ['\x7d']).reverse ++ ['\x7b']).dropWhile Text.isBlank = (cs ++ ['\x7d']).reverse ++ ['\x7b'] := by
    rw [List.reverse_append]
    rfl
  unfold Text.trimChars
  rw [List.dropWhile_cons_of_neg (by decide), List.reverse_cons, hend, List.reverse_append, List.reverse_reverse]
  rfl

end CircuitDesigner.Json
