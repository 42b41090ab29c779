import CircuitDesigner.Text.Unsigned

/-! Digits.

    A number that is written in decimal digits is read back from them. -/

namespace CircuitDesigner.Text

theorem digit?_digitChar {d : Nat} (h : d < 10) : digit? (Nat.digitChar d) = some d := by
  have : ∀ d : Fin 10, digit? (Nat.digitChar d) = some d.val := by decide
  exact this ⟨d, h⟩

theorem appendDigits?_append (n : Nat) (cs ds : List Char) :
    appendDigits? n (cs ++ ds) = (appendDigits? n cs).bind fun m => appendDigits? m ds := by
  induction cs generalizing n with
  | nil => rfl
  | cons c cs ih =>
    rw [List.cons_append, appendDigits?, appendDigits?]
    cases digit? c with
    | none => rfl
    | some d => exact ih _

theorem appendDigits?_toDigits (n : Nat) : appendDigits? 0 (Nat.toDigits 10 n) = some n := by
  induction n using Nat.strongRecOn with
  | ind n ih =>
    by_cases h : n < 10
    · rw [Nat.toDigits_of_lt_base h, appendDigits?, digit?_digitChar h]
      simp [appendDigits?]
    · rw [Nat.toDigits_of_base_le (by omega) (by omega), appendDigits?_append, ih (n / 10) (by omega)]
      simp only [Option.bind_some, appendDigits?]
      rw [digit?_digitChar (Nat.mod_lt n (by omega))]
      simp only [Option.bind_some, Option.some.injEq]
      omega

/-- A number is read as it is written. -/
theorem unsignedChars?_toDigits {n bound : Nat} (h : n < bound) :
    unsignedChars? bound (Nat.toDigits 10 n) = some n := by
  have hne : Nat.toDigits 10 n ≠ [] := Nat.toDigits_ne_nil
  have hdigit : ∀ c ∈ Nat.toDigits 10 n, c.isDigit = true := fun c hc =>
    Nat.isDigit_of_mem_toDigits (by omega) (by omega) hc
  have hread := appendDigits?_toDigits n
  generalize Nat.toDigits 10 n = cs at hne hdigit hread
  cases cs with
  | nil => exact absurd rfl hne
  | cons c cs =>
    have hplus : c ≠ '+' := by
      rintro rfl
      have := hdigit '+' List.mem_cons_self
      simp [Char.isDigit] at this
    unfold unsignedChars?
    split
    · rename_i heq
      cases heq
      exact absurd rfl hplus
    · have hdigits : digits? (c :: cs) = some n := hread
      rw [hdigits]
      simp [h]

end CircuitDesigner.Text
