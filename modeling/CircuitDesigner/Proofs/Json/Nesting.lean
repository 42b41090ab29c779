import CircuitDesigner.Proofs.Json.Reading

/-! Depth of values.

    What it takes for a value to be read back falls into two parts: how deep its arrays and objects nest, and which
    numbers it holds (`Whole.fits_iff`). -/

namespace CircuitDesigner.Json

mutual

/-- How deep arrays and objects nest in a value. -/
def nesting : Json → Nat
  | .array items => itemNesting items + 1
  | .object members => memberNesting members + 1
  | _ => 0

/-- How deep they nest in the deepest item. -/
def itemNesting : List Json → Nat
  | [] => 0
  | item :: items => max item.nesting (itemNesting items)

/-- How deep they nest in the deepest member. -/
def memberNesting : List (String × Json) → Nat
  | [] => 0
  | (_, value) :: members => max value.nesting (memberNesting members)

end

/-- All numbers of the value are natural numbers of 64 bits. -/
inductive Whole : Json → Prop where
  | null : Whole .null
  | bool (b : Bool) : Whole (.bool b)
  | string (s : String) : Whole (.string s)
  | natural {n : Nat} (h : n < Text.word) : Whole (.natural n)
  | array {items : List Json} (h : ∀ item ∈ items, Whole item) : Whole (.array items)
  | object {members : List (String × Json)} (h : ∀ m ∈ members, Whole m.2) : Whole (.object members)

variable {depth : Nat} {value : Json}

theorem itemNesting_le_iff {items : List Json} : itemNesting items ≤ depth ↔ ∀ item ∈ items, item.nesting ≤ depth := by
  induction items with
  | nil => simp [itemNesting]
  | cons item items ih => rw [itemNesting, Nat.max_le, ih, List.forall_mem_cons]

theorem memberNesting_le_iff {members : List (String × Json)} :
    memberNesting members ≤ depth ↔ ∀ m ∈ members, m.2.nesting ≤ depth := by
  induction members with
  | nil => simp [memberNesting]
  | cons m members ih =>
    obtain ⟨key, value⟩ := m
    rw [memberNesting, Nat.max_le, ih, List.forall_mem_cons]

theorem Fits.nesting_le (h : Fits depth value) : value.nesting ≤ depth := by
  induction h with
  | null | bool | string | natural => exact Nat.zero_le _
  | array _ ih =>
    rw [nesting, Nat.succ_le_succ_iff, itemNesting_le_iff]
    exact ih
  | object _ ih =>
    rw [nesting, Nat.succ_le_succ_iff, memberNesting_le_iff]
    exact ih

theorem Fits.whole (h : Fits depth value) : value.Whole := by
  induction h with
  | null => exact .null
  | bool b => exact .bool b
  | string s => exact .string s
  | natural h => exact .natural h
  | array _ ih => exact .array ih
  | object _ ih => exact .object ih

theorem Whole.fits (h : value.Whole) (hdepth : value.nesting ≤ depth) : Fits depth value := by
  induction h generalizing depth with
  | null => exact .null
  | bool b => exact .bool b
  | string s => exact .string s
  | natural h => exact .natural h
  | array _ ih =>
    rw [nesting] at hdepth
    obtain ⟨depth, rfl⟩ := Nat.exists_eq_add_of_le' (Nat.one_le_of_lt hdepth)
    rw [Nat.add_le_add_iff_right, itemNesting_le_iff] at hdepth
    exact .array fun item hitem => ih item hitem (hdepth item hitem)
  | object _ ih =>
    rw [nesting] at hdepth
    obtain ⟨depth, rfl⟩ := Nat.exists_eq_add_of_le' (Nat.one_le_of_lt hdepth)
    rw [Nat.add_le_add_iff_right, memberNesting_le_iff] at hdepth
    exact .object fun m hm => ih m hm (hdepth m hm)

theorem Whole.fits_iff (h : value.Whole) : Fits depth value ↔ value.nesting ≤ depth := ⟨Fits.nesting_le, h.fits⟩

end CircuitDesigner.Json
