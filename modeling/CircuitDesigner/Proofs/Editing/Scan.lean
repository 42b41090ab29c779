import CircuitDesigner.Proofs.Editing.Drag

/-! Where wires become classical.

    A wire is classical behind its first measurement, passing over an ignored one, and a preview puts a measurement at
    a further position beside those. That position is a half step: a column, or half way between two. So a preview is
    what a scan in half steps finds that stops there in any case (`scan_eq_preview`). -/

namespace CircuitDesigner

/-! ### Measurements of a wire -/

section Wires

variable {K : Type} {ignored : Option GateId}

theorem exists_of_firstMeasurement {cells : List Gate} {k : Nat} (h : Wire.firstMeasurement cells ignored = some k) :
    ∃ g, cells[k]? = some g ∧ g.kind.isMeasurement = true ∧ g.isGate ignored = false := by
  obtain ⟨hk, hmeasures, -⟩ := List.findIdx?_eq_some_iff_getElem.mp h
  simp only [Bool.and_eq_true, Bool.not_eq_true'] at hmeasures
  exact ⟨_, List.getElem?_eq_getElem hk, hmeasures⟩

theorem exists_firstMeasurement_le {cells : List Gate} {k : Nat} {g : Gate} (hg : cells[k]? = some g)
    (hmeasurement : g.kind.isMeasurement = true) (hgate : g.isGate ignored = false) :
    ∃ j ≤ k, Wire.firstMeasurement cells ignored = some j := by
  obtain ⟨hk, rfl⟩ := List.getElem?_eq_some_iff.mp hg
  cases hfirst : Wire.firstMeasurement cells ignored with
  | none =>
    have hnone := List.findIdx?_eq_none_iff.mp hfirst _ (List.getElem_mem hk)
    rw [hmeasurement, hgate] at hnone
    cases hnone
  | some j =>
    refine ⟨j, ?_, rfl⟩
    obtain ⟨_, -, hbefore⟩ := List.findIdx?_eq_some_iff_getElem.mp hfirst
    by_contra hkj
    have := hbefore k (by omega)
    rw [hmeasurement, hgate] at this
    exact this rfl

/-- One of the first `column` cells holds a measurement, passing over an ignored gate. -/
def Wire.Measured (w : Wire K) (ignored : Option GateId) (column : Nat) : Prop :=
  ∃ k < column, ∃ g, w.cells[k]? = some g ∧ g.kind.isMeasurement = true ∧ g.isGate ignored = false

theorem Wire.bitAt_rescan (w : Wire Rat) (column : Nat) :
    (w.rescan ignored).bitAt column = true ↔ w.Measured ignored column := by
  have hbit : (w.rescan ignored).bitAt column = true ↔
      ∃ k, Wire.firstMeasurement w.cells ignored = some k ∧ k < column := by
    unfold Wire.bitAt Wire.bit Wire.rescan
    cases Wire.firstMeasurement w.cells ignored with
    | none => simp
    | some k => simp [Coordinate.lt, Coordinate.ofNat]
  rw [hbit]
  constructor
  · rintro ⟨k, hfirst, hlt⟩
    exact ⟨k, hlt, exists_of_firstMeasurement hfirst⟩
  · rintro ⟨k, hlt, g, hg, hmeasurement, hgate⟩
    obtain ⟨j, hle, hfirst⟩ := exists_firstMeasurement_le hg hmeasurement hgate
    exact ⟨j, hfirst, Nat.lt_of_le_of_lt hle hlt⟩

theorem Wire.bitAt_preview (w : Wire Rat) (position : Rat) (column : Nat) :
    (w.preview ignored position).bitAt column = true ↔ w.Measured ignored column ∨ position < column := by
  rw [← Wire.bitAt_rescan]
  unfold Wire.preview Wire.rescan Wire.bitAt Wire.bit Wire.collapse
  cases Wire.firstMeasurement w.cells ignored with
  | none => simp [Coordinate.lt, Coordinate.ofNat]
  | some k =>
    simp only [Option.map_some, Option.any_some, Coordinate.lt, Coordinate.ofNat, decide_eq_true_eq]
    split
    · rename_i hlt
      exact ⟨.inl, fun h => h.elim (fun h => h) hlt.trans⟩
    · rename_i hge
      exact ⟨.inr, fun h => h.elim (lt_of_le_of_lt (not_lt.mp hge)) fun h => h⟩

end Wires

/-! ### Scans in half steps -/

section Scan

variable {ignored : Option GateId} {w : Wire Rat}

/-- The half steps of a scan: one before the first column, then each column and the one half way to the next. -/
def halfStep (i : Nat) : Rat := i / 2 - 1 / 2

theorem halfStep_odd (k : Nat) : halfStep (2 * k + 1) = k := by
  unfold halfStep
  push_cast
  ring

theorem halfStep_even (k : Nat) : halfStep (2 * k) = k - Coordinate.half := by
  show ((2 * k : Nat) : Rat) / 2 - 1 / 2 = k - 1 / 2
  push_cast
  ring

theorem halfStep_lt {i j : Nat} : halfStep i < halfStep j ↔ i < j := by
  unfold halfStep
  rw [sub_lt_sub_iff_right, div_lt_div_iff_of_pos_right two_pos, Nat.cast_lt]

theorem lt_halfStep {k i : Nat} : (k : Rat) < halfStep i ↔ 2 * k + 1 < i := by
  rw [← halfStep_odd, halfStep_lt]

theorem halfStep_succ (i : Nat) : halfStep i + Coordinate.half = halfStep (i + 1) := by
  show (i : Rat) / 2 - 1 / 2 + 1 / 2 = ((i + 1 : Nat) : Rat) / 2 - 1 / 2
  push_cast
  ring

theorem same_halfStep {i j : Nat} : Coordinate.same (halfStep i) (halfStep j) = true ↔ i = j := by
  unfold Coordinate.same
  rw [Bool.and_eq_true]
  constructor
  · rintro ⟨hle, hge⟩
    have hij : ¬halfStep j < halfStep i := not_lt.mpr (of_decide_eq_true hle)
    have hji : ¬halfStep i < halfStep j := not_lt.mpr (of_decide_eq_true hge)
    rw [halfStep_lt] at hij hji
    omega
  · rintro rfl
    exact ⟨decide_eq_true (le_refl _), decide_eq_true (le_refl _)⟩

/-- A scan in half steps finds measurements at its columns. -/
theorem Wire.measuresAt_halfStep {i : Nat} : w.measuresAt ignored (halfStep i) = true ↔
    ∃ k g, i = 2 * k + 1 ∧ w.cells[k]? = some g ∧ g.kind.isMeasurement = true ∧ g.isGate ignored = false := by
  unfold Wire.measuresAt
  rcases Nat.even_or_odd' i with ⟨k, rfl | rfl⟩
  · rw [halfStep_even, isWhole_sub_half]
    simp only [Bool.and_false, Bool.false_and, Bool.false_eq_true, false_iff, not_exists]
    intro j g h
    omega
  · have hle : Coordinate.le (Coordinate.ofNat 0) (k : Rat) = true := decide_eq_true (Nat.cast_nonneg k)
    have hcolumn : Coordinate.toNat (k : Rat) = k := by
      show ((k : Nat) : Rat).floor.toNat = k
      rw [show ((k : Nat) : Rat).floor = k from Rat.floor_intCast k]
      rfl
    rw [halfStep_odd, hle, Coordinate.isWhole_natCast, hcolumn, Bool.true_and, Bool.true_and, Option.any_eq_true]
    simp only [Bool.and_eq_true, Bool.not_eq_true']
    constructor
    · rintro ⟨g, hg, hmeasures⟩
      exact ⟨k, g, rfl, hg, hmeasures⟩
    · rintro ⟨j, g, hj, hg, hmeasures⟩
      obtain rfl : k = j := by omega
      exact ⟨g, hg, hmeasures⟩

/-- At a half step before which nothing is measured, a scan finds the first measurement or none. -/
theorem Wire.measuresAt_halfStep_first {i : Nat}
    (hbefore : ∀ k, Wire.firstMeasurement w.cells ignored = some k → i ≤ 2 * k + 1) :
    w.measuresAt ignored (halfStep i) = true ↔ ∃ k, i = 2 * k + 1 ∧ Wire.firstMeasurement w.cells ignored = some k := by
  rw [Wire.measuresAt_halfStep]
  constructor
  · rintro ⟨k, g, rfl, hg, hmeasurement, hgate⟩
    obtain ⟨j, hle, hfirst⟩ := exists_firstMeasurement_le hg hmeasurement hgate
    obtain rfl : j = k := by
      have := hbefore j hfirst
      omega
    exact ⟨j, rfl, hfirst⟩
  · rintro ⟨k, hi, hfirst⟩
    obtain ⟨g, hg, hmeasured⟩ := exists_of_firstMeasurement hfirst
    exact ⟨k, g, hi, hg, hmeasured⟩

/-- Where nothing is measured before the half step, the preview collapses the wire there. -/
theorem Wire.pivot_preview_of_le {n : Nat}
    (hbefore : ∀ k, Wire.firstMeasurement w.cells ignored = some k → n ≤ 2 * k + 1) :
    (w.preview ignored (halfStep n)).pivot = some (halfStep n) := by
  unfold preview
  cases hfirst : Wire.firstMeasurement w.cells ignored with
  | none => rfl
  | some k =>
    have hge : Coordinate.lt (Coordinate.ofNat k) (halfStep n) = false :=
      decide_eq_false (lt_halfStep.not.mpr (Nat.not_lt.mpr (hbefore k hfirst)))
    simp only [Option.map_some, hge]
    rfl

/-- Where something is, the preview collapses it at its first measurement. -/
theorem Wire.pivot_preview_of_lt {n k : Nat} (hfirst : Wire.firstMeasurement w.cells ignored = some k)
    (hlt : 2 * k + 1 < n) : (w.preview ignored (halfStep n)).pivot = some (k : Rat) := by
  have hearlier : Coordinate.lt (Coordinate.ofNat k) (halfStep n) = true := decide_eq_true (lt_halfStep.mpr hlt)
  unfold preview
  simp only [hfirst, Option.map_some, hearlier, if_true]
  rfl

/-- From a half step on, before which nothing is measured, a scan stops where the preview collapses the wire. -/
theorem Wire.seek_halfStep (w : Wire Rat) (ignored : Option GateId) {n : Nat} (fuel i : Nat) (hi : i ≤ n)
    (hfuel : n < fuel + i) (hbefore : ∀ k, Wire.firstMeasurement w.cells ignored = some k → i ≤ 2 * k + 1) :
    w.seek ignored Coordinate.half (halfStep n + 1) (some (halfStep n)) fuel (halfStep i) =
      (w.preview ignored (halfStep n)).pivot := by
  induction fuel generalizing i with
  | zero => omega
  | succ fuel ih =>
    have hlimit : Coordinate.lt (halfStep i) (halfStep n + 1) = true := by
      refine decide_eq_true ?_
      have : halfStep i ≤ halfStep n := not_lt.mp (halfStep_lt.not.mpr (by omega))
      linarith
    unfold seek
    rw [hlimit]
    simp only [Bool.not_true, Bool.false_eq_true, if_false, Option.any_some, Bool.or_eq_true, same_halfStep]
    rcases Nat.eq_or_lt_of_le hi with rfl | hlt
    · rw [if_pos (.inl rfl)]
      exact (pivot_preview_of_le hbefore).symm
    · by_cases hmeasures : w.measuresAt ignored (halfStep i) = true
      · obtain ⟨k, rfl, hfirst⟩ := (measuresAt_halfStep_first hbefore).mp hmeasures
        rw [if_pos (.inr hmeasures), pivot_preview_of_lt hfirst hlt, halfStep_odd]
      · rw [if_neg (not_or.mpr ⟨Nat.ne_of_lt hlt, hmeasures⟩), halfStep_succ]
        refine ih (i + 1) hlt (by omega) fun k hfirst => ?_
        have hle := hbefore k hfirst
        have hne : i ≠ 2 * k + 1 := fun heq => hmeasures ((measuresAt_halfStep_first hbefore).mpr ⟨k, heq, hfirst⟩)
        omega

theorem exists_halfStep_of_localize {geometry : Geometry Rat} {ws : List (Wire Rat)} {g : Gate} {p : Pointer Rat}
    {target : Placement Rat} (h : p.localize geometry ws g = some target) : ∃ n, target.position = halfStep n := by
  unfold Pointer.localize at h
  obtain ⟨row, -, h⟩ := Option.bind_eq_some_iff.mp h
  dsimp only at h
  split at h
  · cases h
  · rename_i hpos
    generalize p.x - (geometry.left + geometry.wireOffset) = offset at h hpos
    obtain ⟨k, hindex, -⟩ := exists_floor_eq (by simpa only [Bool.or_eq_true] using hpos)
    rw [hindex] at h
    obtain rfl := Option.some.inj h
    dsimp only
    split
    · exact ⟨2 * k, (halfStep_even k).symm⟩
    · exact ⟨2 * k + 1, (halfStep_odd k).symm⟩

/-- The preview of a collapse at a placement is what a scan in half steps up to the placement finds. -/
theorem scan_eq_preview {geometry : Geometry Rat} {ws : List (Wire Rat)} {g : Gate} {p : Pointer Rat}
    {target : Placement Rat} (h : p.localize geometry ws g = some target) (w : Wire Rat) (ignored : Option GateId) :
    w.scan ignored (-Coordinate.half) Coordinate.half (some target.position) = w.preview ignored target.position := by
  obtain ⟨n, hn⟩ := exists_halfStep_of_localize h
  have hstep : Coordinate.lt (Coordinate.ofNat 0) (Coordinate.half : Rat) = true :=
    decide_eq_true one_half_pos
  have hcount : Coordinate.toNat ((halfStep n + Coordinate.ofNat 1 - -Coordinate.half) / (Coordinate.half : Rat)) =
      n + 2 := by
    have hcount : (halfStep n + 1 - -(1 / 2)) / (1 / 2 : Rat) = ((n + 2 : Nat) : Rat) := by
      unfold halfStep
      push_cast
      ring
    show ((halfStep n + 1 - -(1 / 2)) / (1 / 2 : Rat)).floor.toNat = n + 2
    rw [hcount, show ((n + 2 : Nat) : Rat).floor = (n + 2 : Nat) from Rat.floor_intCast _]
    rfl
  have hseek := Wire.seek_halfStep w ignored (2 * (n + 2 + 2)) 0 (Nat.zero_le n) (by omega) fun k _ => Nat.zero_le _
  have hstart : halfStep 0 = -Coordinate.half := by
    show ((0 : Nat) : Rat) / 2 - 1 / 2 = -(1 / 2)
    norm_num
  have hpivot : { w with pivot := (w.preview ignored (halfStep n)).pivot } = w.preview ignored (halfStep n) := by
    unfold Wire.preview
    split <;> rfl
  unfold Wire.scan
  rw [hn, if_pos hstep, ← hpivot, ← hseek]
  dsimp only
  rw [hcount, hstart]
  rfl

end Scan

end CircuitDesigner
