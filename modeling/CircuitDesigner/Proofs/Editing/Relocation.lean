import CircuitDesigner.Proofs.Restore.Told

/-! Gates that move to a column of their own.

    The column that the gate leaves is idle if nothing else was in it (`idle_relocate_iff`). Without it, the columns
    from the new one up to the old one are each one place off, so that the grid has the stamps that it had only if
    these are all alike (`exists_idle_relocate_iff`). -/

namespace CircuitDesigner

/-- What the cells of a column show, top to bottom, that holds nothing but the gate. -/
def Gate.solo (g : Gate) (row r : Nat) : Option Mark :=
  if r = row then g.mark? else if row < r ∧ r < row + g.span then some (.cover g.id) else none

theorem Gate.solo_of_isInertia {g : Gate} (h : g.isInertia = true) (row r : Nat) : g.solo row r = none := by
  have hspan : g.span = 1 := congrArg GateKind.span (GateKind.isInertia_iff.mp h)
  unfold solo
  rw [mark?_eq_none_iff.mpr h, if_neg (show ¬(row < r ∧ r < row + g.span) by omega), ite_self]

namespace Grid

variable {F : Grid} {g : Gate} {row column t k r y : Nat}

/-- The grid after the gate at a row and column has left its cells and a new column has been made for it. -/
def relocate (F : Grid) (g : Gate) (row column t k : Nat) : Grid :=
  ((F.clear row column g.span).insertColumn k).put g t k

/-- A gate in a new column is alone in it. -/
theorem mark_put_insertColumn : ((F.insertColumn k).put g t k).mark r y =
    if y = k then g.solo t r else F.mark r (if y < k then y else y - 1) := by
  unfold put insertColumn Gate.solo
  dsimp only
  split_ifs <;> first | rfl | omega

theorem removeColumn_put_insertColumn : (((F.insertColumn k).put g t k).removeColumn k).mark = F.mark := by
  funext r y
  show ((F.insertColumn k).put g t k).mark r (if y < k then y else y + 1) = _
  rw [mark_put_insertColumn, if_neg (by split_ifs <;> omega)]
  congr 1
  split_ifs <;> omega

/-- No column is idle that a gate was added to. -/
theorem exists_mark_put_insertColumn (hbusy : ∀ y < F.columns, ∃ r, F.mark r y ≠ none) (hgate : g.mark? ≠ none)
    (hk : k ≤ F.columns) (hy : y ≤ F.columns) : ∃ r, ((F.insertColumn k).put g t k).mark r y ≠ none := by
  simp only [mark_put_insertColumn]
  by_cases heq : y = k
  · exact ⟨t, by rw [if_pos heq, Gate.solo, if_pos rfl]; exact hgate⟩
  · simp only [if_neg heq]
    exact hbusy _ (by split_ifs <;> omega)

theorem mark_relocate : (F.relocate g row column t k).mark r y =
    if y = k then g.solo t r else (F.clear row column g.span).mark r (if y < k then y else y - 1) :=
  mark_put_insertColumn

theorem mark_clear_of_ne (hne : y ≠ column) : (F.clear row column g.span).mark r y = F.mark r y := by
  unfold clear
  dsimp only
  rw [if_neg fun h => hne h.1]

/-- The new column comes before the old one, and the columns between them move to the right. -/
theorem mark_removeColumn_right (hk : k ≤ column) : ((F.relocate g row column t k).removeColumn (column + 1)).mark r y =
    if y = k then g.solo t r else F.mark r (if k < y ∧ y ≤ column then y - 1 else y) := by
  show (F.relocate g row column t k).mark r (if y < column + 1 then y else y + 1) = _
  rw [mark_relocate]
  by_cases hy : y = k
  · rw [if_pos (by split <;> omega), if_pos hy]
  · rw [if_neg (by split <;> omega), if_neg hy, mark_clear_of_ne (by split_ifs <;> omega)]
    congr 1
    split_ifs <;> omega

/-- The new column comes after the old one, and the columns between them move to the left. -/
theorem mark_removeColumn_left (hk : column < k) : ((F.relocate g row column t k).removeColumn column).mark r y =
    if y + 1 = k then g.solo t r else F.mark r (if column ≤ y ∧ y + 1 < k then y + 1 else y) := by
  show (F.relocate g row column t k).mark r (if y < column then y else y + 1) = _
  rw [mark_relocate]
  by_cases hy : y + 1 = k
  · rw [if_pos (by split <;> omega), if_pos hy]
  · rw [if_neg (by split <;> omega), if_neg hy, mark_clear_of_ne (by split_ifs <;> omega)]
    congr 1
    split_ifs <;> omega

/-- A column is idle after the move exactly if it is the one that the gate has left, and nothing else was in it. -/
theorem idle_relocate_iff (hbusy : ∀ y < F.columns, ∃ r, F.mark r y ≠ none) (hgate : g.mark? ≠ none)
    (hcolumn : column < F.columns) (hk : k ≤ F.columns) (hy : y ≤ F.columns) :
    (∀ r, (F.relocate g row column t k).mark r y = none) ↔
      (∀ r, F.mark r column ≠ none → row ≤ r ∧ r < row + g.span) ∧ y = if k ≤ column then column + 1 else column := by
  simp only [mark_relocate]
  have hcleared : ∀ r, (F.clear row column g.span).mark r column = none ↔
      (F.mark r column ≠ none → row ≤ r ∧ r < row + g.span) := fun r => by
    unfold clear
    dsimp only
    split_ifs with hin
    · exact iff_of_true rfl fun _ => hin.2
    · simp only [true_and] at hin
      tauto
  constructor
  · intro hidle
    have hne : y ≠ k := by
      rintro rfl
      have hnone := hidle t
      rw [if_pos rfl, Gate.solo, if_pos rfl] at hnone
      exact hgate hnone
    simp only [if_neg hne] at hidle
    -- Where the column was before, something showed in it, so that it is the one of the gate.
    have heq : (if y < k then y else y - 1) = column := by
      by_contra hother
      obtain ⟨r, hr⟩ := hbusy (if y < k then y else y - 1) (by split_ifs <;> omega)
      exact hr (mark_clear_of_ne hother ▸ hidle r)
    rw [heq] at hidle
    exact ⟨fun r => (hcleared r).mp (hidle r), by split_ifs at heq ⊢ <;> omega⟩
  · rintro ⟨halone, rfl⟩ r
    have hne : (if k ≤ column then column + 1 else column) ≠ k := by split_ifs <;> omega
    have heq : (if (if k ≤ column then column + 1 else column) < k then if k ≤ column then column + 1 else column
        else (if k ≤ column then column + 1 else column) - 1) = column := by split_ifs <;> omega
    rw [if_neg hne, heq]
    exact (hcleared r).mpr (halone r)

theorem stamp_relocate_right_iff (hk : k ≤ column) :
    (∀ r y, ((F.relocate g row column t k).removeColumn (column + 1)).stamp r y = F.stamp r y) ↔
      (∀ r, Mark.stamp (g.solo t r) = F.stamp r column) ∧
        ∀ y, k ≤ y → y ≤ column → ∀ r, F.stamp r y = F.stamp r column := by
  simp only [stamp, mark_removeColumn_right hk]
  constructor
  · intro h
    have halike : ∀ y, k ≤ y → y ≤ column → ∀ r, Mark.stamp (F.mark r y) = Mark.stamp (g.solo t r) := by
      intro y hle
      induction y, hle using Nat.le_induction with
      | base => exact fun _ r => by simpa using (h r k).symm
      | succ y hle ih =>
        intro hy r
        rw [← ih (by omega) r, ← h r (y + 1), if_neg (by omega), if_pos (by omega)]
        rfl
    refine ⟨fun r => (halike column hk (Nat.le_refl _) r).symm, fun y hle hy r => ?_⟩
    rw [halike y hle hy, halike column hk (Nat.le_refl _)]
  · rintro ⟨hsolo, halike⟩ r y
    split_ifs with hy hbetween
    · rw [hsolo, hy, halike k (Nat.le_refl _) hk]
    · rw [halike y (by omega) hbetween.2, halike (y - 1) (by omega) (by omega)]
    · rfl

theorem stamp_relocate_left_iff (hk : column < k) :
    (∀ r y, ((F.relocate g row column t k).removeColumn column).stamp r y = F.stamp r y) ↔
      (∀ r, Mark.stamp (g.solo t r) = F.stamp r column) ∧
        ∀ y, column ≤ y → y < k → ∀ r, F.stamp r y = F.stamp r column := by
  simp only [stamp, mark_removeColumn_left hk]
  constructor
  · intro h
    have halike : ∀ y, column ≤ y → y < k → ∀ r, Mark.stamp (F.mark r y) = Mark.stamp (F.mark r column) := by
      intro y hle
      induction y, hle using Nat.le_induction with
      | base => exact fun _ r => rfl
      | succ y hle ih =>
        intro hy r
        rw [← ih (by omega) r, ← h r y, if_neg (by omega), if_pos (by omega)]
    refine ⟨fun r => ?_, halike⟩
    rw [← halike (k - 1) (by omega) (by omega), ← h r (k - 1), if_pos (by omega)]
  · rintro ⟨hsolo, halike⟩ r y
    split_ifs with hy hbetween
    · rw [hsolo, halike y (by omega) (by omega)]
    · rw [halike y (by omega) (by omega), halike (y + 1) (by omega) hbetween.2]
    · rfl

/-- The gate is alone in its column. -/
theorem mark_eq_solo_iff (hs : F.Spanned) (hgate : g.mark? = some (.gate g.id g.kind))
    (hm : F.mark row column = some (.gate g.id g.kind)) :
    (∀ r, F.mark r column = g.solo t r) ↔ t = row ∧ ∀ r, F.mark r column ≠ none → row ≤ r ∧ r < row + g.span := by
  have hspan : 0 < g.span := g.kind.span_pos
  constructor
  · intro h
    obtain rfl : t = row := by
      have hrow := h row
      rw [hm, Gate.solo] at hrow
      split_ifs at hrow with heq
      · exact heq.symm
      · cases hrow
    refine ⟨rfl, fun r hr => ?_⟩
    rw [h, Gate.solo] at hr
    split_ifs at hr <;> first | omega | exact absurd rfl hr
  · rintro ⟨rfl, halone⟩ r
    unfold Gate.solo
    split_ifs with hr hbelow
    · rw [hr, hm, hgate]
    · exact hs.cover_of_lt hm hbelow.1 hbelow.2
    · by_contra hne
      have := halone r hne
      omega

/-- The grid looks as it did exactly if the gate was alone in its column, and is again, among columns that are alike. -/
theorem exists_idle_relocate_iff (hs : F.Spanned) (hgate : g.mark? = some (.gate g.id g.kind))
    (hm : F.mark row column = some (.gate g.id g.kind)) (hbusy : ∀ y < F.columns, ∃ r, F.mark r y ≠ none)
    (hcolumn : column < F.columns) (hk : k ≤ F.columns)
    (hstamp : ∀ r y, F.stamp r y = GateKind.inertia.stamp ↔ F.mark r y = none) :
    (∃ y ≤ F.columns, (∀ r, (F.relocate g row column t k).mark r y = none) ∧
      ∀ r x, ((F.relocate g row column t k).removeColumn y).stamp r x = F.stamp r x) ↔
      (∀ r, F.mark r column = g.solo t r) ∧
        ∀ y, k ≤ y ∧ y ≤ column ∨ column ≤ y ∧ y < k → ∀ r, F.stamp r y = F.stamp r column := by
  have hstamps : (∀ r x, ((F.relocate g row column t k).removeColumn
      (if k ≤ column then column + 1 else column)).stamp r x =
      F.stamp r x) ↔ (∀ r, Mark.stamp (g.solo t r) = F.stamp r column) ∧
        ∀ y, k ≤ y ∧ y ≤ column ∨ column ≤ y ∧ y < k → ∀ r, F.stamp r y = F.stamp r column := by
    by_cases hle : k ≤ column
    · rw [if_pos hle, stamp_relocate_right_iff hle]
      refine and_congr_right fun _ => forall_congr' fun y => ?_
      rw [or_iff_left (by omega), and_imp]
    · rw [if_neg hle, stamp_relocate_left_iff (by omega)]
      refine and_congr_right fun _ => forall_congr' fun y => ?_
      rw [or_iff_right (by omega), and_imp]
  have hne : g.mark? ≠ none := hgate ▸ Option.some_ne_none _
  rw [mark_eq_solo_iff hs hgate hm]
  constructor
  · rintro ⟨y, hy, hidle, hsame⟩
    obtain ⟨halone, rfl⟩ := (idle_relocate_iff hbusy hne hcolumn hk hy).mp hidle
    obtain ⟨hsolo, halike⟩ := hstamps.mp hsame
    refine ⟨⟨?_, halone⟩, halike⟩
    -- The old column shows something where the gate starts in the new one, and the other way round.
    have hgatestamp : F.stamp row column ≠ GateKind.inertia.stamp :=
      mt (hstamp row column).mp (hm ▸ Option.some_ne_none _)
    have htop : g.solo t t = F.mark row column := by rw [Gate.solo, if_pos rfl, hm, hgate]
    have ht : F.mark t column ≠ none := fun hnone =>
      hgatestamp (by rw [stamp, ← htop, hsolo, (hstamp t column).mpr hnone])
    have hrow : g.solo t row ≠ none := fun hnone => hgatestamp (by rw [← hsolo, hnone]; rfl)
    obtain ⟨hle, -⟩ := halone t ht
    unfold Gate.solo at hrow
    split_ifs at hrow with heq hbelow
    · exact heq.symm
    · omega
    · exact absurd rfl hrow
  · rintro ⟨⟨rfl, halone⟩, halike⟩
    refine ⟨if k ≤ column then column + 1 else column, by split_ifs <;> omega, ?_, ?_⟩
    · exact (idle_relocate_iff hbusy hne hcolumn hk (by split_ifs <;> omega)).mpr ⟨halone, rfl⟩
    · refine hstamps.mpr ⟨fun r => ?_, halike⟩
      rw [← (mark_eq_solo_iff hs hgate hm).mpr ⟨rfl, halone⟩ r]
      rfl

end Grid

end CircuitDesigner
