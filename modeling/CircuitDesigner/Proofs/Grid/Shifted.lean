import CircuitDesigner.Proofs.Grid.Basic

/-! Grids of which some rows shift.

    From a column on, the marks of some rows move by one column, and those of the others stay (`Grid.shift`). A gate
    keeps the cells that it covers just if its rows do the same (`Grid.Spanned.shift_iff`), and a gate that is put
    into the gap changes nothing about that (`Grid.Spanned.put_iff`). A support can never be put there: the gate above
    it would need the cell for the support that it has (`Grid.Spanned.not_put_shift`). -/

namespace CircuitDesigner

/-! ### Columns -/

/-- Where the cells of a column are once another one is opened, or none is. -/
def moved (opens : Bool) (column k : Nat) : Nat := if opens = true ∧ column ≤ k then k + 1 else k

theorem moved_false (column k : Nat) : moved false column k = k := if_neg nofun

theorem moved_of_lt {column k : Nat} (opens : Bool) (h : k < column) : moved opens column k = k :=
  if_neg fun hin => Nat.not_le_of_lt h hin.2

theorem moved_true {column k : Nat} (h : column ≤ k) : moved true column k = k + 1 := if_pos ⟨rfl, h⟩

theorem moved_eq_iff {column k : Nat} {a b : Bool} : moved a column k = moved b column k ↔ (column ≤ k → a = b) := by
  by_cases hk : column ≤ k
  · cases a <;> cases b <;> simp [moved, hk]
  · rw [moved_of_lt a (Nat.lt_of_not_le hk), moved_of_lt b (Nat.lt_of_not_le hk)]
    exact iff_of_true rfl fun h => absurd h hk

namespace Grid

variable {G : Grid} {p : Nat → Bool} {row column r k : Nat}

/-! ### Shifting -/

/-- The marks of the rows with `p` move on by a column, from `column` on, where nothing shows then. -/
def shift (G : Grid) (p : Nat → Bool) (column : Nat) : Grid where
  rows := G.rows
  columns := G.columns
  mark r k := if p r = true ∧ column ≤ k then if k = column then none else G.mark r (k - 1) else G.mark r k

/-- The rows that shift for a gate: all if it makes a new column, and else those in which the cell that it needs is
    taken. -/
def shifts (G : Grid) (g : Gate) (row column : Nat) (squeeze : Bool) (r : Nat) : Bool :=
  squeeze || decide (row ≤ r ∧ r < row + g.span ∧ G.mark r column ≠ none)

theorem shifts_iff {g : Gate} {squeeze : Bool} : G.shifts g row column squeeze r = true ↔
    squeeze = true ∨ row ≤ r ∧ r < row + g.span ∧ G.mark r column ≠ none := by
  simp [shifts]

theorem mark_shift (G : Grid) (p : Nat → Bool) (column r k : Nat) :
    (G.shift p column).mark r (moved (p r) column k) = G.mark r k := by
  show (if p r = true ∧ column ≤ _ then _ else _) = _
  by_cases hin : p r = true ∧ column ≤ k
  · rw [hin.1, moved_true hin.2, if_pos ⟨rfl, by omega⟩, if_neg (by omega), Nat.add_sub_cancel]
  · rw [moved, if_neg hin, if_neg hin]

theorem mark_shift_iff {m : Mark} :
    (G.shift p column).mark r k = some m ↔ ∃ j, moved (p r) column j = k ∧ G.mark r j = some m := by
  constructor
  · intro h
    by_cases hin : p r = true ∧ column < k
    · have hplace : moved (p r) column (k - 1) = k := by
        rw [hin.1, moved_true (by omega), Nat.sub_add_cancel (by omega)]
      exact ⟨k - 1, hplace, by rw [← mark_shift G p column r (k - 1), hplace, h]⟩
    · have hplace : moved (p r) column k = k := by
        refine if_neg fun hout => ?_
        obtain rfl : column = k := Nat.le_antisymm hout.2 (Nat.le_of_not_lt fun hlt => hin ⟨hout.1, hlt⟩)
        rw [show (G.shift p column).mark r column = none from (if_pos hout).trans (if_pos rfl)] at h
        cases h
      exact ⟨k, hplace, by rw [← mark_shift G p column r k, hplace, h]⟩
  · rintro ⟨j, rfl, h⟩
    rw [mark_shift, h]

theorem shift_false (G : Grid) (column : Nat) : G.shift (fun _ => false) column = G := by
  simp [shift]

/-- A new column shifts all rows, as far as they go on behind it. -/
theorem mark_shift_of_opens {g : Gate} {squeeze : Bool} (hbound : ∀ r k, G.columns ≤ k → G.mark r k = none)
    (hnew : squeeze = true ∨ column = G.columns) (r k : Nat) :
    (G.shift (G.shifts g row column squeeze) column).mark r k = (G.insertColumn column).mark r k := by
  simp only [shift, insertColumn]
  rcases Nat.lt_or_ge k column with hlt | hge
  · rw [if_neg fun hin => Nat.not_le_of_lt hlt hin.2, if_pos hlt]
  · rw [if_neg (Nat.not_lt_of_le hge)]
    rcases hnew with rfl | rfl
    · exact if_pos ⟨rfl, hge⟩
    · -- What would go on behind the last column shows nothing.
      rw [hbound r k hge]
      split_ifs <;> first | rfl | exact (hbound r (k - 1) (by omega)).symm

/-- The rows of a gate behind the column shift all together, or none of them does. -/
def Together (G : Grid) (p : Nat → Bool) (column : Nat) : Prop :=
  ∀ {q k id kind}, G.mark q k = some (.gate id kind) → column ≤ k → ∀ r, q ≤ r → r < q + kind.span → p r = p q

theorem Spanned.shift_iff (h : G.Spanned) (hu : G.Unique) : (G.shift p column).Spanned ↔ G.Together p column := by
  constructor
  · intro hs q k id kind hm hk r hle hlt
    rcases Nat.eq_or_lt_of_le hle with rfl | hbelow
    · rfl
    -- The cell that the gate covers in the shifted grid is one that it has covered before.
    have hgate := (mark_shift G p column q k).trans hm
    obtain ⟨j, hj, hcover⟩ := mark_shift_iff.mp (hs.cover_of_lt hgate hbelow hlt)
    obtain ⟨q', kind', -, -, hq'⟩ := h.parent hcover
    obtain ⟨-, rfl⟩ := hu hm hq'
    exact moved_eq_iff.mp hj hk
  · intro htogether
    refine ⟨fun {r k d id kind} hm h0 hd => ?_, fun {r k id} hm => ?_⟩
    · obtain ⟨j, rfl, hm'⟩ := mark_shift_iff.mp hm
      exact mark_shift_iff.mpr
        ⟨j, moved_eq_iff.mpr fun hj => htogether hm' hj (r + d) (by omega) (by omega), h.covered hm' h0 hd⟩
    · obtain ⟨j, rfl, hm'⟩ := mark_shift_iff.mp hm
      obtain ⟨q, kind, hlt, hle, hq⟩ := h.parent hm'
      exact ⟨q, kind, hlt, hle, mark_shift_iff.mpr
        ⟨j, moved_eq_iff.mpr fun hj => (htogether hq hj r (Nat.le_of_lt hlt) hle).symm, hq⟩⟩

/-! ### The gap -/

theorem mark_put_self (G : Grid) (g : Gate) (row column : Nat) : (G.put g row column).mark row column = g.mark? :=
  (if_pos rfl).trans (if_pos rfl)

theorem mark_put_below {g : Gate} (hlt : row < r) (hle : r < row + g.span) :
    (G.put g row column).mark r column = some (.cover g.id) :=
  (if_pos rfl).trans ((if_neg (Nat.ne_of_gt hlt)).trans (if_pos ⟨hlt, hle⟩))

theorem mark_put_of_not {g : Gate} (h : ¬(k = column ∧ row ≤ r ∧ r < row + g.span)) :
    (G.put g row column).mark r k = G.mark r k := by
  have hspan : 0 < g.span := g.kind.span_pos
  unfold put
  dsimp only
  split_ifs <;> first | rfl | omega

/-- What shows beside the free cells that a gate takes still shows. -/
theorem Free.mark_put {g : Gate} (hfree : G.Free row column g.span) {m : Mark} (hm : G.mark r k = some m) :
    (G.put g row column).mark r k = some m := by
  rw [mark_put_of_not]
  · exact hm
  · rintro ⟨rfl, hle, hlt⟩
    rw [hfree r hle hlt] at hm
    cases hm

theorem free_shift (G : Grid) (g : Gate) (row column : Nat) (squeeze : Bool) :
    (G.shift (G.shifts g row column squeeze) column).Free row column g.span := by
  intro r hle hlt
  by_cases hshifts : G.shifts g row column squeeze r = true
  · exact (if_pos ⟨hshifts, Nat.le_refl column⟩).trans (if_pos rfl)
  · have hstays : (G.shift (G.shifts g row column squeeze) column).mark r column = G.mark r column :=
      if_neg fun hin => hshifts hin.1
    rw [hstays]
    by_contra htaken
    exact hshifts (by simp [shifts, hle, hlt, htaken])

/-- A gate that takes free cells moves no support away from its gate, and none to it. -/
theorem Spanned.put_iff {g : Gate} (hfree : G.Free row column g.span) (hg : ∀ p, g.kind ≠ .support p) :
    (G.put g row column).Spanned ↔ G.Spanned := by
  refine ⟨fun h => ?_, fun h => h.put hfree hg⟩
  have hself := G.mark_put_self g row column
  suffices hclear : ∃ H : Grid, H.Spanned ∧ H.mark = G.mark by
    obtain ⟨H, hH, hmark⟩ := hclear
    refine ⟨fun {r k d id kind} hm => ?_, fun {r k id} hm => ?_⟩
    · rw [← hmark] at hm ⊢
      exact hH.covered hm
    · rw [← hmark] at hm ⊢
      exact hH.parent hm
  cases hm : g.mark? with
  | none =>
    refine ⟨_, h, funext fun r => funext fun k => ?_⟩
    have hspan : g.span = 1 := by
      unfold Gate.span
      rw [GateKind.isInertia_iff.mp (Gate.mark?_eq_none_iff.mp hm)]
      rfl
    by_cases hin : k = column ∧ row ≤ r ∧ r < row + g.span
    · obtain ⟨rfl, hle, hlt⟩ := hin
      obtain rfl : r = row := by omega
      rw [hself, hm, hfree r hle hlt]
    · exact mark_put_of_not hin
  | some m =>
    cases m with
    | cover p => exact absurd (Gate.mark?_eq_cover_iff.mp hm) (hg p)
    | gate id kind =>
      obtain ⟨-, rfl, -⟩ := Gate.mark?_eq_gate_iff.mp hm
      refine ⟨_, h.clear (hself.trans hm), funext fun r => funext fun k => ?_⟩
      show (if k = column ∧ row ≤ r ∧ r < row + g.span then none else (G.put g row column).mark r k) = G.mark r k
      split
      · rename_i hin
        obtain ⟨rfl, hle, hlt⟩ := hin
        exact (hfree r hle hlt).symm
      · exact mark_put_of_not (by assumption)

/-- A support that is put into the gap is none of a gate above it: that one would be in the column that the gap is in,
    and the support that it has was there as well and has moved on. -/
theorem Spanned.not_put_shift (h : G.Spanned) (hu : G.Unique) {g : Gate} {id : GateId} (hkind : g.kind = .support id)
    (hfree : (G.shift p column).Free row column g.span) : ¬((G.shift p column).put g row column).Spanned := by
  intro hput
  have hspan : 0 < g.span := g.kind.span_pos
  have hparent : ∀ {q k kind}, q < row → ((G.shift p column).put g row column).mark q k = some (.gate id kind) →
      ∃ j, moved (p q) column j = k ∧ G.mark q j = some (.gate id kind) := fun {q k kind} hlt hq => by
    rw [mark_put_of_not (by omega)] at hq
    exact mark_shift_iff.mp hq
  have hself := ((G.shift p column).mark_put_self g row column).trans (Gate.mark?_eq_cover_iff.mpr hkind)
  obtain ⟨q, kind, hlt, hle, hgate⟩ := hput.parent hself
  obtain ⟨j, hj, hq⟩ := hparent hlt hgate
  obtain rfl : j = column := by
    unfold moved at hj
    split at hj <;> omega
  have hcover := (mark_shift G p j row j).trans (h.cover_of_lt hq hlt hle)
  cases hshifts : p row with
  | false =>
    rw [hshifts, moved_false, hfree row (Nat.le_refl row) (by omega)] at hcover
    cases hcover
  | true =>
    rw [hshifts, moved_true (Nat.le_refl j)] at hcover
    obtain ⟨q', kind', hlt', -, hq'⟩ := hput.parent (hfree.mark_put hcover)
    obtain ⟨j', hj', hq'⟩ := hparent hlt' hq'
    obtain ⟨rfl, rfl⟩ := hu hq hq'
    omega

end Grid

end CircuitDesigner
