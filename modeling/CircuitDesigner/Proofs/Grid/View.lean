import CircuitDesigner.Proofs.Grid.Basic
import Mathlib.Data.List.Basic

/-! The grid that wires show, and how the elementary changes of a list of wires change it. -/

namespace CircuitDesigner

variable {K : Type}

/-- What the cell of a column shows. -/
def Wire.mark? (w : Wire K) (column : Nat) : Option Mark := (w.cells[column]?).bind Gate.mark?

/-- What the cell of a row and column shows. -/
def markIn (ws : List (Wire K)) (row column : Nat) : Option Mark := (ws[row]?).bind fun w => w.mark? column

/-- The wires have one length, and their cells show the grid. -/
structure Shows (ws : List (Wire K)) (G : Grid) : Prop where
  rows : ws.length = G.rows
  columns : Circuit.columnsOf ws = G.columns
  aligned : ∀ w ∈ ws, w.cells.length = G.columns
  marks : ∀ r k, markIn ws r k = G.mark r k

/-- The grid of a list of wires. -/
def gridOf (ws : List (Wire K)) : Grid := ⟨ws.length, Circuit.columnsOf ws, markIn ws⟩

/-! ### Wires -/

section Wires

variable {w : Wire K} {k : Nat}

theorem Wire.mark?_of_le (h : w.cells.length ≤ k) : w.mark? k = none := by
  unfold Wire.mark?
  rw [List.getElem?_eq_none h]
  rfl

theorem Wire.mark?_insertIdx {column : Nat} {g : Gate} (cells : List Gate) (h : column ≤ cells.length)
    (hw : w.cells = cells.insertIdx column g) (k : Nat) :
    w.mark? k = if k < column then (cells[k]?).bind Gate.mark? else if k = column then g.mark?
      else (cells[k - 1]?).bind Gate.mark? := by
  unfold Wire.mark?
  rw [hw, List.getElem?_insertIdx]
  by_cases hlt : k < column
  · rw [if_pos hlt, if_pos hlt]
  · by_cases heq : k = column
    · subst heq
      simp [h]
    · rw [if_neg hlt, if_neg heq, if_neg hlt, if_neg heq]

theorem Wire.mark?_set {column : Nat} {g : Gate} {cells : List Gate} (h : column < cells.length)
    (hw : w.cells = cells.set column g) (k : Nat) :
    w.mark? k = if k = column then g.mark? else (cells[k]?).bind Gate.mark? := by
  unfold Wire.mark?
  rw [hw, List.getElem?_set]
  by_cases heq : column = k
  · subst heq
    simp [h]
  · rw [if_neg heq, if_neg (Ne.symm heq)]

end Wires

/-! ### Columns -/

section Columns

variable {w : Wire K} {ws : List (Wire K)} {n : Nat}

theorem columnsOf_cons (w : Wire K) (ws : List (Wire K)) :
    Circuit.columnsOf (w :: ws) = max w.cells.length (Circuit.columnsOf ws) := rfl

theorem columnsOf_append (vs ws : List (Wire K)) :
    Circuit.columnsOf (vs ++ ws) = max (Circuit.columnsOf vs) (Circuit.columnsOf ws) := by
  induction vs with
  | nil => exact (Nat.zero_max _).symm
  | cons v vs ih => rw [List.cons_append, columnsOf_cons, columnsOf_cons, ih, Nat.max_assoc]

theorem length_le_columnsOf (h : w ∈ ws) : w.cells.length ≤ Circuit.columnsOf ws := by
  induction ws with
  | nil => cases h
  | cons v ws ih =>
    rw [columnsOf_cons]
    rcases List.mem_cons.mp h with rfl | h
    · exact Nat.le_max_left _ _
    · exact Nat.le_trans (ih h) (Nat.le_max_right _ _)

theorem columnsOf_le (h : ∀ w ∈ ws, w.cells.length ≤ n) : Circuit.columnsOf ws ≤ n := by
  induction ws with
  | nil => exact Nat.zero_le n
  | cons w ws ih =>
    rw [columnsOf_cons]
    exact Nat.max_le.mpr ⟨h w List.mem_cons_self, ih fun v hv => h v (List.mem_cons_of_mem w hv)⟩

theorem columnsOf_eq (h : ∀ w ∈ ws, w.cells.length = n) (hne : ws ≠ []) : Circuit.columnsOf ws = n := by
  refine Nat.le_antisymm (columnsOf_le fun w hw => Nat.le_of_eq (h w hw)) ?_
  obtain ⟨w, hw⟩ := List.exists_mem_of_ne_nil ws hne
  exact h w hw ▸ length_le_columnsOf hw

theorem columnsOf_congr {vs ws : List (Wire K)} (h : vs.map (·.cells.length) = ws.map (·.cells.length)) :
    Circuit.columnsOf vs = Circuit.columnsOf ws := by
  induction vs generalizing ws with
  | nil => cases ws with
    | nil => rfl
    | cons w ws => cases h
  | cons v vs ih => cases ws with
    | nil => cases h
    | cons w ws =>
      simp only [List.map_cons, List.cons.injEq] at h
      rw [columnsOf_cons, columnsOf_cons, h.1, ih h.2]

end Columns

/-! ### Lists of wires -/

section Lists

variable {w : Wire K} {ws : List (Wire K)} {G : Grid} {r k : Nat}

theorem markIn_of_getElem? (h : ws[r]? = some w) : markIn ws r k = w.mark? k := by
  unfold markIn
  rw [h]
  rfl

theorem markIn_eq_bind_cell (ws : List (Wire K)) (r k : Nat) :
    markIn ws r k = ((ws[r]?).bind fun w => w.cells[k]?).bind Gate.mark? := by
  unfold markIn Wire.mark?
  cases ws[r]? <;> rfl

theorem markIn_eq_some_iff {m : Mark} :
    markIn ws r k = some m ↔ ∃ w g, ws[r]? = some w ∧ w.cells[k]? = some g ∧ g.mark? = some m := by
  simp only [markIn, Wire.mark?, Option.bind_eq_some_iff]
  constructor
  · rintro ⟨w, hw, g, hg, hm⟩
    exact ⟨w, g, hw, hg, hm⟩
  · rintro ⟨w, g, hw, hg, hm⟩
    exact ⟨w, hw, g, hg, hm⟩

theorem markIn_set (h : r < ws.length) (w : Wire K) (r' k : Nat) :
    markIn (ws.set r w) r' k = if r' = r then w.mark? k else markIn ws r' k := by
  unfold markIn
  rw [List.getElem?_set]
  by_cases heq : r = r'
  · subst heq
    simp [h]
  · rw [if_neg heq, if_neg (Ne.symm heq)]

/-- A wire without marks at the bottom changes no mark. -/
theorem markIn_append (h : ∀ k, w.mark? k = none) (r k : Nat) : markIn (ws ++ [w]) r k = markIn ws r k := by
  unfold markIn
  rw [List.getElem?_append]
  by_cases hlt : r < ws.length
  · rw [if_pos hlt]
  · rw [if_neg hlt, List.getElem?_eq_none (Nat.le_of_not_lt hlt)]
    cases hr : [w][r - ws.length]? with
    | none => rfl
    | some v =>
      rw [List.mem_singleton.mp (List.mem_of_getElem? hr)]
      exact h k

theorem markIn_eraseIdx (ws : List (Wire K)) (row r k : Nat) :
    markIn (ws.eraseIdx row) r k = markIn ws (if r < row then r else r + 1) k := by
  unfold markIn
  rw [List.getElem?_eraseIdx]
  split <;> rfl

theorem Shows.eq_gridOf (h : Shows ws G) : gridOf ws = G := by
  obtain ⟨rows, columns, mark⟩ := G
  unfold gridOf
  rw [show markIn ws = mark from funext fun r => funext fun k => h.marks r k, h.columns, h.rows]

theorem shows_gridOf_iff : Shows ws (gridOf ws) ↔ ∀ w ∈ ws, w.cells.length = Circuit.columnsOf ws :=
  ⟨fun h => h.aligned, fun h => ⟨rfl, rfl, h, fun _ _ => rfl⟩⟩

/-- Wires of one length that are at least one show the grid of their marks. -/
theorem Shows.of_aligned {ws : List (Wire K)} (hrows : ws.length = G.rows) (hpos : 0 < G.rows)
    (haligned : ∀ w ∈ ws, w.cells.length = G.columns) (hmarks : ∀ r k, markIn ws r k = G.mark r k) : Shows ws G where
  rows := hrows
  columns := columnsOf_eq haligned (List.ne_nil_of_length_pos (by omega))
  aligned := haligned
  marks := hmarks

theorem Shows.congr (h : Shows ws G) {vs : List (Wire K)} {H : Grid} (hrows : H.rows = G.rows)
    (hcolumns : H.columns = G.columns) (hlength : vs.map (·.cells.length) = ws.map (·.cells.length))
    (hmarks : ∀ r k, markIn vs r k = H.mark r k) : Shows vs H where
  rows := by
    have := congrArg List.length hlength
    simp only [List.length_map] at this
    rw [this, hrows, h.rows]
  columns := by rw [columnsOf_congr hlength, hcolumns, h.columns]
  aligned v hv := by
    have : v.cells.length ∈ ws.map (·.cells.length) := hlength ▸ List.mem_map_of_mem hv
    obtain ⟨w, hw, heq⟩ := List.mem_map.mp this
    rw [← heq, hcolumns]
    exact h.aligned w hw
  marks := hmarks

/-- A wire that differs in the mark of one cell changes that mark. -/
theorem Shows.set (h : Shows ws G) (hr : r < G.rows) {column : Nat} {m : Option Mark}
    (hlength : w.cells.length = G.columns) (hmarks : ∀ k, w.mark? k = if k = column then m else G.mark r k) :
    Shows (ws.set r w) (G.set r column m) := by
  refine .of_aligned ?_ (by show 0 < G.rows; omega) (fun v hv => ?_) fun r' k => ?_
  · rw [List.length_set]
    exact h.rows
  · rcases List.mem_or_eq_of_mem_set hv with hv | rfl
    · exact h.aligned v hv
    · exact hlength
  · rw [markIn_set (h.rows ▸ hr), hmarks, h.marks]
    show _ = if r' = r ∧ k = column then m else G.mark r' k
    by_cases hrow : r' = r
    · subst hrow
      simp only [if_true, true_and]
    · rw [if_neg hrow, if_neg fun h => hrow h.1]

theorem Shows.lt_length (h : Shows ws G) {w : Wire K} (hw : w ∈ ws) (hk : k < G.columns) : k < w.cells.length :=
  Nat.lt_of_lt_of_eq hk (h.aligned w hw).symm

theorem Shows.lt_of_mark (h : Shows ws G) {m : Mark} (hm : G.mark r k = some m) : r < G.rows ∧ k < G.columns := by
  rw [← h.marks] at hm
  obtain ⟨w, g, hw, hg, -⟩ := markIn_eq_some_iff.mp hm
  have hr := (List.getElem?_eq_some_iff.mp hw).1
  have hk := (List.getElem?_eq_some_iff.mp hg).1
  rw [h.aligned w (List.mem_of_getElem? hw)] at hk
  exact ⟨h.rows ▸ hr, hk⟩

theorem Shows.mark_of_columns_le (h : Shows ws G) (r : Nat) (hk : G.columns ≤ k) : G.mark r k = none := by
  cases hm : G.mark r k with
  | none => rfl
  | some m => exact absurd (h.lt_of_mark hm).2 (Nat.not_lt.mpr hk)

theorem Shows.mark_of_rows_le (h : Shows ws G) (hr : G.rows ≤ r) (k : Nat) : G.mark r k = none := by
  cases hm : G.mark r k with
  | none => rfl
  | some m => exact absurd (h.lt_of_mark hm).1 (Nat.not_lt.mpr hr)

/-- A gate reaches no further than the last row. -/
theorem Shows.add_span_le (h : Shows ws G) (hs : G.Spanned) {id : GateId} {kind : GateKind}
    (hm : G.mark r k = some (.gate id kind)) : r + kind.span ≤ G.rows := by
  have hr := (h.lt_of_mark hm).1
  by_cases hspan : kind.span ≤ 1
  · omega
  · have := (h.lt_of_mark (hs.cover_of_lt (r := r + kind.span - 1) hm (by omega) (by omega))).1
    omega

theorem Shows.exists_cell (h : Shows ws G) (hr : r < G.rows) (hk : k < G.columns) :
    ∃ w g, ws[r]? = some w ∧ w.cells[k]? = some g ∧ g.mark? = G.mark r k := by
  have hr' : r < ws.length := h.rows ▸ hr
  have hw : ws[r]? = some ws[r] := List.getElem?_eq_getElem hr'
  have hk' : k < ws[r].cells.length := by rw [h.aligned _ (List.getElem_mem hr')]; exact hk
  refine ⟨ws[r], ws[r].cells[k], hw, List.getElem?_eq_getElem hk', ?_⟩
  rw [← h.marks, markIn_of_getElem? hw]
  unfold Wire.mark?
  rw [List.getElem?_eq_getElem hk']
  rfl

theorem Shows.isInertia_of_mark (h : Shows ws G) (hw : ws[r]? = some w) {g : Gate} (hg : w.cells[k]? = some g) :
    g.isInertia = (G.mark r k).isNone := by
  rw [← h.marks, markIn_of_getElem? hw]
  unfold Wire.mark?
  rw [hg]
  show g.isInertia = g.mark?.isNone
  cases hm : g.mark? with
  | none => exact Gate.mark?_eq_none_iff.mp hm
  | some m => exact Gate.isInertia_of_mark? hm

theorem gridOf_congr {vs ws : List (Wire K)} (h : vs.map Wire.cells = ws.map Wire.cells) : gridOf vs = gridOf ws := by
  have hmark : ∀ (ws : List (Wire K)) r k, markIn ws r k =
      (((ws.map Wire.cells)[r]?).bind fun cells => cells[k]?).bind Gate.mark? := fun ws r k => by
    rw [markIn_eq_bind_cell, List.getElem?_map]
    cases ws[r]? <;> rfl
  have hlength := congrArg List.length h
  rw [List.length_map, List.length_map] at hlength
  unfold gridOf
  congr 1
  · refine columnsOf_congr ?_
    have := congrArg (List.map List.length) h
    rwa [List.map_map, List.map_map] at this
  · funext r k
    rw [hmark, h, ← hmark]

end Lists

end CircuitDesigner
