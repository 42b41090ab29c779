import CircuitDesigner.Proofs.Refresh.Links
import CircuitDesigner.Proofs.Refresh.Redraw
import Mathlib.Data.List.Induction

/-! Redrawing column by column.

    Under a dragged gate only some columns are drawn anew, and what they had before is replaced in lists that hold the
    connectors and borders of all columns. What has been drawn can therefore be older than the rest, and made with
    another gate passed over. It does no harm: a column is drawn from cores alone, so that each of them is in the end as
    in a full redraw if it has been asked for at all, in whatever order and however often. -/

namespace CircuitDesigner

variable {K : Type}

/-- A request to draw a part of one column anew. -/
inductive Stroke where
  | connectors (column : Nat)
  | borders (column : Nat)
  deriving DecidableEq, Repr

/-- The circuit after a request, passing over an ignored gate. -/
def Circuit.stroke [Coordinate K] (ignored : Option GateId) (c : Circuit K) : Stroke → Circuit K
  | .connectors column => c.drawConnectorsAt column ignored
  | .borders column => c.drawBordersAt column ignored

/-! ### Lists with the entries of many columns -/

section Entries

variable {α : Type} (column : α → Nat) {l m : List α}

/-- Lists that agree in each column agree up to order. -/
theorem perm_of_filter_column
    (h : ∀ k, l.filter (fun x => column x == k) = m.filter fun x => column x == k) : l.Perm m := by
  classical
  refine List.perm_iff_count.mpr fun x => ?_
  have hx : (column x == column x) = true := beq_self_eq_true _
  calc l.count x = (l.filter fun y => column y == column x).count x :=
        (List.count_filter (p := fun y => column y == column x) hx).symm
    _ = (m.filter fun y => column y == column x).count x := by rw [h]
    _ = m.count x := List.count_filter (p := fun y => column y == column x) hx

theorem filter_column_replaced {k : Nat} (hm : ∀ x ∈ m, column x = k) (j : Nat) :
    (l.filter (fun x => column x != k) ++ m).filter (fun x => column x == j) =
      if j = k then m else l.filter fun x => column x == j := by
  rw [List.filter_append, List.filter_filter]
  by_cases hj : j = k
  · subst hj
    have hold : (l.filter fun x => column x == j && column x != j) = [] :=
      List.filter_eq_nil_iff.mpr fun x _ => by simp
    have hnew : (m.filter fun x => column x == j) = m := List.filter_eq_self.mpr fun x hx => by simp [hm x hx]
    rw [hold, hnew, if_pos rfl, List.nil_append]
  · have hold : (l.filter fun x => column x == j && column x != k) = l.filter fun x => column x == j :=
      List.filter_congr fun x _ => by
        by_cases hx : column x = j <;> simp [hx, hj]
    have hnew : (m.filter fun x => column x == j) = [] :=
      List.filter_eq_nil_iff.mpr fun x hx => by simp [hm x hx, Ne.symm hj]
    rw [hold, hnew, if_neg hj, List.append_nil]

theorem filter_column_flatMap_range {f : Nat → List α} (hf : ∀ k, ∀ x ∈ f k, column x = k) (n j : Nat) :
    ((List.range n).flatMap f).filter (fun x => column x == j) = if j < n then f j else [] := by
  have hsame : (f j).filter (fun x => column x == j) = f j :=
    List.filter_eq_self.mpr fun x hx => by simp [hf j x hx]
  induction n with
  | zero => rfl
  | succ n ih =>
    rw [List.range_succ, List.flatMap_append, List.filter_append, ih, List.flatMap_singleton]
    by_cases hj : j = n
    · subst hj
      rw [if_neg (lt_irrefl j), if_pos (Nat.lt_succ_self j), hsame, List.nil_append]
    · have hother : (f n).filter (fun x => column x == j) = [] :=
        List.filter_eq_nil_iff.mpr fun x hx => by simp [hf n x hx, Ne.symm hj]
      rw [hother, List.append_nil]
      exact if_congr (by omega) rfl rfl

end Entries

/-! ### What a column has -/

namespace Layout

variable {ws : List (Wire K)} {k : Nat} {ignored : Option GateId}

theorem Stands.lt_columnsOf {p : GateKind → Bool} {r : Nat} (h : Stands p ws k ignored r) :
    k < Circuit.columnsOf ws := by
  obtain ⟨w, g, hw, hg, -⟩ := h
  exact Nat.lt_of_lt_of_le (List.getElem?_eq_some_iff.mp hg).1 (length_le_columnsOf (List.mem_of_getElem? hw))

/-- A border is one of its column, and the column exists. -/
theorem of_mem_columnBorder {b : Border} (h : b ∈ (columnBorder ws k ignored).toList) :
    b.column = k ∧ k < Circuit.columnsOf ws := by
  rw [Option.mem_toList, columnBorder] at h
  split at h
  · rename_i hany
    obtain ⟨w, hw, hcell⟩ := List.any_eq_true.mp hany
    obtain ⟨g, hg, -⟩ := (Option.any_eq_true _ _).mp hcell
    have hlt := (List.getElem?_eq_some_iff.mp (Option.filter_eq_some_iff.mp hg).1).1
    cases h
    exact ⟨rfl, Nat.lt_of_lt_of_le hlt (length_le_columnsOf hw)⟩
  · cases h

/-- A connector is one of its column, and the column exists. -/
theorem of_mem_connectors [Coordinate K] {x : Connector} (h : x ∈ (columnLinks ws k ignored).connectors) :
    x.column = k ∧ k < Circuit.columnsOf ws := by
  rcases mem_connectors_iff.mp h with ⟨row, hx⟩ | ⟨top, bottom, -, hswaps, rfl⟩
  · exact ⟨hx.place, hx.control.lt_columnsOf⟩
  · exact ⟨rfl, ((hswaps top).mpr (.inl rfl)).lt_columnsOf⟩

end Layout

/-! ### Requests one after the other -/

section Strokes

open Circuit

variable [Coordinate K] {c d : Circuit K} {ignored : Option GateId} {strokes : List Stroke}

/-- What requests have made of a circuit: the columns asked for are drawn, and the others are as they were. -/
structure Stroked (c : Circuit K) (ignored : Option GateId) (strokes : List Stroke) (d : Circuit K) : Prop where
  wires : d.wires = c.wires.map (Wire.retouched c.wires ignored fun k => decide (.connectors k ∈ strokes))
  connectors : ∀ k, (d.connectors.filter fun x => x.column == k) =
    if .connectors k ∈ strokes then (Layout.columnLinks c.wires k ignored).connectors
    else c.connectors.filter fun x => x.column == k
  borders : ∀ k, (d.borders.filter fun x => x.column == k) =
    if .borders k ∈ strokes then (Layout.columnBorder c.wires k ignored).toList
    else c.borders.filter fun x => x.column == k
  rest : d = { c with wires := d.wires, connectors := d.connectors, borders := d.borders }

/-- One request draws its part of its column, whatever has been drawn before. -/
theorem Stroked.step (h : Stroked c ignored strokes d) (s : Stroke) :
    Stroked c ignored (strokes ++ [s]) (d.stroke ignored s) := by
  cases s with
  | connectors k =>
    have hlinks : ∀ x ∈ (Layout.columnLinks c.wires k ignored).connectors, x.column = k :=
      fun x hx => (Layout.of_mem_connectors hx).1
    have hdraw : d.stroke ignored (.connectors k) = _ := linkColumn_retouched c.wires ignored
      (d := { d with connectors := d.connectors.filter fun x => x.column != k }) h.wires k
    rw [hdraw]
    refine ⟨?_, fun j => ?_, fun j => ?_, ?_⟩
    · dsimp only
      congr 2
      funext j
      rw [Bool.eq_iff_iff]
      simp
    · dsimp only
      rw [filter_column_replaced Connector.column hlinks, h.connectors]
      by_cases hj : j = k
      · simp [hj]
      · simp [hj]
    · simpa using h.borders j
    · rw [h.rest]
  | borders k =>
    have hborder : Layout.columnBorder d.wires k ignored = Layout.columnBorder c.wires k ignored := by
      rw [← Layout.columnBorder_core, h.wires, List.map_map]
      simp only [Function.comp_def, Wire.core_retouched, Layout.columnBorder_core]
    have hmem : ∀ x ∈ (Layout.columnBorder c.wires k ignored).toList, x.column = k :=
      fun x hx => (Layout.of_mem_columnBorder hx).1
    refine ⟨?_, fun j => ?_, fun j => ?_, ?_⟩
    · simpa [stroke, drawBordersAt] using h.wires
    · simpa [stroke, drawBordersAt] using h.connectors j
    · show ((d.borders.filter fun x => x.column != k) ++ (Layout.columnBorder d.wires k ignored).toList).filter _ = _
      rw [hborder, filter_column_replaced Border.column hmem, h.borders]
      by_cases hj : j = k
      · simp [hj]
      · simp [hj]
    · unfold stroke drawBordersAt
      rw [h.rest]

theorem Stroked.run (c : Circuit K) (ignored : Option GateId) (strokes : List Stroke) :
    Stroked c ignored strokes (strokes.foldl (stroke ignored) c) := by
  induction strokes using List.reverseRecOn with
  | nil =>
    exact ⟨by simp [Wire.retouched_false], fun k => by simp, fun k => by simp, rfl⟩
  | append_singleton strokes s ih =>
    rw [List.foldl_append]
    exact ih.step s

/-! ### All columns -/

theorem Wire.retouched_congr {ws : List (Wire K)} {p q : Nat → Bool} {w : Wire K}
    (h : ∀ k < w.cells.length, p k = q k) : w.retouched ws ignored p = w.retouched ws ignored q := by
  unfold Wire.retouched
  congr 1
  refine List.ext_getElem? fun k => ?_
  rw [List.getElem?_mapIdx, List.getElem?_mapIdx]
  cases hg : w.cells[k]? with
  | none => rfl
  | some g => rw [h k (List.getElem?_eq_some_iff.mp hg).1]

/-- A full redraw column by column. -/
theorem drawBorders_drawConnectors (c : Circuit K) (ignored : Option GateId) :
    (c.drawConnectors ignored).drawBorders ignored =
      { c with
        wires := c.wires.map (Wire.retouched c.wires ignored fun k => decide (k < c.columns))
        connectors := (List.range c.columns).flatMap fun k => (Layout.columnLinks c.wires k ignored).connectors
        borders := (List.range c.columns).flatMap fun k => (Layout.columnBorder c.wires k ignored).toList } := by
  generalize hvs : c.wires.map (Wire.retouched c.wires ignored fun k => decide (k < c.columns)) = vs
  have hdraw : c.drawConnectors ignored =
      { c with
        wires := vs
        connectors := (List.range c.columns).flatMap fun k => (Layout.columnLinks c.wires k ignored).connectors } := by
    rw [← hvs]
    exact foldl_linkColumn_retouched { c with connectors := [] } ignored c.columns
  have hcore : vs.map Wire.core = c.wires.map Wire.core := by
    rw [← hvs, List.map_map]
    exact List.map_congr_left fun w _ => w.core_retouched c.wires ignored _
  have hcolumns : columnsOf vs = c.columns := congrArg Grid.columns (gridOf_of_core hcore)
  have hborder : ∀ k, Layout.columnBorder vs k ignored = Layout.columnBorder c.wires k ignored := fun k => by
    rw [← Layout.columnBorder_core, hcore, Layout.columnBorder_core]
  rw [hdraw]
  show ({ c with wires := vs, connectors := _, borders := (List.range (columnsOf vs)).filterMap _ } : Circuit K) = _
  simp only [hcolumns, hborder, List.filterMap_eq_flatMap_toList]

/-- Requests that come to each column for its connectors and for its border, in any order, again and again, and for
    columns that do not exist as well, draw what a full redraw draws, whatever was drawn before in the columns that
    exist. -/
theorem stroked_eq_redrawn (c : Circuit K) (ignored : Option GateId) (strokes : List Stroke)
    (hconnectors : ∀ x ∈ c.connectors, x.column < c.columns) (hborders : ∀ x ∈ c.borders, x.column < c.columns)
    (hall : ∀ k < c.columns, Stroke.connectors k ∈ strokes ∧ Stroke.borders k ∈ strokes) :
    let d := strokes.foldl (stroke ignored) c
    let full := (c.drawConnectors ignored).drawBorders ignored
    d.connectors.Perm full.connectors ∧ d.borders.Perm full.borders ∧
      d = { full with connectors := d.connectors, borders := d.borders } := by
  intro d full
  have hd : Stroked c ignored strokes d := Stroked.run c ignored strokes
  have hfull : full = _ := drawBorders_drawConnectors c ignored
  have hnil : ∀ {α : Type} {l : List α} {column : α → Nat} {k : Nat}, (∀ x ∈ l, column x < c.columns) →
      ¬ k < c.columns → (l.filter fun x => column x == k) = [] := fun h hk =>
    List.filter_eq_nil_iff.mpr fun x hx heq => hk (beq_iff_eq.mp heq ▸ h x hx)
  have hlinks : ∀ k, ¬ k < c.columns → (Layout.columnLinks c.wires k ignored).connectors = [] := fun k hk =>
    List.eq_nil_iff_forall_not_mem.mpr fun x hx => hk (Layout.of_mem_connectors hx).2
  have hborder : ∀ k, ¬ k < c.columns → (Layout.columnBorder c.wires k ignored).toList = [] := fun k hk =>
    List.eq_nil_iff_forall_not_mem.mpr fun x hx => hk (Layout.of_mem_columnBorder hx).2
  refine ⟨perm_of_filter_column Connector.column fun k => ?_,
    perm_of_filter_column Border.column fun k => ?_, ?_⟩
  · rw [hd.connectors, hfull,
      filter_column_flatMap_range Connector.column fun k x hx => (Layout.of_mem_connectors hx).1]
    by_cases hk : k < c.columns
    · rw [if_pos (hall k hk).1, if_pos hk]
    · rw [if_neg hk, hlinks k hk, hnil hconnectors hk, ite_self]
  · rw [hd.borders, hfull, filter_column_flatMap_range Border.column fun k x hx => (Layout.of_mem_columnBorder hx).1]
    by_cases hk : k < c.columns
    · rw [if_pos (hall k hk).2, if_pos hk]
    · rw [if_neg hk, hborder k hk, hnil hborders hk, ite_self]
  · rw [hfull, hd.rest]
    dsimp only
    congr 1
    rw [hd.wires]
    refine List.map_congr_left fun w hw => Wire.retouched_congr fun k hk => ?_
    have hlt : k < c.columns := Nat.lt_of_lt_of_le hk (length_le_columnsOf hw)
    rw [decide_eq_true (hall k hlt).1, decide_eq_true hlt]

end Strokes

/-- Three wires with a controlled gate in the first column and a postselection in the second one, drawn last while the
    upper control and the measurement were passed over. -/
def staleCircuit : Circuit Rat :=
  { Circuit.ofSettings {} with
    wires :=
      [{ id := ⟨0⟩, cells := [(Gate.inertia 0).withKind (.control .active),
            (Gate.inertia 1).withKind (.measurement .one)] },
        { id := ⟨1⟩, cells := [((Gate.inertia 2).withKind (.standard .x)).withTexture true, .inertia 3] },
        { id := ⟨2⟩, cells := [(Gate.inertia 4).withKind (.control .anti), (Gate.inertia 5).withKind (.standard .z)] }]
    connectors := [⟨0, 1, 2, .quantum⟩, ⟨1, 0, 2, .swap⟩]
    borders := [⟨0, 3⟩] }

/-- It is drawn anew with the lower control passed over, from the second column to the first one. -/
theorem stroked_eq_redrawn_stale :
    let strokes : List Stroke :=
      [.connectors 1, .borders 7, .borders 1, .connectors 0, .connectors 1, .connectors 9, .borders 1, .borders 0]
    let d := strokes.foldl (Circuit.stroke (some ⟨4⟩)) staleCircuit
    let full := (staleCircuit.drawConnectors (some ⟨4⟩)).drawBorders (some ⟨4⟩)
    ((∀ x ∈ staleCircuit.connectors, x.column < staleCircuit.columns) ∧
      (∀ x ∈ staleCircuit.borders, x.column < staleCircuit.columns) ∧
      ∀ k < staleCircuit.columns, Stroke.connectors k ∈ strokes ∧ Stroke.borders k ∈ strokes) ∧
    d.connectors.Perm full.connectors ∧ d.borders.Perm full.borders ∧
      d = { full with connectors := d.connectors, borders := d.borders } := by
  intro strokes d full
  have hconnectors : ∀ x ∈ staleCircuit.connectors, x.column < staleCircuit.columns := by decide
  have hborders : ∀ x ∈ staleCircuit.borders, x.column < staleCircuit.columns := by decide
  have hall : ∀ k < staleCircuit.columns, Stroke.connectors k ∈ strokes ∧ Stroke.borders k ∈ strokes := by decide
  exact ⟨⟨hconnectors, hborders, hall⟩, stroked_eq_redrawn staleCircuit (some ⟨4⟩) strokes hconnectors hborders hall⟩

end CircuitDesigner
