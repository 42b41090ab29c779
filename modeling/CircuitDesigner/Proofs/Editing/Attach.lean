import CircuitDesigner.Proofs.Editing.Drop
import CircuitDesigner.Proofs.Grid.Insertion
import CircuitDesigner.Proofs.Refresh.Ragged

/-! What placing a gate at any position does to the grid, and what a refresh makes of it.

    A fractional position makes a new column on every wire. A whole one is a column, and there the gate and its
    supports take the place of inertias, but go before any other cell, which moves on with all that is behind it on
    that wire. So some wires may shift while others do not, and then they are of different lengths. A refresh mends
    that only where the columns that some wires lack go, or the wires that lack them, and it puts no support back
    below its gate (`attach_consistent_iff`). -/

namespace CircuitDesigner

open Circuit

/-! ### Grids of which some rows shift -/

namespace Circuit.Inserts

variable {K : Type} {ws : List (Wire K)} {G : Grid} {p : Nat → Bool} {g : Gate} {row column r k : Nat}
  {squeeze : Bool}

theorem mark (h : Inserts ws G p g row column) (hfree : (G.shift p column).Free row column g.span) {m : Mark}
    (hm : G.mark r k = some m) : markIn ws r (moved (p r) column k) = some m :=
  (h.marks r _).trans (hfree.mark_put ((G.mark_shift p column r k).trans hm))

theorem exists_of_mark (h : Inserts ws G p g row column) (hm : markIn ws r k ≠ none) :
    (k = column ∧ r < row + g.span) ∨ ∃ j m, moved (p r) column j = k ∧ G.mark r j = some m := by
  by_cases hin : k = column ∧ row ≤ r ∧ r < row + g.span
  · exact .inl ⟨hin.1, hin.2.2⟩
  · rw [h.marks, Grid.mark_put_of_not hin] at hm
    obtain ⟨m, hm⟩ := Option.ne_none_iff_exists'.mp hm
    obtain ⟨j, hj, hm⟩ := Grid.mark_shift_iff.mp hm
    exact .inr ⟨j, m, hj, hm⟩

theorem spanned_iff (h : Inserts ws G p g row column) (hs : G.Spanned) (hu : G.Unique)
    (hfree : (G.shift p column).Free row column g.span) :
    (gridOf ws).Spanned ↔ (∀ i, g.kind ≠ .support i) ∧ G.Together p column := by
  rw [(Grid.Moves.of_marks (G := (G.shift p column).put g row column) h.marks).spanned_iff]
  constructor
  · intro hput
    have hkind : ∀ i, g.kind ≠ .support i := fun i hi => hs.not_put_shift hu hi hfree hput
    exact ⟨hkind, (hs.shift_iff hu).mp ((Grid.Spanned.put_iff hfree hkind).mp hput)⟩
  · rintro ⟨hkind, htogether⟩
    exact (Grid.Spanned.put_iff hfree hkind).mpr ((hs.shift_iff hu).mpr htogether)

/-- No wire is longer than the longest of those that were there. -/
theorem length_le (h : Inserts ws G p g row column) {w : Wire K} (hw : w ∈ ws) :
    w.cells.length ≤ columnsOf (ws.take G.rows) := by
  obtain ⟨r, hr⟩ := List.getElem?_of_mem hw
  rcases Nat.lt_or_ge r G.rows with hlt | hge
  · exact length_le_columnsOf (List.mem_of_getElem? ((List.getElem?_take_of_lt hlt).trans hr))
  · exact Nat.le_of_eq (h.added hr hge)

/-- A wire that does not reach a column in use has stayed as it was, and the column is the one after it. -/
theorem eq_of_not_reached (h : Inserts ws G p g row column) {w : Wire K} (hr : ws[r]? = some w) (hk : Occupied ws k)
    (hge : w.cells.length ≤ k) : r < G.rows ∧ ¬(p r = true ∨ column = G.columns) ∧ k = G.columns := by
  have hlt : k < columnsOf (ws.take G.rows) := by
    obtain ⟨v, hv, o, hcell, -⟩ := hk
    exact Nat.lt_of_lt_of_le (List.getElem?_eq_some_iff.mp hcell).1 (h.length_le hv)
  have hcolumns : columnsOf (ws.take G.rows) ≤ G.columns + 1 := columnsOf_le fun u hu => by
    obtain ⟨i, hi⟩ := List.getElem?_of_mem hu
    rw [List.getElem?_take, Option.ite_none_right_eq_some] at hi
    rw [h.lengths hi.2 hi.1]
    split <;> omega
  have hrows : r < G.rows := by
    by_contra hout
    have hadded := h.added hr (Nat.le_of_not_lt hout)
    omega
  have hlength := h.lengths hr hrows
  split_ifs at hlength with hlong
  · omega
  · exact ⟨hrows, hlong, by omega⟩

/-- What was in the last column has moved on if its row shifts. -/
theorem mark_last (h : Inserts ws G p g row column) (hfree : (G.shift p column).Free row column g.span)
    (hcolumn : column < G.columns) (hshifts : p r = true) {m : Mark} (hm : G.mark r (G.columns - 1) = some m) :
    markIn ws r G.columns = some m := by
  have hmark := h.mark hfree hm
  rwa [hshifts, moved_true (by omega), Nat.sub_add_cancel (by omega)] at hmark

/-- The wires from a row below the gate on are not in use if no gate is on them, and none is put there. -/
theorem idle_iff (h : Inserts ws G p g row column) (hfree : (G.shift p column).Free row column g.span) (hr : row < r) :
    depth ws ≤ r ↔ row + g.span ≤ r ∧ ∀ q, r ≤ q → ∀ k, G.mark q k = none := by
  rw [depth_le_iff]
  constructor
  · intro hnone
    refine ⟨?_, fun q hq k => ?_⟩
    · by_contra hin
      have hcover := (h.marks r column).symm.trans (hnone r column (Nat.le_refl r))
      rw [Grid.mark_put_below hr (by omega)] at hcover
      cases hcover
    · by_contra hne
      obtain ⟨m, hm⟩ := Option.ne_none_iff_exists'.mp hne
      cases (hnone q _ hq).symm.trans (h.mark hfree hm)
  · rintro ⟨hspan, hidle⟩ q k hq
    by_contra hne
    rcases h.exists_of_mark hne with ⟨-, hgap⟩ | ⟨j, m, -, hm⟩
    · omega
    · rw [hidle q hq j] at hm
      cases hm

/-- The wires in use reach all columns in use if what shifts leaves the last column free, or if the wires that stay as
    they are are not in use. -/
theorem reach_iff (h : Inserts ws G (G.shifts g row column squeeze) g row column)
    (hbound : ∀ {r k m}, G.mark r k = some m → r < G.rows ∧ k < G.columns) (least : Nat) :
    (∀ w ∈ ws.take (max least (depth ws)), ∀ k, Occupied ws k → k < w.cells.length) ↔
      (∀ r, G.shifts g row column squeeze r = true → G.mark r (G.columns - 1) = none) ∨
        ∀ r < G.rows, ¬G.shifts g row column squeeze r = true →
          least ≤ r ∧ row + g.span ≤ r ∧ ∀ q, r ≤ q → ∀ k, G.mark q k = none := by
  have hfree := G.free_shift g row column squeeze
  have hspan : 0 < g.span := g.kind.span_pos
  constructor
  · intro hreach
    refine or_iff_not_imp_left.mpr fun hends r hr hstays => ?_
    push Not at hends
    obtain ⟨q, hq, hlast⟩ := hends
    obtain ⟨m, hm⟩ := Option.ne_none_iff_exists'.mp hlast
    obtain ⟨hle, -, htaken⟩ := (Grid.shifts_iff.mp hq).resolve_left fun hnew =>
      hstays (Grid.shifts_iff.mpr (.inl hnew))
    obtain ⟨m', hm'⟩ := Option.ne_none_iff_exists'.mp htaken
    have hcolumn := (hbound hm').2
    have hmoved : markIn ws q G.columns ≠ none := h.mark_last hfree hcolumn hq hm ▸ Option.some_ne_none m
    -- The wire that stays does not reach that column, so that it is not in use.
    have hidle : max least (depth ws) ≤ r := by
      by_contra hin
      have hw := List.getElem?_eq_getElem (show r < ws.length by rw [h.rows]; omega)
      have hlength := h.lengths hw hr
      rw [if_neg (not_or.mpr ⟨hstays, Nat.ne_of_lt hcolumn⟩)] at hlength
      have hlt := hreach _ (List.mem_of_getElem? ((List.getElem?_take_of_lt (by omega)).trans hw)) _
        (occupied_iff_mark.mpr ⟨q, hmoved⟩)
      omega
    have hdepth := lt_depth_iff.mpr ⟨q, Nat.le_refl q, _, hmoved⟩
    exact ⟨by omega, (h.idle_iff hfree (by omega)).mp (by omega)⟩
  · intro hlevel w hw k hk
    by_contra hge
    obtain ⟨r, hr⟩ := List.getElem?_of_mem hw
    rw [List.getElem?_take, Option.ite_none_right_eq_some] at hr
    obtain ⟨hrows, hshort, rfl⟩ := h.eq_of_not_reached hr.2 hk (Nat.le_of_not_lt hge)
    obtain ⟨hstays, hcolumn⟩ := not_or.mp hshort
    rcases hlevel with hends | hrest
    · obtain ⟨i, hne⟩ := occupied_iff_mark.mp hk
      rcases h.exists_of_mark hne with ⟨hgap, -⟩ | ⟨j, m, hj, hm⟩
      · exact hcolumn hgap.symm
      · have hbefore := (hbound hm).2
        unfold moved at hj
        split at hj
        · rename_i hin
          rw [show j = G.columns - 1 by omega, hends i hin.1] at hm
          cases hm
        · omega
    · obtain ⟨hleast, hidle⟩ := hrest r hrows hstays
      have hdepth := (h.idle_iff hfree (by omega)).mpr hidle
      omega

/-- The wires are of one length if all rows shift that there were, or if none does. -/
theorem aligned (h : Inserts ws G p g row column) (hrows : 0 < G.rows) (hu : ∀ r < G.rows, p r = p 0) :
    ∀ v ∈ ws, ∀ w ∈ ws, v.cells.length = w.cells.length := by
  have hthere : ∀ w ∈ ws.take G.rows,
      w.cells.length = if p 0 = true ∨ column = G.columns then G.columns + 1 else G.columns := fun w hw => by
    obtain ⟨r, hr⟩ := List.getElem?_of_mem hw
    rw [List.getElem?_take, Option.ite_none_right_eq_some] at hr
    rw [h.lengths hr.2 hr.1, hu r hr.1]
  have hlength : ws.take G.rows ≠ [] := fun hnil => by
    have hlong := h.rows
    rw [List.take_eq_nil_iff] at hnil
    rcases hnil with hzero | rfl
    · omega
    · rw [List.length_nil] at hlong
      omega
  have hall : ∀ w ∈ ws, w.cells.length = columnsOf (ws.take G.rows) := fun w hw => by
    obtain ⟨r, hr⟩ := List.getElem?_of_mem hw
    rcases Nat.lt_or_ge r G.rows with hlt | hge
    · have hmem := List.mem_of_getElem? ((List.getElem?_take_of_lt hlt).trans hr)
      rw [columnsOf_eq hthere hlength, hthere w hmem]
    · exact h.added hr hge
  exact fun v hv w hw => (hall v hv).trans (hall w hw).symm

end Circuit.Inserts

/-! ### Circuits of which some wires shift -/

namespace Circuit

/-- The gate has a number of the circuit and is in no cell. -/
structure Floating (c : Circuit Rat) (g : Gate) : Prop where
  counted : g.id.index < c.nextGate
  absent : ∀ row column o, c.cell? row column = some o → o.id ≠ g.id

/-- The cells of a row move on when the gate is placed at the position: it makes a new column, or the cell that it needs
    in this row is taken. -/
def Shifts (c : Circuit Rat) (g : Gate) (row : Nat) (position : Rat) (r : Nat) : Prop :=
  Coordinate.isWhole position = false ∨ row ≤ r ∧ r < row + g.span ∧
    ∃ o, c.cell? r (Coordinate.column position c.columns) = some o ∧ o.isInertia = false

/-- The rows of a circuit shift all together, or not at all. -/
def Uniform (c : Circuit Rat) (g : Gate) (row : Nat) (position : Rat) : Prop :=
  (∀ r < c.wires.length, c.Shifts g row position r) ∨ ∀ r < c.wires.length, ¬c.Shifts g row position r

/-- The rows of each gate behind the position shift all together, or not at all. -/
def Together (c : Circuit Rat) (g : Gate) (row : Nat) (position : Rat) : Prop :=
  ∀ q k o, c.cell? q k = some o → Coordinate.column position c.columns ≤ k → ∀ r, q ≤ r → r < q + o.span →
    (c.Shifts g row position r ↔ c.Shifts g row position q)

/-- A refresh brings the rows to one length: those that shift hold no more than inertias in their last cells, or those
    that do not are popped, for neither they nor the rows below them hold a gate or get one, and they are not needed. -/
def Levels (c : Circuit Rat) (g : Gate) (row : Nat) (position : Rat) : Prop :=
  (∀ r, c.Shifts g row position r → ∀ o, c.cell? r (c.columns - 1) = some o → o.isInertia = true) ∨
    ∀ r < c.wires.length, ¬c.Shifts g row position r → c.settings.minQubits ≤ r ∧ row + g.span ≤ r ∧
      ∀ q, r ≤ q → ∀ k o, c.cell? q k = some o → o.isInertia = true

variable {P : GateKind → Prop} {c : Circuit Rat} {g : Gate} {row r : Nat} {position : Rat}

theorem Intact.hold (h : c.Intact P []) (hg : c.Floating g) : c.Intact P [g.id] := by
  refine ⟨⟨h.shows, h.spanned, h.kinds, fun i => ?_, h.owned⟩, h.collapsed⟩
  have hle := h.numbered i
  by_cases hi : g.id = i
  · subst hi
    have habsent : usesIn c.wires g.id = 0 := by
      rw [usesIn_eq_count, List.count_eq_zero]
      intro hmem
      obtain ⟨o, ho, hid⟩ := List.mem_map.mp hmem
      obtain ⟨w, hw, ho⟩ := List.mem_flatMap.mp ho
      obtain ⟨r, hr⟩ := List.getElem?_of_mem hw
      obtain ⟨k, hk⟩ := List.getElem?_of_mem ho
      exact hg.absent r k o (by rw [cell?_eq_bind, hr]; exact hk) hid
    have hcounted := hg.counted
    rw [habsent, List.count_cons_self]
    unfold made
    rw [if_pos ⟨Nat.zero_le _, hcounted⟩]
    rfl
  · simpa [List.count_cons, hi] using hle

theorem floating_newGate (hc : c.WellFormed) (kind : GateKind) : (c.newGate kind).2.Floating (c.newGate kind).1 where
  counted := Nat.lt_succ_self c.nextGate
  absent r k o ho hid := by
    obtain ⟨w, hw, ho⟩ := Option.bind_eq_some_iff.mp (cell?_eq_bind c r k ▸ ho)
    have hlt := hc.counted w (List.mem_of_getElem? hw) o (List.mem_of_getElem? ho)
    rw [hid] at hlt
    exact Nat.lt_irrefl _ hlt

/-- The rows of the grid that shift. -/
def shifting (c : Circuit Rat) (g : Gate) (row : Nat) (position : Rat) : Nat → Bool :=
  (gridOf c.wires).shifts g row (Coordinate.column position c.columns) (!Coordinate.isWhole position)

theorem shifts_iff : c.Shifts g row position r ↔ c.shifting g row position r = true := by
  unfold shifting
  rw [Grid.shifts_iff, Bool.not_eq_true', ne_eq, ← forall_isInertia_iff]
  simp [Shifts]

instance : DecidablePred (c.Shifts g row position) := fun _ => decidable_of_iff _ shifts_iff.symm

theorem together_iff : c.Together g row position ↔
    (gridOf c.wires).Together (c.shifting g row position) (Coordinate.column position c.columns) := by
  constructor
  · intro h q k id kind hm hk r hle hlt
    obtain ⟨o, ho, hmark⟩ := exists_cell?_of_mark hm
    obtain ⟨-, rfl, -⟩ := Gate.mark?_eq_gate_iff.mp hmark
    have hsame := h q k o ho hk r hle hlt
    rwa [shifts_iff, shifts_iff, ← Bool.eq_iff_iff] at hsame
  · intro h q k o ho hk r hle hlt
    by_cases hp : o.kind.isPlaceholder = true
    · have hspan : o.span = 1 := GateKind.span_eq_one_of_isPlaceholder hp
      obtain rfl : r = q := by omega
      rfl
    · rw [shifts_iff, shifts_iff, ← Bool.eq_iff_iff]
      exact h (gate_of_cell? ho (Bool.eq_false_iff.mpr hp)) hk r hle hlt

theorem levels_iff : c.Levels g row position ↔
    (∀ r, c.shifting g row position r = true → (gridOf c.wires).mark r (c.columns - 1) = none) ∨
      ∀ r < c.wires.length, ¬c.shifting g row position r = true →
        c.settings.minQubits ≤ r ∧ row + g.span ≤ r ∧ ∀ q, r ≤ q → ∀ k, (gridOf c.wires).mark q k = none := by
  unfold Levels
  simp only [shifts_iff, forall_isInertia_iff]

theorem Uniform.shifts_eq (hu : c.Uniform g row position) {q : Nat} (hq : q < c.wires.length)
    (hr : r < c.wires.length) : c.shifting g row position q = c.shifting g row position r := by
  rw [Bool.eq_iff_iff, ← shifts_iff, ← shifts_iff]
  rcases hu with hall | hnone
  · exact iff_of_true (hall q hq) (hall r hr)
  · exact iff_of_false (hnone q hq) (hnone r hr)

/-- Where some rows shift and others do not, the wires of these are shorter than those of the others. -/
theorem aligned_iff_uniform {ws : List (Wire Rat)} (hrow : row < c.wires.length)
    (h : Inserts ws (gridOf c.wires) (c.shifting g row position) g row (Coordinate.column position c.columns)) :
    (∀ v ∈ ws, ∀ w ∈ ws, v.cells.length = w.cells.length) ↔ c.Uniform g row position := by
  have hrows : 0 < c.wires.length := Nat.lt_of_le_of_lt (Nat.zero_le row) hrow
  refine ⟨fun haligned => ?_, fun hu => h.aligned hrows fun r hr => hu.shifts_eq hr hrows⟩
  by_contra hu
  unfold Uniform at hu
  push Not at hu
  obtain ⟨⟨q, hq, hstays⟩, r, hr, hshifts⟩ := hu
  -- Something shows in the column, so that it is not the one after the last.
  have hcolumn : Coordinate.column position c.columns < c.columns := by
    rcases id hshifts with hnew | ⟨-, -, o, ho, -⟩
    · exact absurd (.inl hnew) hstays
    · exact (lt_of_cell? ho).2
  rw [shifts_iff] at hstays hshifts
  have hlength : ws.length = max c.wires.length (row + g.span) := h.rows
  have hv := List.getElem?_eq_getElem (show q < ws.length by omega)
  have hw := List.getElem?_eq_getElem (show r < ws.length by omega)
  have hshort := (h.lengths hv hq).trans (if_neg (not_or.mpr ⟨hstays, Nat.ne_of_lt hcolumn⟩))
  have hlong := (h.lengths hw hr).trans (if_pos (.inl hshifts))
  have heq := haligned _ (List.mem_of_getElem? hv) _ (List.mem_of_getElem? hw)
  omega

/-- Where all rows shift or none does, no gate is torn apart. -/
theorem Uniform.together (h : Shows c.wires (gridOf c.wires)) (hs : (gridOf c.wires).Spanned)
    (hu : c.Uniform g row position) : c.Together g row position := by
  rw [together_iff]
  intro q k id kind hm _ r hle hlt
  have hlast := h.add_span_le hs hm
  exact hu.shifts_eq (Nat.lt_of_lt_of_le hlt hlast) (h.lt_of_mark hm).1

end Circuit

/-- A floating gate can be placed in any row and at any position, and is in its cell then, before what was there in
    the rows that shift. The wires have one length afterwards if and only if all rows shift or none does, and the
    circuit is consistent then, unless the gate is a support. A refresh leaves it consistent if and only if the gate
    is no support, no gate stands on rows that shift and on rows that do not, and the rows come to one length. Where
    it is consistent, it is well formed. -/
theorem attach_consistent_iff {c : Circuit Rat} (hc : c.WellFormed) {g : Gate} (hg : c.Floating g) {row : Nat}
    (hrow : row < c.wires.length) (position : Rat) :
    ∃ d, c.attach? g row position = some d ∧
      (∃ o, d.cell? row (Coordinate.column position c.columns) = some o ∧ o.id = g.id ∧ o.kind = g.kind) ∧
      Inserts d.wires (gridOf c.wires) (fun r => decide (c.Shifts g row position r)) g row
        (Coordinate.column position c.columns) ∧
      ((∀ v ∈ d.wires, ∀ w ∈ d.wires, v.cells.length = w.cells.length) ↔ c.Uniform g row position) ∧
      (d.Consistent ↔ c.Uniform g row position ∧ ∀ p, g.kind ≠ .support p) ∧
      (d.refresh.Consistent ↔ (∀ p, g.kind ≠ .support p) ∧ c.Together g row position ∧ c.Levels g row position) ∧
      (d.Consistent → d.WellFormed ∧ d.refresh.WellFormed) ∧ (d.refresh.Consistent → d.refresh.WellFormed) := by
  have hintact : c.Intact (fun _ => True) [g.id] := (hc.intact fun _ _ _ _ _ => trivial).hold hg
  have hcolumn := Coordinate.column_le position c.columns
  have hkept := c.kept_put g row (Coordinate.column position c.columns) (!Coordinate.isWhole position)
  have hcell := exists_cell?_put hintact.shows hrow hcolumn g (!Coordinate.isWhole position)
  have hinserts : Inserts _ _ (c.shifting g row position) _ _ _ :=
    inserts_put hintact.shows hrow hcolumn g (!Coordinate.isWhole position)
  have hl := labelled_put hintact.counted_hand row (Coordinate.column position c.columns) (!Coordinate.isWhole position)
  have hattach : c.attach? g row position =
      some (c.put g row (Coordinate.column position c.columns) (!Coordinate.isWhole position)) :=
    if_pos (by simpa [Coordinate.isNumber] using hrow)
  generalize c.put g row (Coordinate.column position c.columns) (!Coordinate.isWhole position) = d at *
  have ho := hkept.closed Wire.closed_owned hintact.owned
  have hcollapsed := hkept.closed Wire.closed_collapsed hintact.collapsed
  have hspanned := hinserts.spanned_iff hintact.spanned hintact.labelled.unique_gridOf (Grid.free_shift _ _ _ _ _)
  rw [← together_iff] at hspanned
  have haligned := aligned_iff_uniform hrow hinserts
  have horderly : d.Orderly ↔ c.Uniform g row position ∧ ∀ p, g.kind ≠ .support p := by
    rw [← haligned]
    refine ⟨fun h => ⟨h.aligned, (hspanned.mp h.supported.spanned).1⟩, fun ⟨h, hkind⟩ => ⟨h, ?_⟩⟩
    exact supported_of_spanned
      (hspanned.mpr ⟨hkind, (haligned.mp h).together hintact.shows hintact.spanned⟩) hl
  have hrefresh : d.refresh.Orderly ↔
      (∀ p, g.kind ≠ .support p) ∧ c.Together g row position ∧ c.Levels g row position := by
    rw [orderly_refresh_iff hl, hspanned, hinserts.reach_iff hintact.shows.lt_of_mark, hkept.settings, levels_iff]
    exact ⟨fun ⟨h, h', h''⟩ => ⟨h', h'', h⟩, fun ⟨h', h'', h⟩ => ⟨h, h', h''⟩⟩
  have hformed : d.Orderly → d.WellFormed := fun h => h.wellFormed hl ho hcollapsed
  have hformed' : d.refresh.Orderly → d.refresh.WellFormed := fun h => wellFormed_refresh h hl ho hcollapsed
  have hshifts : (fun r => decide (c.Shifts g row position r)) = c.shifting g row position :=
    funext fun r => by rw [Bool.eq_iff_iff, decide_eq_true_iff, shifts_iff]
  rw [← hshifts] at hinserts
  refine ⟨d, hattach, hcell, hinserts, haligned, ?_, ?_, fun h => ?_, fun h => hformed' h.orderly⟩
  · exact ⟨fun h => horderly.mp h.orderly, fun h => (hformed (horderly.mpr h)).toConsistent⟩
  · exact ⟨fun h => hrefresh.mp h.orderly, fun h => (hformed' (hrefresh.mpr h)).toConsistent⟩
  · have hwell := hformed h.orderly
    exact ⟨hwell, (hwell.intact fun _ _ _ _ _ => trivial : d.Intact (fun _ => True) []).refresh.wellFormed⟩

/-- A new gate on the first of three wires, and another gate to be placed. -/
def singleDraft : Circuit Rat := ((single {} (.standard .h) 0).refresh.newGate (.standard .x)).2

def singleGate : Gate := ((single {} (.standard .h) 0).refresh.newGate (.standard .x)).1

/-- A support that takes its place. -/
def singleSupport : Gate := { id := singleGate.id, kind := .support ⟨0⟩ }

theorem wellFormed_singleDraft : singleDraft.WellFormed ∧ singleDraft.Floating singleGate := by
  have hintact : (single {} (.standard .h) 0).Intact (GateKind.Known {}) [] := intact_single (by rfl) (by decide)
  exact ⟨(hintact.refresh.newGate (.standard .x)).discard.wellFormed, floating_newGate hintact.refresh.wellFormed _⟩

/-- The two gates on wires and in columns of their own, and a third one to be placed. -/
def staggered : Circuit Rat := ((singleDraft.put singleGate 1 0 true).newGate (.standard .z)).2

def staggeredGate : Gate := ((singleDraft.put singleGate 1 0 true).newGate (.standard .z)).1

/-- The gate goes before the other one, in a column of its own. A third one goes before the gate, on the one wire that
    the gate is on, which has an idle cell at its end then. -/
theorem attach_consistent_iff_single :
    (∃ d, singleDraft.attach? singleGate 1 (-1 / 2) = some d ∧ d.refresh.WellFormed) ∧
      ∃ d, staggered.attach? staggeredGate 1 0 = some d ∧ ¬d.Consistent ∧ d.refresh.WellFormed := by
  obtain ⟨hformed, hfloating⟩ := wellFormed_singleDraft
  have hrow : 1 < singleDraft.wires.length := by decide
  obtain ⟨d, hd, -, -, -, hconsistent, -, hboth, -⟩ := attach_consistent_iff hformed hfloating hrow (-1 / 2)
  have hwell := hboth (hconsistent.mpr ⟨.inl fun _ _ => .inl (by decide +kernel), nofun⟩)
  refine ⟨⟨d, hd, hwell.2⟩, ?_⟩
  have hput : singleDraft.attach? singleGate 1 (-1 / 2) = some (singleDraft.put singleGate 1 0 true) := by
    have hcolumn : Coordinate.column (-1 / 2 : Rat) singleDraft.columns = 0 ∧
        Coordinate.isWhole (-1 / 2 : Rat) = false := by
      decide +kernel
    unfold attach?
    rw [if_pos (by decide), hcolumn.1, hcolumn.2, Bool.not_false]
  obtain rfl := Option.some.inj (hput.symm.trans hd)
  have hstaggered : staggered.WellFormed :=
    ((hwell.1.intact fun _ _ _ _ _ => trivial : Intact (fun _ => True) [] _).newGate (.standard .z)).discard.wellFormed
  have hrow : 1 < staggered.wires.length := by decide +kernel
  obtain ⟨e, he, -, -, -, hconsistent, hrefresh, -, hformed⟩ :=
    attach_consistent_iff hstaggered (floating_newGate hwell.1 _) hrow 0
  have hshifts : ¬staggered.Shifts staggeredGate 1 0 0 ∧ staggered.Shifts staggeredGate 1 0 1 := by decide +kernel
  have hspan : ∀ w ∈ staggered.wires, ∀ o ∈ w.cells, o.span = 1 := by decide +kernel
  have hlast : ∀ o, staggered.cell? 1 (staggered.columns - 1) = some o → o.isInertia = true := by decide +kernel
  refine ⟨e, he, fun h => ?_, hformed (hrefresh.mpr ⟨nofun, fun q k o ho _ r hle hlt => ?_, .inl fun r hr => ?_⟩)⟩
  · rcases (hconsistent.mp h).1 with hall | hnone
    · exact hshifts.1 (hall 0 (by decide +kernel))
    · exact hnone 1 hrow hshifts.2
  · obtain ⟨w, hw, ho⟩ := Option.bind_eq_some_iff.mp (cell?_eq_bind staggered q k ▸ ho)
    have hone := hspan w (List.mem_of_getElem? hw) o (List.mem_of_getElem? ho)
    obtain rfl : r = q := by omega
    rfl
  · rcases hr with hnew | ⟨hle, hlt, -⟩
    · cases hnew
    · obtain rfl : r = 1 := Nat.le_antisymm (Nat.le_of_lt_succ hlt) hle
      exact hlast

/-- Placed in the cell of the other one, the gate moves it on while the other wires stay as they are. A support of the
    other gate is out of place wherever it goes. -/
theorem attach_inconsistent : singleDraft.WellFormed ∧ singleDraft.Floating singleGate ∧
    (∃ d, singleDraft.attach? singleGate 0 0 = some d ∧ ¬d.refresh.Consistent) ∧
    ∃ d, singleDraft.attach? singleSupport 0 (-1 / 2) = some d ∧ ¬d.refresh.Consistent := by
  obtain ⟨hformed, hfloating⟩ := wellFormed_singleDraft
  refine ⟨hformed, hfloating, ?_, ?_⟩
  · have hattach : (singleDraft.attach? singleGate 0 0).any fun d =>
        d.refresh.wires.map (·.cells.length) == [2, 1, 1] := by decide +kernel
    obtain ⟨d, hd, hlengths⟩ := (Option.any_eq_true _ _).mp hattach
    exact ⟨d, hd, fun h => Nat.succ_ne_self 1 (h.orderly.eq_of_lengths (beq_iff_eq.mp hlengths))⟩
  · have hattach : (singleDraft.attach? singleSupport 0 (-1 / 2)).any fun d =>
        (d.refresh.cell? 0 0).any (fun s => s.kind == .support ⟨0⟩) &&
          (d.refresh.cell? 0 1).any (fun g => g.id == ⟨0⟩) := by
      decide +kernel
    obtain ⟨d, hd, hcells⟩ := (Option.any_eq_true _ _).mp hattach
    simp only [Bool.and_eq_true, Option.any_eq_true, beq_iff_eq] at hcells
    obtain ⟨⟨s, hs, hkind⟩, g, hg, hid⟩ := hcells
    exact ⟨d, hd, fun h => Nat.zero_ne_one ((h.supports hg 0 0).mp ⟨s, hs, hid ▸ hkind⟩).1⟩

end CircuitDesigner
