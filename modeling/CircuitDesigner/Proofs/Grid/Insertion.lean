import CircuitDesigner.Proofs.Grid.Shifted
import CircuitDesigner.Proofs.Grid.Sound

/-! Gates that are put into cells that may be taken.

    In a column that all wires reach, a gate takes the place of an inertia, and goes before any other gate, which moves
    on by one cell with all that is behind it on its wire. The same goes for each support below it. So each wire is
    described by itself (`getElem?_put`), and so are the new ones at the bottom (`Reaches.putSupports_below`). Together
    they show the grid with some of its rows shifted and the gate in the gap, but only the wires of these rows have got
    longer (`inserts_put`). -/

namespace CircuitDesigner

variable {K : Type} [Coordinate K]

/-! ### Wires -/

section Wires

variable {w : Wire K} {g : Gate} {column next : Nat}

/-- The wire with a gate in a column: in place of an inertia, or before another gate. -/
def Wire.accepted (w : Wire K) (g : Gate) (column next : Nat) : Wire K :=
  (w.place g column ((w.cells[column]?).any Gate.isInertia) next).1

omit [Coordinate K] in
theorem Wire.any_isInertia_iff (h : column < w.cells.length) :
    (w.cells[column]?).any Gate.isInertia = true ↔ w.mark? column = none := by
  unfold Wire.mark?
  rw [List.getElem?_eq_getElem h, Option.any_some, Option.bind_some, Gate.mark?_eq_none_iff]

theorem Wire.length_accepted (h : column < w.cells.length) :
    (w.accepted g column next).cells.length =
      if w.mark? column = none then w.cells.length else w.cells.length + 1 := by
  unfold Wire.accepted
  split
  · rename_i hfree
    rw [(Wire.any_isInertia_iff h).mpr hfree, Wire.place_true g next h]
    exact List.length_set
  · rename_i htaken
    rw [Bool.eq_false_iff.mpr ((Wire.any_isInertia_iff h).not.mpr htaken), Wire.length_place_false]
    omega

theorem Wire.mark?_accepted (h : column < w.cells.length) (k : Nat) :
    (w.accepted g column next).mark? k = if k = column then g.mark?
      else if w.mark? column ≠ none ∧ column ≤ k then w.mark? (k - 1) else w.mark? k := by
  unfold Wire.accepted
  by_cases hfree : w.mark? column = none
  · rw [(Wire.any_isInertia_iff h).mpr hfree, Wire.mark?_place_true g next k h]
    simp [hfree]
  · rw [Bool.eq_false_iff.mpr ((Wire.any_isInertia_iff h).not.mpr hfree), Wire.mark?_place_false]
    rcases Nat.lt_trichotomy k column with hlt | rfl | hlt
    · rw [if_pos hlt, if_neg (by omega), if_neg (by omega)]
    · rw [if_neg (by omega), if_pos rfl, if_pos rfl]
    · rw [if_neg (by omega), if_neg (by omega), if_neg (by omega), if_pos ⟨hfree, by omega⟩]

theorem Wire.getElem?_accepted (h : column < w.cells.length) :
    (w.accepted g column next).cells[column]? = some (g.ownedBy w.id) := by
  unfold Wire.accepted
  cases (w.cells[column]?).any Gate.isInertia with
  | true =>
    rw [Wire.place_true g next h]
    exact List.getElem?_set_self h
  | false =>
    rw [Wire.place_false]
    exact List.getElem?_insertIdx_self.trans (if_pos (by rw [List.length_append]; omega))

theorem Wire.lt_length_accepted (h : column < w.cells.length) : column < (w.accepted g column next).cells.length := by
  rw [Wire.length_accepted h]
  split <;> omega

end Wires

/-! ### Circuits -/

namespace Circuit

variable {c : Circuit K} {w : Wire K} {g : Gate} {G : Grid} {row column r : Nat}

theorem putSupports_putSupports (c : Circuit K) (parent : GateId) (column row m n : Nat) :
    (c.putSupports parent column row m).putSupports parent column (row + m) n =
      c.putSupports parent column row (m + n) := by
  induction m generalizing c row with
  | zero =>
    rw [Nat.zero_add]
    rfl
  | succ m ih =>
    rw [Nat.succ_add, show row + (m + 1) = row + 1 + m by omega]
    exact ih _ (row + 1)

/-- All wires reach the column. -/
def Reaches (c : Circuit K) (column : Nat) : Prop := ∀ w ∈ c.wires, column < w.cells.length

omit [Coordinate K] in
theorem reaches_of_shows (h : Shows c.wires G) (hcolumn : column < G.columns) : c.Reaches column :=
  fun _ hw => h.lt_length hw hcolumn

theorem Reaches.addWires (h : c.Reaches column) (hw : c.wires[r]? = some w) (count : Nat) :
    (c.addWires count).Reaches column ∧ (c.addWires count).wires[r]? = some w := by
  induction count generalizing c with
  | zero => exact ⟨h, hw⟩
  | succ count ih =>
    refine ih (c := c.addWire) ?_ ?_
    · have hcolumn : column < c.columns :=
        Nat.lt_of_lt_of_le (h w (List.mem_of_getElem? hw)) (length_le_columnsOf (List.mem_of_getElem? hw))
      intro v hv
      rw [addWire_wires] at hv
      rcases List.mem_append.mp hv with hv | hv
      · exact h v hv
      · rw [List.mem_singleton.mp hv, length_freshWire]
        exact hcolumn
    · rw [addWire_wires, List.getElem?_append_left (List.getElem?_eq_some_iff.mp hw).1]
      exact hw

/-- A gate put into a column that all wires reach changes its wire only. -/
theorem Reaches.putCell (h : c.Reaches column) (g : Gate) (row : Nat) :
    (c.putCell g row column false).Reaches column ∧ ∃ n, ∀ r, (c.putCell g row column false).wires[r]? =
      (c.wires[r]?).map fun w => if r = row then w.accepted g column n else w := by
  have hwires : ∃ n, ∀ r, (c.putCell g row column false).wires[r]? =
      (c.wires[r]?).map fun w => if r = row then w.accepted g column n else w := by
    refine ⟨c.nextGate, fun r => ?_⟩
    rw [putCell_eq, openColumn_eq_self h]
    dsimp only
    rw [List.getElem?_modify]
    unfold Wire.accepted
    by_cases hr : row = r
    · subst hr
      simp
    · simp [hr, Ne.symm hr]
  refine ⟨fun v hv => ?_, hwires⟩
  obtain ⟨n, hn⟩ := hwires
  obtain ⟨r, hr⟩ := List.getElem?_of_mem hv
  rw [hn] at hr
  obtain ⟨w, hw, rfl⟩ := Option.map_eq_some_iff.mp hr
  have hlt := h w (List.mem_of_getElem? hw)
  split
  · exact Wire.lt_length_accepted hlt
  · exact hlt

theorem Reaches.getElem?_putSupports (h : c.Reaches column) (hw : c.wires[r]? = some w) (parent : GateId)
    (row count : Nat) :
    ∃ (s : Gate) (n : Nat), s.kind = .support parent ∧ (c.putSupports parent column row count).wires[r]? =
      some (if row ≤ r ∧ r < row + count then w.accepted s column n else w) := by
  induction count generalizing c w row with
  | zero => exact ⟨{ id := ⟨0⟩, kind := .support parent }, 0, rfl, by rw [if_neg (by omega)]; exact hw⟩
  | succ count ih =>
    unfold putSupports
    dsimp only [newGate]
    obtain ⟨hadd, hwadd⟩ := h.addWires hw (row + 1 - c.wires.length)
    generalize c.addWires (row + 1 - c.wires.length) = b at hadd hwadd ⊢
    obtain ⟨hput, n, hn⟩ := Reaches.putCell (c := { b with nextGate := b.nextGate + 1 }) hadd
      { id := ⟨b.nextGate⟩, kind := .support parent } row
    have hwput := hn r
    dsimp only at hwput
    rw [hwadd, Option.map_some] at hwput
    obtain ⟨s, n', hs, hrest⟩ := ih hput hwput (row + 1)
    rw [hrest]
    by_cases hr : r = row
    · subst hr
      exact ⟨_, n, rfl, by rw [if_neg (by omega), if_pos rfl, if_pos (by omega)]⟩
    · refine ⟨s, n', hs, ?_⟩
      rw [if_neg hr]
      by_cases hin : row + 1 ≤ r ∧ r < row + 1 + count
      · rw [if_pos hin, if_pos (by omega)]
      · rw [if_neg hin, if_neg (by omega)]

/-- A gate put into a column that all wires reach, with some of its supports, changes each wire that it covers. -/
theorem Reaches.getElem?_putSupports_putCell (h : c.Reaches column) (hw : c.wires[r]? = some w) (g : Gate)
    (row count : Nat) :
    ∃ (o : Gate) (n : Nat), (if r = row then o = g else o.kind = .support g.id) ∧
      ((c.putCell g row column false).putSupports g.id column (row + 1) count).wires[r]? =
        some (if row ≤ r ∧ r < row + (count + 1) then w.accepted o column n else w) := by
  obtain ⟨hput, n, hn⟩ := h.putCell g row
  have hwput := hn r
  rw [hw, Option.map_some] at hwput
  obtain ⟨s, n', hs, hrest⟩ := hput.getElem?_putSupports hwput g.id (row + 1) count
  rw [hrest]
  by_cases hr : r = row
  · subst hr
    exact ⟨g, n, by rw [if_pos rfl], by rw [if_neg (by omega), if_pos rfl, if_pos (by omega)]⟩
  · refine ⟨s, n', by rw [if_neg hr]; exact hs, ?_⟩
    rw [if_neg hr]
    by_cases hin : row + 1 ≤ r ∧ r < row + 1 + count
    · rw [if_pos hin, if_pos (by omega)]
    · rw [if_neg hin, if_neg (by omega)]

theorem Reaches.getElem?_put (h : c.Reaches column) (hw : c.wires[r]? = some w) (g : Gate) (row : Nat) :
    ∃ (o : Gate) (n : Nat), (if r = row then o = g else o.kind = .support g.id) ∧
      (c.put g row column false).wires[r]? =
        some (if row ≤ r ∧ r < row + g.span then w.accepted o column n else w) := by
  have hspan : 0 < g.span := g.kind.span_pos
  have hput := h.getElem?_putSupports_putCell hw g row (g.span - 1)
  rwa [show g.span - 1 + 1 = g.span by omega] at hput

/-- Once a column is opened, all wires reach it. -/
theorem put_openColumn (h : Shows c.wires G) (hrows : 0 < G.rows) (hcolumn : column ≤ G.columns) (g : Gate) (row : Nat)
    (squeeze : Bool) :
    let wires := (openColumn squeeze column c.wires c.nextGate).1
    let d : Circuit K := { c with wires, nextGate := (openColumn squeeze column c.wires c.nextGate).2 }
    d.Reaches column ∧ c.put g row column squeeze = d.put g row column false := by
  intro wires d
  have hreaches : d.Reaches column :=
    reaches_of_shows (h.openColumn squeeze hcolumn hrows c.nextGate) (openColumn_grid_bounds squeeze hrows hcolumn).2
  refine ⟨hreaches, ?_⟩
  unfold put
  rw [putCell_eq, putCell_eq, openColumn_eq_self hreaches]

/-- The gate is in the cell where it was put. -/
theorem exists_cell?_put (h : Shows c.wires G) (hrow : row < G.rows) (hcolumn : column ≤ G.columns) (g : Gate)
    (squeeze : Bool) : ∃ o, (c.put g row column squeeze).cell? row column = some o ∧ o.id = g.id ∧ o.kind = g.kind := by
  obtain ⟨hreaches, heq⟩ := put_openColumn h (by omega) hcolumn g row squeeze
  have hr : row < (openColumn squeeze column c.wires c.nextGate).1.length := by
    rw [length_openColumn, h.rows]
    exact hrow
  have hspan : 0 < g.span := g.kind.span_pos
  obtain ⟨o, n, ho, hv⟩ := hreaches.getElem?_put (List.getElem?_eq_getElem hr) g row
  rw [if_pos rfl] at ho
  rw [if_pos ⟨Nat.le_refl row, by omega⟩, ho] at hv
  refine ⟨g.ownedBy (openColumn squeeze column c.wires c.nextGate).1[row].id, ?_, rfl, rfl⟩
  unfold cell?
  rw [heq, hv]
  exact Wire.getElem?_accepted (hreaches _ (List.getElem_mem hr))

/-- A wire gets longer if a cell of it was taken that the gate needs, and what was in that cell and behind it moves
    on. -/
theorem Reaches.exists_put (h : c.Reaches column) (hw : c.wires[r]? = some w) (g : Gate) (row : Nat) :
    ∃ v, (c.put g row column false).wires[r]? = some v ∧
      v.cells.length =
        (if row ≤ r ∧ r < row + g.span ∧ w.mark? column ≠ none then w.cells.length + 1 else w.cells.length) ∧
      ∀ k, v.mark? k = if k = column ∧ row ≤ r ∧ r < row + g.span then if r = row then g.mark? else some (.cover g.id)
        else if (row ≤ r ∧ r < row + g.span ∧ w.mark? column ≠ none) ∧ column ≤ k then w.mark? (k - 1)
        else w.mark? k := by
  have hlt := h w (List.mem_of_getElem? hw)
  obtain ⟨o, n, ho, hv⟩ := h.getElem?_put hw g row
  refine ⟨_, hv, ?_, fun k => ?_⟩
  · by_cases hin : row ≤ r ∧ r < row + g.span
    · rw [if_pos hin, Wire.length_accepted hlt]
      simp [hin]
    · rw [if_neg hin, if_neg fun h => hin ⟨h.1, h.2.1⟩]
  · by_cases hin : row ≤ r ∧ r < row + g.span
    · have hmark : o.mark? = if r = row then g.mark? else some (.cover g.id) := by
        split_ifs at ho ⊢
        · rw [ho]
        · exact Gate.mark?_eq_cover_iff.mpr ho
      rw [if_pos hin, Wire.mark?_accepted hlt, hmark]
      simp [hin]
    · rw [if_neg hin, if_neg fun h => hin h.2, if_neg fun h => hin ⟨h.1.1, h.1.2.1⟩]

/-- A support below the last wire is on a new one, which is as long as the longest wire was. -/
theorem Reaches.putSupports_one (h : c.Reaches column) (hrows : 0 < c.wires.length) (parent : GateId) :
    ∃ v, (c.putSupports parent column c.wires.length 1).wires = c.wires ++ [v] ∧ v.cells.length = c.columns ∧
      (∀ k, v.mark? k = if k = column then some (.cover parent) else none) ∧
      (c.putSupports parent column c.wires.length 1).Reaches column := by
  have hstep : ∃ (b : Circuit K) (s : Gate), b.wires = c.addWire.wires ∧ s.kind = .support parent ∧
      c.putSupports parent column c.wires.length 1 = b.putCell s c.wires.length column false := by
    unfold putSupports
    rw [Nat.add_sub_cancel_left]
    exact ⟨{ c.addWire with nextGate := c.addWire.nextGate + 1 }, _, rfl, rfl, rfl⟩
  obtain ⟨b, s, hb, hs, heq⟩ := hstep
  have hreaches : b.Reaches column := by
    unfold Reaches
    rw [hb]
    exact (h.addWires (List.getElem?_eq_getElem hrows) 1).1
  obtain ⟨hput, n, hn⟩ := hreaches.putCell s c.wires.length
  rw [addWire_wires] at hb
  have hcolumn : column < c.freshWire.1.cells.length := hreaches _ (hb ▸ List.mem_append_right _ List.mem_cons_self)
  have hfree : c.freshWire.1.mark? column = none := mark?_freshWire c column
  rw [heq]
  refine ⟨c.freshWire.1.accepted s column n, List.ext_getElem? fun r => ?_, ?_, fun k => ?_, hput⟩
  · rw [hn, hb]
    rcases Nat.lt_trichotomy r c.wires.length with hr | rfl | hr
    · simp [List.getElem?_append_left hr, Nat.ne_of_lt hr]
    · simp
    · rw [List.getElem?_eq_none (by simp; omega), List.getElem?_eq_none (by simp; omega)]
      rfl
  · rw [Wire.length_accepted hcolumn, if_pos hfree, length_freshWire]
  · rw [Wire.mark?_accepted hcolumn, Gate.mark?_eq_cover_iff.mpr hs]
    simp only [mark?_freshWire, ite_self]

/-- Supports below the last wire are on new ones, which are as long as the longest wire was. -/
theorem Reaches.putSupports_below (h : c.Reaches column) (hrows : 0 < c.wires.length) (parent : GateId) (count : Nat) :
    ∃ vs, (c.putSupports parent column c.wires.length count).wires = c.wires ++ vs ∧ vs.length = count ∧
      ∀ v ∈ vs, v.cells.length = c.columns ∧ ∀ k, v.mark? k = if k = column then some (.cover parent) else none := by
  induction count generalizing c with
  | zero => exact ⟨[], (List.append_nil _).symm, rfl, nofun⟩
  | succ count ih =>
    obtain ⟨v, hv, hlength, hmarks, hreaches⟩ := h.putSupports_one hrows parent
    rw [Nat.add_comm, ← putSupports_putSupports]
    generalize c.putSupports parent column c.wires.length 1 = e at hv hreaches
    have hcolumns : e.columns = c.columns := by
      show columnsOf e.wires = columnsOf c.wires
      rw [hv, columnsOf_append, columnsOf_cons, hlength]
      exact Nat.max_eq_left (Nat.max_le.mpr ⟨Nat.le_refl _, Nat.zero_le _⟩)
    have hnext : e.wires.length = c.wires.length + 1 := by rw [hv, List.length_append, List.length_singleton]
    obtain ⟨vs, hvs, hcount, hall⟩ := ih hreaches (by omega)
    rw [hcolumns] at hall
    refine ⟨v :: vs, ?_, by rw [List.length_cons, hcount, Nat.add_comm],
      List.forall_mem_cons.mpr ⟨⟨hlength, hmarks⟩, hall⟩⟩
    rw [← hnext, hvs, hv, List.append_assoc, List.singleton_append]

/-! ### All wires -/

/-- The wires show the grid with a gate at a cell for which the rows with `p` have shifted. -/
structure Inserts (ws : List (Wire K)) (G : Grid) (p : Nat → Bool) (g : Gate) (row column : Nat) : Prop where
  rows : ws.length = max G.rows (row + g.span)
  lengths : ∀ {r w}, ws[r]? = some w → r < G.rows →
    w.cells.length = if p r = true ∨ column = G.columns then G.columns + 1 else G.columns
  /-- The wires that the gate needs below the last one are as long as the longest of the others. -/
  added : ∀ {r w}, ws[r]? = some w → G.rows ≤ r → w.cells.length = columnsOf (ws.take G.rows)
  marks : ∀ r k, markIn ws r k = ((G.shift p column).put g row column).mark r k

/-- A gate put into a column that all wires reach, with the supports that it has on the wires that there are. -/
theorem Reaches.putSupports_putCell (h : c.Reaches column) (g : Gate) {count : Nat}
    (hcount : row + (count + 1) ≤ c.wires.length) :
    ((c.putCell g row column false).putSupports g.id column (row + 1) count).Reaches column ∧
      ((c.putCell g row column false).putSupports g.id column (row + 1) count).wires.length = c.wires.length := by
  have hcell := congrArg List.length (map_face_putCell c g row column false)
  rw [List.length_map, List.length_map] at hcell
  have hface : ((c.putCell g row column false).putSupports g.id column (row + 1) count).wires.map Wire.face =
      (c.putCell g row column false).wires.map Wire.face := map_face_putSupports g.id (by omega)
  have hsupports := congrArg List.length hface
  rw [List.length_map, List.length_map, hcell] at hsupports
  refine ⟨fun v hv => ?_, hsupports⟩
  obtain ⟨r, hr⟩ := List.getElem?_of_mem hv
  have hlt : r < c.wires.length := hsupports ▸ (List.getElem?_eq_some_iff.mp hr).1
  have hw := List.getElem?_eq_getElem hlt
  obtain ⟨o, n, -, hput⟩ := h.getElem?_putSupports_putCell hw g row count
  obtain rfl := Option.some.inj (hr.symm.trans hput)
  have hcolumn := h _ (List.mem_of_getElem? hw)
  split
  · exact Wire.lt_length_accepted hcolumn
  · exact hcolumn

theorem Reaches.put_below (h : c.Reaches column) (hrow : row < c.wires.length) (g : Gate) :
    ∃ us vs, (c.put g row column false).wires = us ++ vs ∧ us.length = c.wires.length ∧
      vs.length = row + g.span - c.wires.length ∧
      ∀ v ∈ vs, v.cells.length = columnsOf us ∧ ∀ k, v.mark? k = if k = column then some (.cover g.id) else none := by
  have hspan : 0 < g.span := g.kind.span_pos
  -- First come the supports on the wires that there are, then those on new ones.
  obtain ⟨m, n, hmn, hm, hn⟩ : ∃ m n, m + n = g.span - 1 ∧ row + (m + 1) ≤ c.wires.length ∧
      (n = 0 ∨ row + 1 + m = c.wires.length) :=
    ⟨min (g.span - 1) (c.wires.length - (row + 1)), g.span - 1 - min (g.span - 1) (c.wires.length - (row + 1)),
      by omega, by omega, by omega⟩
  obtain ⟨hreaches, hlength⟩ := h.putSupports_putCell g hm
  have hsplit := putSupports_putSupports (c.putCell g row column false) g.id column (row + 1) m n
  rw [hmn] at hsplit
  unfold put
  rw [← hsplit]
  generalize (c.putCell g row column false).putSupports g.id column (row + 1) m = e at hreaches hlength
  rcases hn with rfl | hn
  · exact ⟨e.wires, [], (List.append_nil _).symm, hlength, by rw [List.length_nil]; omega, nofun⟩
  · obtain ⟨vs, hvs, hcount, hall⟩ := hreaches.putSupports_below (by omega) g.id n
    rw [hlength, ← hn] at hvs
    exact ⟨e.wires, vs, hvs, hlength, by omega, hall⟩

/-- A wire that was there shows its row, shifted if the gate needs a cell of it that is taken. -/
theorem exists_put_of_lt (h : Shows c.wires G) (hr : r < G.rows) (hcolumn : column < G.columns) (g : Gate) (row : Nat) :
    ∃ v, (c.put g row column false).wires[r]? = some v ∧
      v.cells.length = (if G.shifts g row column false r = true then G.columns + 1 else G.columns) ∧
      ∀ k, v.mark? k = ((G.shift (G.shifts g row column false) column).put g row column).mark r k := by
  have hshifts : G.shifts g row column false r = true ↔ row ≤ r ∧ r < row + g.span ∧ G.mark r column ≠ none :=
    Grid.shifts_iff.trans (or_iff_right Bool.false_ne_true)
  have hlt : r < c.wires.length := Nat.lt_of_lt_of_eq hr h.rows.symm
  have hw := List.getElem?_eq_getElem hlt
  have hcells := h.aligned _ (List.mem_of_getElem? hw)
  have hmark : ∀ k, c.wires[r].mark? k = G.mark r k := fun k => by rw [← markIn_of_getElem? hw, h.marks]
  obtain ⟨v, hv, hlength, hmarks⟩ := (reaches_of_shows h hcolumn).exists_put hw g row
  simp only [hmark, hcells] at hlength hmarks
  refine ⟨v, hv, by simp only [hshifts, hlength], fun k => ?_⟩
  rw [hmarks]
  by_cases hin : k = column ∧ row ≤ r ∧ r < row + g.span
  · rw [if_pos hin]
    simp only [Grid.put, if_pos hin.1]
    split_ifs <;> first | rfl | omega
  · rw [if_neg hin, Grid.mark_put_of_not hin]
    simp only [Grid.shift, hshifts]
    split_ifs <;> first | rfl | omega

theorem inserts_put_of_lt (h : Shows c.wires G) (hrow : row < G.rows) (hcolumn : column < G.columns) (g : Gate) :
    Inserts (c.put g row column false).wires G (G.shifts g row column false) g row column := by
  have hrows := h.rows
  have hspan : 0 < g.span := g.kind.span_pos
  obtain ⟨us, vs, hwires, hus, hvs, hbelow⟩ :=
    (reaches_of_shows h hcolumn).put_below (Nat.lt_of_lt_of_eq hrow hrows.symm) g
  refine ⟨?_, fun {r w} hw hr => ?_, fun {r w} hw hr => ?_, fun r k => ?_⟩
  · rw [hwires, List.length_append]
    omega
  · obtain ⟨v, hv, hlength, -⟩ := exists_put_of_lt h hr hcolumn g row
    obtain rfl := Option.some.inj (hv.symm.trans hw)
    rw [hlength]
    simp [Nat.ne_of_lt hcolumn]
  · rw [hwires, List.getElem?_append_right (by omega)] at hw
    rw [hwires, List.take_left' (hus.trans hrows)]
    exact (hbelow w (List.mem_of_getElem? hw)).1
  · by_cases hr : r < G.rows
    · obtain ⟨v, hv, -, hmarks⟩ := exists_put_of_lt h hr hcolumn g row
      rw [markIn_of_getElem? hv, hmarks]
    · have hnone : ∀ k, G.mark r k = none := h.mark_of_rows_le (by omega)
      have hstays : (G.shift (G.shifts g row column false) column).mark r k = none := by
        simp only [Grid.shift, hnone, ite_self]
      unfold markIn
      rw [hwires, List.getElem?_append_right (by omega)]
      by_cases hlt : r < row + g.span
      · have hv := List.getElem?_eq_getElem (show r - us.length < vs.length by omega)
        rw [hv, Option.bind_some, (hbelow _ (List.getElem_mem _)).2]
        simp only [Grid.put, hstays]
        split_ifs <;> first | rfl | omega
      · rw [List.getElem?_eq_none (by omega), Grid.mark_put_of_not (by omega), hstays]
        rfl

/-- Wherever a gate is put, the wires show the grid with the gate in the gap that the rows make which shift for it. -/
theorem inserts_put (h : Shows c.wires G) (hrow : row < G.rows) (hcolumn : column ≤ G.columns) (g : Gate)
    (squeeze : Bool) :
    Inserts (c.put g row column squeeze).wires G (G.shifts g row column squeeze) g row column := by
  by_cases hopens : squeeze = false ∧ column < G.columns
  · obtain ⟨rfl, hlt⟩ := hopens
    exact inserts_put_of_lt h hrow hlt g
  -- The gate goes into a new column, in which no cell is taken.
  have hnew : squeeze = true ∨ column = G.columns := by
    cases squeeze with
    | true => exact .inl rfl
    | false => exact .inr (Nat.le_antisymm hcolumn (Nat.le_of_not_lt fun hlt => hopens ⟨rfl, hlt⟩))
  have hopen : G.openColumn squeeze column = G.insertColumn column := if_pos (by simpa using hnew)
  have hshows := h.openColumn squeeze hcolumn (by omega) c.nextGate
  rw [hopen] at hshows
  obtain ⟨-, heq⟩ := put_openColumn h (by omega) hcolumn g row squeeze
  have hput := inserts_put_of_lt (c := { c with wires := (openColumn squeeze column c.wires c.nextGate).1
                                                nextGate := (openColumn squeeze column c.wires c.nextGate).2 })
    hshows hrow (Nat.lt_succ_of_le hcolumn) g
  rw [← heq] at hput
  have hgap : ∀ r, (G.insertColumn column).mark r column = none := fun r => by simp [Grid.insertColumn]
  have hstays : (G.insertColumn column).shifts g row column false = fun _ => false :=
    funext fun r => by simp [Grid.shifts, hgap]
  rw [hstays] at hput
  refine ⟨hput.rows, fun {r w} hw hr => ?_, hput.added, fun r k => ?_⟩
  · have hcolumns : column ≠ (G.insertColumn column).columns := Nat.ne_of_lt (Nat.lt_succ_of_le hcolumn)
    rw [hput.lengths hw hr, if_neg (by simp [hcolumns]), if_pos]
    · rfl
    · exact hnew.imp_left fun hsqueeze => Grid.shifts_iff.mpr (.inl hsqueeze)
  · rw [hput.marks, Grid.shift_false]
    simp only [Grid.put, Grid.mark_shift_of_opens (fun r k => h.mark_of_columns_le r) hnew]

end Circuit

end CircuitDesigner
