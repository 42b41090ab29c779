import CircuitDesigner.Proofs.Editing.Attach

/-! Inertias that are taken out.

    A gate that is taken out leaves an inertia in its cell, but an inertia leaves nothing: the cells after it slip by
    one column, and the wire is one cell short. That tears gates on several wires apart if they stand on the slipped
    part (`Grid.Spanned.slip_iff`), and a refresh makes the wires even again only if the column that the short wire
    lacks goes (`Slipped.orderly_iff`). A cell that is put back levels the wires only at their end (`Slipped.put`). -/

namespace CircuitDesigner

open Circuit

/-! ### Grids -/

namespace Grid

variable {G : Grid} {row column : Nat}

/-- The marks of a row after a column slip by one, over the mark in that column. -/
def slip (G : Grid) (row column : Nat) : Grid :=
  { G with mark := fun r k => if r = row ∧ column ≤ k then G.mark r (k + 1) else G.mark r k }

/-- Neither a gate on several wires nor a part of one is in the row after the column. -/
def Loose (G : Grid) (row column : Nat) : Prop := ∀ k, column < k →
  (∀ id, G.mark row k ≠ some (.cover id)) ∧ ∀ id kind, G.mark row k = some (.gate id kind) → kind.span ≤ 1

theorem mark_slip_of_not {r k : Nat} (h : ¬(r = row ∧ column ≤ k)) :
    (G.slip row column).mark r k = G.mark r k :=
  if_neg h

theorem mark_slip (G : Grid) (row : Nat) {column k : Nat} (h : column < k) :
    (G.slip row column).mark row (k - 1) = G.mark row k := by
  show (if row = row ∧ column ≤ k - 1 then G.mark row (k - 1 + 1) else _) = _
  rw [if_pos ⟨rfl, by omega⟩, Nat.sub_add_cancel (by omega)]

theorem mark_slip_ne_none_iff (hnone : G.mark row column = none) {r : Nat} :
    (∃ k, (G.slip row column).mark r k ≠ none) ↔ ∃ k, G.mark r k ≠ none := by
  constructor
  · rintro ⟨k, hk⟩
    by_cases hin : r = row ∧ column ≤ k
    · exact ⟨k + 1, by rwa [show (G.slip row column).mark r k = G.mark r (k + 1) from if_pos hin] at hk⟩
    · exact ⟨k, by rwa [mark_slip_of_not hin] at hk⟩
  · rintro ⟨k, hk⟩
    by_cases hin : r = row ∧ column < k
    · obtain ⟨rfl, hlt⟩ := hin
      exact ⟨k - 1, by rwa [mark_slip G r hlt]⟩
    · refine ⟨k, ?_⟩
      rw [mark_slip_of_not]
      · exact hk
      · rintro ⟨rfl, hle⟩
        obtain rfl : column = k := by omega
        exact hk hnone

theorem Spanned.slip_iff (h : G.Spanned) (hu : G.Unique) (hnone : G.mark row column = none) :
    (G.slip row column).Spanned ↔ G.Loose row column := by
  constructor
  · intro hs k hk
    have hslip := mark_slip G row hk
    have hother : ∀ {r l}, r ≠ row → (G.slip row column).mark r l = G.mark r l :=
      fun hr => mark_slip_of_not fun h => hr h.1
    -- What has slipped is no longer in the column of the gate above it or of the support below it.
    refine ⟨fun id hm => ?_, fun id kind hm => ?_⟩
    · obtain ⟨q, kind, hlt, -, hq⟩ := hs.parent (hslip.trans hm)
      obtain ⟨q', kind', -, -, hq'⟩ := h.parent hm
      rw [hother (by omega)] at hq
      have := (hu hq hq').2
      omega
    · by_contra hspan
      have hbelow := hs.covered (d := 1) (hslip.trans hm) (by omega) (by omega)
      rw [hother (by omega)] at hbelow
      obtain ⟨q, kind', -, -, hq⟩ := h.parent hbelow
      have := (hu hq hm).2
      omega
  · intro hloose
    refine ⟨fun {r k d id kind} hm h0 hd => ?_, fun {r k id} hm => ?_⟩
    · by_cases hin : r = row ∧ column ≤ k
      · obtain ⟨rfl, hle⟩ := hin
        have hone := (hloose (k + 1) (by omega)).2 id kind (by rwa [← mark_slip G r (by omega : column < k + 1)])
        omega
      · rw [mark_slip_of_not hin] at hm
        have hbelow := h.covered hm h0 hd
        rw [mark_slip_of_not]
        · exact hbelow
        · rintro ⟨hrow, hle⟩
          rw [hrow] at hbelow
          rcases Nat.eq_or_lt_of_le hle with rfl | hlt
          · rw [hnone] at hbelow
            cases hbelow
          · exact (hloose k hlt).1 id hbelow
    · by_cases hin : r = row ∧ column ≤ k
      · obtain ⟨rfl, hle⟩ := hin
        exact absurd (by rwa [← mark_slip G r (by omega : column < k + 1)]) ((hloose (k + 1) (by omega)).1 id)
      · rw [mark_slip_of_not hin] at hm
        obtain ⟨q, kind, hlt, hle, hq⟩ := h.parent hm
        refine ⟨q, kind, hlt, hle, ?_⟩
        rw [mark_slip_of_not]
        · exact hq
        · rintro ⟨rfl, hcolumn⟩
          rcases Nat.eq_or_lt_of_le hcolumn with rfl | hafter
          · rw [hnone] at hq
            cases hq
          · have := (hloose k hafter).2 id kind hq
            omega

end Grid

/-! ### Cells -/

section Cells

variable {K : Type} [Coordinate K] {w : Wire K} {c : Circuit K} {g : Gate} {row column k : Nat}

omit [Coordinate K] in
theorem Gate.span_of_isInertia (hi : g.isInertia = true) : g.span = 1 := by
  unfold span
  rw [GateKind.isInertia_iff.mp hi]
  rfl

theorem Wire.mark?_dropInertia (h : w.isVacant column = true) (k : Nat) :
    (w.dropInertia column).mark? k = if k < column then w.mark? k else w.mark? (k + 1) := by
  unfold mark?
  rw [cells_dropInertia h, List.getElem?_eraseIdx]
  split <;> rfl

theorem Wire.uses_dropInertia (hg : w.cells[column]? = some g) (hi : g.isInertia = true) (i : GateId) :
    (w.dropInertia column).uses i + itself g.id i = w.uses i := by
  obtain ⟨hlt, rfl⟩ := List.getElem?_eq_some_iff.mp hg
  have hperm := (List.getElem_cons_eraseIdx_perm hlt).countP_eq fun g => g.id == i
  rw [List.countP_cons] at hperm
  unfold uses itself
  rw [dropInertia_eq hg hi, ← hperm]
  simp [Wire.rescan]

theorem Wire.detach?_of_isInertia {i : GateId} (hf : w.find? i = some column) (hg : w.cells[column]? = some g)
    (hi : g.isInertia = true) (next : Nat) :
    w.detach? i next = some (column, g.released, w.dropInertia column, next) := by
  unfold Wire.detach?
  rw [hf, Wire.dropInertia_eq hg hi]
  simp only [Option.bind_eq_bind, Option.bind_some, hg, hi]
  rfl

/-- The length of a wire when a cell is made for a gate: a new one, or more where the wire does not reach the column. -/
def stretched (squeeze : Bool) (column length : Nat) : Nat :=
  if squeeze || length ≤ column then max length column + 1 else length

theorem lt_stretched (squeeze : Bool) (column length : Nat) : column < stretched squeeze column length := by
  unfold stretched
  split
  · omega
  · rename_i h
    simp only [Bool.or_eq_true, decide_eq_true_eq, not_or] at h
    omega

/-- The wire with a cell for a gate. -/
def Wire.opened (w : Wire K) (squeeze : Bool) (column next : Nat) : Wire K :=
  if squeeze || w.cells.length ≤ column then (w.place (.inertia next) column false (next + 1)).1 else w

theorem Wire.length_opened (w : Wire K) (squeeze : Bool) (column next : Nat) :
    (w.opened squeeze column next).cells.length = stretched squeeze column w.cells.length := by
  unfold opened stretched
  split
  · exact length_place_false _ _ _ _
  · rfl

theorem Wire.mark?_opened (w : Wire K) (squeeze : Bool) (column next k : Nat) :
    (w.opened squeeze column next).mark? k = if squeeze = true then
      if k < column then w.mark? k else if k = column then none else w.mark? (k - 1) else w.mark? k := by
  unfold opened
  cases squeeze with
  | true =>
    rw [Bool.true_or, if_pos rfl, if_pos rfl, mark?_place_false]
    rfl
  | false =>
    rw [if_neg Bool.false_ne_true]
    split
    · -- The cells up to the column are new.
      rename_i hshort
      have hshort : w.cells.length ≤ column := by simpa using hshort
      rw [mark?_place_false, Gate.mark?_inertia]
      split_ifs
      · rfl
      · exact (mark?_of_le (by omega)).symm
      · rw [mark?_of_le (by omega), mark?_of_le (by omega)]
    · rfl

/-- An inertia takes a cell that shows nothing, on wires of any lengths. -/
theorem getElem?_putCell (hi : g.isInertia = true) {squeeze : Bool}
    (hvacant : squeeze = false → ∀ w, c.wires[row]? = some w → w.mark? column = none) (r : Nat) :
    ∃ f : Wire K → Wire K, (c.putCell g row column squeeze).wires[r]? = (c.wires[r]?).map f ∧
      ∀ w, c.wires[r]? = some w →
      (f w).cells.length = stretched squeeze column w.cells.length ∧
        ∀ k, (f w).mark? k = if squeeze = true then
          if k < column then w.mark? k else if k = column then none else w.mark? (k - 1) else w.mark? k := by
  obtain ⟨n, hn⟩ := getElem?_openColumn squeeze column c.wires c.nextGate r
  have hn : (openColumn squeeze column c.wires c.nextGate).1[r]? =
      (c.wires[r]?).map fun w => w.opened squeeze column n := hn
  rw [putCell_eq]
  dsimp only
  rw [List.getElem?_modify, hn, Option.map_eq_map, Option.map_map]
  refine ⟨_, rfl, fun w hw => ?_⟩
  have hlength := w.length_opened squeeze column n
  have hmarks := w.mark?_opened squeeze column n
  dsimp only [Function.comp_apply]
  split
  · rename_i hrow
    subst hrow
    have hlt : column < (w.opened squeeze column n).cells.length := hlength ▸ lt_stretched _ _ _
    have hnone : (w.opened squeeze column n).mark? column = none := by
      rw [hmarks]
      split
      · simp
      · rename_i hwhole
        exact hvacant (by simpa using hwhole) w hw
    rw [(Wire.any_isInertia_iff hlt).mpr hnone, Wire.place_true _ _ hlt]
    refine ⟨List.length_set.trans hlength, fun k => ?_⟩
    rw [← hmarks]
    refine (Wire.mark?_set (g := g.ownedBy (w.opened squeeze column n).id) hlt rfl k).trans ?_
    split
    · rename_i hk
      rw [hk, hnone]
      exact Gate.mark?_eq_none_iff.mpr hi
    · rfl
  · exact ⟨hlength, hmarks⟩

end Cells

/-! ### Circuits -/

namespace Circuit

variable {K : Type}

/-- Neither a gate on several wires nor a support is on the wire after the column. -/
def Loose (c : Circuit K) (row column : Nat) : Prop :=
  ∀ k g, column < k → c.cell? row k = some g → g.span = 1 ∧ ∀ id, g.kind ≠ .support id

/-- No other wire holds more than an inertia in the last column. -/
def LastOn (c : Circuit K) (row : Nat) : Prop :=
  ∀ r g, r ≠ row → c.cell? r (c.columns - 1) = some g → g.isInertia = true

/-- The circuit `c` without an inertia, where `f` says how the columns have moved since: its wire has `m` cells, and all
    others have `n`. -/
structure Slipped (c : Circuit K) (row column : Nat) (f : Nat → Nat) (m n : Nat) (e : Circuit K) : Prop where
  settings : e.settings = c.settings
  labelled : Labelled e.wires e.nextGate
  moves : Grid.Moves f ((gridOf c.wires).slip row column) (gridOf e.wires)
  rows : row < e.wires.length
  short : ∀ w, e.wires[row]? = some w → w.cells.length = m
  long : ∀ r w, r ≠ row → e.wires[r]? = some w → w.cells.length = n
  gap : m = n ∨ n = m + 1 ∧ ∀ k, f k = m ↔ k = c.columns - 1

variable {P : GateKind → Prop} {hand : List GateId} {b c d e : Circuit K} {g : Gate} {row column m n k : Nat}
  {f : Nat → Nat}

theorem loose_iff : c.Loose row column ↔ (gridOf c.wires).Loose row column := by
  constructor
  · intro h k hk
    refine ⟨fun id hm => ?_, fun id kind hm => ?_⟩
    · obtain ⟨s, hs, hmark⟩ := exists_cell?_of_mark hm
      exact (h k s hk hs).2 id (Gate.mark?_eq_cover_iff.mp hmark)
    · obtain ⟨g, hg, hmark⟩ := exists_cell?_of_mark hm
      obtain ⟨-, rfl, -⟩ := Gate.mark?_eq_gate_iff.mp hmark
      exact Nat.le_of_eq (h k g hk hg).1
  · intro h k g hk hg
    refine ⟨?_, fun id hkind => (h k hk).1 id (cover_of_cell? hg hkind)⟩
    by_cases hp : g.kind.isPlaceholder = true
    · exact GateKind.span_eq_one_of_isPlaceholder hp
    · have hle := (h k hk).2 _ _ (gate_of_cell? hg (Bool.eq_false_iff.mpr hp))
      have hpos := g.kind.span_pos
      unfold Gate.span
      omega

theorem lastOn_iff : c.LastOn row ↔ ∀ r, r ≠ row → (gridOf c.wires).mark r (c.columns - 1) = none := by
  simp only [← forall_isInertia_iff]
  exact ⟨fun h r hr g => h r g hr, fun h r g hr => h r hr g⟩

namespace Slipped

theorem congr (h : b.Slipped row column f m n e)
    (hmark : ∀ r k, (gridOf b.wires).mark r k = (gridOf c.wires).mark r k) (hcolumns : b.columns = c.columns)
    (hsettings : b.settings = c.settings) : c.Slipped row column f m n e where
  settings := h.settings.trans hsettings
  labelled := h.labelled
  moves := by
    have hslip : ∀ r k, ((gridOf b.wires).slip row column).mark r k = ((gridOf c.wires).slip row column).mark r k := by
      simp [Grid.slip, hmark]
    exact (Grid.Moves.of_marks hslip).trans h.moves
  rows := h.rows
  short := h.short
  long := h.long
  gap := hcolumns ▸ h.gap

theorem columns_eq (h : c.Slipped row column f m n e) {r : Nat} (hle : m ≤ n) (hr : r < e.wires.length)
    (hne : r ≠ row) :
    e.columns = n := by
  refine Nat.le_antisymm (columnsOf_le fun w hw => ?_) ?_
  · obtain ⟨q, hq⟩ := List.getElem?_of_mem hw
    by_cases hrow : q = row
    · exact h.short w (hrow ▸ hq) ▸ hle
    · exact Nat.le_of_eq (h.long q w hrow hq)
  · rw [← h.long r _ hne (List.getElem?_eq_getElem hr)]
    exact length_le_columnsOf (List.getElem_mem hr)

theorem not_cover (h : c.Slipped row column f m n e) {i : GateId}
    (hcover : ∀ r k, (gridOf c.wires).mark r k ≠ some (.cover i)) (r k : Nat) :
    markIn e.wires r k ≠ some (.cover i) := by
  intro hm
  obtain ⟨l, -, hl⟩ := h.moves.mark_iff.mp hm
  have hl : (if r = row ∧ column ≤ l then _ else _) = some (Mark.cover i) := hl
  split_ifs at hl
  · exact hcover r (l + 1) hl
  · exact hcover r l hl

variable [Coordinate K]

/-- A refresh evens the wires out if they are of one length, or if only the short wire shows something in the last
    column. -/
theorem orderly_iff (h : c.Slipped row column f m n e) (hc : c.Sound P []) (hcompact : c.Compact)
    (hg : c.cell? row column = some g) (hi : g.isInertia = true) :
    e.refresh.Orderly ↔ c.Loose row column ∧ (m = n ∨ c.LastOn row) := by
  have hnone : (gridOf c.wires).mark row column = none := (mark_of_cell? hg).trans (Gate.mark?_eq_none_iff.mpr hi)
  obtain ⟨hrow, hcolumn⟩ := lt_of_cell? hg
  have hspanned : (gridOf e.wires).Spanned ↔ c.Loose row column :=
    h.moves.spanned_iff.trans ((hc.spanned.slip_iff hc.labelled.unique_gridOf hnone).trans loose_iff.symm)
  -- The wires in use are those that were, so that the refresh pops none of them.
  have hstays : row < max e.settings.minQubits (depth e.wires) := by
    have hdepth : depth e.wires = depth c.wires := eq_of_forall_lt_iff fun r => by
      simp only [lt_depth_iff]
      exact exists_congr fun q => and_congr_right fun _ =>
        h.moves.mark_ne_none_iff.trans (Grid.mark_slip_ne_none_iff hnone)
    obtain ⟨-, -, -, hlength, -⟩ := minimize_eq_condensed c
    rw [hcompact.minimize] at hlength
    rw [hdepth, h.settings]
    omega
  have hlengths : ∀ {r : Nat} {w : Wire K}, e.wires[r]? = some w → m ≤ w.cells.length ∧ w.cells.length ≤ n :=
    fun {r w} hw => by
    have hgap := h.gap
    by_cases hr : r = row
    · have := h.short w (hr ▸ hw)
      omega
    · have := h.long r w hr hw
      omega
  have hreach : (∀ w ∈ e.wires.take (max e.settings.minQubits (depth e.wires)), ∀ k, Occupied e.wires k →
      k < w.cells.length) ↔ ∀ k, Occupied e.wires k → k < m := by
    constructor
    · intro hall
      have hw := List.getElem?_eq_getElem h.rows
      exact h.short _ hw ▸ hall _ (List.mem_of_getElem? ((List.getElem?_take_of_lt hstays).trans hw))
    · intro hall w hw k hk
      obtain ⟨r, hr⟩ := List.getElem?_of_mem (List.mem_of_mem_take hw)
      exact Nat.lt_of_lt_of_le (hall k hk) (hlengths hr).1
  have hlast : (∀ k, Occupied e.wires k → k < m) ↔ m = n ∨ c.LastOn row := by
    have hbound : ∀ k, Occupied e.wires k → k < n := fun k ⟨w, hw, g, hg, _⟩ => by
      obtain ⟨r, hr⟩ := List.getElem?_of_mem hw
      exact Nat.lt_of_lt_of_le (List.getElem?_eq_some_iff.mp hg).1 (hlengths hr).2
    rcases h.gap with heq | ⟨hlong, hf⟩
    · exact iff_of_true (heq ▸ hbound) (.inl heq)
    · rw [or_iff_right (by omega), lastOn_iff]
      constructor
      · intro hall r hr
        by_contra hne
        obtain ⟨o, hm⟩ := Option.ne_none_iff_exists'.mp hne
        rw [← Grid.mark_slip_of_not fun hin => hr hin.1] at hm
        have hk := h.moves.mark_iff.mpr ⟨_, rfl, hm⟩
        have := hall _ (occupied_iff_mark.mpr ⟨r, Option.ne_none_iff_exists'.mpr ⟨o, hk⟩⟩)
        have := (hf (c.columns - 1)).mpr rfl
        omega
      · intro hothers k hk
        by_contra hge
        have hlt := hbound k hk
        obtain ⟨r, hne⟩ := occupied_iff_mark.mp hk
        obtain ⟨o, hm⟩ := Option.ne_none_iff_exists'.mp hne
        obtain ⟨l, hl, hm⟩ := h.moves.mark_iff.mp hm
        obtain rfl : l = c.columns - 1 := (hf l).mp (by omega)
        by_cases hr : r = row
        · rw [show ((gridOf c.wires).slip row column).mark r (c.columns - 1) =
            (gridOf c.wires).mark r (c.columns - 1 + 1) from if_pos ⟨hr, by omega⟩] at hm
          have hin : c.columns - 1 + 1 < c.columns := (hc.shows.lt_of_mark hm).2
          omega
        · rw [Grid.mark_slip_of_not fun hin => hr hin.1, hothers r hr] at hm
          cases hm
  rw [orderly_refresh_iff h.labelled, hreach, hlast, hspanned, and_comm]

end Slipped

variable [Coordinate K]

theorem Sound.exists_detach_inertia (h : c.Sound P []) (hg : c.cell? row column = some g) (hi : g.isInertia = true) :
    ∃ d, c.detach? g.id = some (g.released, d) ∧ d.wires.length = c.wires.length ∧
      (∀ i, usesIn d.wires i + itself g.id i ≤ made 0 d.nextGate i) ∧
      c.Slipped row column id (c.columns - 1) c.columns d := by
  obtain ⟨w, hw, hgw⟩ := Option.bind_eq_some_iff.mp (cell?_eq_bind c row column ▸ hg)
  have hmem := List.mem_of_getElem? hw
  obtain ⟨hrow, hcolumn⟩ := lt_of_cell? hg
  have hlength : w.cells.length = c.columns := h.shows.aligned w hmem
  have hvacant : w.isVacant column = true := by
    rw [Wire.isVacant, hgw]
    exact hi
  have hspan : ¬g.released.span > 1 := (Gate.span_of_isInertia (g := g.released) hi).not_gt
  have hdetach : c.detach? g.id = some (g.released, { c with wires := c.wires.set row (w.dropInertia column) }) := by
    unfold Circuit.detach?
    rw [locate?_eq h.labelled hg]
    simp only [Option.bind_eq_bind, Option.bind_some, hw,
      Wire.detach?_of_isInertia (Wire.find?_eq (h.labelled.ids_nodup hmem) hgw) hgw hi, if_neg hspan]
  have huses : ∀ i, usesIn (c.wires.set row (w.dropInertia column)) i + itself g.id i ≤ made 0 c.nextGate i :=
    fun i => by
    have h1 := usesIn_set hw (w.dropInertia column) i
    have h2 := Wire.uses_dropInertia hgw hi i
    have h3 := h.labelled i
    omega
  have hmark : ∀ r k, (gridOf (c.wires.set row (w.dropInertia column))).mark r k =
      ((gridOf c.wires).slip row column).mark r k := fun r k => by
    show markIn (c.wires.set row (w.dropInertia column)) r k = if r = row ∧ column ≤ k then markIn c.wires r (k + 1)
      else markIn c.wires r k
    rw [markIn_set hrow, Wire.mark?_dropInertia hvacant]
    by_cases hr : r = row
    · subst hr
      rw [if_pos rfl, markIn_of_getElem? hw, markIn_of_getElem? hw]
      split_ifs <;> first | rfl | omega
    · rw [if_neg hr, if_neg fun hin => hr hin.1]
  refine ⟨_, hdetach, List.length_set, huses, rfl, fun i => ?_, .of_marks hmark, ?_, fun v hv => ?_,
    fun r v hr hv => ?_, .inr ⟨by omega, fun k => Iff.rfl⟩⟩
  · exact Nat.le_trans (Nat.le_add_right _ _) (huses i)
  · rwa [List.length_set]
  · rw [List.getElem?_set_self hrow] at hv
    obtain rfl := Option.some.inj hv
    rw [Wire.length_dropInertia hvacant, if_pos (hlength ▸ hcolumn), hlength]
  · rw [List.getElem?_set_ne (Ne.symm hr)] at hv
    exact h.shows.aligned v (List.mem_of_getElem? hv)

/-- The inertia goes into a vacant cell, or into one of a new column. -/
theorem Slipped.put (h : c.Slipped row column id (c.columns - 1) c.columns d)
    (hcount : ∀ i, usesIn d.wires i + itself g.id i ≤ made 0 d.nextGate i) (hi : g.isInertia = true) {target : Nat}
    {squeeze : Bool} (hpos : 0 < c.columns) (hk : k ≤ c.columns)
    (hvacant : squeeze = false → ∀ w, d.wires[target]? = some w → w.mark? k = none) :
    c.Slipped row column (if squeeze = true then fun l => if l < k then l else l + 1 else id)
      (stretched squeeze k (c.columns - 1)) (stretched squeeze k c.columns) (d.put g target k squeeze) := by
  have hput : d.put g target k squeeze = d.putCell g target k squeeze := by
    unfold Circuit.put
    rw [Gate.span_of_isInertia hi]
    rfl
  have hwire := getElem?_putCell hi hvacant
  have hlength : ∀ {r : Nat} {v : Wire K}, (d.putCell g target k squeeze).wires[r]? = some v →
      ∃ w, d.wires[r]? = some w ∧ v.cells.length = stretched squeeze k w.cells.length := fun {r v} hv => by
    obtain ⟨f, hf, hspec⟩ := hwire r
    rw [hf] at hv
    obtain ⟨w, hw, rfl⟩ := Option.map_eq_some_iff.mp hv
    exact ⟨w, hw, (hspec w hw).1⟩
  have hmarks : ∀ r l, markIn (d.putCell g target k squeeze).wires r l = if squeeze = true then
      ((gridOf d.wires).insertColumn k).mark r l else markIn d.wires r l := fun r l => by
    obtain ⟨f, hf, hspec⟩ := hwire r
    show _ = if squeeze = true then if l < k then markIn d.wires r l
        else if l = k then none else markIn d.wires r (l - 1)
      else markIn d.wires r l
    unfold markIn
    rw [hf]
    cases hw : d.wires[r]? with
    | none => simp
    | some w => exact (hspec w hw).2 l
  have hkept := d.kept_put g target k squeeze
  refine ⟨hkept.settings.trans h.settings, fun i => ?_, ?_, ?_, fun v hv => ?_, fun r v hr hv => ?_, ?_⟩
  · have h1 := d.usesIn_put_le g target k squeeze i
    have h2 := hcount i
    have h3 := made_add (Nat.zero_le d.nextGate) hkept.next i
    omega
  · rw [hput]
    cases squeeze with
    | true => exact h.moves.trans ((Grid.moves_insertColumn (gridOf d.wires) k).trans (.of_marks hmarks))
    | false => exact h.moves.trans (.of_marks hmarks)
  · rw [hput]
    obtain ⟨f, hf, -⟩ := hwire row
    rw [List.getElem?_eq_getElem h.rows] at hf
    exact (List.getElem?_eq_some_iff.mp hf).1
  · obtain ⟨w, hw, hlen⟩ := hlength (hput ▸ hv)
    rw [hlen, h.short w hw]
  · obtain ⟨w, hw, hlen⟩ := hlength (hput ▸ hv)
    rw [hlen, h.long r w hr hw]
  · cases squeeze with
    | true =>
      simp only [stretched, Bool.true_or, if_true]
      rcases Nat.eq_or_lt_of_le hk with rfl | hlt
      · left; omega
      · refine .inr ⟨by omega, fun l => ?_⟩
        split_ifs <;> omega
    | false =>
      simp only [stretched, Bool.false_or, decide_eq_true_eq, Bool.false_eq_true, if_false, id_eq]
      by_cases hend : c.columns ≤ k + 1
      · left
        split_ifs <;> omega
      · right
        rw [if_neg (by omega), if_neg (by omega)]
        exact ⟨by omega, fun _ => Iff.rfl⟩

theorem stretched_eq_iff {squeeze : Bool} {n : Nat} (hpos : 0 < n) (hk : k ≤ n) :
    stretched squeeze k (n - 1) = stretched squeeze k n ↔ if squeeze = true then k = n else n ≤ k + 1 := by
  cases squeeze with
  | true =>
    simp only [stretched, Bool.true_or, if_true]
    omega
  | false =>
    simp only [stretched, Bool.false_or, decide_eq_true_eq, Bool.false_eq_true, if_false]
    split_ifs <;> omega

end Circuit

end CircuitDesigner
