import CircuitDesigner.Proofs.Refresh.Minimize
import CircuitDesigner.Proofs.Refresh.Outline

/-! Drawing and validation.

    After minimizing, a refresh computes the rest anew. It changes faults, appearances and ordinals of what is on the
    wires and nothing else (`Wire.core`), and its results are functions of the bare wires: the passes that work
    column by column amount to one that looks at the wires as they were before (`Circuit.redraw_eq`). -/

namespace CircuitDesigner

variable {K : Type}

/-- The gate without fault, in its first appearance. -/
def Gate.core (g : Gate) : Gate := { id := g.id, kind := g.kind, owner := g.owner }

/-- The wire without what drawing and validation put on it. -/
def Wire.core (w : Wire K) : Wire K := { w with cells := w.cells.map Gate.core, placeholder := "" }

/-! ### Gates -/

section Gates

variable (g : Gate)

@[simp] theorem Gate.core_withTexture (textured : Bool) : (g.withTexture textured).core = g.core := by
  unfold Gate.withTexture
  split <;> rfl

@[simp] theorem Gate.core_inspected (onBit : Bool) : (g.inspected onBit).core = g.core := rfl

theorem Gate.kind_of_core {g h : Gate} (heq : g.core = h.core) : g.kind = h.kind := by
  show g.core.kind = h.core.kind
  rw [heq]

theorem GateKind.isGeneric_of_hasTexture {kind : GateKind} (h : kind.hasTexture = true) : kind.isGeneric = true := by
  cases kind <;> first | rfl | cases h

/-- The gate in the appearance that it has in a column, with a control or without. -/
def Gate.dressed (g : Gate) (controlled : Bool) : Gate := if g.kind.isGeneric then g.withTexture controlled else g

@[simp] theorem Gate.core_dressed (controlled : Bool) : (g.dressed controlled).core = g.core := by
  unfold Gate.dressed
  split
  · exact g.core_withTexture controlled
  · rfl

theorem Gate.kind_dressed (controlled : Bool) : (g.dressed controlled).kind = g.kind :=
  Gate.kind_of_core (g.core_dressed controlled)

theorem Gate.withTexture_withTexture (a b : Bool) : (g.withTexture a).withTexture b = g.withTexture b := by
  by_cases h : g.kind.hasTexture = true <;> simp [Gate.withTexture, h]

theorem Gate.dressed_dressed (a b : Bool) : (g.dressed a).dressed b = g.dressed b := by
  have hkind := g.kind_dressed a
  unfold Gate.dressed at hkind ⊢
  rw [hkind]
  split
  · exact g.withTexture_withTexture a b
  · rfl

/-- The gate in the appearance that it has in a column, unless it is passed over. -/
def Gate.retouched (ignored : Option GateId) (g : Gate) (controlled : Bool) : Gate :=
  if g.isGate ignored then g else g.dressed controlled

theorem Gate.core_retouched (ignored : Option GateId) (controlled : Bool) :
    (g.retouched ignored controlled).core = g.core := by
  unfold Gate.retouched
  split
  · rfl
  · exact g.core_dressed controlled

theorem Gate.retouched_none (controlled : Bool) : g.retouched none controlled = g.dressed controlled := rfl

theorem Gate.retouched_retouched (ignored : Option GateId) (a b : Bool) :
    (g.retouched ignored a).retouched ignored b = g.retouched ignored b := by
  have hid : (g.dressed a).isGate ignored = g.isGate ignored :=
    congrArg (fun g => g.isGate ignored) (g.core_dressed a)
  cases h : g.isGate ignored <;> simp [Gate.retouched, h, hid, g.dressed_dressed]

/-- The gate with the fault that it has on its wire or else for the number of swaps in its column. -/
def Gate.judged (g : Gate) (onBit : Bool) (swaps : Nat) : Gate :=
  if g.kind.isSwap then (g.inspected onBit).flagged (Fault.ofSwapCount swaps) else g.inspected onBit

@[simp] theorem Gate.core_judged (onBit : Bool) (swaps : Nat) : (g.judged onBit swaps).core = g.core := by
  unfold Gate.judged
  split <;> rfl

theorem Gate.textured_dressed (controlled : Bool) :
    (g.dressed controlled).textured = (g.kind.hasTexture && controlled) := by
  unfold Gate.dressed Gate.withTexture
  by_cases h : g.kind.hasTexture = true
  · rw [if_pos (GateKind.isGeneric_of_hasTexture h), dif_pos h, h, Bool.true_and]
  · have htextured : g.textured = false := Bool.eq_false_iff.mpr fun ht => h (g.hasTexture_of_textured ht)
    rw [dif_neg h, ite_self, htextured, Bool.eq_false_iff.mpr h, Bool.false_and]

theorem Gate.plain_congr {g h : Gate} (hkind : g.kind.plain = h.kind.plain) (hfault : g.fault = h.fault)
    (htextured : g.textured = h.textured) : g.plain = h.plain := by
  simp only [Gate.plain, hkind, hfault, htextured]

/-- Appearance and fault of a drawn gate do not depend on those it had, nor on numbers. -/
theorem Gate.plain_drawn (controlled onBit : Bool) (swaps : Nat) :
    ((g.bare.dressed controlled).judged onBit swaps).plain = ((g.dressed controlled).judged onBit swaps).plain := by
  have hkind : (g.bare.dressed controlled).kind = g.kind.plain := Gate.kind_dressed _ _
  have hkind' : (g.dressed controlled).kind = g.kind := Gate.kind_dressed _ _
  have htexture : (g.bare.dressed controlled).textured = (g.dressed controlled).textured := by
    rw [Gate.textured_dressed, Gate.textured_dressed]
    show (g.kind.plain.hasTexture && controlled) = _
    rw [GateKind.hasTexture_plain]
  refine Gate.plain_congr ?_ ?_ ?_
  · rw [Gate.kind_of_core (Gate.core_judged _ _ _), Gate.kind_of_core (Gate.core_judged _ _ _), hkind, hkind',
      GateKind.plain_plain]
  · unfold Gate.judged
    rw [hkind, hkind', GateKind.isSwap_plain]
    split <;> simp [Gate.flagged, Gate.inspected, hkind, hkind']
  · unfold Gate.judged
    rw [hkind, hkind', GateKind.isSwap_plain]
    split <;> exact htexture

end Gates

/-! ### What drawing leaves -/

section Core

variable {w v : Wire K} {ws vs : List (Wire K)}

theorem Wire.core_mapIdx {f : Nat → Gate → Gate} (h : ∀ k g, (f k g).core = g.core) :
    ({ w with cells := w.cells.mapIdx f } : Wire K).core = w.core := by
  unfold Wire.core
  dsimp only
  congr 1
  refine List.ext_getElem? fun k => ?_
  rw [List.getElem?_map, List.getElem?_map, List.getElem?_mapIdx]
  cases w.cells[k]? with
  | none => rfl
  | some g => exact congrArg some (h k g)

theorem map_bare_of_map_core (h : ws.map Wire.core = vs.map Wire.core) : ws.map Wire.bare = vs.map Wire.bare := by
  have hbare : ∀ w : Wire K, w.core.bare = w.bare := fun w => by
    simp [Wire.bare, Wire.core, Gate.bare, Gate.core]
  have := congrArg (List.map Wire.bare) h
  simpa only [List.map_map, Function.comp_def, hbare] using this

theorem Wire.mark?_core (w : Wire K) (k : Nat) : w.core.mark? k = w.mark? k := by
  unfold Wire.mark? Wire.core
  rw [List.getElem?_map]
  cases w.cells[k]? with
  | none => rfl
  | some g => exact Gate.mark?_congr rfl rfl

theorem gridOf_map_core (ws : List (Wire K)) : gridOf (ws.map Wire.core) = gridOf ws := by
  unfold gridOf
  congr 1
  · exact List.length_map _
  · refine columnsOf_congr ?_
    simp [Wire.core]
  · funext r k
    unfold markIn
    rw [List.getElem?_map]
    cases ws[r]? with
    | none => rfl
    | some w => exact w.mark?_core k

theorem usesIn_map_core (ws : List (Wire K)) (i : GateId) : usesIn (ws.map Wire.core) i = usesIn ws i := by
  refine usesIn_congr ?_ i
  simp [Wire.core, Gate.core]

theorem gridOf_of_core (h : ws.map Wire.core = vs.map Wire.core) : gridOf ws = gridOf vs := by
  rw [← gridOf_map_core ws, h, gridOf_map_core]

theorem usesIn_of_core (h : ws.map Wire.core = vs.map Wire.core) (i : GateId) : usesIn ws i = usesIn vs i := by
  rw [← usesIn_map_core ws, h, usesIn_map_core]

theorem aligned_of_core {n : Nat} (h : ws.map Wire.core = vs.map Wire.core) (hv : ∀ v ∈ vs, v.cells.length = n) :
    ∀ w ∈ ws, w.cells.length = n := by
  intro w hw
  obtain ⟨v, hv', heq⟩ := List.mem_map.mp (h ▸ List.mem_map_of_mem hw : w.core ∈ vs.map Wire.core)
  have := congrArg (fun w : Wire K => w.cells.length) heq
  simp only [Wire.core, List.length_map] at this
  rw [← this]
  exact hv v hv'

theorem shows_of_core (h : ws.map Wire.core = vs.map Wire.core) (hs : Shows vs (gridOf vs)) : Shows ws (gridOf ws) := by
  refine shows_gridOf_iff.mpr (aligned_of_core h ?_)
  have hcolumns : Circuit.columnsOf ws = Circuit.columnsOf vs := congrArg Grid.columns (gridOf_of_core h)
  rw [hcolumns]
  exact hs.aligned

theorem owned_of_core (h : ws.map Wire.core = vs.map Wire.core) (hv : ∀ v ∈ vs, v.Owned) : ∀ w ∈ ws, w.Owned := by
  intro w hw g hg
  obtain ⟨v, hv', heq⟩ := List.mem_map.mp (h ▸ List.mem_map_of_mem hw : w.core ∈ vs.map Wire.core)
  have hcells : v.cells.map Gate.core = w.cells.map Gate.core := congrArg Wire.cells heq
  obtain ⟨o, ho, hcore⟩ := List.mem_map.mp (hcells ▸ List.mem_map_of_mem hg : g.core ∈ v.cells.map Gate.core)
  have howner : g.owner = o.owner := (congrArg Gate.owner hcore).symm
  have hid : w.id = v.id := (congrArg Wire.id heq).symm
  rw [howner, hid]
  exact hv v hv' o ho

/-! Links and borders are read off the cores of the wires, whichever gate is passed over. -/

section Layout

variable (ws) (k : Nat) (ignored : Option GateId)

theorem Layout.cell?_core (w : Wire K) : cell? w.core k ignored = (cell? w k ignored).map Gate.core := by
  simp only [cell?, Wire.core, List.getElem?_map, Option.filter_map]
  rfl

theorem Layout.rowsWith_core (p : GateKind → Bool) :
    rowsWith p (ws.map Wire.core) k ignored = rowsWith p ws k ignored := by
  unfold rowsWith
  rw [List.length_map]
  refine List.filter_congr fun r _ => ?_
  simp only [List.getElem?_map, Option.any_map, cell?_core]
  rfl

theorem Layout.columnBorder_core : columnBorder (ws.map Wire.core) k ignored = columnBorder ws k ignored := by
  simp only [columnBorder, List.any_map, List.length_map, Function.comp_def, cell?_core, Option.any_map]
  rfl

theorem Layout.columnLinks_core [Coordinate K] :
    columnLinks (ws.map Wire.core) k ignored = columnLinks ws k ignored := by
  have hstyle : controlStyle (ws.map Wire.core) k = controlStyle ws k := by
    funext r
    simp only [controlStyle, List.getElem?_map, Option.any_map]
    rfl
  have hconnectors : controlConnectors (ws.map Wire.core) k = controlConnectors ws k := by
    funext first last r
    simp only [controlConnectors, hstyle]
  simp only [columnLinks, rowsWith_core, hconnectors]

end Layout

variable [Coordinate K]

theorem collapsed_of_core (h : ws.map Wire.core = vs.map Wire.core) (hv : ∀ v ∈ vs, v.Collapsed) :
    ∀ w ∈ ws, w.Collapsed := by
  intro w hw
  obtain ⟨v, hv', heq⟩ := List.mem_map.mp (h ▸ List.mem_map_of_mem hw : w.core ∈ vs.map Wire.core)
  have hcells : v.cells.map Gate.core = w.cells.map Gate.core := congrArg Wire.cells heq
  have hpivot : v.core.pivot = w.core.pivot := congrArg Wire.pivot heq
  have hfind : ∀ cells : List Gate, (cells.findIdx? fun g => g.kind.isMeasurement) =
      (cells.map Gate.core).findIdx? fun g => g.kind.isMeasurement := fun cells => by
    rw [List.findIdx?_map]
    rfl
  unfold Wire.Collapsed
  rw [hfind, ← hcells, ← hfind]
  exact hpivot.symm.trans (hv v hv')

end Core

/-! ### The passes -/

section Passes

open Circuit

variable [Coordinate K] (c : Circuit K) (ws : List (Wire K))

/-- A control stands in the column. -/
def controlled (k : Nat) : Bool := !(Layout.columnLinks ws k none).controls.isEmpty

/-- The wire with the appearances that its gates have in the first `n` columns. -/
def Wire.dressedUpTo (n : Nat) (w : Wire K) : Wire K :=
  { w with cells := w.cells.mapIdx fun k g => if k < n then g.dressed (controlled ws k) else g }

/-- The wire with the faults of its gates. -/
def Wire.judged (w : Wire K) : Wire K :=
  { w with cells := w.cells.mapIdx fun k g => g.judged (w.bitAt k) (swapCount ws k) }

/-- The wire with both. -/
def Wire.drawn (w : Wire K) : Wire K :=
  { w with cells := w.cells.mapIdx fun k g => (g.dressed (controlled ws k)).judged (w.bitAt k) (swapCount ws k) }

/-- The wire with that ordinal. -/
def Wire.labelled (label : String) (w : Wire K) : Wire K := { w with placeholder := label }

/-- The wires with both. -/
def drawnWires : List (Wire K) := ws.map (Wire.drawn ws)

theorem Wire.core_dressedUpTo (n : Nat) (w : Wire K) : (w.dressedUpTo ws n).core = w.core := by
  refine Wire.core_mapIdx fun k g => ?_
  split
  · exact g.core_dressed _
  · rfl

theorem Wire.core_drawn (w : Wire K) : (w.drawn ws).core = w.core :=
  Wire.core_mapIdx fun k g => by rw [Gate.core_judged, Gate.core_dressed]

omit [Coordinate K] in
theorem map_bare_map {f : Wire K → Wire K} (h : ∀ w, (f w).core = w.core) (ws : List (Wire K)) :
    (ws.map f).map Wire.bare = ws.map Wire.bare := by
  refine map_bare_of_map_core ?_
  rw [List.map_map]
  exact List.map_congr_left fun w _ => h w

section Retouched

variable (ignored : Option GateId)

/-- The wire after the columns in `p` have been drawn, passing over an ignored gate. -/
def Wire.retouched (p : Nat → Bool) (w : Wire K) : Wire K :=
  { w with
    cells := w.cells.mapIdx fun k g =>
      if p k then g.retouched ignored (!(Layout.columnLinks ws k ignored).controls.isEmpty) else g }

theorem Wire.core_retouched (p : Nat → Bool) (w : Wire K) : (w.retouched ws ignored p).core = w.core := by
  refine Wire.core_mapIdx fun k g => ?_
  split
  · exact g.core_retouched ignored _
  · rfl

theorem Wire.retouched_false : Wire.retouched ws ignored (fun _ => false) = fun w => w := by
  have hcells : ∀ gs : List Gate, gs.mapIdx (fun _ g => g) = gs := fun gs => List.ext_getElem? fun k => by simp
  funext w
  simp [Wire.retouched, hcells]

/-- A column is drawn as if no other one had been, also when it has been drawn before. -/
theorem linkColumn_retouched {d : Circuit K} {p : Nat → Bool} (hd : d.wires = ws.map (Wire.retouched ws ignored p))
    (k : Nat) : linkColumn ignored d k =
      { d with
        wires := ws.map (Wire.retouched ws ignored fun j => p j || j == k)
        connectors := d.connectors ++ (Layout.columnLinks ws k ignored).connectors } := by
  have hlinks : Layout.columnLinks d.wires k ignored = Layout.columnLinks ws k ignored := by
    rw [← Layout.columnLinks_core, hd, List.map_map]
    simp only [Function.comp_def, Wire.core_retouched, Layout.columnLinks_core]
  unfold linkColumn
  dsimp only
  rw [hlinks, hd]
  congr 1
  unfold textureColumn
  rw [List.map_map]
  refine List.map_congr_left fun w _ => ?_
  simp only [Function.comp_apply, Wire.retouched]
  congr 1
  refine List.ext_getElem? fun j => ?_
  rw [List.getElem?_modify, List.getElem?_mapIdx, List.getElem?_mapIdx]
  cases w.cells[j]? with
  | none => rfl
  | some g =>
    have hretouched : ∀ (b : Bool) (g : Gate),
        (if (g.kind.isGeneric && !g.isGate ignored) = true then g.withTexture b else g) = g.retouched ignored b :=
      fun b g => by
        unfold Gate.retouched Gate.dressed
        cases g.isGate ignored <;> simp
    simp only [Option.map_some, Option.map_eq_map, hretouched]
    by_cases hk : k = j
    · subst hk
      by_cases hp : p k = true <;> simp [hp, Gate.retouched_retouched]
    · by_cases hp : p j = true <;> simp [hp, hk, Ne.symm hk]

/-- The columns are drawn one after the other, but no column depends on those drawn before. -/
theorem foldl_linkColumn_retouched (n : Nat) : (List.range n).foldl (linkColumn ignored) c =
    { c with
      wires := c.wires.map (Wire.retouched c.wires ignored fun k => decide (k < n))
      connectors := c.connectors ++
        (List.range n).flatMap fun k => (Layout.columnLinks c.wires k ignored).connectors } := by
  induction n with
  | zero => simp [Wire.retouched_false]
  | succ n ih =>
    have hlt : (fun j => decide (j < n) || j == n) = fun j => decide (j < n + 1) := by
      funext j
      rw [Bool.eq_iff_iff]
      simp
      omega
    rw [List.range_succ, List.foldl_append, ih, List.foldl_cons, List.foldl_nil,
      linkColumn_retouched c.wires ignored rfl, hlt]
    simp

end Retouched

theorem foldl_linkColumn (n : Nat) :
    (List.range n).foldl (linkColumn none) { c with connectors := [] } =
      { c with
        wires := c.wires.map (Wire.dressedUpTo c.wires n)
        connectors := (List.range n).flatMap fun k => (Layout.columnLinks c.wires k none).connectors } := by
  have hwire : ∀ w : Wire K, w.retouched c.wires none (fun k => decide (k < n)) = w.dressedUpTo c.wires n := fun w => by
    simp only [Wire.retouched, Wire.dressedUpTo, Gate.retouched_none, decide_eq_true_eq, controlled]
  rw [foldl_linkColumn_retouched, ← List.map_congr_left fun w _ => hwire w]
  rfl

theorem map_pairSwaps : (ws.map inspectWire).map (pairSwaps (ws.map inspectWire)) = ws.map (Wire.judged ws) := by
  have hcount : ∀ k, swapCount (ws.map inspectWire) k = swapCount ws k := fun k => by
    have hcore : ∀ w : Wire K, (inspectWire w).core = w.core := fun w => Wire.core_mapIdx fun k g => g.core_inspected _
    rw [← swapCount_bare, map_bare_map hcore, swapCount_bare]
  rw [List.map_map]
  refine List.map_congr_left fun w _ => ?_
  simp only [Function.comp_apply, pairSwaps, inspectWire, hcount, Wire.judged]
  congr 1
  refine List.ext_getElem? fun k => ?_
  rw [List.getElem?_mapIdx, List.getElem?_mapIdx, List.getElem?_mapIdx]
  cases w.cells[k]? with
  | none => rfl
  | some g =>
    simp only [Option.map_some, Gate.judged]
    rfl

/-- Validation looks at the wires in any appearance. -/
theorem map_judged_dressedUpTo :
    (ws.map (Wire.dressedUpTo ws (columnsOf ws))).map (Wire.judged (ws.map (Wire.dressedUpTo ws (columnsOf ws)))) =
      drawnWires ws := by
  have hcount : ∀ k, swapCount (ws.map (Wire.dressedUpTo ws (columnsOf ws))) k = swapCount ws k := fun k => by
    rw [← swapCount_bare, map_bare_map (Wire.core_dressedUpTo ws _), swapCount_bare]
  unfold drawnWires
  rw [List.map_map]
  refine List.map_congr_left fun w hw => ?_
  simp only [Function.comp_apply, Wire.judged, Wire.dressedUpTo, Wire.drawn, hcount]
  congr 1
  refine List.ext_getElem? fun k => ?_
  rw [List.getElem?_mapIdx, List.getElem?_mapIdx, List.getElem?_mapIdx]
  cases hg : w.cells[k]? with
  | none => rfl
  | some g =>
    have hlt := (List.getElem?_eq_some_iff.mp hg).1
    have hle := length_le_columnsOf hw
    simp only [Option.map_some, if_pos (Nat.lt_of_lt_of_le hlt hle)]
    rfl

/-- All that a refresh computes after minimizing. -/
def Circuit.redraw : Circuit K :=
  ((((c.drawConnectors none).drawRegisters.drawBorders none).validate.extend 0).updateWidgets).updateOrder

theorem Circuit.refresh_eq : c.refresh = c.minimize.redraw := rfl

/-- The counters of the drawn circuit. -/
def drawnTally : Tally := Tally.ofGates ((drawnWires ws).flatMap Wire.cells)

theorem columnsOf_drawnWires : columnsOf (drawnWires ws) = columnsOf ws := by
  rw [← columnsOf_map_bare, drawnWires, map_bare_map (Wire.core_drawn ws), columnsOf_map_bare]

/-- Everything is computed from the wires as they are before. -/
theorem Circuit.redraw_eq : c.redraw =
    { c with
      wires := List.zipWith (fun w label => w.labelled label) (drawnWires c.wires)
        (c.settings.endianness.placeholders c.wires.length)
      connectors := (List.range c.columns).flatMap fun k => (Layout.columnLinks c.wires k none).connectors
      borders := (List.range c.columns).filterMap fun k => Layout.columnBorder c.wires k none
      registers := Layout.registers c.wires
      toolbar := Toolbar.derive (drawnTally c.wires) c.undos.length c.redos.length c.isEmpty
      widgets := Widgets.derive c.wires.length c.columns (drawnTally c.wires) c.settings
      extent := c.columns } := by
  have hdraw : c.drawConnectors none = _ := foldl_linkColumn c c.columns
  have hbare := map_bare_map (Wire.core_dressedUpTo c.wires (columnsOf c.wires)) c.wires
  have hcolumns : columnsOf (c.wires.map (Wire.dressedUpTo c.wires (columnsOf c.wires))) = columnsOf c.wires := by
    rw [← columnsOf_map_bare, hbare, columnsOf_map_bare]
  have hregisters : Layout.registers (c.wires.map (Wire.dressedUpTo c.wires (columnsOf c.wires))) =
      Layout.registers c.wires := by
    rw [← Layout.registers_bare, hbare, Layout.registers_bare]
  have hborder : ∀ k, Layout.columnBorder (c.wires.map (Wire.dressedUpTo c.wires (columnsOf c.wires))) k none =
      Layout.columnBorder c.wires k none := fun k => by
    rw [← Layout.columnBorder_bare, hbare, Layout.columnBorder_bare]
  have hempty : ((drawnWires c.wires).all fun w => w.cells.isEmpty) = c.wires.all fun w => w.cells.isEmpty := by
    unfold drawnWires
    rw [List.all_map]
    congr 1
    funext w
    rw [Bool.eq_iff_iff]
    simp [Wire.drawn, List.isEmpty_iff]
  have hlength : (drawnWires c.wires).length = c.wires.length := List.length_map _
  have hextent : (if columnsOf c.wires > 0 then columnsOf c.wires + 0 else 0) = columnsOf c.wires := by
    split <;> omega
  unfold redraw
  rw [hdraw]
  unfold validate drawRegisters drawBorders updateButtons extend updateWidgets updateOrder columns tally isEmpty
  dsimp only
  simp only [map_pairSwaps, map_judged_dressedUpTo, hcolumns, hregisters, hborder, hempty, hlength,
    columnsOf_drawnWires, hextent]
  rfl

end Passes

/-! ### What a refresh leaves and what it makes -/

section Results

open Circuit

variable [Coordinate K] {c d : Circuit K}

theorem map_core_redraw (c : Circuit K) : c.redraw.wires.map Wire.core = c.wires.map Wire.core := by
  rw [redraw_eq]
  dsimp only
  refine List.ext_getElem? fun r => ?_
  rw [List.getElem?_map, List.getElem?_map, List.getElem?_zipWith, drawnWires, List.getElem?_map]
  cases hw : c.wires[r]? with
  | none => rfl
  | some w =>
    have hlt : r < (c.settings.endianness.placeholders c.wires.length).length := by
      rw [Endianness.length_placeholders]
      exact (List.getElem?_eq_some_iff.mp hw).1
    rw [Option.map_some, List.getElem?_eq_getElem hlt]
    exact congrArg some (w.core_drawn c.wires)

/-- Circuits that differ in the numbers of gates and wires and in their histories at most. -/
structure Circuit.Alike (c d : Circuit K) : Prop where
  wires : c.wires.map Wire.plain = d.wires.map Wire.plain
  settings : c.settings = d.settings
  connectors : c.connectors = d.connectors
  borders : c.borders = d.borders
  registers : c.registers = d.registers
  toolbar : c.toolbar = d.toolbar
  widgets : c.widgets = d.widgets
  extent : c.extent = d.extent

/-- The drawing of a wire depends on the bare wires alone. -/
theorem Wire.plain_drawn (ws : List (Wire K)) (w : Wire K) (label : String) :
    ((w.bare.drawn (ws.map Wire.bare)).labelled label).plain = ((w.drawn ws).labelled label).plain := by
  simp only [Wire.plain, Wire.drawn, Wire.bare, Wire.labelled]
  congr 1
  refine List.ext_getElem? fun k => ?_
  simp only [List.getElem?_map, List.getElem?_mapIdx]
  cases w.cells[k]? with
  | none => rfl
  | some g =>
    have hcontrolled : controlled (ws.map Wire.bare) k = controlled ws k := by
      unfold controlled
      rw [Layout.columnLinks_bare]
    have hcount : swapCount (ws.map Wire.bare) k = swapCount ws k := swapCount_bare ws k
    simp only [Option.map_some]
    rw [hcontrolled, hcount]
    exact congrArg some (g.plain_drawn _ _ _)

theorem map_bare_redraw (c : Circuit K) : c.redraw.wires.map Wire.bare = c.wires.map Wire.bare :=
  map_bare_of_map_core (map_core_redraw c)

theorem drawnTally_congr {vs ws : List (Wire K)} (hw : vs.map Wire.bare = ws.map Wire.bare) :
    drawnTally vs = drawnTally ws := by
  have hdrawn : ∀ ws : List (Wire K), (ws.map fun w => ((w.drawn ws).labelled "").plain) =
      (ws.map Wire.bare).map fun w => ((w.drawn (ws.map Wire.bare)).labelled "").plain := fun ws => by
    rw [List.map_map]
    exact List.map_congr_left fun w _ => (Wire.plain_drawn ws w "").symm
  have hcells : ∀ ws : List (Wire K), drawnTally ws = Tally.ofGates
      ((ws.map fun w => ((w.drawn ws).labelled "").plain).flatMap Wire.cells) := fun ws => by
    rw [drawnTally, ← tally_plain, List.map_flatMap, drawnWires, List.flatMap_map, List.flatMap_map]
    rfl
  rw [hcells, hdrawn, hw, ← hdrawn, ← hcells]

omit [Coordinate K] in
theorem Circuit.isEmpty_congr (hw : c.wires.map Wire.bare = d.wires.map Wire.bare) : c.isEmpty = d.isEmpty := by
  have hall : ∀ ws : List (Wire K), (ws.all fun w => w.cells.isEmpty) =
      (ws.map Wire.bare).all fun w => w.cells.isEmpty :=
    fun ws => by
      rw [List.all_map]
      congr 1
      funext w
      simp [Wire.bare]
  unfold isEmpty
  rw [hall, hw, ← hall]

theorem Circuit.map_plain_redraw (hw : c.wires.map Wire.bare = d.wires.map Wire.bare) (hs : c.settings = d.settings) :
    c.redraw.wires.map Wire.plain = d.redraw.wires.map Wire.plain := by
  have hlength := length_of_map_bare hw
  rw [redraw_eq, redraw_eq]
  dsimp only
  rw [hs, hlength]
  refine List.ext_getElem? fun r => ?_
  rw [List.getElem?_map, List.getElem?_map, List.getElem?_zipWith, List.getElem?_zipWith, drawnWires, drawnWires,
    List.getElem?_map, List.getElem?_map]
  have hr : (c.wires[r]?).map Wire.bare = (d.wires[r]?).map Wire.bare := by
    rw [← List.getElem?_map, ← List.getElem?_map, hw]
  cases hcw : c.wires[r]? with
  | none =>
    rw [hcw, Option.map_none, eq_comm, Option.map_eq_none_iff] at hr
    rw [hr]
    rfl
  | some w =>
    rw [hcw, Option.map_some, eq_comm] at hr
    obtain ⟨v, hv, hvw⟩ := Option.map_eq_some_iff.mp hr
    rw [hv, Option.map_some, Option.map_some]
    cases (d.settings.endianness.placeholders d.wires.length)[r]? with
    | none => rfl
    | some label =>
      refine congrArg some ?_
      rw [← Wire.plain_drawn c.wires w label, ← Wire.plain_drawn d.wires v label, hvw, hw]

/-- What is computed depends on the bare wires, the settings and the lengths of the histories alone. -/
theorem Circuit.alike_redraw (hw : c.wires.map Wire.bare = d.wires.map Wire.bare) (hs : c.settings = d.settings)
    (hu : c.undos.length = d.undos.length) (hr : c.redos.length = d.redos.length) : c.redraw.Alike d.redraw := by
  have hlength := length_of_map_bare hw
  have hcolumns : c.columns = d.columns := by
    unfold columns
    rw [← columnsOf_map_bare c.wires, hw, columnsOf_map_bare]
  have hlinks : ∀ k, Layout.columnLinks c.wires k none = Layout.columnLinks d.wires k none := fun k => by
    rw [← Layout.columnLinks_bare, hw, Layout.columnLinks_bare]
  have hborder : ∀ k, Layout.columnBorder c.wires k none = Layout.columnBorder d.wires k none := fun k => by
    rw [← Layout.columnBorder_bare, hw, Layout.columnBorder_bare]
  have hregisters : Layout.registers c.wires = Layout.registers d.wires := by
    rw [← Layout.registers_bare, hw, Layout.registers_bare]
  have htally := drawnTally_congr hw
  refine ⟨map_plain_redraw hw hs, ?_, ?_, ?_, ?_, ?_, ?_, ?_⟩ <;> rw [redraw_eq, redraw_eq] <;> dsimp only
  · exact hs
  · simp only [hcolumns, hlinks]
  · simp only [hcolumns, hborder]
  · exact hregisters
  · rw [htally, hu, hr, isEmpty_congr hw]
  · rw [hlength, hcolumns, htally, hs]
  · exact hcolumns

end Results

end CircuitDesigner
