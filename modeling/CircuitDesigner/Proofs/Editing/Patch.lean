import CircuitDesigner.Proofs.Editing.Drag
import CircuitDesigner.Proofs.Refresh.Drawn

/-! # Operations that compute a part anew

Typing an exponent computes one fault and the buttons anew, turning the order computes ordinals and counters, and
forgetting the history computes the buttons. Each of them leaves a still circuit still: what it passes over does not
depend on what it changes. -/

namespace CircuitDesigner

open Circuit

variable {K : Type}

/-! ### Exponents -/

/-- The kind without the text of its exponent. -/
def GateKind.unpowered : GateKind → GateKind
  | powered axis _ => powered axis ""
  | kind => kind

theorem GateKind.faithful_unpowered : Faithful unpowered := by
  constructor <;> intro kind <;> cases kind <;> rfl

/-- The powered gate with another exponent, and the fault that it has then. -/
def Gate.repowered (g : Gate) (axis : PauliAxis) (exponent : String) (onBit : Bool) : Gate :=
  (g.withKind (.powered axis exponent)).inspected onBit

/-- Drawing finds the fault of a repowered gate, and no appearance to change. -/
theorem Gate.drawn_repowered (g : Gate) (axis : PauliAxis) (exponent : String) (onBit controlled : Bool) (swaps : Nat) :
    ((g.repowered axis exponent onBit).dressed controlled).judged onBit swaps = g.repowered axis exponent onBit := rfl

/-- The counters of generic gates and of swaps look at these two marks of a gate. -/
theorem gates_congr {c d : Circuit K}
    (hcounted : d.wires.map (fun w => w.cells.map fun g => g.kind.isCounted) =
      c.wires.map fun w => w.cells.map fun g => g.kind.isCounted)
    (hswaps : d.wires.map (fun w => w.cells.map fun g => g.kind.isSwap && g.fault.isNone) =
      c.wires.map fun w => w.cells.map fun g => g.kind.isSwap && g.fault.isNone) : d.tally.gates = c.tally.gates := by
  have hcount : ∀ (p : Gate → Bool) (ws : List (Wire K)),
      (ws.flatMap Wire.cells).countP p = ((ws.map fun w => w.cells.map p).flatten).countP id := fun p ws => by
    rw [List.flatMap_def, ← Function.id_comp p, ← List.countP_map, List.map_flatten, List.map_map]
    rfl
  simp only [Tally.gates, Tally.swaps, tally, Tally.ofGates, hcount, hcounted, hswaps]

section Replaced

variable [Coordinate K] {f : GateKind → GateKind} {c : Circuit K} {row column : Nat} {w : Wire K} {g o : Gate}

/-- The circuit with another gate in a cell, and buttons to go with it. -/
def Circuit.replaced (c : Circuit K) (row column : Nat) (w : Wire K) (o : Gate) : Circuit K :=
  { c with wires := c.wires.set row { w with cells := w.cells.set column o } }.updateButtons

/-- A gate gives way to one that is drawn the same, and that counts the same. -/
theorem Circuit.Still.replaced (h : c.Still) (hw : c.wires[row]? = some w) (hg : w.cells[column]? = some g)
    (hf : GateKind.Faithful f) (hkind : f o.kind = f g.kind) (hcounted : o.kind.isCounted = g.kind.isCounted)
    (hswap : (o.kind.isSwap && o.fault.isNone) = (g.kind.isSwap && g.fault.isNone))
    (ho : ∀ controlled swaps, (o.dressed controlled).judged (w.bitAt column) swaps = o) :
    (c.replaced row column w o).Still := by
  obtain ⟨hcompact, hdrawn⟩ := still_iff.mp h
  have hcells : ∀ {α : Type} {p : Gate → α}, p o = p g → (w.cells.set column o).map p = w.cells.map p :=
    fun hp => map_set_of_eq hg hp
  have hrecast : (c.replaced row column w o).wires.map (Wire.recast f) = c.wires.map (Wire.recast f) := by
    refine map_set_of_eq hw ?_
    rw [Wire.recast, hcells (by simp only [hkind]), Wire.recast]
  have hgates : (c.replaced row column w o).tally.gates = c.tally.gates :=
    gates_congr (map_set_of_eq hw (hcells hcounted)) (map_set_of_eq hw (hcells hswap))
  have hlength : (c.replaced row column w o).wires.length = c.wires.length := List.length_set
  have hcolumns : (c.replaced row column w o).columns = c.columns := by
    rw [columns, ← columnsOf_map_recast f, hrecast, columnsOf_map_recast, columns]
  refine still_iff.mpr ⟨hcompact.of_recast hf hrecast rfl,
    hdrawn.recast hf hrecast ⟨rfl, rfl, rfl, rfl⟩ (drawnWires_eq_self_iff.mpr ?_) ?_ rfl ?_⟩
  · intro v hv k p hp
    rw [controlled_recast hf hrecast, swapCount_recast hf hrecast]
    rcases List.mem_or_eq_of_mem_set hv with hv | rfl
    · exact hdrawn.gate hv hp
    · rw [List.getElem?_set] at hp
      split at hp
      · rename_i hk
        subst hk
        rw [if_pos (List.getElem?_eq_some_iff.mp hg).1] at hp
        exact Option.some.inj hp ▸ ho _ _
      · have hfixed := hdrawn.gate (List.mem_of_getElem? hw) hp
        exact hfixed
  · have hlabels : (c.replaced row column w o).wires.map Wire.placeholder = c.wires.map Wire.placeholder :=
      map_set_of_eq hw rfl
    rw [hlength, hlabels]
    exact hdrawn.labels
  · rw [hlength, hcolumns]
    refine hdrawn.widgets.trans ?_
    simp only [Widgets.derive, hgates]
    rfl

end Replaced

variable [Coordinate K] {c d : Circuit K} {id : GateId} {exponent : String}

theorem exists_of_setExponent? (h : c.setExponent? id exponent = some d) :
    ∃ (row column : Nat) (w : Wire K) (g : Gate) (axis : PauliAxis) (old : String), c.wires[row]? = some w ∧
      w.cells[column]? = some g ∧ g.kind = .powered axis old ∧
      d = c.replaced row column w (g.repowered axis exponent (w.bitAt column)) := by
  obtain ⟨⟨row, column⟩, hloc, h⟩ := Option.bind_eq_some_iff.mp h
  obtain ⟨g, hg, h⟩ := Option.bind_eq_some_iff.mp h
  rw [gate?_eq hloc, cell?_eq_bind] at hg
  obtain ⟨w, hw, hgw⟩ := Option.bind_eq_some_iff.mp hg
  dsimp only at h
  split at h
  · rename_i axis old hkind
    have hwires := modifyCell_eq (f := fun g => g.repowered axis exponent (w.bitAt column)) hw hgw
    refine ⟨row, column, w, g, axis, old, hw, hgw, hkind, ?_⟩
    rw [← Option.some.inj h, hw, replaced, ← hwires]
    rfl
  · cases h

omit [Coordinate K] in
theorem map_cells_updateOrder (c : Circuit K) : c.updateOrder.wires.map Wire.cells = c.wires.map Wire.cells := by
  have hlength := Endianness.length_placeholders c.settings.endianness c.wires.length
  calc c.updateOrder.wires.map Wire.cells
      = ((c.wires.zip (c.settings.endianness.placeholders c.wires.length)).map Prod.fst).map Wire.cells := by
        simp only [updateOrder, List.zip, List.map_zipWith]
    _ = c.wires.map Wire.cells := by rw [List.map_fst_zip (Nat.le_of_eq hlength.symm)]

namespace Circuit.Still

theorem setExponent? (h : c.Still) (hd : c.setExponent? id exponent = some d) : d.Still := by
  obtain ⟨row, column, w, g, axis, old, hw, hg, hkind, rfl⟩ := exists_of_setExponent? hd
  refine h.replaced hw hg GateKind.faithful_unpowered ?_ ?_ ?_ fun _ _ => Gate.drawn_repowered ..
  all_goals rw [hkind]; rfl

/-! ### Order and history -/

theorem toggleEndianness (h : c.Still) : c.toggleEndianness.Still := by
  obtain ⟨hcompact, hdrawn⟩ := still_iff.mp h
  have hturned : Compact { c with settings.endianness := c.settings.endianness.toggled } :=
    ⟨hcompact.columns, hcompact.wires, hcompact.bottom⟩
  have hcore : c.toggleEndianness.wires.map Wire.core = c.wires.map Wire.core :=
    map_core_updateOrder { c with settings.endianness := c.settings.endianness.toggled }
  have hbare := map_bare_of_map_core hcore
  have htally : c.toggleEndianness.tally = c.tally := by
    rw [tally, tally, List.flatMap_def, List.flatMap_def]
    exact congrArg (fun cells => Tally.ofGates cells.flatten) (map_cells_updateOrder _)
  refine still_iff.mpr ⟨hturned.of_bare hbare rfl,
    hdrawn.recast GateKind.faithful_plain hbare ⟨rfl, rfl, rfl, rfl⟩ (drawnWires_eq_self_iff.mpr ?_) ?_ ?_ rfl⟩
  · intro v hv k g hg
    rw [controlled_recast GateKind.faithful_plain hbare, swapCount_recast GateKind.faithful_plain hbare]
    obtain ⟨r, hr⟩ := List.getElem?_of_mem hv
    obtain ⟨w, label, hw, -, rfl⟩ := List.getElem?_zipWith_eq_some.mp hr
    have hfixed := hdrawn.gate (List.mem_of_getElem? hw) hg
    exact hfixed
  · rw [length_of_map_bare hbare]
    exact map_placeholder_zipWith (Endianness.length_placeholders ..)
  · rw [htally, isEmpty_congr hbare]
    exact hdrawn.toolbar

/-- The buttons follow the history. -/
theorem retold (h : c.Still) (undos redos : List Template) : ({ c with undos, redos }.updateButtons).Still := by
  obtain ⟨hcompact, hdrawn⟩ := still_iff.mp h
  exact still_iff.mpr ⟨⟨hcompact.columns, hcompact.wires, hcompact.bottom⟩,
    ⟨hdrawn.cells, hdrawn.labels, hdrawn.connectors, hdrawn.borders, hdrawn.registers, rfl, hdrawn.widgets,
      hdrawn.extent⟩⟩

theorem clearHistory (h : c.Still) : c.clearHistory.Still := h.retold [] []

end Circuit.Still

end CircuitDesigner
