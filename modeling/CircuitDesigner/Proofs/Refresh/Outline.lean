import CircuitDesigner.Circuit.Refresh
import CircuitDesigner.Proofs.Grid.View

/-! What drawing and validation read of the wires.

    They read kinds, collapses, kets, names and colors. They do not read the numbers of gates and wires (`plain`
    leaves those out) nor what they computed themselves before (`bare` leaves that out too). -/

namespace CircuitDesigner

variable {K : Type}

/-- The kind without the number of the gate that a support belongs to. -/
def GateKind.plain : GateKind → GateKind
  | support _ => support ⟨0⟩
  | kind => kind

theorem GateKind.hasTexture_plain (kind : GateKind) : kind.plain.hasTexture = kind.hasTexture := by
  cases kind <;> rfl

/-- The gate without numbers. -/
def Gate.plain (g : Gate) : Gate where
  id := ⟨0⟩
  kind := g.kind.plain
  fault := g.fault
  textured := g.textured
  hasTexture_of_textured h := by rw [GateKind.hasTexture_plain]; exact g.hasTexture_of_textured h

/-- The gate without anything but its kind. -/
def Gate.bare (g : Gate) : Gate := { id := ⟨0⟩, kind := g.kind.plain }

/-- The wire without numbers. -/
def Wire.plain (w : Wire K) : Wire K := { w with id := ⟨0⟩, cells := w.cells.map Gate.plain }

/-- The kinds on the wire without numbers. -/
def Wire.kinds (w : Wire K) : List GateKind := w.cells.map fun g => g.kind.plain

/-- The wire as drawing and validation find it. -/
def Wire.bare (w : Wire K) : Wire K := { w with id := ⟨0⟩, cells := w.cells.map Gate.bare, placeholder := "" }

namespace GateKind

variable (kind : GateKind)

@[simp] theorem plain_plain : kind.plain.plain = kind.plain := by cases kind <;> rfl

@[simp] theorem isGeneric_plain : kind.plain.isGeneric = kind.isGeneric := by cases kind <;> rfl

@[simp] theorem isControl_plain : kind.plain.isControl = kind.isControl := by cases kind <;> rfl

@[simp] theorem isSwap_plain : kind.plain.isSwap = kind.isSwap := by cases kind <;> rfl

@[simp] theorem isMeasurement_plain : kind.plain.isMeasurement = kind.isMeasurement := by cases kind <;> rfl

@[simp] theorem isPostSelection_plain : kind.plain.isPostSelection = kind.isPostSelection := by cases kind <;> rfl

@[simp] theorem isCounted_plain : kind.plain.isCounted = kind.isCounted := by cases kind <;> rfl

@[simp] theorem isInertia_plain : kind.plain.isInertia = kind.isInertia := by cases kind <;> rfl

@[simp] theorem inspect_plain (onBit : Bool) : kind.plain.inspect onBit = kind.inspect onBit := by
  cases kind <;> rfl

end GateKind

@[simp] theorem Gate.bare_plain (g : Gate) : g.plain.bare = g.bare := by
  simp [bare, plain]

/-! ### Readers -/

/-- A change of kinds that drawing does not notice. -/
structure GateKind.Faithful (f : GateKind → GateKind) : Prop where
  isGeneric : ∀ kind, (f kind).isGeneric = kind.isGeneric
  isControl : ∀ kind, (f kind).isControl = kind.isControl
  isSwap : ∀ kind, (f kind).isSwap = kind.isSwap
  isPostSelection : ∀ kind, (f kind).isPostSelection = kind.isPostSelection
  isInertia : ∀ kind, (f kind).isInertia = kind.isInertia

theorem GateKind.faithful_plain : Faithful plain where
  isGeneric := isGeneric_plain
  isControl := isControl_plain
  isSwap := isSwap_plain
  isPostSelection := isPostSelection_plain
  isInertia := isInertia_plain

/-- The bare wire with its kinds changed. -/
def Wire.recast (f : GateKind → GateKind) (w : Wire K) : Wire K :=
  { w with id := ⟨0⟩, cells := w.cells.map fun g => { id := ⟨0⟩, kind := f g.kind }, placeholder := "" }

theorem columnsOf_map_recast (f : GateKind → GateKind) (ws : List (Wire K)) :
    Circuit.columnsOf (ws.map (Wire.recast f)) = Circuit.columnsOf ws := by
  refine columnsOf_congr ?_
  simp [Wire.recast, Function.comp_def]

namespace GateKind.Faithful

variable {f : GateKind → GateKind} (hf : Faithful f) (w : Wire K) (ws : List (Wire K)) (k : Nat)

omit hf in
theorem cell?_recast : Layout.cell? (w.recast f) k none =
    (Layout.cell? w k none).map fun g => { id := ⟨0⟩, kind := f g.kind } := by
  simp only [Layout.cell?, Wire.recast, List.getElem?_map]
  cases w.cells[k]? <;> rfl

omit hf in
theorem rowsWith_recast {p : GateKind → Bool} (hp : ∀ kind, p (f kind) = p kind) :
    Layout.rowsWith p (ws.map (Wire.recast f)) k none = Layout.rowsWith p ws k none := by
  unfold Layout.rowsWith
  rw [List.length_map]
  refine List.filter_congr fun r _ => ?_
  rw [List.getElem?_map]
  cases ws[r]? with
  | none => rfl
  | some w => simp [cell?_recast, Option.any_map, hp]

include hf

theorem swapCount : Circuit.swapCount (ws.map (Wire.recast f)) k = Circuit.swapCount ws k := by
  unfold Circuit.swapCount
  rw [List.countP_map]
  refine List.countP_congr fun w _ => ?_
  simp [Wire.hasSwap, Wire.recast, Option.any_map, hf.isSwap]

theorem columnBorder : Layout.columnBorder (ws.map (Wire.recast f)) k none = Layout.columnBorder ws k none := by
  unfold Layout.columnBorder
  simp [Function.comp_def, cell?_recast, Option.any_map, hf.isPostSelection]

theorem isIdle : (w.recast f).isIdle = w.isIdle := by
  simp only [Wire.isIdle, Wire.recast, List.all_map, Function.comp_def, Gate.isInertia, hf.isInertia]
  rfl

theorem isVacant : (w.recast f).isVacant k = w.isVacant k := by
  simp only [Wire.isVacant, Wire.recast, List.getElem?_map, Option.all_map, Gate.isInertia, hf.isInertia]
  rfl

omit hf in
theorem registersFrom (row : Nat) (current : Register) :
    Layout.registersFrom row current (ws.map (Wire.recast f)) = Layout.registersFrom row current ws := by
  induction ws generalizing row current with
  | nil => rfl
  | cons w ws ih => simp only [List.map_cons, Layout.registersFrom, ih, Wire.recast]

omit hf in
theorem registers : Layout.registers (ws.map (Wire.recast f)) = Layout.registers ws := by
  cases ws with
  | nil => rfl
  | cons w ws => simp only [List.map_cons, Layout.registers, registersFrom, Wire.recast]

variable [Coordinate K]

theorem columnLinks : Layout.columnLinks (ws.map (Wire.recast f)) k none = Layout.columnLinks ws k none := by
  have hstyle : Layout.controlStyle (ws.map (Wire.recast f)) k = Layout.controlStyle ws k := by
    funext r
    unfold Layout.controlStyle
    rw [List.getElem?_map, Option.any_map]
    rfl
  have hconnectors : Layout.controlConnectors (ws.map (Wire.recast f)) k = Layout.controlConnectors ws k := by
    funext first last r
    unfold Layout.controlConnectors
    rw [hstyle]
  unfold Layout.columnLinks
  rw [hconnectors, rowsWith_recast ws k hf.isGeneric, rowsWith_recast ws k hf.isControl, rowsWith_recast ws k hf.isSwap]

end GateKind.Faithful

section Bare

open GateKind

variable (ws : List (Wire K)) (k : Nat)

theorem length_of_map_bare {vs ws : List (Wire K)} (h : vs.map Wire.bare = ws.map Wire.bare) :
    vs.length = ws.length := by
  rw [← List.length_map Wire.bare, h, List.length_map]

theorem columnsOf_map_bare : Circuit.columnsOf (ws.map Wire.bare) = Circuit.columnsOf ws :=
  columnsOf_map_recast plain ws

theorem Circuit.swapCount_bare : Circuit.swapCount (ws.map Wire.bare) k = Circuit.swapCount ws k :=
  faithful_plain.swapCount ws k

theorem Layout.columnBorder_bare : Layout.columnBorder (ws.map Wire.bare) k none = Layout.columnBorder ws k none :=
  faithful_plain.columnBorder ws k

theorem Layout.registers_bare : Layout.registers (ws.map Wire.bare) = Layout.registers ws := Faithful.registers ws

theorem Layout.columnLinks_bare [Coordinate K] :
    Layout.columnLinks (ws.map Wire.bare) k none = Layout.columnLinks ws k none := faithful_plain.columnLinks ws k

end Bare

/-- The counters read kinds and faults. -/
theorem tally_plain (gates : List Gate) : Tally.ofGates (gates.map Gate.plain) = Tally.ofGates gates := by
  unfold Tally.ofGates
  simp only [List.countP_map, Function.comp_def, Gate.plain, GateKind.isCounted_plain, GateKind.isSwap_plain,
    GateKind.isMeasurement_plain, GateKind.isControl_plain, Gate.isInertia, GateKind.isInertia_plain]

theorem Circuit.tally_congr {c d : Circuit K} (h : c.wires.map Wire.plain = d.wires.map Wire.plain) :
    c.tally = d.tally := by
  have hcells : ∀ ws : List (Wire K), (ws.flatMap Wire.cells).map Gate.plain = (ws.map Wire.plain).flatMap Wire.cells :=
    fun ws => by
      rw [List.map_flatMap, List.flatMap_map]
      rfl
  unfold tally
  rw [← tally_plain, ← tally_plain (d.wires.flatMap Wire.cells), hcells, hcells, h]

end CircuitDesigner
