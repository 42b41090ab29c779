import CircuitDesigner.Circuit.History

/-! Dragging gates.

    A drag carries a new gate out of the toolbox, or refers to a gate of the circuit, which stays in its cell
    until the drop. While it lasts the circuit has a spare wire at the bottom, and its collapses and
    connectors are those it would have without the dragged gate. -/

namespace CircuitDesigner

structure Drag (K : Type) where
  id : GateId
  /-- The dragged gate, if it is a new one. -/
  floating : Option Gate
  /-- Where the last hover would have dropped the gate. -/
  hovered : Option (Placement K)

/-- All wires collapsed at their first measurement, passing over an ignored gate. -/
def Circuit.rescan {K : Type} [Coordinate K] (c : Circuit K) (ignored : Option GateId) : Circuit K :=
  { c with wires := c.wires.map fun w => w.rescan ignored }

namespace Drag

variable {K : Type} [Coordinate K]

/-- The circuit while a gate is dragged. -/
def prepare (c : Circuit K) (id : GateId) : Circuit K :=
  ((c.addWire.extend 1).drawBorders (some id)).updateOrder

/-- Starts to drag a new gate. -/
def ofToolbox (c : Circuit K) (kind : GateKind) : Drag K × Circuit K :=
  let (g, c) := c.newGate kind
  (⟨g.id, some g, none⟩, prepare c g.id)

/-- Starts to drag a gate of the circuit. -/
def ofPlaced? (c : Circuit K) (id : GateId) : Option (Drag K × Circuit K) :=
  (c.locate? id).map fun _ => (⟨id, none, none⟩, prepare c id)

/-- The dragged gate. -/
def gate? (d : Drag K) (c : Circuit K) : Option Gate := d.floating <|> c.gate? d.id

section Move

variable [Add K] [Sub K] [Mul K] [Div K]

/-- Where a gate would go. -/
def localize (c : Circuit K) (p : Pointer K) (g : Gate) : Option (Placement K) :=
  p.localize c.geometry c.wires g

/-- Moves the pointer. The circuit shows its collapses and connectors without the dragged gate; over a wire, a
    dragged measurement collapses it where it would be dropped. -/
def hover (d : Drag K) (c : Circuit K) (p : Pointer K) : Option (Placement K) × Drag K × Circuit K :=
  let c := (c.rescan (some d.id)).drawConnectors (some d.id)
  match d.gate? c with
  | none => (none, d, c)
  | some g =>
    let placement := localize c p g
    let d := { d with hovered := placement }
    match placement with
    | some target =>
      if g.kind.isMeasurement then
        (placement, d, c.modifyWire target.row fun w => w.preview (some d.id) target.position)
      else (placement, d, c)
    | none => (placement, d, c)

/-- Takes the dragged gate in hand: a gate of the circuit leaves its cell. -/
def take (d : Drag K) (c : Circuit K) : Option Gate × Circuit K :=
  match d.floating with
  | some g => (some g, c)
  | none =>
    match c.detach? d.id with
    | some (g, c) => (some g, c)
    | none => (none, c)

/-- Puts a gate where the pointer is, if that is anywhere. -/
def release (c : Circuit K) (p : Pointer K) (g : Option Gate) : Option (Placement K × Circuit K) := do
  let g ← g
  let target ← localize c p g
  let c ← c.attach? g target.row target.position
  some (target, c)

/-- Drops the gate at the pointer, or discards it when the pointer is over no wire. The state before it is
    saved if it differs. -/
def drop (d : Drag K) (c : Circuit K) (p : Pointer K) : Option (Placement K) × Circuit K :=
  let before := c.current
  let (g, c) := d.take c
  let (placement, c) := match release c p g with
    | some (target, c) => (some target, c)
    | none => (none, c)
  let c := c.rescan none
  (placement, ((c.saveState? before).getD c).refresh)

end Move

/-- Gives the drag up. -/
def cancel (c : Circuit K) : Circuit K := (c.rescan none).refresh

end Drag

end CircuitDesigner
