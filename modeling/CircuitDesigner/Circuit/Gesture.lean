import CircuitDesigner.Circuit.History

/-! Edits by click and key.

    An edit saves the state of the circuit, changes it and refreshes it, so that it is one step of the
    history. Typing an exponent is none. An edit that does not apply gives no circuit. -/

namespace CircuitDesigner.Circuit

variable {K : Type} [Coordinate K]

/-- Removes a gate. -/
def deleteGate? (c : Circuit K) (id : GateId) : Option (Circuit K) :=
  (c.locate? id).map fun _ => (c.save.detachAll [id]).refresh

/-- Moves the gates of a column in the `count` rows from `row` on down by `span` rows, the lowest one first. -/
def pushDown (c : Circuit K) (column row span : Nat) : Nat → Circuit K
  | 0 => c
  | count + 1 =>
    let occupant := (c.cell? (row + count) column).filter fun g => !g.kind.isPlaceholder
    match occupant.bind fun g => c.detach? g.id with
    | some (g, c) => (c.attachAt g (row + count + span) column).pushDown column row span count
    | none => c.pushDown column row span count

/-- Puts a copy of a gate into a new column after it. -/
def duplicateRight? [Add K] (c : Circuit K) (id : GateId) : Option (Circuit K) := do
  let (row, column) ← c.locate? id
  let g ← c.gate? id
  let (copy, c) := c.save.newGate g.kind
  let position : K := Coordinate.ofNat column + Coordinate.half
  some ((c.attach? copy row position).getD c).refresh

/-- Puts a copy of a gate below it, into its column. The gates there move down to make room. -/
def duplicateDown? (c : Circuit K) (id : GateId) : Option (Circuit K) := do
  let (row, column) ← c.locate? id
  let g ← c.gate? id
  let (copy, c) := c.save.newGate g.kind
  let bottom := c.wires.length
  let c := (c.addWires g.span).pushDown column (row + g.span) g.span (bottom - (row + g.span))
  some (c.attachAt copy (row + g.span) column).refresh

/-- Goes on to the next postselection of a measurement without a fault. -/
def cyclePostSelection? (c : Circuit K) (id : GateId) : Option (Circuit K) := do
  let (row, column) ← c.locate? id
  let g ← c.gate? id
  match g.kind, g.fault with
  | .measurement mode, none =>
    some (c.save.modifyCell row column fun g => g.withKind (.measurement mode.next)).refresh
  | _, _ => none

/-- Turns a control into the other one. -/
def toggleControl? (c : Circuit K) (id : GateId) : Option (Circuit K) := do
  let (row, column) ← c.locate? id
  let g ← c.gate? id
  match g.kind with
  | .control mode => some (c.save.modifyCell row column fun g => g.withKind (.control mode.toggled)).refresh
  | _ => none

/-- Replaces the exponent of a powered gate. Only the fault of the gate and the buttons are computed anew. -/
def setExponent? (c : Circuit K) (id : GateId) (exponent : String) : Option (Circuit K) := do
  let (row, column) ← c.locate? id
  let g ← c.gate? id
  match g.kind with
  | .powered axis _ =>
    let onBit := (c.wires[row]?).any fun w => w.bitAt column
    some (c.modifyCell row column fun g => (g.withKind (.powered axis exponent)).inspected onBit).updateButtons
  | _ => none

/-- What a click on the ket of a wire does. -/
inductive WireClick where
  | ket
  | resetKet
  | color
  | resetColor
  deriving DecidableEq, Repr

/-- The wire after a click on its ket. -/
def WireClick.apply (click : WireClick) (w : Wire K) : Wire K :=
  match click with
  | ket => { w with ket := w.ket.next }
  | resetKet => { w with ket := .zero }
  | color => { w with color := w.color.next }
  | resetColor => { w with color := .transparent }

/-- Changes ket or color of a wire. -/
def clickWire? (c : Circuit K) (row : Nat) (click : WireClick) : Option (Circuit K) :=
  if row < c.wires.length then some (c.save.modifyWire row click.apply).refresh else none

/-- Names a wire. The empty name brings back its ordinal. -/
def renameWire? (c : Circuit K) (row : Nat) (name : String) : Option (Circuit K) :=
  if row < c.wires.length then
    some (c.save.modifyWire row fun w => { w with name := Text.trim name }).refresh
  else none

/-- Removes a wire with its gates and all gates that cover a cell of it. -/
def deleteWire? (c : Circuit K) (row : Nat) : Option (Circuit K) :=
  (c.save.removeWireAt? row).map refresh

end CircuitDesigner.Circuit
