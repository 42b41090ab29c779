import CircuitDesigner.Wire.Basic

/-! What is drawn over the grid: the connectors of controls and swaps, the borders of postselection and
    the registers. -/

namespace CircuitDesigner

/-- How a connector is drawn. -/
inductive ConnectorStyle where
  /-- From a control on a quantum wire. -/
  | quantum
  /-- From a control on the classical part of its wire. -/
  | classical
  /-- Between the halves of a swap. -/
  | swap
  deriving DecidableEq, Repr

def ConnectorStyle.label : ConnectorStyle → String
  | quantum => "Quantum"
  | classical => "Classical"
  | swap => "Swap"

/-- A line in a column from row `start` down to row `stop`. -/
structure Connector where
  column : Nat
  start : Nat
  stop : Nat
  style : ConnectorStyle
  deriving DecidableEq, Repr

/-- The frame of a column in which a measurement postselects, over all rows. -/
structure Border where
  column : Nat
  rows : Nat
  deriving DecidableEq, Repr

/-- Neighbouring wires of one color. -/
structure Register where
  start : Nat
  length : Nat
  color : RegisterColor
  deriving DecidableEq, Repr

/-- What is linked in a column, by rows. -/
structure ColumnLinks where
  connectors : List Connector
  generics : List Nat
  controls : List Nat
  swaps : List Nat
  deriving DecidableEq, Repr

namespace Layout

variable {K : Type}

/-- The gate in a cell, unless it is the ignored one. -/
def cell? (w : Wire K) (column : Nat) (ignored : Option GateId) : Option Gate :=
  w.cells[column]?.filter fun g => !g.isGate ignored

/-- The rows whose cell in the column holds a gate of some sort, passing over an ignored gate. -/
def rowsWith (p : GateKind → Bool) (wires : List (Wire K)) (column : Nat) (ignored : Option GateId) : List Nat :=
  (List.range wires.length).filter fun row =>
    (wires[row]?).any fun w => (cell? w column ignored).any fun g => p g.kind

section Links

variable [Coordinate K]

/-- The style of the connectors of the control at a row. -/
def controlStyle (wires : List (Wire K)) (column row : Nat) : ConnectorStyle :=
  if (wires[row]?).any fun w => w.bitAt column then .classical else .quantum

/-- The connectors of the control at a row: up to the first generic gate and down to the last one. -/
def controlConnectors (wires : List (Wire K)) (column first last row : Nat) : List Connector :=
  let style := controlStyle wires column row
  (if first < row then [⟨column, first, row, style⟩] else []) ++
    (if row < last then [⟨column, row, last, style⟩] else [])

/-- What is linked in a column. A control reaches to the first and to the last generic gate of the column,
    as far as they lie on its two sides. Two swaps are linked, any other number is not. -/
def columnLinks (wires : List (Wire K)) (column : Nat) (ignored : Option GateId) : ColumnLinks :=
  let generics := rowsWith GateKind.isGeneric wires column ignored
  let controls := rowsWith GateKind.isControl wires column ignored
  let swaps := rowsWith GateKind.isSwap wires column ignored
  let links := match generics.head?, generics.getLast? with
    | some first, some last => controls.flatMap (controlConnectors wires column first last)
    | _, _ => []
  let pair := match swaps with
    | [top, bottom] => [⟨column, top, bottom, .swap⟩]
    | _ => []
  { connectors := links ++ pair, generics, controls, swaps }

end Links

/-- The border of a column, if a measurement in it postselects. -/
def columnBorder (wires : List (Wire K)) (column : Nat) (ignored : Option GateId) : Option Border :=
  if wires.any fun w => (cell? w column ignored).any fun g => g.kind.isPostSelection then
    some ⟨column, wires.length⟩
  else none

/-- The registers of wires from `row` on, of which `current` is the one that the next wire may join. -/
def registersFrom (row : Nat) (current : Register) : List (Wire K) → List Register
  | [] => [current]
  | w :: ws =>
    if w.color = current.color then registersFrom (row + 1) { current with length := current.length + 1 } ws
    else current :: registersFrom (row + 1) ⟨row, 1, w.color⟩ ws

/-- Neighbouring wires of one color make a register. -/
def registers : List (Wire K) → List Register
  | [] => []
  | w :: ws => registersFrom 1 ⟨0, 1, w.color⟩ ws

end Layout

end CircuitDesigner
