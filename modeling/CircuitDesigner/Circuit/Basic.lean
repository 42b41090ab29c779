import CircuitDesigner.Gate.Stamp
import CircuitDesigner.Layout
import CircuitDesigner.Pointer
import CircuitDesigner.Toolbar

/-! Circuits.

    A circuit is a list of wires over common columns, with its settings, its history and its catalog of
    custom gates. What is drawn and shown beside the grid is stored with it, and is as old as the last
    operation that computed it. -/

namespace CircuitDesigner

structure Circuit (K : Type) where
  /-- Top to bottom. -/
  wires : List (Wire K)
  settings : Settings
  /-- States to go back to, the next one at the end. -/
  undos : List Template
  /-- States to return to, the next one at the end. -/
  redos : List Template
  catalog : Catalog
  geometry : Geometry K
  /-- The number of the next gate. -/
  nextGate : Nat
  /-- The number of the next wire. -/
  nextWire : Nat
  connectors : List Connector
  borders : List Border
  registers : List Register
  toolbar : Toolbar
  widgets : Widgets
  /-- The length of the drawn wires, in columns. -/
  extent : Nat

namespace Circuit

variable {K : Type}

/-! ### Looking things up -/

/-- The row of an index, which counts back from the bottom when it is negative. -/
def row? (c : Circuit K) (index : Int) : Option Nat :=
  let index := if index < 0 then c.wires.length + index else index
  if 0 ≤ index ∧ index < c.wires.length then some index.toNat else none

/-- The row of a wire. -/
def findWire? (c : Circuit K) (id : WireId) : Option Nat := c.wires.findIdx? fun w => w.id == id

/-- Row and column of the first cell with a gate, in wires that start at `row`. -/
def locateFrom (id : GateId) (row : Nat) : List (Wire K) → Option (Nat × Nat)
  | [] => none
  | w :: ws =>
    match w.find? id with
    | some column => some (row, column)
    | none => locateFrom id (row + 1) ws

/-- Row and column of a gate. -/
def locate? (c : Circuit K) (id : GateId) : Option (Nat × Nat) := locateFrom id 0 c.wires

/-- The cell of a row and column. -/
def cell? (c : Circuit K) (row column : Nat) : Option Gate := (c.wires[row]?).bind fun w => w.cells[column]?

/-- A placed gate. -/
def gate? (c : Circuit K) (id : GateId) : Option Gate := do
  let (row, column) ← c.locate? id
  c.cell? row column

/-- The number of columns: the length of the longest wire. -/
def columnsOf (wires : List (Wire K)) : Nat := wires.foldr (fun w n => max w.cells.length n) 0

def columns (c : Circuit K) : Nat := columnsOf c.wires

/-- No wire has a cell. -/
def isEmpty (c : Circuit K) : Bool := c.wires.all fun w => w.cells.isEmpty

/-- The counters over all placed gates. -/
def tally (c : Circuit K) : Tally := Tally.ofGates (c.wires.flatMap Wire.cells)

/-! ### Changing parts -/

/-- The wire at a row changed. -/
def modifyWire (c : Circuit K) (row : Nat) (f : Wire K → Wire K) : Circuit K :=
  { c with wires := c.wires.modify row f }

/-- The cell at a row and column changed. -/
def modifyCell (c : Circuit K) (row column : Nat) (f : Gate → Gate) : Circuit K :=
  c.modifyWire row fun w => { w with cells := w.cells.modify column f }

/-- The counters of the toolbar computed anew. -/
def updateWidgets (c : Circuit K) : Circuit K :=
  { c with widgets := Widgets.derive c.wires.length c.columns c.tally c.settings }

/-- The buttons of the toolbar computed anew. -/
def updateButtons (c : Circuit K) : Circuit K :=
  { c with toolbar := Toolbar.derive c.tally c.undos.length c.redos.length c.isEmpty }

/-- The ordinals of the wires computed anew. -/
def updateOrder (c : Circuit K) : Circuit K :=
  let labels := c.settings.endianness.placeholders c.wires.length
  { c with wires := List.zipWith (fun w label => { w with placeholder := label }) c.wires labels }

/-- The wires drawn for their columns and `surplus` more; not at all without columns. -/
def extend (c : Circuit K) (surplus : Nat) : Circuit K :=
  { c with extent := if c.columns > 0 then c.columns + surplus else 0 }

/-- The circuit without history. -/
def clearHistory (c : Circuit K) : Circuit K := { c with undos := [], redos := [] }.updateButtons

/-- The wires numbered from the other end. -/
def toggleEndianness (c : Circuit K) : Circuit K :=
  { c with settings.endianness := c.settings.endianness.toggled }.updateOrder.updateWidgets

end Circuit

end CircuitDesigner
