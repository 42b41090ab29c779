import CircuitDesigner.Circuit.Basic

/-! Gates and wires put into a circuit and taken out of it.

    These operations keep the wires free of gaps. They may leave columns of inertias and idle wires behind,
    which a refresh removes. -/

namespace CircuitDesigner.Circuit

variable {K : Type} [Coordinate K]

/-! ### Wires -/

/-- A wire with as many inertias as there are columns. -/
def freshWire (c : Circuit K) : Wire K × Circuit K :=
  let w : Wire K := { id := ⟨c.nextWire⟩ }
  let c := { c with nextWire := c.nextWire + 1 }
  match c.columns with
  | 0 => (w, c)
  | last + 1 =>
    let (w, next) := w.place (.inertia c.nextGate) last false (c.nextGate + 1)
    (w, { c with nextGate := next })

/-- A wire at the bottom. -/
def addWire (c : Circuit K) : Circuit K :=
  let (w, c) := c.freshWire
  { c with wires := c.wires ++ [w] }.updateWidgets

/-- `count` wires at the bottom. -/
def addWires (c : Circuit K) : Nat → Circuit K
  | 0 => c
  | count + 1 => c.addWire.addWires count

/-- A wire above the one at a row. -/
def insertWire? (c : Circuit K) (row : Nat) : Option (Circuit K) :=
  if row < c.wires.length then
    let (w, c) := c.freshWire
    some { c with wires := c.wires.insertIdx row w }.updateWidgets
  else none

/-- The circuit without its bottom wire, and whether it had one. -/
def popWire (c : Circuit K) : Bool × Circuit K :=
  (!c.wires.isEmpty, { c with wires := c.wires.dropLast }.updateWidgets)

/-! ### Gates -/

/-- A gate that is on no wire yet. -/
def newGate (c : Circuit K) (kind : GateKind) : Gate × Circuit K :=
  ({ id := ⟨c.nextGate⟩, kind }, { c with nextGate := c.nextGate + 1 })

/-- Room for a gate at a column. When squeezing, every wire gets an inertia there; otherwise the wires
    that do not reach the column do. -/
def openColumn (squeeze : Bool) (column : Nat) : List (Wire K) → Nat → List (Wire K) × Nat
  | [], next => ([], next)
  | w :: ws, next =>
    if squeeze || w.cells.length ≤ column then
      let (w, next) := w.place (.inertia next) column false (next + 1)
      let (ws, next) := openColumn squeeze column ws next
      (w :: ws, next)
    else
      let (ws, next) := openColumn squeeze column ws next
      (w :: ws, next)

/-- Puts a gate into the cell of a row and column, in place of an inertia or before another gate. Its
    supports are not placed. -/
def putCell (c : Circuit K) (g : Gate) (row column : Nat) (squeeze : Bool) : Circuit K :=
  let (wires, next) := openColumn squeeze column c.wires c.nextGate
  match wires[row]? with
  | none => { c with wires, nextGate := next }
  | some w =>
    let (w, next) := w.place g column ((w.cells[column]?).any Gate.isInertia) next
    { c with wires := wires.set row w, nextGate := next }

/-- Puts the supports of a gate into `count` rows from `row` on, on new wires where there are none. -/
def putSupports (c : Circuit K) (parent : GateId) (column row : Nat) : Nat → Circuit K
  | 0 => c
  | count + 1 =>
    let c := c.addWires (row + 1 - c.wires.length)
    let (support, c) := c.newGate (.support parent)
    (c.putCell support row column false).putSupports parent column (row + 1) count

/-- Puts a gate into the cell of a row and column, and its supports below it. -/
def put (c : Circuit K) (g : Gate) (row column : Nat) (squeeze : Bool) : Circuit K :=
  (c.putCell g row column squeeze).putSupports g.id column (row + 1) (g.span - 1)

/-- Places a gate on a wire. A whole position is a column, at most the one after the last; any other makes
    a new column on every wire. None if there is no such wire or the position is no number. -/
def attach? (c : Circuit K) (g : Gate) (row : Nat) (position : K) : Option (Circuit K) :=
  if row < c.wires.length && Coordinate.isNumber position then
    some (c.put g row (Coordinate.column position c.columns) (!Coordinate.isWhole position))
  else none

/-- Places a gate at a column of a wire, at most the one after the last. Nothing happens if there is no
    such wire. -/
def attachAt (c : Circuit K) (g : Gate) (row column : Nat) : Circuit K :=
  if row < c.wires.length then c.put g row (min column c.columns) false else c

/-- Inertias in place of the supports of a gate in a column. -/
def dropSupports (parent : GateId) (column : Nat) : List (Wire K) → Nat → List (Wire K) × Nat
  | [], next => ([], next)
  | w :: ws, next =>
    let detached := do
      let g ← w.cells[column]?
      if g.supports parent then w.detach? g.id next else none
    let (w, next) := match detached with
      | some (_, _, w, next) => (w, next)
      | none => (w, next)
    let (ws, next) := dropSupports parent column ws next
    (w :: ws, next)

/-- Takes a gate out of the circuit, with its supports in its column. -/
def detach? (c : Circuit K) (id : GateId) : Option (Gate × Circuit K) := do
  let (row, _) ← c.locate? id
  let w ← c.wires[row]?
  let (column, g, w, next) ← w.detach? id c.nextGate
  let wires := c.wires.set row w
  if g.span > 1 then
    let (wires, next) := dropSupports id column wires next
    some (g, { c with wires, nextGate := next })
  else some (g, { c with wires, nextGate := next })

/-- Takes gates out of the circuit, passing over those that are not in it. -/
def detachAll (c : Circuit K) : List GateId → Circuit K
  | [] => c
  | id :: ids =>
    match c.detach? id with
    | some (_, c) => c.detachAll ids
    | none => c.detachAll ids

/-- The gates on several wires that have a cell on this one. -/
def spanning (w : Wire K) : List GateId :=
  w.cells.filterMap fun g =>
    match g.kind with
    | .support parent => some parent
    | kind => if kind.span > 1 then some g.id else none

/-- Removes a wire with its gates and all gates that cover a cell of it. -/
def removeWireAt? (c : Circuit K) (row : Nat) : Option (Circuit K) := do
  let w ← c.wires[row]?
  let c := c.detachAll (spanning w)
  some { c with wires := c.wires.eraseIdx row }.updateWidgets

/-- Removes a wire by its id. -/
def removeWire? (c : Circuit K) (id : WireId) : Option (Circuit K) := do
  let row ← c.findWire? id
  c.removeWireAt? row

end CircuitDesigner.Circuit
