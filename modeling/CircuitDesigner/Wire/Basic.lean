import CircuitDesigner.Coordinate
import CircuitDesigner.Gate.Basic
import CircuitDesigner.Wire.Ket

/-! Wires.

    A wire is a row of cells without gaps; a column in which it holds nothing holds an inertia. Its first
    measurement turns it into a bit: from the pivot on it is classical. Operations that make inertias take
    the number of the next gate and return the one after those they used. -/

namespace CircuitDesigner

structure Wire (K : Type) where
  id : WireId
  /-- One for each column. -/
  cells : List Gate := []
  /-- Given by the user; empty for none. -/
  name : String := ""
  /-- Its ordinal, shown while it has no name. -/
  placeholder : String := ""
  ket : Ket := .zero
  color : RegisterColor := .transparent
  /-- The position after which it is classical. -/
  pivot : Option K := none
  deriving Repr

namespace Wire

variable {K : Type}

/-- The name, or the ordinal of a wire without one. -/
def label (w : Wire K) : String := if w.name.isEmpty then w.placeholder else w.name

/-- The wire holds nothing but inertias. -/
def isIdle (w : Wire K) : Bool := w.cells.all Gate.isInertia

/-- The column of a gate. -/
def find? (w : Wire K) (id : GateId) : Option Nat := w.cells.findIdx? fun g => g.id == id

/-- The cell of a column is empty, or an inertia. -/
def isVacant (w : Wire K) (column : Nat) : Bool := (w.cells[column]?).all Gate.isInertia

/-- The column holds a swap. -/
def hasSwap (w : Wire K) (column : Nat) : Bool := (w.cells[column]?).any fun g => g.kind.isSwap

/-- The gate at an index, which counts back from the end when it is negative. -/
def gate? (w : Wire K) (index : Int) : Option Gate :=
  let index := if index < 0 then w.cells.length + index else index
  if 0 ≤ index then w.cells[index.toNat]? else none

/-! ### Collapse -/

variable [Coordinate K]

/-- The wire is classical at the position. The pivot itself is still quantum. -/
def bit (w : Wire K) (position : K) : Bool := w.pivot.any fun pivot => Coordinate.lt pivot position

/-- The wire is classical at the column. -/
def bitAt (w : Wire K) (column : Nat) : Bool := w.bit (Coordinate.ofNat column)

/-- Makes the wire classical after the position. -/
def collapse (w : Wire K) (position : K) : Wire K := { w with pivot := some position }

/-- The column of the first measurement, passing over an ignored gate. -/
def firstMeasurement (cells : List Gate) (ignored : Option GateId) : Option Nat :=
  cells.findIdx? fun g => g.kind.isMeasurement && !g.isGate ignored

/-- Collapses the wire at its first measurement, or makes it quantum if it has none. -/
def rescan (w : Wire K) (ignored : Option GateId) : Wire K :=
  { w with pivot := (firstMeasurement w.cells ignored).map Coordinate.ofNat }

/-- The wire as it would be with a measurement at the position instead of the ignored gate: it collapses
    there, or at an earlier measurement. -/
def preview (w : Wire K) (ignored : Option GateId) (position : K) : Wire K :=
  match (firstMeasurement w.cells ignored).map Coordinate.ofNat with
  | some earlier => w.collapse (if Coordinate.lt earlier position then earlier else position)
  | none => w.collapse position

/-- The position holds a measurement other than the ignored gate. -/
def measuresAt (w : Wire K) (ignored : Option GateId) (position : K) : Bool :=
  Coordinate.le (Coordinate.ofNat 0) position && Coordinate.isWhole position &&
    (w.cells[Coordinate.toNat position]?).any fun g => g.kind.isMeasurement && !g.isGate ignored

section Scan

variable [Add K]

/-- The first of the positions `position`, `position + step`, ... before `limit` that is `stop` or holds a
    measurement. `fuel` bounds their number. -/
def seek (w : Wire K) (ignored : Option GateId) (step limit : K) (stop : Option K) : Nat → K → Option K
  | 0, _ => none
  | fuel + 1, position =>
    if !Coordinate.lt position limit then none
    else if stop.any (Coordinate.same position) || w.measuresAt ignored position then some position
    else w.seek ignored step limit stop fuel (position + step)

/-- Scans the positions `start`, `start + step`, ... for a measurement and collapses the wire there. With
    `stop` the scan ends at that position and collapses the wire there in any case. A step that is not
    positive counts as one. Where positions are rounded a step may come out as half its length, so that the
    scan takes up to twice the steps that fit. -/
def scan [Sub K] [Div K] (w : Wire K) (ignored : Option GateId) (start step : K) (stop : Option K) : Wire K :=
  let step := if Coordinate.lt (Coordinate.ofNat 0) step then step else Coordinate.ofNat 1
  let limit := match stop with
    | some stop => stop + Coordinate.ofNat 1
    | none => Coordinate.ofNat w.cells.length
  let fuel := 2 * (Coordinate.toNat ((limit - start) / step) + 2)
  { w with pivot := w.seek ignored step limit stop fuel start }

end Scan

/-! ### Cells -/

/-- Puts a gate at a column. With `overwrite` it takes the place of the cell there, if there is one. Else
    inertias fill up the wire as far as the column, and the gate goes before the cell there. -/
def place (w : Wire K) (g : Gate) (column : Nat) (overwrite : Bool) (next : Nat) : Wire K × Nat :=
  let g := g.ownedBy w.id
  if overwrite && column < w.cells.length then
    ({ w with cells := w.cells.set column g }.rescan none, next)
  else
    let missing := column - w.cells.length
    let padding := (List.range missing).map fun i => (Gate.inertia (next + i)).ownedBy w.id
    ({ w with cells := (w.cells ++ padding).insertIdx column g }.rescan none, next + missing)

/-- Takes a gate off the wire, with its column. An inertia stays in its place, unless it was one. -/
def detach? (w : Wire K) (id : GateId) (next : Nat) : Option (Nat × Gate × Wire K × Nat) := do
  let column ← w.find? id
  let g ← w.cells[column]?
  if g.isInertia then
    some (column, g.released, { w with cells := w.cells.eraseIdx column }.rescan none, next)
  else
    let remnant := (Gate.inertia next).ownedBy w.id
    some (column, g.released, { w with cells := w.cells.set column remnant }.rescan none, next + 1)

/-- The wire without the inertia at a column, if that is what the cell holds. -/
def dropInertia (w : Wire K) (column : Nat) : Wire K :=
  if (w.cells[column]?).any Gate.isInertia then
    { w with cells := w.cells.eraseIdx column }.rescan none
  else w

end Wire

end CircuitDesigner
