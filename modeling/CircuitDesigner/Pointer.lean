import CircuitDesigner.Json.Decode
import CircuitDesigner.Wire.Basic

/-! Pointers over the canvas, and the cells they point at. -/

namespace CircuitDesigner

/-- The metrics of the canvas. Row `i` reaches from `top + i * rowHeight` down by `rowHeight`; its wire
    starts at `left + wireOffset`, and each column takes `step`. -/
structure Geometry (K : Type) where
  top : K
  left : K
  rowHeight : K
  wireOffset : K
  step : K
  width : K

/-- The metrics of the designer. -/
def Geometry.standard {K : Type} [Coordinate K] : Geometry K where
  top := Coordinate.ofNat 122
  left := Coordinate.ofNat 0
  rowHeight := Coordinate.ofNat 59
  wireOffset := Coordinate.ofNat 90
  step := Coordinate.ofNat 50
  width := Coordinate.ofNat 4000

def Geometry.fields : List (Json.Field (Geometry Float)) :=
  [⟨"top", false, fun g o depth d => return { g with top := ← Json.decodeFloat o depth d }⟩,
    ⟨"left", false, fun g o depth d => return { g with left := ← Json.decodeFloat o depth d }⟩,
    ⟨"row_height", false, fun g o depth d => return { g with rowHeight := ← Json.decodeFloat o depth d }⟩,
    ⟨"wire_offset", false, fun g o depth d => return { g with wireOffset := ← Json.decodeFloat o depth d }⟩,
    ⟨"step_size", false, fun g o depth d => return { g with step := ← Json.decodeFloat o depth d }⟩,
    ⟨"width", false, fun g o depth d => return { g with width := ← Json.decodeFloat o depth d }⟩]

/-- Metrics that are not given are those of the designer. -/
def Geometry.decode : Json.Decoder (Geometry Float) :=
  Json.decodeRecord "struct CanvasGeometry" fields .standard

/-- A point of the canvas. -/
structure Pointer (K : Type) where
  x : K
  y : K

/-- Where a gate goes: a row and a position along its wire. A whole position is a column; any other asks
    for a new column at the next whole position. -/
structure Placement (K : Type) where
  row : Nat
  position : K
  deriving DecidableEq, Repr

namespace Placement

variable {K : Type} [Coordinate K]

/-- The placement makes a new column. -/
def squeezes (p : Placement K) : Bool := !Coordinate.isWhole p.position

end Placement

namespace Pointer

variable {K : Type} [Add K] [Sub K] [Mul K] [Div K] [Coordinate K]

/-- The pointer is within the height of a row, both ends included. -/
def inRow (geometry : Geometry K) (p : Pointer K) (row : Nat) : Bool :=
  let top := geometry.top + Coordinate.ofNat row * geometry.rowHeight
  Coordinate.le top p.y && Coordinate.le p.y (top + geometry.rowHeight)

/-- The first of `count` rows from `row` on that the pointer is over. No row below it is looked at. -/
def findRow? (geometry : Geometry K) (p : Pointer K) : Nat → Nat → Option Nat
  | 0, _ => none
  | count + 1, row => if p.inRow geometry row then some row else p.findRow? geometry count (row + 1)

omit [Sub K] [Div K] in
theorem findRow?_eq (geometry : Geometry K) (p : Pointer K) (count row : Nat) :
    p.findRow? geometry count row = (List.range' row count).find? (p.inRow geometry) := by
  induction count generalizing row with
  | zero => rfl
  | succ count ih => by_cases h : p.inRow geometry row <;> simp [findRow?, List.range'_succ, h, ih]

/-- The first of `rows` rows that the pointer is over, if it is strictly between the sides of the canvas. -/
def row? (geometry : Geometry K) (rows : Nat) (p : Pointer K) : Option Nat :=
  if Coordinate.lt geometry.left p.x && Coordinate.lt p.x (geometry.left + geometry.width) then
    p.findRow? geometry rows 0
  else none

/-- The cell is taken by a gate other than the dragged one and its supports. -/
def isTaken (dragged : Gate) (w : Wire K) (column : Nat) : Bool :=
  (w.cells[column]?).any fun g => !(g.isInertia || g.supports dragged.id || g.id == dragged.id)

/-- The cell shows a gate. -/
def isShown (w : Wire K) (column : Nat) : Bool := (w.cells[column]?).any fun g => !g.kind.isPlaceholder

/-- Where the dragged gate goes if it is dropped at the pointer. It goes to the column below the pointer,
    unless the pointer is in the left half of the column, the column is taken, or a gate shows on a lower
    wire that the dragged gate would cover. Then it goes before that column. -/
def localize (geometry : Geometry K) (wires : List (Wire K)) (dragged : Gate) (p : Pointer K) :
    Option (Placement K) := do
  let row ← p.row? geometry wires.length
  let offset := p.x - (geometry.left + geometry.wireOffset)
  let zero : K := Coordinate.ofNat 0
  if Coordinate.le offset zero || Coordinate.le geometry.step zero then none
  let index := Coordinate.floor (offset / geometry.step)
  let column := Coordinate.toNat index
  let leftHalf := Coordinate.lt offset ((index + Coordinate.half) * geometry.step)
  let shadowed := ((wires.drop (row + 1)).take (dragged.span - 1)).any fun w => isShown w column
  let taken := (wires[row]?).any fun w => isTaken dragged w column
  some ⟨row, if leftHalf || shadowed || taken then index - Coordinate.half else index⟩

end Pointer

end CircuitDesigner
