/-! Numbers that measure the canvas: pointer positions, metrics and positions along a wire.

    A position is compared with columns, which are natural numbers, and is either whole (it names a
    column) or lies between two columns. The library runs on doubles and is reasoned about on exact
    rationals; this class is all that both have to offer beside the four operations. -/

namespace CircuitDesigner

/-- What a number type needs to serve as a coordinate. -/
class Coordinate (K : Type) where
  /-- The coordinate of a column, or any other count. -/
  ofNat : Nat → K
  /-- One half. -/
  half : K
  lt : K → K → Bool
  le : K → K → Bool
  /-- False for the results of undefined operations only. -/
  isNumber : K → Bool
  /-- The coordinate names a column: it has no fractional part. -/
  isWhole : K → Bool
  /-- The largest whole coordinate not above. -/
  floor : K → K
  /-- The least natural number not below. -/
  ceilNat : K → Nat
  /-- The coordinate without its fraction, as a natural number. -/
  toNat : K → Nat

namespace Coordinate

variable {K : Type} [Coordinate K]

/-- Neither is below the other. -/
def same (a b : K) : Bool := le a b && le b a

/-- The column at which a gate placed at `position` lands in a grid of `columns` columns: the next
    whole column, but not before the first column nor after the end. -/
def column (position : K) (columns : Nat) : Nat :=
  if le (ofNat columns) position then columns else ceilNat position

end Coordinate

instance : Coordinate Float where
  ofNat := Float.ofNat
  half := 0.5
  lt a b := a < b
  le a b := a ≤ b
  isNumber x := !x.isNaN
  isWhole x := x - x.floor == 0
  floor := Float.floor
  ceilNat x := x.ceil.toUInt64.toNat
  toNat x := x.toUInt64.toNat

instance : Coordinate Rat where
  ofNat n := n
  half := 1 / 2
  lt a b := a < b
  le a b := a ≤ b
  isNumber _ := true
  isWhole x := x.den = 1
  floor x := x.floor
  ceilNat x := x.ceil.toNat
  toNat x := x.floor.toNat

end CircuitDesigner
