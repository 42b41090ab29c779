/-! Unsigned whole numbers as they are typed: ASCII digits, one plus sign allowed before them, and a
    value below a bound that belongs to the place where the number stands. -/

namespace CircuitDesigner.Text

/-- The value of an ASCII digit. -/
def digit? (c : Char) : Option Nat :=
  if '0' ≤ c ∧ c ≤ '9' then some (c.toNat - '0'.toNat) else none

/-- The number that `n` becomes when the digits are written after it. -/
def appendDigits? (n : Nat) : List Char → Option Nat
  | [] => some n
  | c :: cs => (digit? c).bind fun d => appendDigits? (10 * n + d) cs

/-- A number of at least one digit. -/
def digits? : List Char → Option Nat
  | [] => none
  | cs => appendDigits? 0 cs

/-- The number written by the characters, if it lies below the bound. -/
def unsignedChars? (bound : Nat) (cs : List Char) : Option Nat :=
  let written := match cs with
    | '+' :: ds => digits? ds
    | ds => digits? ds
  written.filter (· < bound)

/-- The number written by the text, if it lies below the bound. -/
def unsigned? (bound : Nat) (s : String) : Option Nat := unsignedChars? bound s.toList

/-- One more than the largest number of 64 bits. -/
def word : Nat := Nat.pow 2 64

end CircuitDesigner.Text
