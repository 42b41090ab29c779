import CircuitDesigner.Json.Value
import CircuitDesigner.Text.Unsigned

/-! Number literals of JSON.

    A whole literal of 64 bits is read exactly. Any other is read as a double in two steps: its leading
    digits, as many as make a number of 64 bits, and then one scaling by a power of ten. The result may
    differ from the nearest double in its last place. -/

namespace CircuitDesigner.Json

/-- The value of a literal: a number, or one whose size no double reaches. -/
inductive Literal where
  | number (n : Number)
  | excess

/-- The digits at the head of a text and what follows them. -/
def spanDigits : List Char → List Nat × List Char
  | [] => ([], [])
  | c :: cs =>
    match Text.digit? c with
    | some d => let (digits, rest) := spanDigits cs; (d :: digits, rest)
    | none => ([], c :: cs)

/-- The digits written after `n` as long as the number keeps to 64 bits, and how many do not fit. -/
def gather (n : Nat) : List Nat → Nat × Nat
  | [] => (n, 0)
  | d :: ds => if 10 * n + d < Text.word then gather (10 * n + d) ds else (n, ds.length + 1)

def power (n : Nat) : Float := Float.ofScientific 1 false n

/-- Division by powers of ten too small for one step; at zero there is nothing left to divide. -/
def scaleDown : Nat → Float → Int → Float
  | 0, x, _ => x
  | fuel + 1, x, exponent =>
    if -308 ≤ exponent then x / power exponent.natAbs
    else if x == 0 then x
    else scaleDown fuel (x / power 308) (exponent + 308)

/-- The double `n * 10 ^ exponent`; none if it is too large. -/
def scale (n : Nat) (exponent : Int) : Option Float :=
  let x := n.toUInt64.toFloat
  if exponent < 0 then some (scaleDown (exponent.natAbs / 308 + 1) x exponent)
  else if exponent ≤ 308 then
    let y := x * power exponent.toNat
    if y.isInf then none else some y
  else if n = 0 then some x
  else none

/-- A literal in parts: sign, whole digits, digits after a point and exponent, if there are any. -/
structure Parts where
  negative : Bool
  whole : List Nat
  fraction : Option (List Nat)
  exponent : Option (Bool × List Nat)

/-- The exponent written by a sign and digits: none if it has no place in 32 bits. -/
def exponent? (digits : List Nat) : Option Nat :=
  let rec go : Nat → List Nat → Option Nat
    | n, [] => some n
    | n, d :: ds => if 10 * n + d < Nat.pow 2 31 then go (10 * n + d) ds else none
  go 0 digits

/-- The double that a literal with a point, an exponent or too many digits stands for. -/
def Parts.double (p : Parts) (significand : Nat) (before : Int) : Literal :=
  let sign (x : Float) : Literal := .number (.float (if p.negative then -x else x))
  match p.exponent with
  | none => match scale significand before with
    | some x => sign x
    | none => .excess
  | some (negative, digits) =>
    match exponent? digits with
    | none => if significand ≠ 0 ∧ ¬ negative then .excess else sign 0
    | some e =>
      match scale significand (if negative then before - e else before + e) with
      | some x => sign x
      | none => .excess

/-- The value of a literal. -/
def Parts.value (p : Parts) : Literal :=
  let (n, left) := gather 0 p.whole
  match p.fraction with
  | some fraction =>
    let (significand, unread) := gather n fraction
    p.double significand (left - (fraction.length - unread))
  | none =>
    if left ≠ 0 ∨ p.exponent.isSome then p.double n left
    else if ¬ p.negative then .number (.natural n)
    else if n = 0 ∨ Nat.pow 2 63 < n then .number (.float (-n.toUInt64.toFloat))
    else .number (.negative n)

/-- The exponent after its mark: an optional sign and at least one digit. -/
def takeExponent (cs : List Char) : Option ((Bool × List Nat) × List Char) :=
  let (negative, cs) := match cs with
    | '-' :: cs => (true, cs)
    | '+' :: cs => (false, cs)
    | cs => (false, cs)
  match spanDigits cs with
  | ([], _) => none
  | (digits, rest) => some ((negative, digits), rest)

/-- The exponent part of a literal, if the text goes on with one. -/
def takeMark (cs : List Char) : Option (Option (Bool × List Nat) × List Char) :=
  match cs with
  | 'e' :: cs => (takeExponent cs).map fun (e, rest) => (some e, rest)
  | 'E' :: cs => (takeExponent cs).map fun (e, rest) => (some e, rest)
  | cs => some (none, cs)

/-- The literal at the head of a text, and what follows it; none if there is no well-formed one. A whole
    part of several digits does not start with zero, and a point has digits on both sides. -/
def takeLiteral (cs : List Char) : Option (Literal × List Char) := do
  let (negative, cs) := match cs with
    | '-' :: cs => (true, cs)
    | cs => (false, cs)
  let (whole, rest) := spanDigits cs
  if whole.isEmpty || (whole.head? == some 0 && whole.length > 1) then none
  match rest with
  | '.' :: rest =>
    let (fraction, rest) := spanDigits rest
    if fraction.isEmpty then none
    let (exponent, rest) ← takeMark rest
    some ((Parts.mk negative whole (some fraction) exponent).value, rest)
  | rest =>
    let (exponent, rest) ← takeMark rest
    some ((Parts.mk negative whole none exponent).value, rest)

end CircuitDesigner.Json
