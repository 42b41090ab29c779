import CircuitDesigner.Text.Unsigned

/-! Exponents of powered gates.

    An exponent is free text. It is cut into literals and the operators `+ - * /`; blanks and
    parentheses separate literals and mean nothing else, and a point that belongs to no literal is
    dropped. Products and quotients bind tighter than sums, each from left to right. A literal that
    follows another without an operator is added to it. -/

namespace CircuitDesigner.Exponent

/-- What a number type needs, beside the operations, to work out exponents. -/
class Quantity (K : Type) where
  /-- The literal whose digits read `digits`, the last `places` of them after the point. -/
  literal (digits places : Nat) : K
  /-- Where a sum starts. -/
  start : K
  /-- False for the results of undefined operations only. -/
  isNumber : K → Bool

/-- Doubles. A sum starts at negative zero, the one double that changes no other by addition. -/
instance : Quantity Float where
  literal digits places := Float.ofScientific digits true places
  start := -0.0
  isNumber x := !x.isNaN

instance : Quantity Rat where
  literal digits places := digits / 10 ^ places
  start := 0
  isNumber _ := true

/-- A literal of an exponent or an operator. -/
inductive Token where
  | literal (digits places : Nat)
  | plus
  | minus
  | times
  | over
  deriving DecidableEq, Repr

/-- The characters that only keep literals apart. -/
def isSeparator (c : Char) : Bool :=
  c == ' ' || c == '\t' || c == '\r' || c == '\n' || c == '(' || c == ')'

/-- The leading digits of a text, written after the number `n`: the number they make, how many they
    are, and what follows them. -/
def takeDigits (n count : Nat) : List Char → Nat × Nat × List Char
  | [] => (n, count, [])
  | c :: cs =>
    match Text.digit? c with
    | some d => takeDigits (10 * n + d) (count + 1) cs
    | none => (n, count, c :: cs)

theorem takeDigits_length (n count : Nat) (cs : List Char) :
    (takeDigits n count cs).2.2.length ≤ cs.length := by
  induction cs generalizing n count with
  | nil => simp [takeDigits]
  | cons c cs ih =>
    unfold takeDigits
    split
    · exact Nat.le_succ_of_le (ih ..)
    · exact Nat.le_refl _

/-- The literal at the head of a text whose first digit is `d`: digits, and a point with digits after
    it if there is one. A point without a digit after it is left in place. -/
def takeLiteral (d : Nat) (cs : List Char) : Token × List Char :=
  let (whole, _, rest) := takeDigits d 0 cs
  match rest with
  | '.' :: c :: fraction =>
    match Text.digit? c with
    | some e =>
      let (digits, places, rest) := takeDigits (10 * whole + e) 1 fraction
      (.literal digits places, rest)
    | none => (.literal whole 0, rest)
  | _ => (.literal whole 0, rest)

theorem takeLiteral_length (d : Nat) (cs : List Char) : (takeLiteral d cs).2.length ≤ cs.length := by
  have first := takeDigits_length d 0 cs
  simp only [takeLiteral]
  split
  · rename_i c fraction rest
    rw [rest] at first
    split
    · rename_i e _
      have second := takeDigits_length (10 * (takeDigits d 0 cs).1 + e) 1 fraction
      simp only [List.length_cons] at first
      exact Nat.le_trans second (by omega)
    · rw [rest]; exact first
  · exact first

/-- The literals and operators of a text; none if it holds anything else. -/
def tokens? : List Char → Option (List Token)
  | [] => some []
  | c :: cs =>
    if isSeparator c || c == '.' then tokens? cs
    else if c == '+' then (tokens? cs).map (.plus :: ·)
    else if c == '-' then (tokens? cs).map (.minus :: ·)
    else if c == '*' then (tokens? cs).map (.times :: ·)
    else if c == '/' then (tokens? cs).map (.over :: ·)
    else
      match Text.digit? c with
      | none => none
      | some d =>
        let taken := takeLiteral d cs
        (tokens? taken.2).map (taken.1 :: ·)
  termination_by cs => cs.length
  decreasing_by
    all_goals first
      | exact Nat.lt_succ_of_le (Nat.le_refl _)
      | exact Nat.lt_succ_of_le (takeLiteral_length _ _)

section Value

variable {K : Type} [Add K] [Neg K] [Mul K] [Div K] [Quantity K]

/-- The terms of a sum, in the order in which they are written. `terms` holds those before the tokens,
    the last one first; a factor or divisor changes the last term. None if an operator other than a plus
    is not followed by a literal, or a factor or divisor has no term before it. -/
def terms? : List Token → List K → Option (List K)
  | [], terms => some terms.reverse
  | .plus :: tokens, terms => terms? tokens terms
  | .literal digits places :: tokens, terms => terms? tokens (Quantity.literal digits places :: terms)
  | .minus :: .literal digits places :: tokens, terms =>
    terms? tokens (-Quantity.literal digits places :: terms)
  | .times :: .literal digits places :: tokens, term :: terms =>
    terms? tokens (term * Quantity.literal digits places :: terms)
  | .over :: .literal digits places :: tokens, term :: terms =>
    terms? tokens (term / Quantity.literal digits places :: terms)
  | _, _ => none

/-- The value of an exponent; none if the text denotes no number. -/
def value? (text : String) : Option K := do
  let tokens ← tokens? text.toList
  if tokens.isEmpty then none
  let terms ← terms? tokens []
  let sum := terms.foldl (· + ·) Quantity.start
  if Quantity.isNumber sum then some sum else none

end Value

/-- The text denotes a number. Division of a non-zero number by zero gives an infinity, which is one. -/
def isValid (text : String) : Bool := (value? text : Option Float).isSome

end CircuitDesigner.Exponent
