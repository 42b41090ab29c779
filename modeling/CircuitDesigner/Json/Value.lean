import CircuitDesigner.Decimal.Shortest

/-! JSON values and their compact text. -/

namespace CircuitDesigner

namespace Json

/-- A number. Whole numbers of 64 bits stay exact. -/
inductive Number where
  | natural (n : Nat)
  /-- The number `-n`. -/
  | negative (n : Nat)
  | float (x : Float)
  deriving Repr

/-- Doubles from `0.00001` up to `10^16` are written with the point in place. -/
def layout : Decimal.Layout := ⟨-5, 15⟩

/-- The text of a number. -/
def Number.chars : Number → List Char
  | natural n => Nat.toDigits 10 n
  | negative n => '-' :: Nat.toDigits 10 n
  | float x => (Decimal.format layout x).toList

end Json

/-- A JSON value. The members of an object are kept in their order. -/
inductive Json where
  | null
  | bool (b : Bool)
  | number (n : Json.Number)
  | string (s : String)
  | array (items : List Json)
  | object (members : List (String × Json))
  deriving Repr, Inhabited

namespace Json

def natural (n : Nat) : Json := .number (.natural n)

/-- Null for an absent value. -/
def ofOption {α : Type} (f : α → Json) : Option α → Json
  | none => null
  | some a => f a

/-- The value of a member. -/
def get? (key : String) : Json → Option Json
  | object members => (members.find? fun m => m.1 == key).map (·.2)
  | _ => none

/-! ### Writing -/

/-- A hexadecimal digit. -/
def hexDigit (n : Nat) : Char := Nat.digitChar (n % 16)

/-- How a character stands in a string: quotation mark, reverse solidus and controls are escaped. -/
def escape (c : Char) : List Char :=
  if c == '"' then ['\\', '"']
  else if c == '\\' then ['\\', '\\']
  else if c == '\x08' then ['\\', 'b']
  else if c == '\x0c' then ['\\', 'f']
  else if c == '\n' then ['\\', 'n']
  else if c == '\r' then ['\\', 'r']
  else if c == '\t' then ['\\', 't']
  else if c.toNat < 32 then ['\\', 'u', '0', '0', hexDigit (c.toNat / 16), hexDigit c.toNat]
  else [c]

/-- A quoted string. -/
def quote (s : String) : List Char := '"' :: s.toList.flatMap escape ++ ['"']

mutual

/-- The compact text of a value. -/
def chars : Json → List Char
  | null => "null".toList
  | bool true => "true".toList
  | bool false => "false".toList
  | number n => n.chars
  | string s => quote s
  | array [] => "[]".toList
  | array (item :: items) => '[' :: chars item ++ itemChars items
  | object [] => ['\x7b', '\x7d']
  | object ((key, value) :: members) => '\x7b' :: quote key ++ ':' :: chars value ++ memberChars members

/-- The rest of an array after an item. -/
def itemChars : List Json → List Char
  | [] => [']']
  | item :: items => ',' :: chars item ++ itemChars items

/-- The rest of an object after a member. -/
def memberChars : List (String × Json) → List Char
  | [] => ['\x7d']
  | (key, value) :: members => ',' :: quote key ++ ':' :: chars value ++ memberChars members

end

/-- The compact text of a value. -/
def render (value : Json) : String := String.ofList value.chars

end Json

end CircuitDesigner
