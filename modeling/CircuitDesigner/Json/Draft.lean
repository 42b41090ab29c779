import CircuitDesigner.Json.Literal

/-! Drafts: what can be read of a text as JSON, up to its end or up to the first point at which it stops
    being JSON.

    Decoders walk a draft in the order of its text, so that of two faults the first one is reported,
    whether it is a value of the wrong type or a fault of the text. -/

namespace CircuitDesigner.Json

/-- A JSON value as far as it could be read. An array or object that is not `closed` ends in a fault. -/
inductive Draft where
  | null
  | bool (b : Bool)
  | number (n : Number)
  /-- A number too large for a double. -/
  | excess
  | string (s : String)
  /-- A string with half of a surrogate pair in it. -/
  | halved
  | array (items : List Draft) (closed : Bool)
  /-- Members in order. A key with half of a surrogate pair in it is absent. -/
  | object (members : List (Option String × Draft)) (closed : Bool)
  /-- Here the text is no JSON. -/
  | broken
  deriving Inhabited

/-! ### Strings -/

/-- A piece of a string: a character, or a 16-bit unit written as an escape. -/
inductive Piece where
  | char (c : Char)
  | unit (n : Nat)

/-- The value of a hexadecimal digit. -/
def hexValue? (c : Char) : Option Nat :=
  if '0' ≤ c ∧ c ≤ '9' then some (c.toNat - '0'.toNat)
  else if 'a' ≤ c ∧ c ≤ 'f' then some (c.toNat - 'a'.toNat + 10)
  else if 'A' ≤ c ∧ c ≤ 'F' then some (c.toNat - 'A'.toNat + 10)
  else none

/-- The number of four hexadecimal digits. -/
def hex4? (a b c d : Char) : Option Nat := do
  let a ← hexValue? a
  let b ← hexValue? b
  let c ← hexValue? c
  let d ← hexValue? d
  some (a * 4096 + b * 256 + c * 16 + d)

/-- The character that a single-letter escape stands for. -/
def unescape? (c : Char) : Option Char :=
  if c == '"' || c == '\\' || c == '/' then some c
  else if c == 'b' then some '\x08'
  else if c == 'f' then some '\x0c'
  else if c == 'n' then some '\n'
  else if c == 'r' then some '\r'
  else if c == 't' then some '\t'
  else none

/-- The pieces of a string after its opening quotation mark, and what follows the closing one. -/
def takePieces : List Char → Option (List Piece × List Char)
  | [] => none
  | '"' :: rest => some ([], rest)
  | '\\' :: 'u' :: a :: b :: c :: d :: rest => do
    let unit ← hex4? a b c d
    let (pieces, rest) ← takePieces rest
    some (.unit unit :: pieces, rest)
  | '\\' :: c :: rest => do
    let c ← unescape? c
    let (pieces, rest) ← takePieces rest
    some (.char c :: pieces, rest)
  | c :: rest =>
    if c.toNat < 32 then none
    else do
      let (pieces, rest) ← takePieces rest
      some (.char c :: pieces, rest)

def isHighSurrogate (n : Nat) : Bool := 0xD800 ≤ n && n < 0xDC00

def isLowSurrogate (n : Nat) : Bool := 0xDC00 ≤ n && n < 0xE000

/-- The characters of a string; none if half of a surrogate pair stands alone. -/
def join? : List Piece → Option (List Char)
  | [] => some []
  | .char c :: pieces => (join? pieces).map (c :: ·)
  | .unit n :: pieces =>
    if isLowSurrogate n then none
    else if isHighSurrogate n then
      match pieces with
      | .unit m :: pieces =>
        if isLowSurrogate m then
          (join? pieces).map (Char.ofNat (0x10000 + (n - 0xD800) * 0x400 + (m - 0xDC00)) :: ·)
        else none
      | _ => none
    else (join? pieces).map (Char.ofNat n :: ·)

/-- The string after an opening quotation mark, absent when halved, and what follows it. -/
def takeString (cs : List Char) : Option (Option String × List Char) :=
  (takePieces cs).map fun (pieces, rest) => ((join? pieces).map String.ofList, rest)

/-! ### Values -/

/-- The blanks that JSON allows between tokens. -/
def isSpace (c : Char) : Bool := c == ' ' || c == '\t' || c == '\n' || c == '\r'

def skipSpace (cs : List Char) : List Char := cs.dropWhile isSpace

mutual

/-- The value at the head of a text, and what follows it unless the value is faulty. -/
def readValue : Nat → List Char → Draft × Option (List Char)
  | 0, _ => (.broken, none)
  | fuel + 1, cs =>
    match skipSpace cs with
    | 'n' :: 'u' :: 'l' :: 'l' :: rest => (.null, some rest)
    | 't' :: 'r' :: 'u' :: 'e' :: rest => (.bool true, some rest)
    | 'f' :: 'a' :: 'l' :: 's' :: 'e' :: rest => (.bool false, some rest)
    | '"' :: rest =>
      match takeString rest with
      | some (some s, rest) => (.string s, some rest)
      | some (none, rest) => (.halved, some rest)
      | none => (.broken, none)
    | '[' :: rest =>
      match skipSpace rest with
      | ']' :: rest => (.array [] true, some rest)
      | rest =>
        let (items, rest) := readItems fuel rest
        (.array items rest.isSome, rest)
    | '\x7b' :: rest =>
      match skipSpace rest with
      | '\x7d' :: rest => (.object [] true, some rest)
      | rest =>
        let (members, rest) := readMembers fuel rest
        (.object members rest.isSome, rest)
    | cs =>
      match takeLiteral cs with
      | some (.number n, rest) => (.number n, some rest)
      | some (.excess, rest) => (.excess, some rest)
      | none => (.broken, none)

/-- The items of an array up to its end, and what follows it unless the array is faulty. -/
def readItems : Nat → List Char → List Draft × Option (List Char)
  | 0, _ => ([.broken], none)
  | fuel + 1, cs =>
    match readValue fuel cs with
    | (item, none) => ([item], none)
    | (item, some rest) =>
      match skipSpace rest with
      | ',' :: rest =>
        let (items, rest) := readItems fuel rest
        (item :: items, rest)
      | ']' :: rest => ([item], some rest)
      | _ => ([item], none)

/-- The members of an object up to its end, and what follows it unless the object is faulty. -/
def readMembers : Nat → List Char → List (Option String × Draft) × Option (List Char)
  | 0, _ => ([], none)
  | fuel + 1, cs =>
    match skipSpace cs with
    | '"' :: rest =>
      match takeString rest with
      | none => ([], none)
      | some (key, rest) =>
        match skipSpace rest with
        | ':' :: rest =>
          match readValue fuel rest with
          | (value, none) => ([(key, value)], none)
          | (value, some rest) =>
            match skipSpace rest with
            | ',' :: rest =>
              let (members, rest) := readMembers fuel rest
              ((key, value) :: members, rest)
            | '\x7d' :: rest => ([(key, value)], some rest)
            | _ => ([(key, value)], none)
        | _ => ([(key, .broken)], none)
    | _ => ([], none)

end

/-- The draft of a text, and whether nothing but blanks follows it. -/
def Draft.read (text : String) : Draft × Bool :=
  let cs := text.toList
  match readValue (2 * cs.length + 2) cs with
  | (draft, some rest) => (draft, (skipSpace rest).isEmpty)
  | (draft, none) => (draft, false)

/-! ### Complete drafts -/

mutual

/-- The complete draft of a value. -/
def draft : Json → Draft
  | null => .null
  | bool b => .bool b
  | number n => .number n
  | string s => .string s
  | array items => .array (drafts items) true
  | object members => .object (memberDrafts members) true

def drafts : List Json → List Draft
  | [] => []
  | item :: items => draft item :: drafts items

def memberDrafts : List (String × Json) → List (Option String × Draft)
  | [] => []
  | (key, value) :: members => (some key, draft value) :: memberDrafts members

end

end CircuitDesigner.Json
