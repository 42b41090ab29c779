import CircuitDesigner.Template.Json

/-! The catalog of custom gates.

    A custom gate is a frozen circuit, recorded as a template, with the number of wires it covers.
    Definitions are kept in the order in which they were declared, so that a later one can use earlier ones.
    Their ids are distinct. -/

namespace CircuitDesigner

/-- A declared custom gate. -/
structure Definition where
  id : String
  /-- The number of wires it covers. -/
  span : Nat
  /-- Drawn on its tile. -/
  symbol : String
  title : String
  description : String := ""
  circuit : Template
  /-- Not offered in the toolbox; templates may still use it. -/
  hidden : Bool := false
  deriving DecidableEq, Repr

namespace Definition

/-- The number `n` of an id `cg{n}`, if it is one of 64 bits. -/
def ordinal? (d : Definition) : Option UInt64 :=
  match d.id.toList with
  | 'c' :: 'g' :: digits => (Text.unsignedChars? Text.word digits).map Nat.toUInt64
  | _ => none

def toJson (d : Definition) : Json :=
  .object [("id", .string d.id), ("span", .natural d.span), ("symbol", .string d.symbol),
    ("title", .string d.title), ("description", .string d.description), ("definition", d.circuit.toJson),
    ("hidden", .bool d.hidden)]

/-- One line of compact text. -/
def render (d : Definition) : String := d.toJson.render

def fields : List (Json.Field Definition) :=
  [⟨"id", true, fun r o depth d => return { r with id := ← Json.decodeString o depth d }⟩,
    ⟨"span", true, fun r o depth d => return { r with span := ← Json.decodeNat "usize" o depth d }⟩,
    ⟨"symbol", true, fun r o depth d => return { r with symbol := ← Json.decodeString o depth d }⟩,
    ⟨"title", true, fun r o depth d => return { r with title := ← Json.decodeString o depth d }⟩,
    ⟨"description", false, fun r o depth d => return { r with description := ← Json.decodeString o depth d }⟩,
    ⟨"definition", true, fun r o depth d => return { r with circuit := ← Template.decode o depth d }⟩,
    ⟨"hidden", false, fun r o depth d => return { r with hidden := ← Json.decodeBool o depth d }⟩]

def decode : Json.Decoder Definition :=
  Json.decodeRecord "struct CustomGateDefinition" fields
    { id := "", span := 0, symbol := "", title := "", circuit := .empty }

def parse (text : String) : Except DecodeError Definition := Json.decodeText decode text

end Definition

/-- What is shown of a custom gate, as its maker typed it. -/
structure Caption where
  symbol : String := ""
  title : String := ""
  description : String := ""

/-- The custom gates of a workspace, oldest first, and the number of the last declaration. -/
structure Catalog where
  definitions : List Definition := []
  created : UInt64 := 0
  deriving DecidableEq

namespace Catalog

def get? (c : Catalog) (id : String) : Option Definition := c.definitions.find? fun d => d.id == id

def contains (c : Catalog) (id : String) : Bool := (c.get? id).isSome

/-- The definitions that the toolbox offers. -/
def visible (c : Catalog) : List Definition := c.definitions.filter fun d => !d.hidden

/-- The definitions with this one in the place of the one with its id, or at the end. -/
def put (d : Definition) : List Definition → List Definition
  | [] => [d]
  | e :: es => if e.id = d.id then d :: es else e :: put d es

/-- Adds a definition, or replaces the one with its id. Later declarations get higher numbers. -/
def define (c : Catalog) (d : Definition) : Catalog where
  definitions := put d c.definitions
  created := match d.ordinal? with
    | some n => max c.created n
    | none => c.created

/-- The number of the next declaration. There is none after the last number of 64 bits. -/
def next? (c : Catalog) : Option UInt64 :=
  if c.created.toNat + 1 < Text.word then some (c.created + 1) else none

/-- The definition that the declaration with a number makes: title and symbol have a default with the number. -/
def declared (number : UInt64) (span : Nat) (caption : Caption) (circuit : Template) : Definition :=
  let n := toString number.toNat
  let symbol := Text.trim caption.symbol
  let title := Text.trim caption.title
  { id := "cg" ++ n
    span := max span 1
    symbol := if symbol.isEmpty then "CG" ++ n else symbol
    title := if title.isEmpty then "Custom Gate #" ++ n else title
    description := caption.description
    circuit }

/-- Adds a new custom gate. It fails when no number is left. -/
def declare? (c : Catalog) (span : Nat) (caption : Caption) (circuit : Template) : Option (Definition × Catalog) :=
  c.next?.map fun number =>
    let d := declared number span caption circuit
    (d, { definitions := put d c.definitions, created := number })

/-- Takes a definition out of the toolbox. -/
def hide (c : Catalog) (id : String) : Catalog :=
  { c with definitions := c.definitions.map fun d => if d.id = id then { d with hidden := true } else d }

end Catalog

end CircuitDesigner
