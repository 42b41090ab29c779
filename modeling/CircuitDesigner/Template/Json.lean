import CircuitDesigner.Json.Decode
import CircuitDesigner.Template.Basic

/-! The JSON form of templates.

    A template is one flat object: the number of wires, the parts that were recorded, and a record under
    `q0`, `q1` and so on for each wire. Absent parts are left out. When it is read, the known keys are
    decoded as they are met; every other member is kept aside, and the records are looked up among those at
    the end. -/

namespace CircuitDesigner

open Json (Decoder Draft Origin)

def Endianness.decode : Decoder Endianness := Json.decodeName Endianness.label [.little, .big]

namespace Settings

def toJson (s : Settings) : Json :=
  .object [("endianness", .string s.endianness.label), ("minQubits", .natural s.minQubits),
    ("shots", .natural s.shots)]

def fields : List (Json.Field Settings) :=
  [⟨"endianness", false, fun s o depth d => return { s with endianness := ← Endianness.decode o depth d }⟩,
    ⟨"minQubits", false, fun s o depth d => return { s with minQubits := ← Json.decodeNat "usize" o depth d }⟩,
    ⟨"shots", false, fun s o depth d => return { s with shots := ← Json.decodeNat "u64" o depth d }⟩]

/-- Settings that are not given have their default. -/
def decode : Decoder Settings := Json.decodeRecord "struct CircuitSettings" fields {}

end Settings

namespace WireRecord

def toJson (r : WireRecord) : Json :=
  .object <|
    ("gates", .array (r.stamps.map .string)) ::
      ((r.ket.map fun ket => ("state", Json.string ket.label)).toList ++
        (r.color.map fun color => ("color", Json.string color.css)).toList ++
        (r.name.map fun name => ("alias", Json.string name)).toList)

def fields : List (Json.Field WireRecord) :=
  [⟨"gates", true, fun r o depth d => return { r with stamps := ← Json.decodeList Json.decodeString o depth d }⟩,
    ⟨"state", false, fun r o depth d => return { r with
      ket := ← Json.decodeOption (Json.decodeLabel "ket state" Ket.ofLabel?) o depth d }⟩,
    ⟨"color", false, fun r o depth d => return { r with
      color := ← Json.decodeOption (Json.decodeLabel "register color" RegisterColor.ofCss?) o depth d }⟩,
    ⟨"alias", false, fun r o depth d => return { r with
      name := ← Json.decodeOption Json.decodeString o depth d }⟩]

def decode : Decoder WireRecord := Json.decodeRecord "struct QubitRecord" fields { stamps := [] }

end WireRecord

namespace Template

/-- The key of the record of a wire. -/
def recordKey (row : Nat) : String := "q" ++ toString row

/-- The records under their keys, from `row` on. -/
def recordMembers (row : Nat) : List WireRecord → List (String × Json)
  | [] => []
  | r :: rs => (recordKey row, r.toJson) :: recordMembers (row + 1) rs

mutual

def toJson : Template → Json
  | ⟨wires, endianness, minQubits, shots, undos, redos⟩ =>
    .object <|
      ("length", .natural wires.length) ::
        ((endianness.map fun e => ("endianness", Json.string e.label)).toList ++
          (minQubits.map fun n => ("minQubits", Json.natural n)).toList ++
          (shots.map fun n => ("shots", Json.natural n)).toList ++
          stackMember "undos" undos ++ stackMember "redos" redos ++ recordMembers 0 wires)

def stackMember (key : String) : Option (List Template) → List (String × Json)
  | none => []
  | some stack => [(key, .array (stackJson stack))]

def stackJson : List Template → List Json
  | [] => []
  | t :: ts => toJson t :: stackJson ts

end

/-- One line of compact text. -/
def render (t : Template) : String := t.toJson.render

/-! ### Reading -/

/-- What was read of a template: its known members, and the others kept aside. -/
structure Raw where
  length : Option Nat := none
  endianness : Option Endianness := none
  minQubits : Option Nat := none
  shots : Option Nat := none
  undos : Option (List Template) := none
  redos : Option (List Template) := none
  /-- The last member first. -/
  others : List (String × Json) := []

/-- The known members, given a decoder for the templates of a history. -/
def rawFields (stack : Decoder (List Template)) : List (Json.Field Raw) :=
  [⟨"length", true, fun r o depth d => return { r with length := ← Json.decodeNat "usize" o depth d }⟩,
    ⟨"endianness", false, fun r o depth d => return { r with
      endianness := ← Json.decodeOption Endianness.decode o depth d }⟩,
    ⟨"minQubits", false, fun r o depth d => return { r with
      minQubits := ← Json.decodeOption (Json.decodeNat "usize") o depth d }⟩,
    ⟨"shots", false, fun r o depth d => return { r with
      shots := ← Json.decodeOption (Json.decodeNat "u64") o depth d }⟩,
    ⟨"undos", false, fun r o depth d => return { r with undos := ← Json.decodeOption stack o depth d }⟩,
    ⟨"redos", false, fun r o depth d => return { r with redos := ← Json.decodeOption stack o depth d }⟩]

/-- The records of `count` wires from `row` on, in order. -/
def records (others : List (String × Json)) : Nat → Nat → Except DecodeError (List WireRecord)
  | _, 0 => .ok []
  | row, count + 1 =>
    let key := recordKey row
    match others.find? fun member => member.1 == key with
    | none => .error (.missingRecord key)
    | some (_, value) =>
      match Json.decodeKept WireRecord.decode value with
      | .error cause => .error (.badRecord key cause)
      | .ok r => do
        let rs ← records others (row + 1) count
        .ok (r :: rs)

/-- The template of all that was read. -/
def Raw.template (r : Raw) : Except DecodeError Template :=
  match r.length with
  | none => .error (.missingField "length")
  | some length => do
    let wires ← records r.others 0 length
    .ok ⟨wires, r.endianness, r.minQubits, r.shots, r.undos, r.redos⟩

/-- The members of a template at the given depth. -/
def decodeObject (stack : Decoder (List Template)) (o : Origin) (depth : Nat) (closed : Bool)
    (members : List (Option String × Draft)) : Except DecodeError Template := do
  let keep : Json.Other Raw := fun key r d => do
    let value ← Json.settle depth d
    .ok { r with others := (key, value) :: r.others }
  let (_, raw) ← Json.decodeMembers (rawFields stack) keep o depth closed [] {} members
  raw.template

/-- A template is an object. Its history may hold templates as far as the depth allows. -/
def decode : Decoder Template := fun o depth d => decodeAt o depth d
where
  decodeAt (o : Origin) : Nat → Draft → Except DecodeError Template
    | 0, .object _ _ => .error .malformed
    | 1, .object members closed =>
      decodeObject (Json.decodeList fun _ _ _ => .error .malformed) o 0 closed members
    | depth + 2, .object members closed =>
      decodeObject (Json.decodeList fun _ _ d => decodeAt o depth d) o (depth + 1) closed members
    | _, d => .error (d.mismatch "struct RawTemplate")

/-- Reads the JSON form. -/
def parse (text : String) : Except DecodeError Template := Json.decodeText decode text

end Template

end CircuitDesigner
