import CircuitDesigner.Json.Draft
import CircuitDesigner.Text.Hidden

/-! Decoding of JSON into the library's types.

    A decoder walks a draft in the order of its text and reports the first fault. It reads either a text
    or a value that was kept aside while a text was read; the two differ in what they say about an enum
    that is no name, about objects with several names for one enum, and about arrays that are too long.
    In a text, arrays and objects nest at most 127 deep. -/

namespace CircuitDesigner

/-- What was found where something else was expected. -/
inductive Unexpected where
  | null
  | boolean (b : Bool)
  | number (n : Json.Number)
  | string (s : String)
  | sequence
  | map
  /-- The bare name of a variant that has contents. -/
  | unitVariant

/-- Why a JSON text or value does not decode. -/
inductive DecodeError where
  /-- The text is not one JSON document. -/
  | malformed
  | invalidType (found : Unexpected) (expected : String)
  | invalidValue (found : Unexpected) (expected : String)
  | invalidLength (length : Nat) (expected : String)
  | missingField (name : String)
  | duplicateField (name : String)
  | unknownVariant (name : String) (variants : List String)
  /-- A text that names none of the things it should name one of. -/
  | unknownLabel (noun label : String)
  /-- A template has no record for a wire it counts. -/
  | missingRecord (key : String)
  /-- The record of a wire does not decode. -/
  | badRecord (key : String) (cause : DecodeError)

namespace Json

/-- The character as it is shown between quotation marks in a message. -/
def shown (c : Char) : List Char :=
  if c == '"' || c == '\\' then ['\\', c]
  else if c == '\n' then ['\\', 'n']
  else if c == '\r' then ['\\', 'r']
  else if c == '\t' then ['\\', 't']
  else if c.toNat == 0 then ['\\', '0']
  else if Text.isHidden c then "\\u\x7b".toList ++ Nat.toDigits 16 c.toNat ++ ['\x7d']
  else [c]

/-- Names in backticks, as a list of choices. -/
def choices : List String → String
  | [] => "there are no variants"
  | [a] => "`" ++ a ++ "`"
  | [a, b] => "`" ++ a ++ "` or `" ++ b ++ "`"
  | names => "one of " ++ ", ".intercalate (names.map fun name => "`" ++ name ++ "`")

end Json

def Unexpected.message : Unexpected → String
  | null => "null"
  | boolean b => "boolean `" ++ (if b then "true" else "false") ++ "`"
  | number (.float x) => "floating point `" ++ Decimal.format Json.layout x ++ "`"
  | number n => "integer `" ++ String.ofList n.chars ++ "`"
  | string s => "string \"" ++ String.ofList (s.toList.flatMap Json.shown) ++ "\""
  | sequence => "sequence"
  | map => "map"
  | unitVariant => "unit variant"

/-- The wording of an error. -/
def DecodeError.message : DecodeError → String
  | malformed => "malformed JSON"
  | invalidType found expected => "invalid type: " ++ found.message ++ ", expected " ++ expected
  | invalidValue found expected => "invalid value: " ++ found.message ++ ", expected " ++ expected
  | invalidLength length expected => "invalid length " ++ toString length ++ ", expected " ++ expected
  | missingField name => "missing field `" ++ name ++ "`"
  | duplicateField name => "duplicate field `" ++ name ++ "`"
  | unknownVariant name variants => "unknown variant `" ++ name ++ "`, expected " ++ Json.choices variants
  | unknownLabel noun label => "unknown " ++ noun ++ " '" ++ label ++ "'"
  | missingRecord key => "Malformed template: missing record '" ++ key ++ "'"
  | badRecord key cause => "Malformed template: record '" ++ key ++ "': " ++ cause.message

namespace Json

/-- Where a draft comes from: a text that is being read, or a value that was kept aside. -/
inductive Origin where
  | text
  | value
  deriving DecidableEq

/-- A decoder takes the origin, the number of arrays and objects that may still be opened inside each
    other, and the draft. -/
abbrev Decoder (α : Type) := Origin → Nat → Draft → Except DecodeError α

/-- How deep arrays and objects nest. -/
def maxDepth : Nat := 127

/-- What a draft shows at first sight; none where the text is at fault. -/
def Draft.unexpected? : Draft → Option Unexpected
  | .null => some .null
  | .bool b => some (.boolean b)
  | .number n => some (.number n)
  | .string s => some (.string s)
  | .array .. => some .sequence
  | .object .. => some .map
  | .excess | .halved | .broken => none

/-- The error for a draft of the wrong type. -/
def Draft.mismatch (d : Draft) (expected : String) : DecodeError :=
  match d.unexpected? with
  | some found => .invalidType found expected
  | none => .malformed

/-! ### Scalars -/

/-- A natural number of 64 bits. -/
def decodeNat (expected : String) : Decoder Nat := fun _ _ d =>
  match d with
  | .number (.natural n) => .ok n
  | .number (.negative n) => .error (.invalidValue (.number (.negative n)) expected)
  | d => .error (d.mismatch expected)

def decodeFloat : Decoder Float := fun _ _ d =>
  match d with
  | .number (.natural n) => .ok n.toUInt64.toFloat
  | .number (.negative n) => .ok (-n.toUInt64.toFloat)
  | .number (.float x) => .ok x
  | d => .error (d.mismatch "f64")

def decodeString : Decoder String := fun _ _ d =>
  match d with
  | .string s => .ok s
  | d => .error (d.mismatch "a string")

def decodeBool : Decoder Bool := fun _ _ d =>
  match d with
  | .bool b => .ok b
  | d => .error (d.mismatch "a boolean")

/-- A text that names something. -/
def decodeLabel {α : Type} (noun : String) (ofLabel? : String → Option α) : Decoder α := fun o depth d => do
  let label ← decodeString o depth d
  match ofLabel? label with
  | some a => .ok a
  | none => .error (.unknownLabel noun label)

/-- Null stands for an absent value. -/
def decodeOption {α : Type} (decode : Decoder α) : Decoder (Option α) := fun o depth d =>
  match d with
  | .null => .ok none
  | d => (decode o depth d).map some

/-! ### Arrays -/

/-- Every item in order, and then the end of the array. -/
def decodeItems {α : Type} (decode : Draft → Except DecodeError α) (closed : Bool) :
    List Draft → Except DecodeError (List α)
  | [] => if closed then .ok [] else .error .malformed
  | d :: ds => do
    let a ← decode d
    let as ← decodeItems decode closed ds
    .ok (a :: as)

def decodeList {α : Type} (decode : Decoder α) : Decoder (List α) := fun o depth d =>
  match d, depth with
  | .array _ _, 0 => .error .malformed
  | .array items closed, depth + 1 => decodeItems (decode o depth) closed items
  | d, _ => .error (d.mismatch "a sequence")

/-! ### Enums -/

/-- The variant of a name, and what is inside it if it has contents. -/
def decodeVariant {α : Type} (names : List String) (ofName? : String → Option (Option Draft → Except DecodeError α)) :
    Decoder α := fun o depth d =>
  let select (name : String) (contents : Option Draft) : Except DecodeError α :=
    match ofName? name with
    | some decode => decode contents
    | none => .error (.unknownVariant name names)
  match o, d with
  | _, .string s => select s none
  | .text, .object members closed =>
    if depth = 0 then .error .malformed
    else match members with
      | [(some key, contents)] => do
        let a ← select key (some contents)
        if closed then .ok a else .error .malformed
      | (some key, contents) :: _ => do
        let _ ← select key (some contents)
        .error .malformed
      | _ => .error .malformed
  | .value, .object [(some key, contents)] _ => select key (some contents)
  | .value, .object _ _ => .error (.invalidValue .map "map with a single key")
  | .text, _ => .error .malformed
  | .value, d => .error (d.mismatch "string or map")

/-- The contents of a variant that has none: nothing, or null. -/
def decodeUnit {α : Type} (a : α) : Option Draft → Except DecodeError α
  | none => .ok a
  | some .null => .ok a
  | some d => .error (d.mismatch "unit")

/-- One of some things, by name. -/
def decodeName {α : Type} (label : α → String) (all : List α) : Decoder α :=
  decodeVariant (all.map label) fun name => (all.find? fun a => label a == name).map decodeUnit

/-! ### Objects -/

/-- A field of a record that is decoded into `σ`. -/
structure Field (σ : Type) where
  name : String
  /-- The record must have it. -/
  required : Bool
  /-- Decodes the field and puts it into the record. -/
  store : σ → Decoder σ

/-- What becomes of a member under a key that names no field. -/
abbrev Other (σ : Type) := String → σ → Draft → Except DecodeError σ

/-- The members of an object in order, into a record whose fields in `seen` were met before. -/
def decodeMembers {σ : Type} (fields : List (Field σ)) (other : Other σ) (o : Origin) (depth : Nat)
    (closed : Bool) : List String → σ → List (Option String × Draft) → Except DecodeError (List String × σ)
  | seen, s, [] => if closed then .ok (seen, s) else .error .malformed
  | _, _, (none, _) :: _ => .error .malformed
  | seen, s, (some key, d) :: members =>
    match fields.find? fun field => field.name == key with
    | some field => do
      if seen.contains key then .error (.duplicateField key)
      let s ← field.store s o depth d
      decodeMembers fields other o depth closed (key :: seen) s members
    | none => do
      let s ← other key s d
      decodeMembers fields other o depth closed seen s members

/-- The items of an array as the fields of a record in order. Fields that are not required may be
    missing at the end. -/
def decodeFields {σ : Type} (expected : String) (count total : Nat) (o : Origin) (depth : Nat) (closed : Bool) :
    Nat → List (Field σ) → σ → List Draft → Except DecodeError σ
  | _, [], s, [] => if closed then .ok s else .error .malformed
  | _, [], _, _ :: _ =>
    match o with
    | .text => .error .malformed
    | .value => .error (.invalidLength total "fewer elements in array")
  | i, field :: fields, s, [] =>
    if !closed then .error .malformed
    else if field.required then
      .error (.invalidLength i (expected ++ " with " ++ toString count ++
        (if count = 1 then " element" else " elements")))
    else decodeFields expected count total o depth closed (i + 1) fields s []
  | i, field :: fields, s, d :: ds => do
    let s ← field.store s o depth d
    decodeFields expected count total o depth closed (i + 1) fields s ds

/-- An object with all required fields, or an array of the fields in order. Other members are passed
    over. -/
def decodeRecord {σ : Type} (expected : String) (fields : List (Field σ)) (start : σ) : Decoder σ := fun o depth d =>
  match d, depth with
  | .object _ _, 0 | .array _ _, 0 => .error .malformed
  | .object members closed, depth + 1 => do
    let (seen, s) ← decodeMembers fields (fun _ s _ => .ok s) o depth closed [] start members
    match fields.find? fun field => field.required && !seen.contains field.name with
    | some field => .error (.missingField field.name)
    | none => .ok s
  | .array items closed, depth + 1 =>
    decodeFields expected fields.length items.length o depth closed 0 fields start items
  | d, _ => .error (d.mismatch expected)

/-! ### Values kept aside -/

/-- The members with the value under the key, sorted by key. A later value replaces an earlier one. -/
def insertMember (key : String) (value : Json) : List (String × Json) → List (String × Json)
  | [] => [(key, value)]
  | (k, v) :: members =>
    if k = key then (key, value) :: members
    else if key < k then (key, value) :: (k, v) :: members
    else (k, v) :: insertMember key value members

mutual

/-- The value of a complete draft. Members are sorted by key, and the last one of a key counts. -/
def settle : Nat → Draft → Except DecodeError Json
  | _, .null => .ok .null
  | _, .bool b => .ok (.bool b)
  | _, .number n => .ok (.number n)
  | _, .string s => .ok (.string s)
  | 0, .array _ _ => .error .malformed
  | depth + 1, .array items closed => do
    let items ← settleItems depth items
    if closed then .ok (.array items) else .error .malformed
  | 0, .object _ _ => .error .malformed
  | depth + 1, .object members closed => do
    let members ← settleMembers depth [] members
    if closed then .ok (.object members) else .error .malformed
  | _, .excess => .error .malformed
  | _, .halved => .error .malformed
  | _, .broken => .error .malformed

def settleItems : Nat → List Draft → Except DecodeError (List Json)
  | _, [] => .ok []
  | depth, d :: ds => do
    let value ← settle depth d
    let values ← settleItems depth ds
    .ok (value :: values)

def settleMembers : Nat → List (String × Json) → List (Option String × Draft) →
    Except DecodeError (List (String × Json))
  | _, sorted, [] => .ok sorted
  | _, _, (none, _) :: _ => .error .malformed
  | depth, sorted, (some key, d) :: members => do
    let value ← settle depth d
    settleMembers depth (insertMember key value sorted) members

end

/-- Any value. -/
def decodeValue : Decoder Json := fun _ depth d => settle depth d

/-- Reads a text that holds one value and nothing after it. -/
def decodeText {α : Type} (decode : Decoder α) (text : String) : Except DecodeError α := do
  let (draft, ended) := Draft.read text
  let a ← decode .text maxDepth draft
  if ended then .ok a else .error .malformed

/-- Decodes a value that was kept aside. -/
def decodeKept {α : Type} (decode : Decoder α) (value : Json) : Except DecodeError α :=
  decode .value maxDepth (draft value)

end Json

end CircuitDesigner
