import CircuitDesigner.Text.Unsigned
import CircuitDesigner.Yaml.Node

/-! Records from YAML. A decoder gives nothing where a document does not fit. -/

namespace CircuitDesigner.Yaml

abbrev Decoder (α : Type) := Document → Node → Option α

/-- Any scalar is a text, however it is written. -/
def decodeText : Decoder String := fun d n => do
  match ← d.resolve? n with
  | .scalar _ _ text => some text
  | _ => none

/-! ### Numbers -/

/-- The number that digits of a base write after `n`. -/
def appendDigits? (base n : Nat) : List Char → Option Nat
  | [] => some n
  | c :: cs => (Scalar.hexDigit? c).bind fun d => if d < base then appendDigits? base (base * n + d) cs else none

/-- A natural number: decimal without leading zeros, or in another base after its mark. A plus sign may come
    first. -/
def natural? (text : String) : Option Nat :=
  let cs := match text.toList with
    | '+' :: cs => cs
    | cs => cs
  let number (base : Nat) (digits : List Char) : Option Nat :=
    if digits.isEmpty then none else appendDigits? base 0 digits
  match cs with
  | '0' :: 'x' :: digits => number 16 digits
  | '0' :: 'o' :: digits => number 8 digits
  | '0' :: 'b' :: digits => number 2 digits
  | '0' :: _ :: _ => none
  | digits => number 10 digits

/-- The tag of whole numbers. -/
def wholeTag : Tag := .ofText "tag:yaml.org,2002:int"

/-- A natural number of 64 bits. It is written plain, or as a literal block that says what it is. -/
def decodeNat : Decoder Nat := fun d n => do
  match ← d.resolve? n with
  | .scalar tag style text =>
    if style = .plain ∨ (style = .literal ∧ tag = some wholeTag) then (natural? text).filter (· < Text.word) else none
  | _ => none

/-! ### Names -/

/-- The scalars that stand for nothing. -/
def isNull (style : Style) (text : String) : Bool :=
  style == .plain && ["", "~", "null", "Null", "NULL"].contains text

/-- The name that a tag gives: what follows its exclamation mark, or the mark alone. A tag whose bytes are no
    text gives none. -/
def tagName? : Tag → Option String
  | [] => none
  | first :: rest =>
    if first = '!'.toUInt8 then String.fromUTF8? ⟨(if rest.isEmpty then [first] else rest).toArray⟩ else none

/-- The name of a scalar. It is the text, or the tag if there is no text. -/
def nameOf? (tag : Option Tag) (style : Style) (text : String) : Option String :=
  match tag.bind tagName? with
  | some name => if isNull style text then some name else none
  | none => some text

/-- One of some things, by name. -/
def decodeName {α : Type} (label : α → String) (all : List α) : Decoder α := fun d n => do
  match ← d.resolve? n with
  | .scalar tag style text =>
    let name ← nameOf? tag style text
    all.find? fun a => label a == name
  | _ => none

/-! ### Records -/

/-- A field of a record. A record need not have it. -/
structure Field (σ : Type) where
  name : String
  /-- Decodes the field and puts it into the record. -/
  store : σ → Decoder σ

/-- The members of a mapping in order, into a record whose fields in `seen` were met before. Other members are
    passed over, and no field may come twice. -/
def decodeMembers {σ : Type} (fields : List (Field σ)) (d : Document) :
    List String → σ → List (Node × Node) → Option σ
  | _, s, [] => some s
  | seen, s, (key, value) :: members => do
    let name ← decodeText d key
    match fields.find? fun field => field.name == name with
    | none => decodeMembers fields d seen s members
    | some field =>
      if seen.contains name then none
      else decodeMembers fields d (name :: seen) (← field.store s d value) members

/-- A mapping, or nothing at all, over a record of defaults. -/
def decodeRecord {σ : Type} (fields : List (Field σ)) (start : σ) : Decoder σ := fun d n => do
  match ← d.resolve? n with
  | .mapping _ members => decodeMembers fields d [] start members
  | .scalar _ style text => if style = .plain ∧ text = "" then some start else none
  | _ => none

end CircuitDesigner.Yaml
