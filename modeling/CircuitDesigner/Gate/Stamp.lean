import CircuitDesigner.Catalog
import CircuitDesigner.Error
import CircuitDesigner.Gate.Kind

/-! Stamps: the text form of gate kinds.

    A stamp is a type id, followed by a delimiter and extra data where the kind has any: the exponent of a
    powered gate, the code of a control or measurement. The first delimiter counts, so that extra data may
    hold others. The ids of custom gates are resolved by a catalog, after all built-in ones. -/

namespace CircuitDesigner

namespace Stamp

/-- What stands between type id and extra data. -/
def delimiter : List Char := "<!@DELIMITER>".toList

/-- How the stamps of supports start. Nothing else about them matters. -/
def supportStart : List Char := "supp".toList

/-- The characters before and after the first occurrence of a separator. -/
def splitOnce (separator : List Char) : List Char → Option (List Char × List Char)
  | [] => none
  | c :: cs =>
    if separator.isPrefixOf (c :: cs) then some ([], (c :: cs).drop separator.length)
    else (splitOnce separator cs).map fun (before, after) => (c :: before, after)

/-- Type id and extra data. -/
def split (stamp : String) : String × Option String :=
  match splitOnce delimiter stamp.toList with
  | some (id, extra) => (String.ofList id, some (String.ofList extra))
  | none => (stamp, none)

/-- The type id. -/
def typeId (stamp : String) : String := (split stamp).1

/-- The stamp of type id and extra data. -/
def join (id extra : String) : String := String.ofList (id.toList ++ delimiter ++ extra.toList)

/-- The stamp is one of a support. -/
def isSupport (stamp : String) : Bool := supportStart.isPrefixOf stamp.toList

/-- The mode with the code in the extra data, or the default one without extra data. A code is a number
    of 8 bits; blanks around it are ignored. -/
def mode {α : Type} (gate : String) (standard : α) (ofCode? : Nat → Option α) : Option String → Except CircuitError α
  | none => .ok standard
  | some extra =>
    match (Text.unsignedChars? 256 (Text.trimChars extra.toList)).bind ofCode? with
    | some a => .ok a
    | none => .error (.malformedStamp gate extra)

end Stamp

namespace GateKind

/-- The exponent of a powered gate that is given none. -/
def defaultExponent : String := "1"

/-- The type id that starts the stamp. -/
def typeId : GateKind → String
  | standard gate => gate.typeId
  | powered axis _ => axis.typeId
  | custom id _ => id
  | control _ => "control"
  | measurement _ => "measurement"
  | swap => "swap"
  | inertia => "inertia"
  | support _ => "supp"

def stamp : GateKind → String
  | powered axis exponent => Stamp.join axis.typeId exponent
  | control mode => Stamp.join "control" (toString mode.code)
  | measurement mode => Stamp.join "measurement" (toString mode.code)
  | kind => kind.typeId

/-- The kind of a stamp. -/
def ofStamp (catalog : Catalog) (stamp : String) : Except CircuitError GateKind :=
  let (id, extra) := Stamp.split stamp
  match StandardGate.all.find? fun gate => gate.typeId == id with
  | some gate => .ok (.standard gate)
  | none =>
    match PauliAxis.all.find? fun axis => axis.typeId == id with
    | some axis => .ok (.powered axis (extra.getD defaultExponent))
    | none =>
      if id = "control" then (Stamp.mode id .active ControlMode.ofCode? extra).map .control
      else if id = "measurement" then (Stamp.mode id .off PostSelection.ofCode? extra).map .measurement
      else if id = "swap" then .ok .swap
      else if id = "inertia" then .ok .inertia
      else if Stamp.isSupport id then .error .placeholderStamp
      else
        match catalog.get? id with
        | some d => .ok (.custom d.id d.span)
        | none => .error (.unknownGate id)

/-! ### JSON -/

/-- The names of the kinds. -/
def names : List String :=
  ["Standard", "Powered", "Custom", "Control", "Measurement", "Swap", "Inertia", "Support"]

/-- The object inside a variant with fields. -/
def decodeInside {σ : Type} (fields : List (Json.Field σ)) (start : σ) (o : Json.Origin) (depth : Nat) :
    Option Json.Draft → Except DecodeError σ
  | some (.object members closed) => Json.decodeRecord "struct variant" fields start o depth (.object members closed)
  | some d => .error (d.mismatch "struct variant")
  | none => .error (.invalidType .unitVariant "struct variant")

/-- The value inside a variant with one. -/
def decodeSingle {α : Type} (decode : Json.Decoder α) (o : Json.Origin) (depth : Nat) :
    Option Json.Draft → Except DecodeError α
  | some d => decode o depth d
  | none => .error (.invalidType .unitVariant "newtype variant")

def poweredFields : List (Json.Field (PauliAxis × String)) :=
  [⟨"axis", true, fun r o depth d => return (← Json.decodeName PauliAxis.letter PauliAxis.all o depth d, r.2)⟩,
    ⟨"exponent", true, fun r o depth d => return (r.1, ← Json.decodeString o depth d)⟩]

def customFields : List (Json.Field (String × Nat)) :=
  [⟨"id", true, fun r o depth d => return (← Json.decodeString o depth d, r.2)⟩,
    ⟨"span", true, fun r o depth d => return (r.1, ← Json.decodeNat "usize" o depth d)⟩]

def supportFields : List (Json.Field Nat) :=
  [⟨"parent", true, fun _ o depth d => Json.decodeNat "u64" o depth d⟩]

/-- A kind is its bare name, or an object with its name and contents. -/
def decode : Json.Decoder GateKind := fun o depth d =>
  let inside (name : String) : Option (Option Json.Draft → Except DecodeError GateKind) :=
    match name with
    | "Standard" => some fun d =>
      (decodeSingle (Json.decodeName StandardGate.letter StandardGate.all) o depth d).map .standard
    | "Powered" => some fun d => do
      let (axis, exponent) ← decodeInside poweredFields (.x, "") o depth d
      .ok (.powered axis exponent)
    | "Custom" => some fun d => do
      let (id, span) ← decodeInside customFields ("", 0) o depth d
      .ok (.custom id span)
    | "Control" => some fun d =>
      (decodeSingle (Json.decodeName ControlMode.label ControlMode.all) o depth d).map .control
    | "Measurement" => some fun d =>
      (decodeSingle (Json.decodeName PostSelection.label PostSelection.all) o depth d).map .measurement
    | "Swap" => some (Json.decodeUnit .swap)
    | "Inertia" => some (Json.decodeUnit .inertia)
    | "Support" => some fun d => do
      let parent ← decodeInside supportFields 0 o depth d
      .ok (.support ⟨parent⟩)
    | _ => none
  Json.decodeVariant names inside o depth d

def toJson : GateKind → Json
  | standard gate => .object [("Standard", .string gate.letter)]
  | powered axis exponent =>
    .object [("Powered", .object [("axis", .string axis.letter), ("exponent", .string exponent)])]
  | custom id span => .object [("Custom", .object [("id", .string id), ("span", .natural span)])]
  | control mode => .object [("Control", .string mode.label)]
  | measurement mode => .object [("Measurement", .string mode.label)]
  | swap => .string "Swap"
  | inertia => .string "Inertia"
  | support parent => .object [("Support", .object [("parent", .natural parent.index)])]

end GateKind

namespace Template

/-- Some cell is stamped with the custom gate. -/
def references (t : Template) (id : String) : Bool :=
  t.wires.any fun r => r.stamps.any fun stamp => Stamp.typeId stamp == id

/-- The kinds of the cells of each wire; none for supports. The first stamp at fault is reported. -/
def resolve (t : Template) (catalog : Catalog) : Except CircuitError (List (List (Option GateKind))) :=
  t.wires.mapM fun r => r.stamps.mapM fun stamp =>
    if Stamp.isSupport stamp then .ok none else (GateKind.ofStamp catalog stamp).map some

/-- Every stamp means something in the catalog. -/
def validate (t : Template) (catalog : Catalog) : Except CircuitError Unit :=
  (t.resolve catalog).map fun _ => ()

end Template

end CircuitDesigner
