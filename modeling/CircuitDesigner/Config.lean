import CircuitDesigner.Execution.OutputKind
import CircuitDesigner.Settings
import CircuitDesigner.Yaml.Decode

/-! Configuration files: the defaults that a user sets in YAML. -/

namespace CircuitDesigner

structure Config where
  /-- The settings of a circuit before a bundle is put into it. -/
  settings : Settings := {}
  /-- The name of the backend that requests go to. -/
  backend : String := "simulator"
  /-- The output that requests ask for. -/
  output : OutputKind := .counts
  deriving DecidableEq, Repr

/-- Why a configuration is refused. -/
inductive ConfigError where
  /-- The text is not the YAML of a configuration. -/
  | malformed
  /-- A setting must not be zero. -/
  | zeroSetting (setting : Setting)
  deriving DecidableEq, Repr

def ConfigError.message : ConfigError → String
  | malformed => "not the YAML of a configuration"
  | zeroSetting .minQubits => "settings.minQubits must be at least 1"
  | zeroSetting .shots => "settings.shots must be at least 1"

namespace Config

def settingsFields : List (Yaml.Field Settings) :=
  [⟨"endianness", fun s d n => return { s with
      endianness := ← Yaml.decodeName Endianness.label [.little, .big] d n }⟩,
    ⟨"minQubits", fun s d n => return { s with minQubits := ← Yaml.decodeNat d n }⟩,
    ⟨"shots", fun s d n => return { s with shots := ← Yaml.decodeNat d n }⟩]

def backendFields : List (Yaml.Field String) := [⟨"name", fun _ d n => Yaml.decodeText d n⟩]

def outputFields : List (Yaml.Field OutputKind) :=
  [⟨"kind", fun _ d n => Yaml.decodeName OutputKind.label OutputKind.all d n⟩]

def fields : List (Yaml.Field Config) :=
  [⟨"settings", fun c d n => return { c with settings := ← Yaml.decodeRecord settingsFields {} d n }⟩,
    ⟨"backend", fun c d n => return { c with
      backend := ← Yaml.decodeRecord backendFields ({} : Config).backend d n }⟩,
    ⟨"output", fun c d n => return { c with
      output := ← Yaml.decodeRecord outputFields ({} : Config).output d n }⟩]

/-- The configuration of a document. -/
def ofDocument? (d : Yaml.Document) : Option Config :=
  match d.root with
  | none => some {}
  | some root => Yaml.decodeRecord fields {} d root

/-- A configuration whose settings are not zero. -/
def checked (c : Config) : Except ConfigError Config :=
  if c.settings.minQubits = 0 then .error (.zeroSetting .minQubits)
  else if c.settings.shots = 0 then .error (.zeroSetting .shots)
  else .ok c

/-- Reads a configuration. A blank text has the defaults. -/
def parse (text : String) : Except ConfigError Config :=
  if (Text.trim text).isEmpty then .ok {}
  else
    match (Yaml.Document.parse? text).bind ofDocument? with
    | none => .error .malformed
    | some c => c.checked

end Config

end CircuitDesigner
