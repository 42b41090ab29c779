import CircuitDesigner.Workspace

/-! Bundles: the files in which circuits are exported.

    A bundle is lines of JSON. All but the last define the custom gates that the circuit uses, each of them
    after the ones that it uses itself; the last line is the template of the circuit. -/

namespace CircuitDesigner

/-- Why a bundle is refused. Lines count from one. -/
inductive BundleError where
  /-- The text has no line that is not blank. -/
  | empty
  /-- A line is not the JSON of what it should hold. -/
  | json (line : Nat) (cause : DecodeError)
  /-- A stamp on the line means nothing. -/
  | circuit (line : Nat) (cause : CircuitError)
  /-- The id defined on the line has another definition. -/
  | conflict (line : Nat) (id : String)
  /-- The circuit was refused after its custom gates were installed. -/
  | core (cause : CircuitError)

namespace BundleError

def message : BundleError → String
  | empty => "Bundle is empty: expected at least a circuit line"
  | json line cause => "Invalid JSON at line " ++ toString line ++ ": " ++ cause.message
  | circuit line cause => "Invalid circuit at line " ++ toString line ++ ": " ++ cause.message
  | conflict line id =>
    "Custom gate '" ++ id ++ "' at line " ++ toString line ++ " conflicts with an existing definition"
  | core cause => "Core error: " ++ cause.message

/-- The line at fault. -/
def line? : BundleError → Option Nat
  | json line _ | circuit line _ | conflict line _ => some line
  | empty | core _ => none

end BundleError

/-- A circuit with the custom gates it needs. -/
structure Bundle where
  definitions : List Definition
  circuit : Template
  deriving DecidableEq, Repr

namespace Bundle

/-! ### Export -/

/-- The definitions that a template uses, itself or by way of other definitions, in their order. A definition
    uses older ones only, so that going from the newest to the oldest meets all users of one before it. -/
def usedDefinitions (t : Template) (definitions : List Definition) : List Definition :=
  definitions.foldr
    (fun d used => if t.references d.id || used.any fun user => user.circuit.references d.id then d :: used else used)
    []

variable {K : Type}

/-- The bundle of a circuit, without its history. -/
def ofCircuit (c : Circuit K) : Bundle where
  definitions := usedDefinitions c.current c.catalog.definitions
  circuit := c.current

/-- The lines of a bundle. -/
def render (b : Bundle) : String := "\n".intercalate (b.definitions.map Definition.render ++ [b.circuit.render])

/-! ### Import -/

/-- The lines of a text that are not blank, trimmed, with their numbers. -/
def numberedLines (text : String) : List (Nat × String) :=
  ((Text.lines text).zipIdx 1).filterMap fun (line, number) =>
    let line := Text.trim line
    if line.isEmpty then none else some (number, line)

/-- The definition on a line. -/
def parseDefinition : Nat × String → Except BundleError Definition
  | (number, line) => (Definition.parse line).mapError (.json number)

/-- Reads a bundle. Blank lines are passed over. -/
def parse (text : String) : Except BundleError Bundle :=
  let lines := numberedLines text
  match lines.getLast? with
  | none => .error .empty
  | some (number, line) => do
    let definitions ← lines.dropLast.mapM parseDefinition
    let circuit ← (Template.parse line).mapError (.json number)
    .ok ⟨definitions, circuit⟩

/-- Adds definitions, the first of them at `line`, to a catalog, and counts those that are new to it. One that
    the catalog already has with the same span and circuit is passed over. -/
def installFrom (line count : Nat) (catalog : Catalog) : List Definition → Except BundleError (Nat × Catalog)
  | [] => .ok (count, catalog)
  | d :: ds =>
    match catalog.get? d.id with
    | some known =>
      if known.span = d.span ∧ known.circuit = d.circuit then installFrom (line + 1) count catalog ds
      else .error (.conflict line d.id)
    | none =>
      match d.circuit.validate catalog with
      | .error e => .error (.circuit line e)
      | .ok () => installFrom (line + 1) (count + 1) (catalog.define d) ds

/-- The catalog with the custom gates of a bundle, and how many of them are new to it. Every stamp of the
    bundle has to mean something. -/
def install (b : Bundle) (catalog : Catalog) : Except BundleError (Nat × Catalog) := do
  let (count, catalog) ← installFrom 1 0 catalog b.definitions
  match b.circuit.validate catalog with
  | .error e => .error (.circuit (b.definitions.length + 1) e)
  | .ok () => .ok (count, catalog)

variable [Coordinate K]

/-- Replaces a circuit by the bundle, as one step of its history. -/
def applyTo (b : Bundle) (c : Circuit K) : Except BundleError (Circuit K) := do
  let (_, catalog) ← b.install c.catalog
  ({ c with catalog }.save.restore b.circuit .none).mapError .core

/-- Opens the bundle in a new tab. -/
def openIn (b : Bundle) (w : Workspace K) (title : String) : Except BundleError Nat × Workspace K :=
  match b.install w.circuit.catalog with
  | .error e => (.error e, w)
  | .ok (_, catalog) =>
    let (opened, w) := { w with circuit.catalog := catalog }.openTab b.circuit title
    (opened.mapError .core, w)

end Bundle

end CircuitDesigner
