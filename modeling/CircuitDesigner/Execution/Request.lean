import CircuitDesigner.Circuit.Snapshot
import CircuitDesigner.Execution.OutputKind

/-! Requests to the backend, and which of them can be skipped.

    A request carries lines of JSON: the kind of its output, the definitions of all custom gates, and the
    template of the circuit. -/

namespace CircuitDesigner

/-- What matters of a circuit to the backend. -/
def Parts.execution : Parts := { Parts.timeless with minQubits := false, names := false, colors := false }

/-- The template that a circuit is executed from. -/
def Circuit.executed {K : Type} (c : Circuit K) : Template := c.capture .execution

/-- The lines sent to the backend. -/
def Circuit.payload {K : Type} (c : Circuit K) (output : OutputKind) : String :=
  let head := Json.object [("output", .string output.label)]
  "\n".intercalate (head.render :: c.catalog.definitions.map Definition.render ++ [c.executed.render])

structure Request where
  output : OutputKind
  /-- The lines sent to the backend. -/
  payload : String
  shots : Nat
  backend : String
  deriving DecidableEq, Repr

namespace Request

/-- The request for a circuit, with its shots. -/
def ofCircuit {K : Type} (c : Circuit K) (output : OutputKind) (backend : String) : Request where
  output
  payload := c.payload output
  shots := c.settings.shots
  backend

def toJson (r : Request) : Json :=
  .object [("output", .string r.output.label), ("circuit", .string r.payload), ("shots", .natural r.shots),
    ("backend", .string r.backend)]

def render (r : Request) : String := r.toJson.render

def fields : List (Json.Field Request) :=
  [⟨"output", true, fun r o depth d => return { r with output := ← OutputKind.decode o depth d }⟩,
    ⟨"circuit", true, fun r o depth d => return { r with payload := ← Json.decodeString o depth d }⟩,
    ⟨"shots", true, fun r o depth d => return { r with shots := ← Json.decodeNat "u64" o depth d }⟩,
    ⟨"backend", true, fun r o depth d => return { r with backend := ← Json.decodeString o depth d }⟩]

def decode : Json.Decoder Request :=
  Json.decodeRecord "struct ExecutionRequest" fields ⟨.counts, "", 0, ""⟩

def parse (text : String) : Except DecodeError Request := Json.decodeText decode text

end Request

/-- The last template sent for each kind of output. -/
structure ResultCache where
  sent : OutputKind → Option Template

namespace ResultCache

def empty : ResultCache := ⟨fun _ => none⟩

variable {K : Type}

/-- The circuit has changed since the last request for the kind. -/
def isStale (cache : ResultCache) (kind : OutputKind) (c : Circuit K) : Bool := cache.sent kind != some c.executed

/-- A request for the kind was sent. -/
def record (cache : ResultCache) (kind : OutputKind) (c : Circuit K) : ResultCache :=
  ⟨fun k => if k = kind then some c.executed else cache.sent k⟩

/-- The next request for the kind has to be sent. -/
def invalidate (cache : ResultCache) (kind : OutputKind) : ResultCache :=
  ⟨fun k => if k = kind then none else cache.sent k⟩

end ResultCache

/-- A request that waits for its answer. -/
structure InFlight where
  output : OutputKind
  aborted : Bool := false
  deriving DecidableEq, Repr

/-- Aborts the request, unless that has been done. -/
def InFlight.abort (f : InFlight) : Bool × InFlight := (!f.aborted, { f with aborted := true })

end CircuitDesigner
