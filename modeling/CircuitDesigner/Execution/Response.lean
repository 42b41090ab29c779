import CircuitDesigner.Execution.OutputKind

/-! Responses of the backend. A response has a field for each kind of output; what the fields hold is left to
    whoever shows it. -/

namespace CircuitDesigner

structure Response where
  counts : Option Json := none
  amplitudes : Option Json := none
  probabilities : Option Json := none
  unitary : Option Json := none

namespace Response

/-- The field that answers a request. -/
def get? (r : Response) : OutputKind → Option Json
  | .counts => r.counts
  | .amplitudes => r.amplitudes
  | .probabilities => r.probabilities
  | .unitary => r.unitary

/-- Nothing was answered. -/
def isEmpty (r : Response) : Bool := OutputKind.all.all fun kind => (r.get? kind).isNone

/-- The fields that were answered. -/
def toJson (r : Response) : Json :=
  .object <| OutputKind.all.filterMap fun kind => (r.get? kind).map fun value => (kind.label, value)

def fields : List (Json.Field Response) :=
  [⟨"counts", false, fun r o depth d => return { r with
      counts := ← Json.decodeOption Json.decodeValue o depth d }⟩,
    ⟨"amplitudes", false, fun r o depth d => return { r with
      amplitudes := ← Json.decodeOption Json.decodeValue o depth d }⟩,
    ⟨"probabilities", false, fun r o depth d => return { r with
      probabilities := ← Json.decodeOption Json.decodeValue o depth d }⟩,
    ⟨"unitary", false, fun r o depth d => return { r with
      unitary := ← Json.decodeOption Json.decodeValue o depth d }⟩]

def decode : Json.Decoder Response := Json.decodeRecord "struct ExecutionResponse" fields {}

def parse (text : String) : Except DecodeError Response := Json.decodeText decode text

end Response

end CircuitDesigner
