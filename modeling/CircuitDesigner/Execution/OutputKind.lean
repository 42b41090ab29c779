import CircuitDesigner.Json.Decode
import CircuitDesigner.Text.Blank

/-! Results that a backend can be asked for. -/

namespace CircuitDesigner

inductive OutputKind where
  | counts
  | amplitudes
  | probabilities
  | unitary
  deriving DecidableEq, Repr

/-- The text names no kind of output. -/
structure UnknownOutput where
  text : String

def UnknownOutput.message (e : UnknownOutput) : String := "Unknown output kind: " ++ e.text

namespace OutputKind

def all : List OutputKind := [counts, amplitudes, probabilities, unitary]

def label : OutputKind → String
  | counts => "counts"
  | amplitudes => "amplitudes"
  | probabilities => "probabilities"
  | unitary => "unitary"

/-- The kind of that name. Blanks around it are ignored, and ASCII capitals count as small letters. -/
def parse (text : String) : Except UnknownOutput OutputKind :=
  let name := Text.lower (Text.trim text)
  match all.find? fun kind => kind.label == name with
  | some kind => .ok kind
  | none => .error ⟨text⟩

def decode : Json.Decoder OutputKind := Json.decodeName label all

theorem mem_all (kind : OutputKind) : kind ∈ all := by cases kind <;> simp [all]

end OutputKind

end CircuitDesigner
