import CircuitDesigner.Exponent
import CircuitDesigner.Gate.Kind

/-! Gates, the faults that validation finds on them, and the counters that sum them up. -/

namespace CircuitDesigner

/-- Why a gate is marked as an error. -/
inductive Fault where
  /-- It stands on the classical part of its wire. -/
  | onBit
  /-- Its exponent denotes no number. -/
  | invalidExponent
  /-- It is the only swap of its column. -/
  | unpairedSwap
  /-- Its column holds three swaps or more. -/
  | tooManySwaps
  deriving DecidableEq, Repr

namespace Fault

def label : Fault → String
  | onBit => "OnBit"
  | invalidExponent => "InvalidExponent"
  | unpairedSwap => "UnpairedSwap"
  | tooManySwaps => "TooManySwaps"

/-- The tooltip of the gate. -/
def reason : Fault → String
  | onBit => "This gate cannot exist ontop of a bit."
  | invalidExponent => "Invalid exponent."
  | unpairedSwap => "SWAP gates need a pair on their step."
  | tooManySwaps => "Too many SWAP gates on this step."

/-- The fault of each swap in a column that holds `count` of them. -/
def ofSwapCount (count : Nat) : Option Fault :=
  if count = 1 then some unpairedSwap else if count > 2 then some tooManySwaps else none

end Fault

/-- The fault that a kind has by itself, on the classical part of a wire or before it. -/
def GateKind.inspect (kind : GateKind) (onBit : Bool) : Option Fault :=
  match kind with
  | control _ | inertia | support _ => none
  | powered _ exponent =>
    if onBit then some .onBit else if Exponent.isValid exponent then none else some .invalidExponent
  | standard _ | custom .. | measurement _ | swap => if onBit then some .onBit else none

/-- A gate, in a cell of a wire or in the hand of the user. -/
structure Gate where
  id : GateId
  kind : GateKind
  /-- The wire that holds it. -/
  owner : Option WireId := none
  fault : Option Fault := none
  /-- It shows its second appearance. -/
  textured : Bool := false
  /-- Only a gate that has a second appearance shows it. -/
  hasTexture_of_textured : textured = true → kind.hasTexture = true := by simp
  deriving DecidableEq, Repr

namespace Gate

/-- The inertia with that number. -/
def inertia (index : Nat) : Gate := { id := ⟨index⟩, kind := .inertia }

def span (g : Gate) : Nat := g.kind.span

def isInertia (g : Gate) : Bool := g.kind.isInertia

/-- It covers a cell for that gate. -/
def supports (g : Gate) (parent : GateId) : Bool := g.kind == .support parent

/-- It is that gate. -/
def isGate (g : Gate) (id : Option GateId) : Bool := some g.id == id

/-- The gate on that wire. -/
def ownedBy (g : Gate) (wire : WireId) : Gate := { g with owner := some wire }

/-- The gate on no wire. -/
def released (g : Gate) : Gate := { g with owner := none }

/-- The fault that the gate has by itself replaces any other. -/
def inspected (g : Gate) (onBit : Bool) : Gate := { g with fault := g.kind.inspect onBit }

/-- A further fault counts only if there is none yet. -/
def flagged (g : Gate) (fault : Option Fault) : Gate := { g with fault := g.fault <|> fault }

/-- Shows the second appearance or the first one, if the gate has two. -/
def withTexture (g : Gate) (textured : Bool) : Gate :=
  if h : g.kind.hasTexture then { g with textured, hasTexture_of_textured := fun _ => h } else g

/-- The gate with another kind. It keeps its second appearance only if that kind has one. -/
def withKind (g : Gate) (kind : GateKind) : Gate :=
  { g with kind, textured := g.textured && kind.hasTexture, hasTexture_of_textured := by simp }

end Gate

/-- Counters over the gates of a circuit. -/
structure Tally where
  /-- Standard, powered and custom gates. -/
  generics : Nat := 0
  /-- Swaps without a fault. -/
  swapHalves : Nat := 0
  measurements : Nat := 0
  /-- Gates with a fault. -/
  errors : Nat := 0
  controls : Nat := 0
  identities : Nat := 0
  deriving DecidableEq, Repr

namespace Tally

/-- Pairs of swaps. -/
def swaps (t : Tally) : Nat := t.swapHalves / 2

/-- The number of gates that the user sees: a pair of swaps is one. -/
def gates (t : Tally) : Nat := t.generics + t.swaps

def ofGates (gates : List Gate) : Tally where
  generics := gates.countP fun g => g.kind.isCounted
  swapHalves := gates.countP fun g => g.kind.isSwap && g.fault.isNone
  measurements := gates.countP fun g => g.kind.isMeasurement
  errors := gates.countP fun g => g.fault.isSome
  controls := gates.countP fun g => g.kind.isControl
  identities := gates.countP fun g => g.isInertia

end Tally

end CircuitDesigner
