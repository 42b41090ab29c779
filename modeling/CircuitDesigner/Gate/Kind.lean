/-! Kinds of gates. -/

namespace CircuitDesigner

/-- Names a gate within the circuit that made it. -/
structure GateId where
  index : Nat
  deriving DecidableEq, Repr, Inhabited

/-- Names a wire within the circuit that made it. -/
structure WireId where
  index : Nat
  deriving DecidableEq, Repr, Inhabited

def GateId.label (id : GateId) : String := "g" ++ toString id.index

def WireId.label (id : WireId) : String := "w" ++ toString id.index

/-- The fixed gates on one wire. -/
inductive StandardGate where
  | x
  | y
  | z
  | h
  | s
  | t
  deriving DecidableEq, Repr

namespace StandardGate

/-- In the order of the toolbox. -/
def all : List StandardGate := [x, y, z, h, s, t]

def typeId : StandardGate → String
  | x => "x"
  | y => "y"
  | z => "z"
  | h => "h"
  | s => "s"
  | t => "t"

/-- The letter on its tile. -/
def letter : StandardGate → String
  | x => "X"
  | y => "Y"
  | z => "Z"
  | h => "H"
  | s => "S"
  | t => "T"

/-- It has a second appearance for when it is controlled. -/
def hasTexture : StandardGate → Bool
  | x | z => true
  | _ => false

end StandardGate

/-- The axis of a Pauli gate raised to a power. -/
inductive PauliAxis where
  | x
  | y
  | z
  deriving DecidableEq, Repr

namespace PauliAxis

def all : List PauliAxis := [x, y, z]

def typeId : PauliAxis → String
  | x => "powered-x"
  | y => "powered-y"
  | z => "powered-z"

def letter : PauliAxis → String
  | x => "X"
  | y => "Y"
  | z => "Z"

end PauliAxis

/-- The state of its wire that a control acts on. -/
inductive ControlMode where
  /-- Acts on `|0>`, a hollow dot. -/
  | anti
  /-- Acts on `|1>`, a filled dot. -/
  | active
  deriving DecidableEq, Repr

namespace ControlMode

def all : List ControlMode := [anti, active]

def label : ControlMode → String
  | anti => "Anti"
  | active => "Active"

def code : ControlMode → Nat
  | anti => 0
  | active => 1

def ofCode? (code : Nat) : Option ControlMode := all.find? fun mode => mode.code == code

def toggled : ControlMode → ControlMode
  | anti => active
  | active => anti

def glyph : ControlMode → String
  | anti => "◦"
  | active => "•"

theorem ofCode?_code (mode : ControlMode) : ofCode? mode.code = some mode := by cases mode <;> rfl

end ControlMode

/-- Which outcomes of a measurement are kept. -/
inductive PostSelection where
  /-- The runs that measured `|0>`. -/
  | zero
  /-- The runs that measured `|1>`. -/
  | one
  /-- All runs. -/
  | off
  deriving DecidableEq, Repr

namespace PostSelection

def all : List PostSelection := [zero, one, off]

def label : PostSelection → String
  | zero => "Zero"
  | one => "One"
  | off => "Off"

def code : PostSelection → Nat
  | zero => 0
  | one => 1
  | off => 2

def ofCode? (code : Nat) : Option PostSelection := all.find? fun mode => mode.code == code

/-- The mode after a click. -/
def next : PostSelection → PostSelection
  | off => zero
  | zero => one
  | one => off

/-- Some outcomes are dropped. -/
def isActive : PostSelection → Bool
  | off => false
  | _ => true

theorem ofCode?_code (mode : PostSelection) : ofCode? mode.code = some mode := by cases mode <;> rfl

end PostSelection

/-- What a cell of the grid holds. -/
inductive GateKind where
  | standard (gate : StandardGate)
  /-- A Pauli gate raised to the power that the text denotes. -/
  | powered (axis : PauliAxis) (exponent : String)
  /-- A gate defined by a circuit of its own. -/
  | custom (id : String) (span : Nat)
  | control (mode : ControlMode)
  | measurement (mode : PostSelection)
  /-- One half of a pair. -/
  | swap
  /-- Nothing: it keeps the columns aligned. -/
  | inertia
  /-- A cell covered by a gate on a wire above. -/
  | support (parent : GateId)
  deriving DecidableEq, Repr

namespace GateKind

/-- The number of wires that a gate of the kind covers. -/
def span : GateKind → Nat
  | custom _ span => max span 1
  | _ => 1

/-- Controls and swaps link to it: anything but inertias, measurements and controls. -/
def isGeneric : GateKind → Bool
  | inertia | measurement _ | control _ => false
  | _ => true

/-- It is not drawn as a gate. -/
def isPlaceholder : GateKind → Bool
  | inertia | support _ => true
  | _ => false

def isInertia : GateKind → Bool
  | inertia => true
  | _ => false

def isSwap : GateKind → Bool
  | swap => true
  | _ => false

def isMeasurement : GateKind → Bool
  | measurement _ => true
  | _ => false

def isControl : GateKind → Bool
  | control _ => true
  | _ => false

/-- A measurement that drops some outcomes. -/
def isPostSelection : GateKind → Bool
  | measurement mode => mode.isActive
  | _ => false

/-- It counts as a gate of the circuit by itself. -/
def isCounted : GateKind → Bool
  | standard _ | powered .. | custom .. => true
  | _ => false

/-- It has a second appearance for when it is controlled. -/
def hasTexture : GateKind → Bool
  | standard gate => gate.hasTexture
  | _ => false

theorem span_pos (kind : GateKind) : 0 < kind.span := by
  cases kind <;> simp only [span] <;> omega

end GateKind

end CircuitDesigner
