/-! Settings of a circuit as a whole: the order in which its wires are numbered, how many wires stay
    even when they are empty, and how often an execution repeats it. -/

namespace CircuitDesigner

/-- Which end of the circuit the wire numbers start from. -/
inductive Endianness where
  /-- The top wire is number 0. -/
  | little
  /-- The bottom wire is number 0. -/
  | big
  deriving DecidableEq, Repr, Inhabited

namespace Endianness

/-- The name in which templates and settings write it. -/
def label : Endianness → String
  | little => "Little"
  | big => "Big"

def toggled : Endianness → Endianness
  | little => big
  | big => little

/-- The number of the wire at `row` of `count` wires. -/
def ordinal (endianness : Endianness) (count row : Nat) : Nat :=
  match endianness with
  | little => row
  | big => count - 1 - row

/-- The labels of `count` wires, top to bottom. -/
def placeholders (endianness : Endianness) (count : Nat) : List String :=
  (List.range count).map fun row => "q" ++ toString (endianness.ordinal count row)

@[simp] theorem toggled_toggled (e : Endianness) : e.toggled.toggled = e := by cases e <;> rfl

@[simp] theorem length_placeholders (e : Endianness) (count : Nat) :
    (e.placeholders count).length = count := by simp [placeholders]

end Endianness

structure Settings where
  endianness : Endianness := .little
  /-- A refresh keeps at least this many wires. -/
  minQubits : Nat := 1
  /-- Repetitions asked of the backend. -/
  shots : Nat := 10000
  deriving DecidableEq, Repr, Inhabited

/-- The settings that must not be zero. -/
inductive Setting where
  | minQubits
  | shots
  deriving DecidableEq, Repr

/-- The name of a setting in messages. -/
def Setting.label : Setting → String
  | minQubits => "min_qubits"
  | shots => "shots"

end CircuitDesigner
