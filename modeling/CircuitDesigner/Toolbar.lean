import CircuitDesigner.Gate.Basic
import CircuitDesigner.Settings

/-! The toolbar: buttons that are enabled or say why not, and counters. -/

namespace CircuitDesigner

/-- Whether a button is enabled, and its tooltip. -/
structure Button where
  enabled : Bool
  title : String
  deriving DecidableEq, Repr

namespace Button

def enable (title : String) : Button := ⟨true, title⟩

def disable (title : String) : Button := ⟨false, title⟩

end Button

/-- The buttons that depend on the circuit. -/
structure Toolbar where
  addCustom : Button
  undo : Button
  redo : Button
  clear : Button
  counts : Button
  amplitudes : Button
  deriving DecidableEq, Repr

namespace Toolbar

def emptyTitle : String := "The circuit is empty."

def errorsTitle : String := "The circuit has errors."

def noHistoryTitle : String := "No actions to revert."

/-- The button that makes the circuit a custom gate. -/
def addCustomButton (tally : Tally) : Button :=
  if tally.errors > 0 then .disable errorsTitle
  else if tally.measurements > 0 then .disable "Nesting measurements is prohibited."
  else if tally.generics + tally.swaps = 0 then .disable emptyTitle
  else .enable "Add custom gate (CTRL + A)"

/-- The buttons for the counters, the lengths of the undo and redo stacks, and whether no wire has a cell. -/
def derive (tally : Tally) (undos redos : Nat) (isEmpty : Bool) : Toolbar where
  addCustom := addCustomButton tally
  undo := if undos = 0 then .disable noHistoryTitle else .enable "Undo (CTRL + Z)"
  redo := if redos = 0 then .disable noHistoryTitle else .enable "Redo (CTRL + Y)"
  clear := if isEmpty then .disable emptyTitle else .enable "Clear all (CTRL + C)"
  counts :=
    if tally.errors > 0 then .disable errorsTitle
    else if tally.measurements = 0 then .disable "At least one measurement needs to be declared."
    else .enable "Request measurement counts..."
  amplitudes :=
    if tally.errors > 0 then .disable errorsTitle else .enable "Request amplitude statevector..."

/-- The toolbar of a circuit without cells or history. -/
def initial : Toolbar := derive {} 0 0 true

end Toolbar

/-- The counters and settings on the toolbar. -/
structure Widgets where
  qubits : Nat := 0
  gates : Nat := 0
  steps : Nat := 0
  endianness : Endianness := .little
  minQubits : Nat := 0
  shots : Nat := 0
  deriving DecidableEq, Repr

namespace Widgets

def derive (qubits steps : Nat) (tally : Tally) (settings : Settings) : Widgets where
  qubits
  gates := tally.gates
  steps
  endianness := settings.endianness
  minQubits := settings.minQubits
  shots := settings.shots

/-- The line on the toolbar. -/
def message (w : Widgets) : String :=
  "Qubits: " ++ toString w.qubits ++ " | Gates: " ++ toString w.gates ++ " | Steps: " ++ toString w.steps ++
    " | Order: " ++ w.endianness.label ++ " Endian"

end Widgets

end CircuitDesigner
