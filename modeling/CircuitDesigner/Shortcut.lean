import CircuitDesigner.Text.Blank

/-! Keyboard shortcuts. -/

namespace CircuitDesigner

/-- What can be done by key. -/
inductive Shortcut where
  | undo
  | redo
  | addTab
  | clear
  | openGateBuilder
  | closeGateBuilder
  | exportFile
  | importFile
  deriving DecidableEq, Repr

namespace Shortcut

def all : List Shortcut :=
  [undo, redo, addTab, clear, openGateBuilder, closeGateBuilder, exportFile, importFile]

/-- What a key press does. Capitals count as small letters. -/
def ofKey? (key : String) (ctrl shift : Bool) : Option Shortcut :=
  match Text.lower key, ctrl, shift with
  | "escape", _, _ => some closeGateBuilder
  | "z", true, true => some redo
  | "y", true, _ => some redo
  | "z", true, false => some undo
  | "s", true, true => some importFile
  | "s", true, false => some exportFile
  | "q", true, _ => some addTab
  | "c", true, _ => some clear
  | "a", true, _ => some openGateBuilder
  | _, _, _ => none

def label : Shortcut → String
  | undo => "undo"
  | redo => "redo"
  | addTab => "add tab"
  | clear => "clear"
  | openGateBuilder => "open gate builder"
  | closeGateBuilder => "close gate builder"
  | exportFile => "export"
  | importFile => "import"

/-- The keys as a tooltip shows them. -/
def keys : Shortcut → String
  | undo => "CTRL + Z"
  | redo => "CTRL + Y"
  | addTab => "CTRL + Q"
  | clear => "CTRL + C"
  | openGateBuilder => "CTRL + A"
  | closeGateBuilder => "ESCAPE"
  | exportFile => "CTRL + S"
  | importFile => "CTRL + SHIFT + S"

end Shortcut

end CircuitDesigner
