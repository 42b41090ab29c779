import CircuitDesigner.Settings
import CircuitDesigner.Wire.Ket

/-! Templates: snapshots of a circuit.

    A template records the stamp of every cell and, for each wire and for the circuit, the parts that
    were chosen when it was taken. The parts it leaves out are absent, not empty. It may carry the
    history of the circuit, whose entries are templates again. -/

namespace CircuitDesigner

/-- What a template records of a wire. -/
structure WireRecord where
  /-- The stamps of its cells, supports included. -/
  stamps : List String
  ket : Option Ket := none
  color : Option RegisterColor := none
  name : Option String := none
  deriving DecidableEq, Repr, Inhabited

/-- A snapshot of a circuit. -/
structure Template where
  /-- Top to bottom. -/
  wires : List WireRecord := []
  endianness : Option Endianness := none
  minQubits : Option Nat := none
  shots : Option Nat := none
  /-- States before this one, oldest first. -/
  undos : Option (List Template) := none
  /-- States undone, the one to come back first at the end. -/
  redos : Option (List Template) := none
  deriving Repr

/-- The parts of a circuit that can be recorded in a template, or kept when a template is applied.
    The gates are always recorded and always replaced. -/
structure Parts where
  endianness : Bool
  minQubits : Bool
  shots : Bool
  kets : Bool
  names : Bool
  colors : Bool
  history : Bool
  deriving DecidableEq, Repr

namespace Parts

def all : Parts := ⟨true, true, true, true, true, true, true⟩

def none : Parts := ⟨false, false, false, false, false, false, false⟩

/-- Everything but the history. -/
def timeless : Parts := { all with history := false }

end Parts

namespace Template

/-- The template of no wires. -/
def empty : Template := {}

instance : Inhabited Template := ⟨empty⟩

/-! ### Equality -/

mutual

/-- Two templates are equal when all their parts are. -/
def decEq : (a b : Template) → Decidable (a = b)
  | ⟨wires, endianness, minQubits, shots, undos, redos⟩, ⟨wires', endianness', minQubits', shots', undos', redos'⟩ =>
    match decEqStack undos undos', decEqStack redos redos' with
    | isTrue hu, isTrue hr =>
      if h : wires = wires' ∧ endianness = endianness' ∧ minQubits = minQubits' ∧ shots = shots' then
        isTrue (by obtain ⟨rfl, rfl, rfl, rfl⟩ := h; subst hu; subst hr; rfl)
      else isFalse (by rintro ⟨⟩; exact h ⟨rfl, rfl, rfl, rfl⟩)
    | isFalse hu, _ => isFalse (by rintro ⟨⟩; exact hu rfl)
    | _, isFalse hr => isFalse (by rintro ⟨⟩; exact hr rfl)

def decEqStack : (a b : Option (List Template)) → Decidable (a = b)
  | none, none => isTrue rfl
  | none, some _ => isFalse (by rintro ⟨⟩)
  | some _, none => isFalse (by rintro ⟨⟩)
  | some a, some b =>
    match decEqList a b with
    | isTrue h => isTrue (by rw [h])
    | isFalse h => isFalse (by rintro ⟨⟩; exact h rfl)

def decEqList : (a b : List Template) → Decidable (a = b)
  | [], [] => isTrue rfl
  | [], _ :: _ => isFalse (by rintro ⟨⟩)
  | _ :: _, [] => isFalse (by rintro ⟨⟩)
  | a :: as, b :: bs =>
    match decEq a b, decEqList as bs with
    | isTrue h, isTrue hs => isTrue (by rw [h, hs])
    | isFalse h, _ => isFalse (by rintro ⟨⟩; exact h rfl)
    | _, isFalse hs => isFalse (by rintro ⟨⟩; exact hs rfl)

end

instance : DecidableEq Template := decEq

end Template

end CircuitDesigner
