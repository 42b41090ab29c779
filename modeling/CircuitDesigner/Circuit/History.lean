import CircuitDesigner.Circuit.Snapshot

/-! Undo and redo.

    The history is two stacks of templates. An edit saves the state before it on the undo stack; undo and redo
    move the current state from one stack to the other. -/

namespace CircuitDesigner.Circuit

variable {K : Type}

/-- Puts a state on the undo stack. When that stack was empty, the states undone before are forgotten. -/
def remember (c : Circuit K) (t : Template) : Circuit K :=
  { c with
    undos := c.undos ++ [t]
    redos := if c.undos.isEmpty then [] else c.redos }

/-- Saves the current state. -/
def save (c : Circuit K) : Circuit K := c.remember c.current

/-- Saves an earlier state, unless it is the current one. -/
def saveState? (c : Circuit K) (t : Template) : Option (Circuit K) :=
  if t = c.current then none else some (c.remember t)

variable [Coordinate K]

/-- Goes back to the last state saved; none if there is no such state. -/
def undo (c : Circuit K) : Except CircuitError (Option (Circuit K)) :=
  match c.undos.getLast? with
  | none => .ok none
  | some t =>
    ({ c with undos := c.undos.dropLast, redos := c.redos ++ [c.current] }.restore t .none).map some

/-- Returns to the last state undone; none if there is no such state. -/
def redo (c : Circuit K) : Except CircuitError (Option (Circuit K)) :=
  match c.redos.getLast? with
  | none => .ok none
  | some t =>
    ({ c with redos := c.redos.dropLast, undos := c.undos ++ [c.current] }.restore t .none).map some

end CircuitDesigner.Circuit
