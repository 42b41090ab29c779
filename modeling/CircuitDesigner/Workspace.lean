import CircuitDesigner.Circuit.History

/-! Workspaces: tabs over one circuit.

    A tab stores the state that its circuit had when the tab was left. To change tabs is to store the state of
    the circuit in the active tab and to make the circuit what the other tab stores. An operation gives its
    outcome and the workspace after it, as some refusals come after the first changes. -/

namespace CircuitDesigner

structure Tab where
  /-- Given by the user; empty for none. -/
  title : String
  placeholder : String
  /-- The state stored when the tab was left. -/
  snapshot : Template
  deriving DecidableEq, Repr

/-- The title, or the placeholder of a tab without one. -/
def Tab.label (t : Tab) : String := if t.title.isEmpty then t.placeholder else t.title

structure Workspace (K : Type) where
  circuit : Circuit K
  tabs : List Tab
  active : Option Nat
  /-- The number of tabs opened so far. -/
  created : Nat
  /-- The empty circuit. -/
  blank : Template
  /-- The empty circuit with an empty history. -/
  initial : Template

namespace Workspace

variable {K : Type} [Coordinate K]

/-! ### Tabs -/

/-- The workspace with the state of the circuit stored in the active tab. -/
def store (w : Workspace K) : Workspace K :=
  match w.active with
  | none => w
  | some active =>
    { w with tabs := w.tabs.modify active fun t => { t with snapshot := w.circuit.capture .all } }

/-- Changes to a tab. If its state cannot be applied, the active tab stays. -/
def activate (w : Workspace K) (index : Nat) : Except CircuitError Unit × Workspace K :=
  if w.tabs.length ≤ index then (.error (.missingTab index), w)
  else
    let w := w.store
    match w.tabs[index]? with
    | none => (.error (.missingTab index), w)
    | some t =>
      match w.circuit.restore t.snapshot .none with
      | .error e => (.error e, w)
      | .ok circuit => (.ok (), { w with circuit, active := some index })

/-- Opens a tab at the end and changes to it if its state can be applied. -/
def pushTab (w : Workspace K) (snapshot : Template) (title : String) : Nat × Workspace K :=
  let created := w.created + 1
  let tab : Tab := ⟨title, "Circuit " ++ toString created, snapshot⟩
  let index := w.tabs.length
  (index, ({ w with created, tabs := w.tabs ++ [tab] }.activate index).2)

/-- A workspace with one tab around an empty circuit. -/
def ofCircuit (circuit : Circuit K) : Workspace K :=
  let initial := circuit.capture .all
  (pushTab { circuit, tabs := [], active := none, created := 0, blank := circuit.current, initial } initial "").2

/-- Opens an empty tab. -/
def addTab (w : Workspace K) : Nat × Workspace K := w.pushTab w.initial ""

/-- Opens a state in a new tab. Nothing is opened if a stamp of it means nothing in the catalog. A state
    without history starts with an empty one. -/
def openTab (w : Workspace K) (snapshot : Template) (title : String) : Except CircuitError Nat × Workspace K :=
  match snapshot.validate w.circuit.catalog with
  | .error e => (.error e, w)
  | .ok () =>
    let (index, w) := w.pushTab snapshot (Text.trim title)
    if w.active ≠ some index then (.error (.unopenedTab title), { w with tabs := w.tabs.dropLast })
    else if snapshot.undos.isNone && snapshot.redos.isNone then
      (.ok index, { w with circuit := w.circuit.clearHistory })
    else (.ok index, w)

/-- The active tab after a tab was removed. -/
def activeWithout (index : Nat) : Option Nat → Option Nat
  | none => none
  | some active =>
    if active = index then none else if index < active then some (active - 1) else some active

/-- Closes a tab and changes to its right neighbour, or to its left one if it was the last. The last tab of
    all is replaced by an empty one. -/
def closeTab (w : Workspace K) (index : Nat) : Except CircuitError Unit × Workspace K :=
  if w.tabs.length ≤ index then (.error (.missingTab index), w)
  else
    let w := { w with tabs := w.tabs.eraseIdx index, active := activeWithout index w.active }
    if w.tabs.isEmpty then (.ok (), w.addTab.2)
    else w.activate (min index (w.tabs.length - 1))

/-- Gives a tab a title. Blank titles are passed over. -/
def renameTab (w : Workspace K) (index : Nat) (title : String) : Except CircuitError (Workspace K) :=
  if w.tabs.length ≤ index then .error (.missingTab index)
  else
    let title := Text.trim title
    if title.isEmpty then .ok w
    else .ok { w with tabs := w.tabs.modify index fun t => { t with title } }

/-! ### The toolbar -/

/-- Removes all gates. Order and least number of wires stay, and the state before is saved. -/
def clear (w : Workspace K) : Except CircuitError (Workspace K) := do
  let before := w.circuit.current
  let circuit ← w.circuit.restore w.blank { Parts.none with endianness := true, minQubits := true }
  .ok { w with circuit := ((circuit.saveState? before).getD circuit).updateButtons }

/-- What a custom gate records of its circuit. -/
def definitionParts : Parts := { Parts.none with endianness := true, shots := true }

/-- Makes the circuit a custom gate over all its wires. The button for it must be enabled, and the symbol has
    at most three characters for each wire. There is no outcome at all when no number is left for the gate. -/
def createGate? (w : Workspace K) (caption : Caption) : Option (Except CircuitError (String × Workspace K)) :=
  let button := w.circuit.toolbar.addCustom
  let span := w.circuit.wires.length
  if !button.enabled then some (.error (.rejected (.disabled button.title)))
  else if 3 * span < (Text.trim caption.symbol).length then some (.error (.rejected (.longSymbol (3 * span))))
  else
    (w.circuit.catalog.declare? span caption (w.circuit.capture definitionParts)).map fun (d, catalog) =>
      .ok (d.id, { w with circuit.catalog := catalog })

/-- Takes a custom gate out of the toolbox. -/
def hideGate (w : Workspace K) (id : String) : Workspace K :=
  { w with circuit.catalog := w.circuit.catalog.hide id }

/-- Opens the circuit of a custom gate in a new tab. -/
def reconstruct (w : Workspace K) (id : String) : Except CircuitError Nat × Workspace K :=
  match w.circuit.catalog.get? id with
  | none => (.error (.unknownGate id), w)
  | some d => w.openTab d.circuit d.title

end Workspace

end CircuitDesigner
