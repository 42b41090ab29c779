import CircuitDesigner.Circuit.Placement

/-! Bringing a circuit up to date.

    A refresh removes what edits leave behind and computes everything anew that is stored beside the grid.
    Its passes run in a fixed order, each of them on the results of the ones before. -/

namespace CircuitDesigner.Circuit

variable {K : Type} [Coordinate K]

/-! ### Minimal size -/

/-- No wire holds more than an inertia in the column. -/
def isIdleColumn (wires : List (Wire K)) (column : Nat) : Bool := wires.all fun w => w.isVacant column

/-- Drops the idle columns among `count` columns from `column` on. -/
def dropIdleColumns : Nat → Nat → List (Wire K) → List (Wire K)
  | 0, _, wires => wires
  | count + 1, column, wires =>
    if isIdleColumn wires column then dropIdleColumns count column (wires.map fun w => w.dropInertia column)
    else dropIdleColumns count (column + 1) wires

/-- Drops idle wires from the bottom, `count` of them at most. -/
def popIdleWires (c : Circuit K) : Nat → Circuit K
  | 0 => c
  | count + 1 =>
    if (c.wires.getLast?).any Wire.isIdle then (c.popWire.2).popIdleWires count else c

/-- Drops the idle columns, and then adds wires or drops idle ones at the bottom to come as close to the
    least number of wires as the gates allow. -/
def minimize (c : Circuit K) : Circuit K :=
  let c := { c with wires := dropIdleColumns c.columns 0 c.wires }
  let c := c.addWires (c.settings.minQubits - c.wires.length)
  c.popIdleWires (c.wires.length - c.settings.minQubits)

/-! ### Connectors, borders and registers -/

/-- The generic gates of a column show their second appearance, or their first one. -/
def textureColumn (wires : List (Wire K)) (column : Nat) (ignored : Option GateId) (textured : Bool) :
    List (Wire K) :=
  wires.map fun w =>
    { w with cells := w.cells.modify column fun g =>
        if g.kind.isGeneric && !g.isGate ignored then g.withTexture textured else g }

/-- Adds the connectors of a column. Its generic gates show whether it holds a control. -/
def linkColumn (ignored : Option GateId) (c : Circuit K) (column : Nat) : Circuit K :=
  let links := Layout.columnLinks c.wires column ignored
  { c with
    wires := textureColumn c.wires column ignored (!links.controls.isEmpty)
    connectors := c.connectors ++ links.connectors }

/-- The connectors of all columns, passing over an ignored gate. -/
def drawConnectors (c : Circuit K) (ignored : Option GateId) : Circuit K :=
  (List.range c.columns).foldl (linkColumn ignored) { c with connectors := [] }

/-- The connectors of one column in place of those it had. -/
def drawConnectorsAt (c : Circuit K) (column : Nat) (ignored : Option GateId) : Circuit K :=
  linkColumn ignored { c with connectors := c.connectors.filter fun k => k.column != column } column

/-- The borders of all columns, passing over an ignored gate. -/
def drawBorders (c : Circuit K) (ignored : Option GateId) : Circuit K :=
  { c with borders := (List.range c.columns).filterMap fun column => Layout.columnBorder c.wires column ignored }

/-- The border of one column in place of the one it had. -/
def drawBordersAt (c : Circuit K) (column : Nat) (ignored : Option GateId) : Circuit K :=
  { c with
    borders := (c.borders.filter fun b => b.column != column) ++
      (Layout.columnBorder c.wires column ignored).toList }

def drawRegisters (c : Circuit K) : Circuit K := { c with registers := Layout.registers c.wires }

/-! ### Validation -/

/-- Each gate of the wire with the fault that it has by itself. -/
def inspectWire (w : Wire K) : Wire K :=
  { w with cells := w.cells.mapIdx fun column g => g.inspected (w.bitAt column) }

/-- The number of swaps in a column. -/
def swapCount (wires : List (Wire K)) (column : Nat) : Nat := wires.countP fun w => w.hasSwap column

/-- Each swap of the wire with the fault of its column, unless it has one by itself. -/
def pairSwaps (wires : List (Wire K)) (w : Wire K) : Wire K :=
  { w with cells := w.cells.mapIdx fun column g =>
      if g.kind.isSwap then g.flagged (Fault.ofSwapCount (swapCount wires column)) else g }

/-- All faults computed anew, and the buttons that depend on them. -/
def validate (c : Circuit K) : Circuit K :=
  let wires := c.wires.map inspectWire
  { c with wires := wires.map (pairSwaps wires) }.updateButtons

/-! ### All of it -/

/-- Everything brought up to date. -/
def refresh (c : Circuit K) : Circuit K :=
  ((((c.minimize.drawConnectors none).drawRegisters.drawBorders none).validate.extend 0).updateWidgets).updateOrder

/-- A circuit of empty wires. -/
def ofSettings (settings : Settings) : Circuit K :=
  let c : Circuit K :=
    { wires := []
      settings
      undos := []
      redos := []
      catalog := {}
      geometry := .standard
      nextGate := 0
      nextWire := 0
      connectors := []
      borders := []
      registers := []
      toolbar := .initial
      widgets := {}
      extent := 0 }
  (c.addWires settings.minQubits).refresh

/-- The least number of wires changed; none if it is zero. -/
def setMinQubits (c : Circuit K) (count : Nat) : Except CircuitError (Circuit K) :=
  if count = 0 then .error (.zeroSetting .minQubits)
  else .ok { c with settings.minQubits := count }.refresh

/-- The repetitions of an execution changed; none if they are zero. -/
def setShots (c : Circuit K) (shots : Nat) : Except CircuitError (Circuit K) :=
  if shots = 0 then .error (.zeroSetting .shots)
  else .ok { c with settings.shots := shots }.refresh

end CircuitDesigner.Circuit
