import CircuitDesigner.Circuit.Refresh

/-! Reports on a circuit, in lines of text. -/

namespace CircuitDesigner.Report

variable {K : Type} [Coordinate K]

/-! ### Inspection -/

/-- Counters and settings. -/
def summary (c : Circuit K) : List String :=
  let w := c.widgets
  let t := c.tally
  ["  Qubits: " ++ toString w.qubits ++ ", steps: " ++ toString w.steps ++ ", gates: " ++ toString w.gates,
    "  Endianness: " ++ w.endianness.label ++ ", min. qubits: " ++ toString w.minQubits ++ ", shots: " ++
      toString w.shots,
    "  Controls: " ++ toString t.controls ++ ", measurements: " ++ toString t.measurements ++ ", swaps: " ++
      toString t.swaps]

/-- A wire, with the column after which it is classical. -/
def wire (w : Wire K) : String :=
  let collapsed := match w.pivot with
    | some pivot => ", classical after step " ++ toString (Coordinate.toNat pivot)
    | none => ""
  "  " ++ Text.padRight 8 w.label ++ " |" ++ w.ket.label ++ ">  " ++ Text.padRight 8 w.color.css ++ " " ++
    toString w.cells.length ++ " cells" ++ collapsed

def definition (d : Definition) : String :=
  "  " ++ Text.padRight 6 d.id ++ " " ++ Text.padRight 4 d.symbol ++ " span " ++ toString d.span ++ "  " ++ d.title ++
    (if d.hidden then " (hidden)" else "")

/-- The custom gates, if there are any. -/
def definitions (catalog : Catalog) : List String :=
  if catalog.definitions.isEmpty then []
  else ["", "Custom gates:"] ++ catalog.definitions.map definition

/-- The gates with faults: row, column and fault. -/
def faults (wires : List (Wire K)) : List (Nat × Nat × Fault) :=
  wires.zipIdx.flatMap fun (w, row) =>
    w.cells.zipIdx.filterMap fun (g, column) => g.fault.map fun fault => (row, column, fault)

def errors (wires : List (Wire K)) : List String :=
  match faults wires with
  | [] => ["", "✓ No errors"]
  | found => ["", "! " ++ toString found.length ++ " errored gates:"] ++
    found.map fun (row, column, fault) =>
      "  wire " ++ toString row ++ ", step " ++ toString column ++ ": " ++ fault.reason

def button (name : String) (b : Button) : String :=
  "  " ++ Text.padRight 12 name ++ " " ++
    Text.padRight 9 (if b.enabled then "enabled" else "disabled") ++ " " ++ b.title

/-- Everything about a circuit but its drawing. -/
def inspection (c : Circuit K) : List String :=
  summary c ++ ["", "Wires:"] ++ c.wires.map wire ++ definitions c.catalog ++ errors c.wires ++
    ["", "Toolbar:", button "Counts" c.toolbar.counts, button "Amplitudes" c.toolbar.amplitudes,
      button "Add gate" c.toolbar.addCustom, button "Clear" c.toolbar.clear]

/-! ### Layout -/

/-- A column as it is numbered in a list of shapes. -/
def step (column : Nat) : String := "  step " ++ Text.padRight 3 (toString column)

/-- The connectors and borders of a circuit. -/
def layout (c : Circuit K) : List String :=
  ["", "Connectors:"] ++
    (c.connectors.map fun k =>
      step k.column ++ " wires " ++ toString k.start ++ "..=" ++ toString k.stop ++ "  " ++ k.style.label) ++
    ["Borders:"] ++ c.borders.map fun b => step b.column ++ " " ++ toString b.rows ++ " wires"

end CircuitDesigner.Report
