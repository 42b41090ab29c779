import CircuitDesigner.Circuit.Refresh

/-! Circuits drawn as text.

    Each wire is a line: its label, its ket and a cell for each column, all of one width, with the symbol of
    the gate in the middle of the wire. A wire is drawn double where it is classical. -/

namespace CircuitDesigner.Drawing

variable {K : Type}

/-- The symbol of a kind. Inertias have none. -/
def kindSymbol (catalog : Catalog) : GateKind → String
  | .standard gate => gate.letter
  | .powered axis exponent => axis.letter ++ "^" ++ exponent
  | .custom id _ =>
    match catalog.get? id with
    | some d => if d.symbol.isEmpty then id else d.symbol
    | none => id
  | .control mode => mode.glyph
  | .measurement .off => "M"
  | .measurement .zero => "M0"
  | .measurement .one => "M1"
  | .swap => "×"
  | .support _ => "┆"
  | .inertia => ""

/-- The symbol of a gate, with a mark if it has a fault. -/
def symbol (catalog : Catalog) (g : Gate) : String :=
  let symbol := kindSymbol catalog g.kind
  if g.fault.isSome then symbol ++ "!" else symbol

/-- The symbols of a wire. -/
def symbols (catalog : Catalog) (w : Wire K) : List String := w.cells.map (symbol catalog)

/-- The greatest of some lengths, zero if there are none. -/
def greatest (texts : List String) : Nat := texts.foldr (fun text n => max text.length n) 0

/-- The width of a cell: the widest symbol and a stretch of wire on both sides. Without any cell it counts as
    one character wide. -/
def cellWidth (catalog : Catalog) (wires : List (Wire K)) : Nat :=
  match wires.flatMap (symbols catalog) with
  | [] => 3
  | texts => greatest texts + 2

/-- The symbol in the middle of a stretch of wire. -/
def centered (symbol : String) (width : Nat) (wire : Char) : List Char :=
  let left := (width - symbol.length) / 2
  let right := width - (symbol.length + left)
  List.replicate left wire ++ symbol.toList ++ List.replicate right wire

/-- What a wire is drawn with. -/
def stroke (classical : Bool) : Char := if classical then '═' else '─'

variable [Coordinate K]

/-- The line of a wire. -/
def line (catalog : Catalog) (labelWidth width columns : Nat) (w : Wire K) : String :=
  let cells := (List.range columns).flatMap fun column =>
    centered (((symbols catalog w)[column]?).getD "") width (stroke (w.bitAt column))
  Text.padLeft labelWidth w.label ++ " |" ++ w.ket.label ++ "> " ++ String.ofList cells

/-- The drawing of a circuit. Every line ends in a line feed. -/
def render (c : Circuit K) : String :=
  let width := cellWidth c.catalog c.wires
  let labelWidth := greatest (c.wires.map Wire.label)
  String.join (c.wires.map fun w => line c.catalog labelWidth width c.columns w ++ "\n")

end CircuitDesigner.Drawing
