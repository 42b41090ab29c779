import CircuitDesigner.Circuit.Refresh

/-! Taking templates of a circuit, and making a circuit what a template says. -/

namespace CircuitDesigner

/-- What a template records of a wire. -/
def Wire.record {K : Type} (w : Wire K) (parts : Parts) : WireRecord where
  stamps := w.cells.map fun g => g.kind.stamp
  ket := if parts.kets then some w.ket else none
  color := if parts.colors then some w.color else none
  name := if parts.names then some w.name else none

/-- The wire as a record has it, but for the parts to preserve. An empty name is none. -/
def Wire.dressed {K : Type} (w : Wire K) (r : WireRecord) (preserved : Parts) : Wire K :=
  { w with
    ket := if preserved.kets then w.ket else r.ket.getD w.ket
    color := if preserved.colors then w.color else r.color.getD w.color
    name := match r.name with
      | some name => if name.isEmpty || preserved.names then w.name else name
      | none => w.name }

/-- The settings that a template records, but for those to preserve. Zeros are passed over. -/
def Settings.dressed (s : Settings) (t : Template) (preserved : Parts) : Settings where
  endianness := if preserved.endianness then s.endianness else t.endianness.getD s.endianness
  minQubits := if preserved.minQubits then s.minQubits else (t.minQubits.filter (· > 0)).getD s.minQubits
  shots := if preserved.shots then s.shots else (t.shots.filter (· > 0)).getD s.shots

namespace Circuit

variable {K : Type}

/-- The template of the circuit with the chosen parts. -/
def capture (c : Circuit K) (parts : Parts) : Template where
  wires := c.wires.map fun w => w.record parts
  endianness := if parts.endianness then some c.settings.endianness else none
  minQubits := if parts.minQubits then some c.settings.minQubits else none
  shots := if parts.shots then some c.settings.shots else none
  undos := if parts.history then some c.undos else none
  redos := if parts.history then some c.redos else none

/-- The template of the circuit with everything but its history. -/
def current (c : Circuit K) : Template := c.capture .timeless

variable [Coordinate K]

/-- Places the gates of a row in order, each at its own column. Supports come with their gate. -/
def placeRow (c : Circuit K) (row column : Nat) : List (Option GateKind) → Circuit K
  | [] => c
  | none :: kinds => c.placeRow row (column + 1) kinds
  | some kind :: kinds =>
    let (g, c) := c.newGate kind
    (c.attachAt g row column).placeRow row (column + 1) kinds

/-- Makes the wires from `row` on what their records say. -/
def placeRows (preserved : Parts) (c : Circuit K) (row : Nat) :
    List (WireRecord × List (Option GateKind)) → Circuit K
  | [] => c
  | (r, kinds) :: rows =>
    let c := c.modifyWire row fun w => w.dressed r preserved
    placeRows preserved (c.placeRow row 0 kinds) (row + 1) rows

/-- Replaces wires, settings and history by those of a template and refreshes the circuit. Parts that the
    template does not record stay, as do those to preserve. If a stamp means nothing in the catalog, nothing
    is changed. -/
def restore (c : Circuit K) (t : Template) (preserved : Parts) : Except CircuitError (Circuit K) := do
  let rows ← t.resolve c.catalog
  let c := { c with wires := [] }.addWires t.wires.length
  let c := placeRows preserved c 0 (t.wires.zip rows)
  let c :=
    { c with
      undos := if preserved.history then c.undos else t.undos.getD c.undos
      redos := if preserved.history then c.redos else t.redos.getD c.redos
      settings := c.settings.dressed t preserved }
  .ok c.refresh

end Circuit

end CircuitDesigner
