import CircuitDesigner.Proofs.Refresh.Swaps

/-! Validation from scratch.

    Validation judges each gate by its kind, by the collapse of its wire and by the number of swaps in its column. The
    first rule that applies gives the fault (`Wire.verdict`), so that faults found before and the order in which wires
    and columns are looked at have no part in it. Wires may be of any lengths and collapsed anywhere. -/

namespace CircuitDesigner

open Circuit

variable {K : Type} [Coordinate K]

/-- The fault that a gate of a kind has in a column of a wire, among the wires of a circuit. -/
def Wire.verdict (ws : List (Wire K)) (w : Wire K) (k : Nat) (kind : GateKind) : Option Fault :=
  match kind with
  | .control _ | .inertia | .support _ => none
  | _ =>
    if w.pivot.any fun pivot => Coordinate.lt pivot (Coordinate.ofNat k) then some .onBit
    else
      match kind with
      | .powered _ exponent =>
        if (Exponent.value? exponent : Option Float).isNone then some .invalidExponent else none
      | .swap =>
        if swapCount ws k = 1 then some .unpairedSwap
        else if 3 ≤ swapCount ws k then some .tooManySwaps
        else none
      | _ => none

section Verdict

variable (ws : List (Wire K)) (w : Wire K) (k : Nat)

/-- What a kind has by itself comes before what its column gives a swap. -/
theorem Wire.verdict_eq (kind : GateKind) : w.verdict ws k kind =
    (kind.inspect (w.bitAt k) <|> if kind.isSwap then Fault.ofSwapCount (swapCount ws k) else none) := by
  have hbit : (w.pivot.any fun pivot => Coordinate.lt pivot (Coordinate.ofNat k)) = w.bitAt k := rfl
  cases kind with
  | control | inertia | support => rfl
  | powered axis exponent =>
    have hvalid : (Exponent.value? exponent : Option Float).isNone = !Exponent.isValid exponent :=
      (Option.not_isSome _).symm
    simp only [verdict, hbit, hvalid, GateKind.inspect, GateKind.isSwap]
    by_cases hvalid : Exponent.isValid exponent = true <;> cases w.bitAt k <;> simp [hvalid]
  | swap =>
    simp only [verdict, hbit, GateKind.inspect, GateKind.isSwap, Fault.ofSwapCount]
    cases w.bitAt k <;> rfl
  | standard | custom | measurement =>
    simp only [verdict, hbit, GateKind.inspect, GateKind.isSwap]
    cases w.bitAt k <;> rfl

theorem Gate.judged_eq (g : Gate) :
    g.judged (w.bitAt k) (swapCount ws k) = { g with fault := w.verdict ws k g.kind } := by
  rw [Wire.verdict_eq, judged]
  split <;> simp [flagged, inspected]

/-- The wire with the faults of its gates. -/
theorem Wire.judged_eq : w.judged ws =
    { w with cells := w.cells.mapIdx fun k g => { g with fault := w.verdict ws k g.kind } } := by
  simp only [judged, Gate.judged_eq]

end Verdict

/-- Validation of any circuit gives each gate the fault that the rules name and changes nothing else on the wires; the
    toolbar shows the buttons for these faults, and the rest of the circuit stays. -/
theorem validate_eq_verdict (c : Circuit K) :
    c.validate.wires = c.wires.map (fun w =>
      { w with cells := w.cells.mapIdx fun k g => { g with fault := w.verdict c.wires k g.kind } }) ∧
    c.validate.toolbar =
      Toolbar.derive c.validate.tally c.validate.undos.length c.validate.redos.length c.validate.isEmpty ∧
    c.validate = { c with wires := c.validate.wires, toolbar := c.validate.toolbar } := by
  refine ⟨?_, rfl, rfl⟩
  calc c.validate.wires = (c.wires.map inspectWire).map (pairSwaps (c.wires.map inspectWire)) := rfl
    _ = c.wires.map (Wire.judged c.wires) := map_pairSwaps c.wires
    _ = _ := List.map_congr_left fun w _ => w.judged_eq c.wires

end CircuitDesigner
