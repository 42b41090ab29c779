import CircuitDesigner.Proofs.Editing.Drag

/-! Drags that are given up.

    A drag puts a spare wire under the circuit and writes collapses, connectors and appearances as they would be without
    the dragged gate. Nothing of it is remembered, and nothing of it is left when the drag is given up (`cancel_eq`): a
    rescan brings back the collapses, minimizing drops the spare wire, and everything else is drawn anew from the cells,
    which have not changed. -/

namespace CircuitDesigner

open Circuit

variable {K : Type} [Coordinate K] {c b d m : Circuit K} {w : Wire K}

/-- A spare wire goes with the next refresh, which draws what was there without it. -/
theorem Spared.refresh_eq (h : Spared c b w) (hc : c.refresh = c) (hw : d.wires.map Wire.core = b.wires.map Wire.core)
    (hrest : Rest c d) : ∃ nextGate nextWire, d.refresh = { c with nextGate, nextWire } := by
  have hcompact : c.Compact := hc ▸ compact_refresh c
  rw [h.wires] at hw
  have hminimal : d.minimize = d.popWire.2 :=
    hcompact.minimize_spare (map_bare_of_map_core hw) hrest.settings h.idle (Nat.le_of_eq h.length)
  have hredraw : c.redraw = c := by
    rw [Circuit.refresh_eq, hcompact.minimize] at hc
    exact hc
  refine ⟨d.nextGate, d.nextWire, ?_⟩
  calc d.refresh
      = d.popWire.2.redraw := by rw [Circuit.refresh_eq, hminimal]
    _ = { c.redraw with nextGate := d.nextGate, nextWire := d.nextWire } :=
        redraw_congr (map_popWire hw) ⟨hrest.settings, hrest.undos, hrest.redos, hrest.catalog, hrest.geometry⟩
    _ = { c with nextGate := d.nextGate, nextWire := d.nextWire } := by rw [hredraw]

/-- To give up a drag while it is underway leads back to the circuit before it. -/
theorem Underway.exists_cancel {P : GateKind → Prop} {hand : List GateId} (h : Underway b m) (hb : b.Intact P hand)
    (hspared : Spared c b w) (hc : c.refresh = c) :
    ∃ nextGate nextWire, Drag.cancel m = { c with nextGate, nextWire } := by
  have hscan := Underway.rescan none m
  exact hspared.refresh_eq hc (map_core_rescan hb.collapsed h.trunks) ((hspared.rest.trans h.rest).trans hscan.rest)

variable [Add K] [Sub K] [Mul K] [Div K]

/-- A drag of any gate over any points that is given up changes nothing but the numbers of the next gate and the next
    wire. -/
theorem cancel_eq (hc : c.WellFormed) (hsettled : c.refresh = c) {source : Drag.Source} {s : Drag K × Circuit K}
    (hs : source.start? c = some s) (hovers : List (Pointer K)) :
    ∃ nextGate nextWire, Drag.cancel (s.1.hovers s.2 hovers).2 = { c with nextGate, nextWire } := by
  have hintact : c.Intact (fun _ => True) [] := hc.intact fun _ _ _ _ _ => trivial
  obtain ⟨b, hand, w, g, hb, hspared, hstart, -⟩ := Drag.Source.exists_start hintact hs
  obtain ⟨hhovers, -, -⟩ := Underway.hovers s.1 s.2 hovers
  exact (hstart.trans hhovers).exists_cancel hb hspared hsettled

/-- The gate on two wires is picked up, moved about and left where it is. -/
theorem cancel_eq_pair :
    ∃ s, (Drag.Source.cell ⟨0⟩).start? pairCircuit = some s ∧ ∃ nextGate nextWire,
      Drag.cancel (s.1.hovers s.2 [⟨100, 130⟩, ⟨0, 0⟩, ⟨165 / 2, 310⟩]).2 =
        { pairCircuit with nextGate, nextWire } := by
  have hstart : ((Drag.Source.cell ⟨0⟩).start? pairCircuit).isSome := by decide +kernel
  obtain ⟨s, hs⟩ := Option.isSome_iff_exists.mp hstart
  exact ⟨s, hs, cancel_eq intact_pairDraft.refresh.wellFormed (refresh_refresh pairDraft) hs _⟩

end CircuitDesigner
