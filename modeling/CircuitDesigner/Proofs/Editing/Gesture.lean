import CircuitDesigner.Proofs.Editing.Duplicate

/-! Edits by click and key.

    Each of them keeps an intact circuit intact. All but the typing of an exponent save the state before they change it,
    and refresh it afterwards (`Edited`). -/

namespace CircuitDesigner.Circuit

section Edits

variable {K : Type} [Coordinate K] {catalog : Catalog} {c d : Circuit K} {id : GateId} {row : Nat}

theorem Edited.intact {P : GateKind → Prop} (h : Edited P c d) : d.Intact P [] := by
  obtain ⟨e, he, -, rfl⟩ := h
  exact he.refresh

theorem Edited.rest {P : GateKind → Prop} (h : Edited P c d) : Rest c.save d := by
  obtain ⟨e, -, hrest, rfl⟩ := h
  exact hrest.trans (rest_refresh e)

theorem edited_deleteGate? {P : GateKind → Prop} (h : c.Intact P []) (hs : c.isShown id = true)
    (hd : c.deleteGate? id = some d) : Edited P c d := by
  obtain ⟨row, column, g, hloc, -, hg, rfl, hp⟩ := exists_of_isShown hs
  unfold deleteGate? at hd
  rw [hloc, Option.map_some, Option.some.injEq] at hd
  subst hd
  obtain ⟨o, e, he, -, -, -, hk, hintact⟩ := h.save.detach? (gate_of_cell? (c := c.save) hg hp)
  refine ⟨e, hintact.discard, hk.rest, ?_⟩
  unfold detachAll
  rw [he]
  rfl

/-- A gate becomes one of another kind in its cell. -/
theorem Intact.edited_withKind {P : GateKind → Prop} (h : c.Intact P []) {column : Nat} {g : Gate} {kind : GateKind}
    (hg : c.cell? row column = some g) (hp : g.kind.isPlaceholder = false) (hspan : kind.span = g.kind.span)
    (hvisible : kind.isPlaceholder = false) (hmeasures : kind.isMeasurement = g.kind.isMeasurement) (hP : P kind) :
    Edited P c (c.save.modifyCell row column fun g => g.withKind kind).refresh :=
  ⟨_, h.save.modifyCell (f := fun g => g.withKind kind) hg hp rfl rfl hspan hvisible hmeasures hP,
    ⟨rfl, rfl, rfl, rfl, rfl⟩, rfl⟩

theorem edited_cyclePostSelection? (h : c.Intact (GateKind.Known catalog) []) (hs : c.isShown id = true)
    (hd : c.cyclePostSelection? id = some d) : Edited (GateKind.Known catalog) c d := by
  obtain ⟨row, column, g, hloc, hgate, hg, rfl, hp⟩ := exists_of_isShown hs
  unfold cyclePostSelection? at hd
  rw [hloc, hgate] at hd
  simp only [Option.bind_eq_bind, Option.bind_some] at hd
  split at hd
  · rename_i mode hkind _
    obtain rfl := Option.some.inj hd
    exact h.edited_withKind hg hp (by rw [hkind]; rfl) rfl (by rw [hkind]; rfl) (GateKind.known_measurement catalog _)
  · cases hd

theorem edited_toggleControl? (h : c.Intact (GateKind.Known catalog) []) (hs : c.isShown id = true)
    (hd : c.toggleControl? id = some d) : Edited (GateKind.Known catalog) c d := by
  obtain ⟨row, column, g, hloc, hgate, hg, rfl, hp⟩ := exists_of_isShown hs
  unfold toggleControl? at hd
  rw [hloc, hgate] at hd
  simp only [Option.bind_eq_bind, Option.bind_some] at hd
  split at hd
  · rename_i mode hkind
    obtain rfl := Option.some.inj hd
    exact h.edited_withKind hg hp (by rw [hkind]; rfl) rfl (by rw [hkind]; rfl) (GateKind.known_control catalog _)
  · cases hd

theorem edited_clickWire? {P : GateKind → Prop} (h : c.Intact P []) {click : WireClick}
    (hd : c.clickWire? row click = some d) : Edited P c d := by
  unfold clickWire? at hd
  split at hd
  · obtain rfl := Option.some.inj hd
    refine ⟨c.save.modifyWire row click.apply, h.save.modifyWire (fun w => ?_) (fun w => ?_) (fun w => ?_) row,
      ⟨rfl, rfl, rfl, rfl, rfl⟩, rfl⟩ <;> cases click <;> rfl
  · cases hd

theorem edited_renameWire? {P : GateKind → Prop} (h : c.Intact P []) {name : String}
    (hd : c.renameWire? row name = some d) : Edited P c d := by
  unfold renameWire? at hd
  split at hd
  · obtain rfl := Option.some.inj hd
    have hintact := h.save.modifyWire (f := fun w => { w with name := Text.trim name }) (fun _ => rfl) (fun _ => rfl)
      (fun _ => rfl) row
    exact ⟨_, hintact, ⟨rfl, rfl, rfl, rfl, rfl⟩, rfl⟩
  · cases hd

theorem edited_deleteWire? {P : GateKind → Prop} (h : c.Intact P []) (hd : c.deleteWire? row = some d) :
    Edited P c d := by
  obtain ⟨e, he, rfl⟩ := Option.map_eq_some_iff.mp hd
  obtain ⟨hintact, hrest⟩ := h.save.removeWireAt? he
  exact ⟨e, hintact, hrest, rfl⟩

/-! ### Other changes -/

theorem Intact.setExponent? (h : c.Intact (GateKind.Known catalog) []) {exponent : String}
    (hs : c.isShown id = true) (hd : c.setExponent? id exponent = some d) :
    d.Intact (GateKind.Known catalog) [] ∧ Rest c d ∧ d.wires.map Wire.idles = c.wires.map Wire.idles := by
  obtain ⟨row, column, g, hloc, hgate, hg, rfl, hp⟩ := exists_of_isShown hs
  unfold setExponent? at hd
  rw [hloc, hgate] at hd
  simp only [Option.bind_eq_bind, Option.bind_some] at hd
  split at hd
  · rename_i axis old hkind
    obtain rfl := Option.some.inj hd
    generalize ((c.wires[row]?).any fun w => w.bitAt column) = onBit
    have hintact := h.modifyCell (f := fun g => (g.withKind (.powered axis exponent)).inspected onBit) hg hp rfl rfl
      (by rw [hkind]; rfl) rfl (by rw [hkind]; rfl) (GateKind.known_powered catalog axis exponent)
    refine ⟨hintact.congr rfl rfl, ⟨rfl, rfl, rfl, rfl, rfl⟩, idles_modifyCell hg ?_⟩
    unfold Gate.isInertia
    rw [hkind]
    rfl
  · cases hd

end Edits

end CircuitDesigner.Circuit
