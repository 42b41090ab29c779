import CircuitDesigner.Proofs.Editing.Step
import CircuitDesigner.Proofs.Restore.Tiled

/-! Circuits that are left and come back.

    A circuit in use is intact and minimal, and its settings are positive (`Circuit.Resumable`). What is stored of it
    is the template of the whole circuit with its history (`Stored`). Any circuit on the same gates becomes it again,
    and the same would be stored of it (`Stored.exists_restore`). -/

namespace CircuitDesigner

open Circuit

/-- An editable circuit of minimal size, with settings that are not zero. -/
structure Circuit.Resumable (c : Circuit Rat) : Prop where
  editable : c.Editable
  minimal : (gridOf c.wires).Minimal c.settings.minQubits
  positive : c.settings.Positive

/-- A template with the history of a circuit in use on the catalog. -/
def Stored (catalog : Catalog) (t : Template) : Prop :=
  ∃ c : Circuit Rat, c.Resumable ∧ c.catalog = catalog ∧ c.capture .all = t

/-- The gesture declares no gate. -/
def Gesture.Local : Gesture → Prop
  | declare .. | define _ => False
  | _ => True

variable {c d : Circuit Rat} {t : Template} {catalog : Catalog}

/-! ### Gestures -/

/-- An edit ends with a refresh, and keeps settings and gates. -/
theorem Edit.refreshed (h : c.Intact (GateKind.Known c.catalog) []) {e : Edit} (hd : e.perform? c = some d) :
    d.refresh = d ∧ d.settings = c.settings ∧ d.catalog = c.catalog := by
  rcases Edit.cases h hd with ⟨b, -, hrest, rfl⟩ | ⟨grip, hovers, p, rfl⟩
  · have hrest := hrest.trans (rest_refresh b)
    exact ⟨refresh_refresh b, hrest.settings, hrest.catalog⟩
  · obtain ⟨b, hand, w, e, -, -, -, hrest, rfl⟩ := exists_dropped h hd
    have hrest' := rest_refresh ((e.saveState? b.current).getD e)
    rcases saved_cases e b.current with hsame | hsaved
    · rw [hsame] at hrest' ⊢
      exact ⟨refresh_refresh e, hrest'.settings.trans hrest.settings, hrest'.catalog.trans hrest.catalog⟩
    · rw [hsaved] at hrest' ⊢
      exact ⟨refresh_refresh _, hrest'.settings.trans hrest.settings, hrest'.catalog.trans hrest.catalog⟩

namespace Circuit.Resumable

theorem of_refreshed (h : c.Editable) (hrefreshed : c.refresh = c) (hpositive : c.settings.Positive) : c.Resumable :=
  ⟨h, minimal_of_settled h.intact.shows hrefreshed, hpositive⟩

theorem refreshed (h : c.Editable) (hpositive : c.settings.Positive) : c.refresh.Resumable :=
  of_refreshed h.refresh (refresh_refresh c) (by rwa [(rest_refresh c).settings])

/-- A restored circuit is in use if the states of its history are recorded. -/
theorem of_restored {preserved : Parts} (hintact : d.Intact (GateKind.Known c.catalog) [])
    (hrestored : c.Restored t preserved d) (hc : c.settings.Positive)
    (hstates : ∀ way, ∀ s ∈ d.stack way, Recorded Rat c.catalog s) : d.Resumable := by
  refine of_refreshed ⟨?_, ?_⟩ hrestored.refreshed ?_
  · rw [hrestored.catalog]
    exact hintact
  · rw [hrestored.catalog]
    exact hstates
  · rw [hrestored.settings]
    exact hc.dressed t preserved

theorem ofSettings {settings : Settings} (h : settings.Positive) : (ofSettings settings : Circuit Rat).Resumable :=
  of_refreshed (editable_ofSettings settings) (refresh_refresh _) (by rwa [settings_ofSettings])

theorem within (h : c.Resumable) (hwithin : c.catalog.Within catalog) : Resumable { c with catalog } :=
  ⟨h.editable.within hwithin, h.minimal, h.positive⟩

/-- Saving an earlier state keeps the circuit in use. -/
theorem saved (h : c.Resumable) (ht : Recorded Rat c.catalog t) :
    ((c.saveState? t).getD c).Resumable ∧ ((c.saveState? t).getD c).catalog = c.catalog := by
  rcases saved_cases c t with hsame | hsaved
  · rw [hsame]
    exact ⟨h, rfl⟩
  · rw [hsaved]
    exact ⟨⟨h.editable.remember ht, h.minimal, h.positive⟩, rfl⟩

theorem updateButtons (h : c.Resumable) : c.updateButtons.Resumable :=
  ⟨h.editable.of_rest ⟨rfl, rfl, rfl, rfl, rfl⟩ (h.editable.intact.congr rfl rfl), h.minimal, h.positive⟩

theorem clearHistory (h : c.Resumable) : c.clearHistory.Resumable := by
  refine ⟨⟨h.editable.intact.congr rfl rfl, fun way t ht => ?_⟩, h.minimal, h.positive⟩
  cases way <;> cases ht

/-- A circuit in use stays so under gestures that declare no gate. -/
theorem perform (h : c.Resumable) {g : Gesture} (hlocal : g.Local) (hd : g.perform? c = some d) :
    d.Resumable ∧ d.catalog = c.catalog := by
  have heditable := h.editable.perform hd
  have hintact := h.editable.intact
  cases g with
  | edit e =>
    obtain ⟨hrefreshed, hsettings, hcatalog⟩ := Edit.refreshed hintact hd
    exact ⟨.of_refreshed heditable hrefreshed (hsettings ▸ h.positive), hcatalog⟩
  | setExponent id exponent =>
    unfold Gesture.perform? at hd
    dsimp only at hd
    split at hd
    · obtain ⟨-, hrest, hidles⟩ := hintact.setExponent? ‹_› hd
      refine ⟨⟨heditable, ?_, hrest.settings ▸ h.positive⟩, hrest.catalog⟩
      rw [hrest.settings]
      exact minimal_of_idles hidles h.minimal
    · cases hd
  | setMinQubits count =>
    unfold Gesture.perform? Circuit.setMinQubits at hd
    dsimp only at hd
    split at hd
    · cases hd
    · rename_i hcount
      obtain rfl := Option.some.inj hd
      have hset : Editable { c with settings.minQubits := count } := ⟨hintact.congr rfl rfl, h.editable.states⟩
      exact ⟨refreshed hset ⟨Nat.pos_of_ne_zero hcount, h.positive.shots⟩, (rest_refresh _).catalog⟩
  | setShots shots =>
    unfold Gesture.perform? Circuit.setShots at hd
    dsimp only at hd
    split at hd
    · cases hd
    · rename_i hshots
      obtain rfl := Option.some.inj hd
      have hset : Editable { c with settings.shots := shots } := ⟨hintact.congr rfl rfl, h.editable.states⟩
      exact ⟨refreshed hset ⟨h.positive.qubits, Nat.pos_of_ne_zero hshots⟩, (rest_refresh _).catalog⟩
  | toggleEndianness =>
    cases hd
    have hcore := map_core_updateOrder { c with settings.endianness := c.settings.endianness.toggled }
    refine ⟨⟨heditable, ?_, ⟨h.positive.qubits, h.positive.shots⟩⟩, rfl⟩
    rw [show gridOf c.toggleEndianness.wires = gridOf c.wires from gridOf_of_core hcore]
    exact h.minimal
  | load way =>
    obtain ⟨o, ho, -⟩ := h.editable.exists_load way
    unfold Gesture.perform? at hd
    dsimp only at hd
    rw [ho] at hd
    obtain rfl : o = some d := hd
    obtain ⟨t, hrestored⟩ := restored_of_load ho
    refine ⟨.of_refreshed heditable hrestored.refreshed ?_, hrestored.catalog.trans (stepped_catalog c way)⟩
    rw [hrestored.settings]
    refine Settings.Positive.dressed ?_ t .none
    cases way <;> exact h.positive
  | declare span caption circuit => exact hlocal.elim
  | define o => exact hlocal.elim
  | cancel grip hovers =>
    obtain ⟨-, hrest⟩ := intact_cancel hintact hd
    obtain ⟨s, -, hs⟩ := Option.map_eq_some_iff.mp hd
    have hs : ((s.1.hovers s.2 hovers).2.rescan none).refresh = d := hs
    have hrefreshed : d.refresh = d := by rw [← hs, refresh_refresh]
    exact ⟨.of_refreshed heditable hrefreshed (hrest.settings ▸ h.positive), hrest.catalog⟩

end Circuit.Resumable

/-! ### Stored circuits -/

namespace Stored

theorem within (h : Stored catalog t) {catalog' : Catalog} (hwithin : catalog.Within catalog') : Stored catalog' t := by
  obtain ⟨c, hc, rfl, rfl⟩ := h
  exact ⟨{ c with catalog := catalog' }, hc.within hwithin, rfl, rfl⟩

/-- A stored circuit comes back, and the same would be stored of it. -/
theorem exists_restore (h : Stored d.catalog t) (hd : d.settings.Positive) :
    ∃ e, d.restore t .none = .ok e ∧ e.Resumable ∧ e.catalog = d.catalog ∧ e.capture .all = t := by
  obtain ⟨c, hc, hcatalog, rfl⟩ := h
  have hresolves : Resolves d.catalog c.wires := hcatalog ▸ hc.editable.intact.resolves
  obtain ⟨e, he, hintact, hrestored, -, hbare, hsettings⟩ := exists_restore_intact
    hc.editable.intact.wellFormed.toConsistent hc.minimal hc.positive.qubits hc.positive.shots d hresolves .all rfl
  have hundos : e.undos = c.undos := hrestored.undos
  have hredos : e.redos = c.redos := hrestored.redos
  refine ⟨e, he, .of_restored hintact hrestored hd ?_, hrestored.catalog,
    capture_congr hbare hsettings fun _ => ⟨hundos, hredos⟩⟩
  rw [stack_congr hundos hredos, ← hcatalog]
  exact hc.editable.states

end Stored

end CircuitDesigner
