import CircuitDesigner.Proofs.Editing.Patch
import CircuitDesigner.Proofs.History.Timeline
import CircuitDesigner.Proofs.Workspace.Run

/-! # Workspaces over still circuits

Restoring ends with a refresh, so that the circuit of a workspace is still whatever tab it turns to. What is done to
it after that concerns the history only. Where restoring fails the circuit stays as it was. So the circuit is still
after any run, as gestures end with a refresh, or draw all that they change (`Live.still_run`). -/

namespace CircuitDesigner

open Circuit

variable {K : Type} [Coordinate K]

theorem still_of_restore {c d : Circuit K} {t : Template} {preserved : Parts} (h : c.restore t preserved = .ok d) :
    d.Still := (restored_of_restore h).refreshed

theorem still_of_load {c d : Circuit K} {way : Direction} (h : c.load way = .ok (some d)) : d.Still := by
  obtain ⟨t, ht⟩ := restored_of_load h
  exact ht.refreshed

namespace Workspace

variable {w v : Workspace K}

theorem still_activate (h : w.circuit.Still) (index : Nat) : (w.activate index).2.circuit.Still := by
  have hstored : w.store.circuit.Still := by rwa [store_circuit]
  unfold activate
  split
  · exact h
  · dsimp only
    split
    · exact hstored
    · split
      · exact hstored
      · exact still_of_restore ‹_›

theorem still_pushTab (h : w.circuit.Still) (t : Template) (title : String) : (w.pushTab t title).2.circuit.Still :=
  still_activate (w := w.extended t title) h w.tabs.length

theorem still_ofCircuit {c : Circuit K} (h : c.Still) : (ofCircuit c).circuit.Still :=
  still_pushTab (w := ⟨c, [], none, 0, c.current, c.capture .all⟩) h (c.capture .all) ""

theorem still_openTab (h : w.circuit.Still) (t : Template) (title : String) : (w.openTab t title).2.circuit.Still := by
  have hpush := still_pushTab h t (Text.trim title)
  unfold openTab
  split
  · exact h
  · dsimp only
    split
    · exact hpush
    · split
      · exact hpush.clearHistory
      · exact hpush

theorem still_closeTab (h : w.circuit.Still) (index : Nat) : (w.closeTab index).2.circuit.Still := by
  unfold closeTab
  split
  · exact h
  · dsimp only
    split
    · exact still_pushTab (w := w.erased index) h _ _
    · exact still_activate (w := w.erased index) h _

/-- After the refresh the state before is saved, and the buttons follow. -/
theorem still_clear (h : w.clear = .ok v) : v.circuit.Still := by
  obtain ⟨c, hc, h⟩ := exists_of_bind h
  obtain rfl := Except.ok.inj h
  have hstill := still_of_restore hc
  dsimp only
  rcases saved_cases c w.circuit.current with hsame | hsaved
  · rw [hsame]
    exact hstill.retold c.undos c.redos
  · rw [hsaved]
    exact hstill.retold _ _

end Workspace

/-- Operations that pass over a refresh, or go on after it, leave a still circuit still. One that fails leaves the
circuit itself. -/
theorem still_paths {c : Circuit K} (h : c.Still) :
    (∀ id exponent, ((c.setExponent? id exponent).getD c).Still) ∧ c.toggleEndianness.Still ∧ c.clearHistory.Still ∧
      (∀ way, ((c.load way).toOption.join.getD c).Still) ∧
      ∀ w : Workspace K, w.circuit = c → (w.clear.toOption.getD w).circuit.Still ∧
        (∀ index, (w.activate index).2.circuit.Still) ∧ (∀ t title, (w.openTab t title).2.circuit.Still) ∧
        ∀ index, (w.closeTab index).2.circuit.Still := by
  refine ⟨fun id exponent => ?_, h.toggleEndianness, h.clearHistory, fun way => ?_, ?_⟩
  · cases hd : c.setExponent? id exponent with
    | none => exact h
    | some d => exact h.setExponent? hd
  · rcases hd : c.load way with e | ⟨_ | d⟩
    · exact h
    · exact h
    · exact still_of_load hd
  · rintro w rfl
    refine ⟨?_, w.still_activate h, w.still_openTab h, w.still_closeTab h⟩
    cases hv : w.clear with
    | error e => exact h
    | ok v => exact w.still_clear hv

theorem still_paths_pair : (Workspace.ofCircuit pairCircuit).circuit.Still ∧
    (Workspace.ofCircuit pairCircuit).circuit.toggleEndianness.Still ∧
    ((Workspace.ofCircuit pairCircuit).activate 0).2.circuit.Still ∧
    ((Workspace.ofCircuit pairCircuit).closeTab 0).2.circuit.Still := by
  have hpair : pairCircuit.Still := still_refresh pairDraft
  have h := Workspace.still_ofCircuit hpair
  obtain ⟨-, hturned, -, -, hworkspace⟩ := still_paths h
  obtain ⟨-, hactivate, -, hclose⟩ := hworkspace _ rfl
  exact ⟨h, hturned, hactivate 0, hclose 0⟩

/-! ### Runs -/

section Runs

variable {c d : Circuit Rat}

theorem Circuit.Still.with_catalog (h : c.Still) (catalog : Catalog) : Still { c with catalog } := by
  obtain ⟨hcompact, hdrawn⟩ := still_iff.mp h
  exact still_iff.mpr ⟨⟨hcompact.columns, hcompact.wires, hcompact.bottom⟩, ⟨hdrawn.cells, hdrawn.labels,
    hdrawn.connectors, hdrawn.borders, hdrawn.registers, hdrawn.toolbar, hdrawn.widgets, hdrawn.extent⟩⟩

theorem Circuit.Still.perform (h : c.Still) (hc : c.Resumable) {g : Gesture} (hlocal : g.Local)
    (hd : g.perform? c = some d) : d.Still := by
  have hintact := hc.editable.intact
  cases g with
  | edit e => exact (Edit.refreshed hintact hd).1
  | setExponent id exponent =>
    unfold Gesture.perform? at hd
    dsimp only at hd
    split at hd
    · exact h.setExponent? hd
    · cases hd
  | setMinQubits count =>
    unfold Gesture.perform? Circuit.setMinQubits at hd
    dsimp only at hd
    split at hd
    · cases hd
    · obtain rfl := Option.some.inj hd
      exact still_refresh _
  | setShots shots =>
    unfold Gesture.perform? Circuit.setShots at hd
    dsimp only at hd
    split at hd
    · cases hd
    · obtain rfl := Option.some.inj hd
      exact still_refresh _
  | toggleEndianness =>
    cases hd
    exact h.toggleEndianness
  | load way =>
    obtain ⟨o, ho, -⟩ := hc.editable.exists_load way
    unfold Gesture.perform? at hd
    dsimp only at hd
    rw [ho] at hd
    obtain rfl : o = some d := hd
    exact still_of_load ho
  | declare span caption circuit => exact hlocal.elim
  | define o => exact hlocal.elim
  | cancel grip hovers =>
    obtain ⟨s, -, hs⟩ := Option.map_eq_some_iff.mp hd
    have hs : ((s.1.hovers s.2 hovers).2.rescan none).refresh = d := hs
    rw [← hs]
    exact still_refresh _

namespace Workspace.Live

variable {w : Workspace Rat} {count : Nat}

theorem still_perform (h : w.Live count) (hstill : w.circuit.Still) (a : Act) : (a.perform w).circuit.Still := by
  cases a with
  | gesture g hlocal =>
    cases hd : g.perform? w.circuit with
    | none =>
      simp only [Act.perform, hd]
      exact hstill
    | some d =>
      simp only [Act.perform, hd, Option.getD_some]
      exact hstill.perform h.tidy.circuit hlocal hd
  | clear =>
    obtain ⟨v, hv, -⟩ := h.tidy.clear
    simp only [Act.perform, hv]
    exact still_clear hv
  | createGate caption =>
    simp only [Act.perform, createGateStaged_eq]
    cases hcreate : w.createGate? caption with
    | none => exact hstill
    | some outcome =>
      cases outcome with
      | error e => exact hstill
      | ok made =>
        obtain ⟨id, v⟩ := made
        obtain ⟨number, -, -, rfl⟩ := exists_of_createGate? hcreate
        exact hstill.with_catalog _
  | hideGate id => exact hstill.with_catalog _
  | addTab => exact still_pushTab hstill _ _
  | activate index => exact still_activate hstill index
  | closeTab index => exact still_closeTab hstill index
  | renameTab index title =>
    by_cases hindex : index < w.tabs.length
    · obtain ⟨v, hv, -, hcircuit, -⟩ := h.tidy.renameTab hindex title
      simp only [Act.perform, hv]
      exact hcircuit ▸ hstill
    · simp only [Act.perform, Workspace.renameTab, if_pos (Nat.not_lt.mp hindex)]
      exact hstill
  | reconstruct id =>
    simp only [Act.perform, Workspace.reconstruct]
    split
    · exact hstill
    · exact still_openTab hstill _ _

theorem still_run (h : w.Live count) (hstill : w.circuit.Still) (as : List Act) : (w.run as).circuit.Still := by
  induction as generalizing w count with
  | nil => exact hstill
  | cons a as ih => exact ih (h.perform a).1 (h.still_perform hstill a)

end Workspace.Live

end Runs

end CircuitDesigner
