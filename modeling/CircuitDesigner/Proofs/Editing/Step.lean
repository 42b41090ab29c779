import CircuitDesigner.Proofs.Editing.Run
import CircuitDesigner.Proofs.Workspace.Tabs

/-! Edits as steps of the history.

    An edit that saves a state is undone by one undo and done again by one redo (`oneStep_edit`). Most edits save the
    state they find. A drop saves the one with the spare wire of the drag, which minimizing drops again when the state
    is restored (`Compact.minimize_spare`). To clear a workspace saves the state after it is replaced. -/

namespace CircuitDesigner

open Circuit

variable {K : Type} [Coordinate K]

/-- The history of `d` has one state more than that of `c`. Undo leads from `d` to the state of `c`, and redo from there
    to the state of `d`. -/
structure OneStep (c d : Circuit K) : Prop where
  grown : d.undos.length = c.undos.length + 1
  undone : ∃ b, d.undo = .ok (some b) ∧ b.current = c.current ∧
    ∃ a, b.redo = .ok (some a) ∧ a.current = d.current ∧ a.undos.length = d.undos.length

section Step

variable {c d : Circuit K} {t : Template}

/-- A state that leads back to that of `c` is one step of the history. -/
theorem oneStep_of_restore (hundos : d.undos = c.undos ++ [t]) (hd : Snapshot K d.catalog d.current)
    (ht : ∃ b, (d.stepped .previous).restore t .none = .ok b ∧ b.current = c.current ∧
      b.catalog = (d.stepped .previous).catalog ∧ b.undos = (d.stepped .previous).undos ∧
      b.redos = (d.stepped .previous).redos) : OneStep c d := by
  obtain ⟨b, hb, hcurrent, hcatalog, hbundos, hbredos⟩ := ht
  have hlength : d.undos.length = c.undos.length + 1 := by rw [hundos, List.length_append]; rfl
  have hstack : d.stack .previous = c.undos ++ [t] := hundos
  have hundo : d.load .previous = _ := load_concat hstack
  rw [hb] at hundo
  have hstack : b.stack .next = d.redos ++ [d.current] := hbredos
  have hsnapshot : Snapshot K (b.stepped .next).catalog d.current := by
    rw [stepped_catalog, hcatalog, stepped_catalog]
    exact hd
  obtain ⟨a, ha, -, hacurrent, -, haundos, -⟩ := hsnapshot.exists_restore
  have hredo : b.load .next = _ := load_concat hstack
  rw [ha] at hredo
  refine ⟨hlength, b, hundo, hcurrent, a, hredo, hacurrent, ?_⟩
  have hbundos : b.undos = d.undos.dropLast := hbundos
  have haundos : a.undos = b.undos ++ [b.current] := haundos
  rw [haundos, hbundos, hundos, List.dropLast_concat, List.length_append, List.length_append]
  rfl

/-- The state of a settled circuit leads back to it. -/
theorem oneStep_of_snapshot (hundos : d.undos = c.undos ++ [c.current]) (hc : Snapshot K d.catalog c.current)
    (hd : Snapshot K d.catalog d.current) : OneStep c d := by
  have hc : Snapshot K (d.stepped .previous).catalog c.current := by
    rw [stepped_catalog]
    exact hc
  obtain ⟨b, hb, -, hcurrent, hcatalog, hbundos, hbredos⟩ := hc.exists_restore
  exact oneStep_of_restore hundos hd ⟨b, hb, hcurrent, hcatalog, hbundos, hbredos⟩

/-- An edit that saves the state it finds is one step. -/
theorem oneStep_of_edited (hc : c.Settled c.catalog) (hd : Edited (GateKind.Known c.catalog) c d) : OneStep c d := by
  have hrest := hd.rest
  have hcatalog : d.catalog = c.catalog := hrest.catalog
  obtain ⟨e, he, hrest', rfl⟩ := hd
  have hsettings : e.settings = c.settings := hrest'.settings
  have hsettled := he.settled (hsettings ▸ hc.qubits) (hsettings ▸ hc.shots)
  refine oneStep_of_snapshot hrest.undos ?_ ?_
  · rw [hcatalog]
    exact hc.snapshot
  · rw [hcatalog]
    exact hsettled.snapshot

omit [Coordinate K] in
theorem saved_of_grown (h : d.undos.length < ((d.saveState? t).getD d).undos.length) :
    (d.saveState? t).getD d = d.remember t := by
  rcases saved_cases d t with hsame | hsaved
  · rw [hsame] at h
    exact absurd h (Nat.lt_irrefl _)
  · exact hsaved

/-! ### Drops -/

/-- The state that a drag saves leads back to the one before the drag. -/
theorem exists_restore_spare {b : Circuit K} {hand : List GateId} {w : Wire K} (hc : c.Settled c.catalog)
    (hb : b.Intact (GateKind.Known c.catalog) hand) (hspared : Spared c b w) (hd : d.catalog = c.catalog) :
    ∃ e, d.restore b.current .none = .ok e ∧ e.current = c.current ∧ e.catalog = d.catalog ∧ e.undos = d.undos ∧
      e.redos = d.redos := by
  obtain ⟨e, he, hbare, -, -, hcatalog, hdressed, hundos, hredos⟩ :=
    exists_restore hb.wellFormed.toConsistent d (hd ▸ hb.resolves) .timeless .none ⟨rfl, rfl, rfl⟩ ⟨rfl, rfl, rfl⟩
  have hsettings : b.settings = c.settings := hspared.rest.settings
  have hesettings : e.settings = c.settings := by
    rw [hdressed, Settings.dressed_capture d.settings rfl (hsettings ▸ hc.qubits) (hsettings ▸ hc.shots), hsettings]
  have hrest := rest_refresh e
  refine ⟨e.refresh, he, ?_, hrest.catalog.trans hcatalog, hrest.undos.trans hundos, hrest.redos.trans hredos⟩
  -- The restored wires are those of the circuit before the drag and one more, which goes again.
  have hcompact : c.Compact := hc.refreshed ▸ compact_refresh c
  rw [hspared.wires] at hbare
  rw [refresh_eq, current_redraw,
    hcompact.minimize_spare hbare hesettings hspared.idle (Nat.le_of_eq hspared.length)]
  exact current_congr (map_popWire hbare) hesettings

/-- A drop that saves a state is one step. -/
theorem oneStep_drop {c d : Circuit Rat} {grip : Grip} {hovers : List (Pointer Rat)} {p : Pointer Rat}
    (hc : c.Settled c.catalog) (h : c.Intact (GateKind.Known c.catalog) [])
    (hd : (Edit.drop grip hovers p).perform? c = some d) (hgrown : c.undos.length < d.undos.length) : OneStep c d := by
  obtain ⟨b, hand, w, e, hb, hspared, he, hrest, rfl⟩ := exists_dropped h hd
  rw [(rest_refresh _).undos, ← hrest.undos] at hgrown
  rw [saved_of_grown hgrown]
  have hrefresh := rest_refresh (e.remember b.current)
  have hcatalog : (e.remember b.current).refresh.catalog = c.catalog := hrefresh.catalog.trans hrest.catalog
  have hundos : (e.remember b.current).refresh.undos = c.undos ++ [b.current] := by
    rw [hrefresh.undos, ← hrest.undos]
    rfl
  have hsettings : e.settings = c.settings := hrest.settings
  have hdone := (he.remember b.current).settled (hsettings ▸ hc.qubits) (hsettings ▸ hc.shots)
  refine oneStep_of_restore hundos ?_ (exists_restore_spare hc hb hspared ((stepped_catalog _ _).trans hcatalog))
  rw [hcatalog]
  exact hdone.snapshot

/-! ### Clearing -/

theorem Workspace.blank_pushTab (w : Workspace K) (t : Template) (title : String) :
    (w.pushTab t title).2.blank = w.blank := by
  unfold Workspace.pushTab Workspace.activate
  dsimp only
  split
  · rfl
  · split
    · exact Workspace.store_blank _
    · split <;> exact Workspace.store_blank _

/-- A workspace around a circuit of empty wires has a blank state that is recorded, whatever its catalog becomes. -/
theorem recorded_blank (settings : Settings) (catalog : Catalog) :
    Recorded K catalog (Workspace.ofCircuit (ofSettings settings : Circuit K)).blank := by
  unfold Workspace.ofCircuit
  rw [Workspace.blank_pushTab]
  exact (intact_ofSettings settings).recorded

/-- To clear a workspace restores its blank state and saves the one before. -/
theorem exists_clear {w : Workspace K} (hblank : Recorded K w.circuit.catalog w.blank) :
    ∃ e : Circuit K, w.clear = .ok { w with
        circuit := ((e.saveState? w.circuit.current).getD e).updateButtons } ∧
      e.Intact (GateKind.Known w.circuit.catalog) [] ∧
      w.circuit.Restored w.blank { Parts.none with endianness := true, minQubits := true } e ∧
      e.undos = w.circuit.undos ∧ e.redos = w.circuit.redos := by
  obtain ⟨e, he, h⟩ :=
    hblank.exists_restore { Parts.none with endianness := true, minQubits := true } ⟨rfl, rfl, rfl⟩
  refine ⟨e, ?_, h⟩
  unfold Workspace.clear
  rw [he]
  rfl

/-- To clear a workspace is one step if it changes the state. -/
theorem oneStep_clear {w : Workspace K} (hc : w.circuit.Settled w.circuit.catalog)
    (hblank : Recorded K w.circuit.catalog w.blank) :
    ∃ w', w.clear = .ok w' ∧ (w.circuit.undos.length < w'.circuit.undos.length → OneStep w.circuit w'.circuit) := by
  obtain ⟨e, he, hintact, hrestored, hundos, -⟩ := exists_clear hblank
  have hcatalog := hrestored.catalog
  have hdone : e.Settled w.circuit.catalog := hintact.settled_of_refreshed hrestored.refreshed
    (hrestored.settings ▸ Settings.Positive.dressed ⟨hc.qubits, hc.shots⟩ _ _)
  refine ⟨_, he, fun hgrown => ?_⟩
  rw [← hundos] at hgrown
  have hsaved := saved_of_grown hgrown
  dsimp only
  rw [hsaved]
  have hstack : (e.remember w.circuit.current).updateButtons.undos = w.circuit.undos ++ [w.circuit.current] := by
    rw [← hundos]
    rfl
  refine oneStep_of_snapshot hstack (?_ : Snapshot K e.catalog _) (?_ : Snapshot K e.catalog e.current)
  · rw [hcatalog]
    exact hc.snapshot
  · rw [hcatalog]
    exact hdone.snapshot

end Step

/-! ### All edits -/

/-- Every edit that puts a state on the history, and clearing a workspace, is one step of the history. -/
theorem oneStep_edit {c : Circuit Rat} (hc : c.WellFormed) (hsettled : c.refresh = c)
    (hqubits : 0 < c.settings.minQubits) (hshots : 0 < c.settings.shots) (hk : Resolves c.catalog c.wires) :
    (∀ (e : Edit) d, e.perform? c = some d → c.undos.length < d.undos.length → OneStep c d) ∧
    ∀ w : Workspace Rat, w.circuit = c → Recorded Rat c.catalog w.blank → ∃ w', w.clear = .ok w' ∧
      (c.undos.length < w'.circuit.undos.length → OneStep c w'.circuit) := by
  have hs : c.Settled c.catalog := ⟨hc.toConsistent, hsettled, hqubits, hshots, hk⟩
  have hintact : c.Intact (GateKind.Known c.catalog) [] := hc.intact hk.each
  constructor
  · intro e d hd hgrown
    rcases Edit.cases hintact hd with hedited | ⟨grip, hovers, p, rfl⟩
    · exact oneStep_of_edited hs hedited
    · exact oneStep_drop hs hintact hd hgrown
  · rintro w rfl hblank
    exact oneStep_clear hs hblank

/-- A new workspace whose circuit has become the one with the gate on two wires. -/
def pairWorkspace : Workspace Rat :=
  { Workspace.ofCircuit (ofSettings { minQubits := 3 } : Circuit Rat) with circuit := pairCircuit }

theorem oneStep_edit_pair :
    (∃ d, (Edit.duplicateDown ⟨0⟩).perform? pairCircuit = some d ∧ OneStep pairCircuit d) ∧
    ∃ w', pairWorkspace.clear = .ok w' ∧ OneStep pairCircuit w'.circuit := by
  have hcatalog : pairCircuit.catalog = pairCatalog :=
    (rest_refresh pairDraft).catalog.trans (kept_attachAt _ _ 1 0).catalog
  have hc : pairCircuit.Settled pairCatalog := intact_pairDraft.settled (by decide) (by decide)
  obtain ⟨hedit, hclear⟩ := oneStep_edit intact_pairDraft.refresh.wellFormed hc.refreshed hc.qubits hc.shots
    (hcatalog ▸ hc.resolved)
  constructor
  · have hperform : ((Edit.duplicateDown ⟨0⟩).perform? pairCircuit).any fun d =>
        decide (pairCircuit.undos.length < d.undos.length) := by decide +kernel
    obtain ⟨d, hd, hgrown⟩ := (Option.any_eq_true _ _).mp hperform
    exact ⟨d, hd, hedit _ d hd (of_decide_eq_true hgrown)⟩
  · obtain ⟨w', hw', hstep⟩ := hclear pairWorkspace rfl (recorded_blank { minQubits := 3 } _)
    have hgrown : pairWorkspace.clear.toOption.any fun w' =>
        decide (pairCircuit.undos.length < w'.circuit.undos.length) := by decide +kernel
    rw [hw'] at hgrown
    exact ⟨w', hw', hstep (of_decide_eq_true hgrown)⟩

end CircuitDesigner
