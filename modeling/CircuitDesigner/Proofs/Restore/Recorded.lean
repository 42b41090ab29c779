import CircuitDesigner.Circuit.History
import CircuitDesigner.Proofs.Restore.RoundTrip

/-! States of the history.

    The history holds templates without a history of their own. One that was taken of a consistent circuit is restored
    to an intact one (`Recorded.exists_restore`), and one of a settled circuit to a settled one of which the same
    template would be taken (`Snapshot.exists_restore`). -/

namespace CircuitDesigner

open Circuit

/-! ### Settings -/

/-- What is recorded is taken unless it is zero. -/
theorem getD_filter_cases (recorded : Option Nat) (n : Nat) :
    (recorded.filter (· > 0)).getD n = n ∨
      ∃ m, recorded = some m ∧ 0 < m ∧ (recorded.filter (· > 0)).getD n = m := by
  cases h : recorded.filter (· > 0) with
  | none => exact .inl rfl
  | some m =>
    obtain ⟨hm, hpos⟩ := Option.filter_eq_some_iff.mp h
    exact .inr ⟨m, hm, of_decide_eq_true hpos, rfl⟩

namespace Settings

/-- Settings as they are configured: none of them is zero. -/
structure Positive (s : Settings) : Prop where
  qubits : 0 < s.minQubits
  shots : 0 < s.shots

variable {s : Settings}

theorem Positive.dressed (h : s.Positive) (t : Template) (preserved : Parts) : (s.dressed t preserved).Positive := by
  have hpositive : ∀ (recorded : Option Nat) (n : Nat), 0 < n → 0 < (recorded.filter (· > 0)).getD n := by
    intro recorded n hn
    rcases getD_filter_cases recorded n with heq | ⟨m, -, hm, heq⟩ <;> rwa [heq]
  constructor
  · unfold Settings.dressed
    dsimp only
    split
    · exact h.qubits
    · exact hpositive _ _ h.qubits
  · unfold Settings.dressed
    dsimp only
    split
    · exact h.shots
    · exact hpositive _ _ h.shots

theorem shots_dressed_lt {bound : Nat} (h : s.shots < bound) {t : Template} (ht : ∀ n, t.shots = some n → n < bound) :
    (s.dressed t .none).shots < bound := by
  show (t.shots.filter (· > 0)).getD s.shots < bound
  rcases getD_filter_cases t.shots s.shots with heq | ⟨m, hm, -, heq⟩ <;> rw [heq]
  · exact h
  · exact ht m hm

end Settings

variable {K : Type} [Coordinate K] {catalog : Catalog} {c d : Circuit K} {t : Template}

/-- A circuit as an edit leaves it, with settings that are not zero and kinds that the catalog knows. -/
structure Circuit.Settled (catalog : Catalog) (c : Circuit K) : Prop where
  consistent : c.Consistent
  /-- A refresh would change nothing. -/
  refreshed : c.refresh = c
  qubits : 0 < c.settings.minQubits
  shots : 0 < c.settings.shots
  resolved : Resolves catalog c.wires

/-- A template without history of a consistent circuit whose kinds the catalog knows. -/
def Recorded (K : Type) [Coordinate K] (catalog : Catalog) (t : Template) : Prop :=
  ∃ c : Circuit K, c.Consistent ∧ Resolves catalog c.wires ∧ c.current = t

/-- A template without history of a settled circuit. -/
def Snapshot (K : Type) [Coordinate K] (catalog : Catalog) (t : Template) : Prop :=
  ∃ c : Circuit K, c.Settled catalog ∧ c.current = t

/-! ### Settled circuits -/

namespace Circuit.Settled

theorem minimal (h : c.Settled catalog) : (gridOf c.wires).Minimal c.settings.minQubits :=
  minimal_of_settled h.consistent.shows h.refreshed

theorem snapshot (h : c.Settled catalog) : Snapshot K catalog c.current := ⟨c, h, rfl⟩

end Circuit.Settled

/-- An intact circuit that a refresh would not change is settled. -/
theorem Circuit.Intact.settled_of_refreshed (h : c.Intact (GateKind.Known catalog) []) (hrefreshed : c.refresh = c)
    (hpositive : c.settings.Positive) : c.Settled catalog where
  consistent := h.wellFormed.toConsistent
  refreshed := hrefreshed
  qubits := hpositive.qubits
  shots := hpositive.shots
  resolved := h.resolves

theorem Circuit.Intact.settled (h : c.Intact (GateKind.Known catalog) []) (hqubits : 0 < c.settings.minQubits)
    (hshots : 0 < c.settings.shots) : c.refresh.Settled catalog :=
  h.refresh.settled_of_refreshed (refresh_refresh c) (by rw [(rest_refresh c).settings]; exact ⟨hqubits, hshots⟩)

theorem Circuit.settled_ofSettings {settings : Settings} (h : settings.Positive) :
    (ofSettings settings : Circuit K).Settled catalog :=
  (intact_ofSettings settings).settled_of_refreshed (refresh_refresh _) (by rwa [settings_ofSettings])

theorem Circuit.Intact.recorded {hand : List GateId} (h : c.Intact (GateKind.Known catalog) hand) :
    Recorded K catalog c.current :=
  ⟨c, h.wellFormed.toConsistent, h.resolves, rfl⟩

/-! ### Going back to a state -/

/-- A recorded state is restored to an intact circuit, and the history stays. -/
theorem Recorded.exists_restore (h : Recorded K d.catalog t) (preserved : Parts)
    (hpreserved : preserved.wiring false) :
    ∃ e, d.restore t preserved = .ok e ∧ e.Intact (GateKind.Known d.catalog) [] ∧ d.Restored t preserved e ∧
      e.undos = d.undos ∧ e.redos = d.redos := by
  obtain ⟨c, hc, hk, rfl⟩ := h
  obtain ⟨e, he, -, hsound, hcollapsed, -⟩ :=
    CircuitDesigner.exists_restore hc d hk .timeless preserved ⟨rfl, rfl, rfl⟩ hpreserved
  have hrestored := restored_of_restore he
  refine ⟨e.refresh, he, Intact.refresh ⟨hsound, hcollapsed⟩, hrestored, hrestored.undos.trans ?_,
    hrestored.redos.trans ?_⟩ <;> exact ite_id _

/-- A settled circuit comes back from its template, with a history of its own. -/
theorem Circuit.Settled.exists_restore (hc : c.Settled d.catalog) :
    ∃ e, d.restore c.current .none = .ok e ∧ e.Settled d.catalog ∧ e.current = c.current ∧ e.tally = c.tally ∧
      e.catalog = d.catalog ∧ e.undos = d.undos ∧ e.redos = d.redos := by
  obtain ⟨e, he, hintact, hrestored, hredraw, hbare, hsettings⟩ :=
    exists_restore_intact hc.consistent hc.minimal hc.qubits hc.shots d hc.resolved .timeless rfl
  refine ⟨e, he, ?_, current_congr hbare hsettings, ?_, hrestored.catalog, hrestored.undos, hrestored.redos⟩
  · exact hintact.settled_of_refreshed hrestored.refreshed (hsettings ▸ ⟨hc.qubits, hc.shots⟩)
  · have hplain := map_plain_redraw hbare hsettings
    rw [hredraw, ← refresh_of_minimal hc.consistent.shows hc.minimal, hc.refreshed] at hplain
    exact tally_congr hplain

/-- A state that was settled is restored to a settled circuit in that state. -/
theorem Snapshot.exists_restore (h : Snapshot K d.catalog t) :
    ∃ e, d.restore t .none = .ok e ∧ e.Settled d.catalog ∧ e.current = t ∧ e.catalog = d.catalog ∧
      e.undos = d.undos ∧ e.redos = d.redos := by
  obtain ⟨c, hc, rfl⟩ := h
  obtain ⟨e, he, hsettled, hcurrent, -, hrest⟩ := hc.exists_restore
  exact ⟨e, he, hsettled, hcurrent, hrest⟩

end CircuitDesigner
