import CircuitDesigner.Proofs.Bundle.NormalForm
import CircuitDesigner.Proofs.Workspace.Tabs

/-! Importing bundles.

    An import installs custom gates, saves the circuit or opens a tab, and loads a template. Only the first of these
    stages can fail, and it changes nothing when it does (`import_atomic`). The state before an import into a circuit is
    saved on its undo stack, where it stays unless the bundle brings an undo stack of its own (`import_undone`,
    `import_forgotten`). -/

namespace CircuitDesigner

open Circuit

/-- What a bundle is refused for before it changes anything: a conflict, or a stamp that means nothing. -/
inductive BundleError.IsRefusal : BundleError → Prop
  | conflict (line : Nat) (id : String) : IsRefusal (.conflict line id)
  | circuit (line : Nat) (cause : CircuitError) : IsRefusal (.circuit line cause)

namespace Bundle

variable {K : Type} {b : Bundle} {c : Circuit K} {w : Workspace K} {catalog catalog' : Catalog} {e : BundleError}
  {count : Nat}

/-! ### Refusals -/

theorem isRefusal_of_installFrom {ds : List Definition} {line : Nat}
    (h : installFrom line count catalog ds = .error e) :
    e.IsRefusal := by
  induction ds generalizing line count catalog with
  | nil => cases h
  | cons d ds ih =>
    rw [installFrom] at h
    split at h
    · split at h
      · exact ih h
      · cases h
        exact .conflict line d.id
    · split at h
      · rename_i cause _
        cases h
        exact .circuit line cause
      · exact ih h

theorem isRefusal_of_install (h : b.install catalog = .error e) : e.IsRefusal := by
  unfold install at h
  cases hinstalled : installFrom 1 0 catalog b.definitions with
  | error e' =>
    rw [hinstalled] at h
    cases h
    exact isRefusal_of_installFrom hinstalled
  | ok installed =>
    rw [bind_of_ok hinstalled] at h
    dsimp only at h
    split at h
    · rename_i cause _
      cases h
      exact .circuit _ cause
    · cases h

/-! ### Stages -/

variable [Coordinate K]

/-- An import stage by stage. When a stage fails, the circuit stays as the stages before have left it. -/
def importStaged (b : Bundle) (c : Circuit K) : Except BundleError Unit × Circuit K :=
  match b.install c.catalog with
  | .error e => (.error e, c)
  | .ok (_, catalog) =>
    match { c with catalog }.save.restore b.circuit .none with
    | .error e => (.error (.core e), { c with catalog }.save)
    | .ok c => (.ok (), c)

/-- The circuit of an installed bundle is loaded. -/
theorem exists_restore_of_install (h : b.install c.catalog = .ok (count, catalog)) :
    ∃ e, { c with catalog }.save.restore b.circuit .none = .ok e ∧
      { c with catalog }.save.Restored b.circuit .none e := by
  have hvalid : b.circuit.validate { c with catalog }.save.catalog = .ok () := (installFrom_of_install h).2
  exact exists_restore_of_validate hvalid .none

theorem importStaged_of_install (h : b.install c.catalog = .ok (count, catalog)) :
    ∃ e, b.applyTo c = .ok e ∧ b.importStaged c = (.ok (), e) := by
  obtain ⟨e, he, -⟩ := exists_restore_of_install h
  refine ⟨e, applyTo_eq h he, ?_⟩
  unfold importStaged
  simp only [h, he]

theorem importStaged_of_error (h : b.install c.catalog = .error e) :
    b.applyTo c = .error e ∧ b.importStaged c = (.error e, c) := by
  unfold applyTo importStaged
  rw [h]
  exact ⟨rfl, rfl⟩

/-- The gates of a bundle are installed and its circuit is in a new tab at the end. All other tabs are as they were. -/
structure Opened (b : Bundle) (w : Workspace K) (title : String) (w' : Workspace K) : Prop where
  installed : ∃ count, b.install w.circuit.catalog = .ok (count, w'.circuit.catalog)
  /-- Without a history of its own the circuit starts with an empty one. -/
  restored : ∃ e, { w.circuit with catalog := w'.circuit.catalog }.restore b.circuit .none = .ok e ∧
    w'.circuit = if b.circuit.undos.isNone && b.circuit.redos.isNone then e.clearHistory else e
  active : w'.active = some w.tabs.length
  views : w'.views =
    w.views ++ [⟨Text.trim title, "Circuit " ++ toString (w.created + 1), w'.circuit.capture .all⟩]

theorem openIn_of_install (hw : w.Bounded) (h : b.install w.circuit.catalog = .ok (count, catalog)) (title : String) :
    ∃ w', b.openIn w title = (.ok w.tabs.length, w') ∧ b.Opened w title w' := by
  have hvalid : b.circuit.validate { w.circuit with catalog }.catalog = .ok () := (installFrom_of_install h).2
  obtain ⟨e, he, hrestored⟩ := exists_restore_of_validate hvalid .none
  have hbounded : ({ w with circuit.catalog := catalog } : Workspace K).Bounded := hw
  have hopen := Workspace.openTab_eq hbounded hvalid he title
  have hcatalog :
      (if b.circuit.undos.isNone && b.circuit.redos.isNone then e.clearHistory else e).catalog = catalog := by
    split <;> exact hrestored.catalog
  refine ⟨(({ w with circuit.catalog := catalog } : Workspace K).openTab b.circuit title).2, ?_, ?_⟩
  · unfold openIn
    simp only [h, hopen]
    rfl
  rw [hopen]
  refine ⟨⟨count, ?_⟩, ⟨e, ?_, rfl⟩, rfl, ?_⟩
  · rw [Workspace.circuit_turned, hcatalog]
    exact h
  · rw [Workspace.circuit_turned, hcatalog]
    exact he
  · exact Workspace.views_opened hbounded b.circuit (Text.trim title) _

theorem openIn_of_error (h : b.install w.circuit.catalog = .error e) (title : String) :
    b.openIn w title = (.error e, w) := by
  unfold openIn
  rw [h]

/-- An import into a circuit or into a workspace succeeds, or it is refused and nothing at all has changed. -/
theorem import_atomic (b : Bundle) :
    (∀ c : Circuit K, (∃ e, b.applyTo c = .ok e ∧ b.importStaged c = (.ok (), e)) ∨
      ∃ e : BundleError, e.IsRefusal ∧ b.applyTo c = .error e ∧ b.importStaged c = (.error e, c)) ∧
    ∀ w : Workspace K, w.Bounded → ∀ title,
      (∃ w', b.openIn w title = (.ok w.tabs.length, w') ∧ b.Opened w title w') ∨
      ∃ e : BundleError, e.IsRefusal ∧ b.openIn w title = (.error e, w) := by
  constructor
  · intro c
    cases h : b.install c.catalog with
    | error e => exact .inr ⟨e, isRefusal_of_install h, importStaged_of_error h⟩
    | ok installed => exact .inl (importStaged_of_install h)
  · intro w hw title
    cases h : b.install w.circuit.catalog with
    | error e => exact .inr ⟨e, isRefusal_of_install h, openIn_of_error h title⟩
    | ok installed => exact .inl (openIn_of_install hw h title)

/-- The gate on two wires under the id of the one on three wires. -/
def clashingBundle : Bundle where
  definitions := [innerGate, { innerGate with id := "cg2" }]
  circuit := { wires := [{ stamps := ["cg2"] }, { stamps := ["supp"] }] }

/-- One bundle is refused, and another one is opened in a second tab. -/
theorem import_atomic_clash :
    (∃ e : BundleError, e.IsRefusal ∧ clashingBundle.applyTo outerCircuit = .error e ∧
      clashingBundle.openIn (.ofCircuit outerCircuit) "Clash" = (.error e, .ofCircuit outerCircuit)) ∧
    ∃ w', looseBundle.openIn (.ofCircuit outerCircuit) "Loose" = (.ok 1, w') ∧
      looseBundle.Opened (.ofCircuit outerCircuit) "Loose" w' := by
  have hbounded : (Workspace.ofCircuit outerCircuit).Bounded := by
    intro i hi
    obtain rfl : 0 = i := Option.some.inj hi
    decide
  constructor
  · obtain ⟨-, hworkspace⟩ := import_atomic (K := Rat) clashingBundle
    have hrefused : (clashingBundle.openIn (.ofCircuit outerCircuit) "Clash").1 = .error (.conflict 2 "cg2") := rfl
    rcases hworkspace _ hbounded "Clash" with ⟨w', hw', -⟩ | ⟨e, hrefusal, he⟩
    · rw [hw'] at hrefused
      cases hrefused
    · rw [he] at hrefused
      cases hrefused
      exact ⟨_, hrefusal, rfl, he⟩
  · obtain ⟨-, hworkspace⟩ := import_atomic (K := Rat) looseBundle
    refine (hworkspace _ hbounded "Loose").resolve_right ?_
    rintro ⟨e, -, he⟩
    have hopened : (looseBundle.openIn (.ofCircuit outerCircuit) "Loose").1 = .ok 1 := rfl
    rw [he] at hopened
    cases hopened

/-! ### The state before -/

/-- An import puts the state before it on the undo stack, but an undo stack of the bundle takes the place of that one.
    Without such a stack one undo leads back. -/
theorem import_undone {e : Circuit K} (hc : c.Settled c.catalog) (h : b.applyTo c = .ok e) :
    e.undos = b.circuit.undos.getD (c.undos ++ [c.current]) ∧
      (b.circuit.undos = none → ∃ f, e.load .previous = .ok (some f) ∧ f.current = c.current) := by
  obtain ⟨⟨count, catalog⟩, hinstall, h⟩ := exists_of_bind h
  have hrestored := restored_of_restore (ok_of_mapError h)
  have hundos : e.undos = b.circuit.undos.getD (c.undos ++ [c.current]) := hrestored.undos
  refine ⟨hundos, fun hnone => ?_⟩
  rw [hnone, Option.getD_none] at hundos
  refine exists_load_previous hundos ?_
  -- The installation only adds gates, so that the stamps of the state before still mean the same.
  rw [hrestored.catalog]
  exact (hc.mono (within_of_installFrom (installFrom_of_install hinstall).1)).snapshot

theorem import_undone_loose :
    ∃ e, looseBundle.applyTo innerCircuit = .ok e ∧ e.undos = [innerCircuit.current] ∧
      ∃ f, e.load .previous = .ok (some f) ∧ f.current = innerCircuit.current := by
  have hinner : (single innerCatalog (.custom "cg1" 2) 1).Intact (GateKind.Known innerCatalog) [] :=
    intact_single (GateKind.known_custom (n := 1) rfl rfl) (by decide)
  have hinstall : looseBundle.install innerCircuit.catalog = .ok (1, nestedCatalog) := rfl
  obtain ⟨e, he, -⟩ := importStaged_of_install hinstall
  obtain ⟨hundos, hback⟩ := import_undone (hinner.settled (by decide) (by decide)) he
  exact ⟨e, he, hundos, hback rfl⟩

/-- A circuit with an empty undo stack of its own. -/
def forgetfulBundle : Bundle where
  definitions := []
  circuit := { wires := [{ stamps := ["h"] }], undos := some [] }

/-- No undo leads back to the state before an import that brings an empty undo stack. -/
theorem import_forgotten :
    parse forgetfulBundle.render = .ok forgetfulBundle ∧
      (ofSettings {} : Circuit Rat).Settled (ofSettings {} : Circuit Rat).catalog ∧
      ∃ e, forgetfulBundle.applyTo (ofSettings {} : Circuit Rat) = .ok e ∧ e.undos = [] ∧
        e.load .previous = .ok none := by
  have hfits : Json.Fits Json.maxDepth forgetfulBundle.circuit.toJson := by
    refine Template.fits_toJson (by decide) (fun _ => by decide) nofun nofun (fun ts hts => ?_) nofun
    cases hts
    exact .array (by simp)
  refine ⟨parse_render (by simp [forgetfulBundle]) hfits, settled_ofSettings ⟨by decide, by decide⟩, ?_⟩
  have hinstall : forgetfulBundle.install (ofSettings {} : Circuit Rat).catalog = .ok (0, {}) := rfl
  obtain ⟨e, he, hrestored⟩ := exists_restore_of_install hinstall
  exact ⟨e, applyTo_eq hinstall he, hrestored.undos, load_nil hrestored.undos⟩

end Bundle

end CircuitDesigner
