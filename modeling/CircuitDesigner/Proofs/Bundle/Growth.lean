import CircuitDesigner.Proofs.Bundle.NormalForm

/-! Catalogs after an installation.

    An installation works on a copy of the catalog, which takes the place of the catalog in the end. New definitions
    come after those that are there, in the order of the bundle, so that no stamp changes its meaning and a second
    installation finds nothing to do. If the installation fails, the copy is dropped (`install_grows`). -/

namespace CircuitDesigner

/-- An installation under way: the catalog, the copy, and how many definitions the copy has more. -/
structure Installation where
  catalog : Catalog
  copy : Catalog
  count : Nat

namespace Bundle

/-! ### On a copy -/

/-- The definitions are added to the copy, one after the other. -/
def stage (line : Nat) (s : Installation) : List Definition → Except BundleError Unit × Installation
  | [] => (.ok (), s)
  | d :: ds =>
    match s.copy.get? d.id with
    | some known =>
      if known.span = d.span ∧ known.circuit = d.circuit then stage (line + 1) s ds
      else (.error (.conflict line d.id), s)
    | none =>
      match d.circuit.validate s.copy with
      | .error e => (.error (.circuit line e), s)
      | .ok () => stage (line + 1) { s with copy := s.copy.define d, count := s.count + 1 } ds

/-- An installation stage by stage, with the catalog that the last stage leaves. -/
def installStaged (b : Bundle) (catalog : Catalog) : Except BundleError Nat × Catalog :=
  match stage 1 ⟨catalog, catalog, 0⟩ b.definitions with
  | (.error e, s) => (.error e, s.catalog)
  | (.ok (), s) =>
    match b.circuit.validate s.copy with
    | .error e => (.error (.circuit (b.definitions.length + 1) e), s.catalog)
    | .ok () => (.ok s.count, s.copy)

variable {b : Bundle} {catalog catalog' : Catalog} {ds : List Definition} {line count count' : Nat} {e : BundleError}

theorem stage_of_ok {s : Installation} (h : installFrom line s.count s.copy ds = .ok (count', catalog')) :
    stage line s ds = (.ok (), { s with copy := catalog', count := count' }) := by
  induction ds generalizing line s with
  | nil =>
    cases h
    rfl
  | cons d ds ih =>
    unfold stage
    rcases cases_of_installFrom h with ⟨known, hknown, hspan, hcircuit, h⟩ | ⟨hnew, hvalid, h⟩
    · simp only [hknown, hspan, hcircuit, and_self, if_true]
      exact ih h
    · simp only [Catalog.contains_eq_false_iff.mp hnew, hvalid]
      exact ih (s := { s with copy := s.copy.define d, count := s.count + 1 }) h

/-- Only the copy is written to. -/
theorem exists_stage_of_error {s : Installation} (h : installFrom line s.count s.copy ds = .error e) :
    ∃ s', stage line s ds = (.error e, s') ∧ s'.catalog = s.catalog := by
  induction ds generalizing line s with
  | nil => cases h
  | cons d ds ih =>
    rw [installFrom] at h
    unfold stage
    cases hknown : s.copy.get? d.id with
    | some known =>
      simp only [hknown] at h ⊢
      split at h
      · rename_i hsame
        rw [if_pos hsame]
        exact ih h
      · rename_i hother
        cases h
        rw [if_neg hother]
        exact ⟨s, rfl, rfl⟩
    | none =>
      simp only [hknown] at h ⊢
      cases hvalid : d.circuit.validate s.copy with
      | error cause =>
        simp only [hvalid] at h ⊢
        cases h
        exact ⟨s, rfl, rfl⟩
      | ok valid =>
        simp only [hvalid] at h ⊢
        exact ih (s := { s with copy := s.copy.define d, count := s.count + 1 }) h

theorem installStaged_of_ok (h : b.install catalog = .ok (count, catalog')) :
    b.installStaged catalog = (.ok count, catalog') := by
  obtain ⟨hinstalled, hvalid⟩ := installFrom_of_install h
  unfold installStaged
  simp only [stage_of_ok (s := ⟨catalog, catalog, 0⟩) hinstalled, hvalid]

/-- The copy is dropped. -/
theorem installStaged_of_error (h : b.install catalog = .error e) : b.installStaged catalog = (.error e, catalog) := by
  unfold install at h
  unfold installStaged
  cases hinstalled : installFrom 1 0 catalog b.definitions with
  | error e' =>
    obtain ⟨s, hs, hcatalog⟩ := exists_stage_of_error (s := ⟨catalog, catalog, 0⟩) hinstalled
    rw [hinstalled] at h
    cases h
    simp only [hs, hcatalog]
  | ok installed =>
    obtain ⟨count, installed⟩ := installed
    simp only [stage_of_ok (s := ⟨catalog, catalog, 0⟩) hinstalled]
    rw [bind_of_ok hinstalled] at h
    dsimp only at h
    cases hvalid : b.circuit.validate installed with
    | error cause =>
      simp only [hvalid] at h ⊢
      cases h
      rfl
    | ok valid =>
      simp only [hvalid] at h
      cases h

/-! ### What is added -/

/-- Some of the definitions come after those of the catalog, in their order. -/
theorem exists_added_of_installFrom (h : installFrom line count catalog ds = .ok (count', catalog')) :
    ∃ added, added.Sublist ds ∧ count' = count + added.length ∧
      catalog'.definitions = catalog.definitions ++ added ∧ catalog' = added.foldl Catalog.define catalog := by
  induction ds generalizing line count catalog with
  | nil =>
    cases h
    exact ⟨[], .slnil, rfl, (List.append_nil _).symm, rfl⟩
  | cons d ds ih =>
    rcases cases_of_installFrom h with ⟨-, -, -, -, h⟩ | ⟨hnew, -, h⟩
    · obtain ⟨added, hsub, hcount, hdefinitions, hfold⟩ := ih h
      exact ⟨added, hsub.cons d, hcount, hdefinitions, hfold⟩
    · obtain ⟨added, hsub, hcount, hdefinitions, hfold⟩ := ih h
      have hput : (catalog.define d).definitions = catalog.definitions ++ [d] :=
        Catalog.put_of_new (Catalog.contains_eq_false_iff.mp hnew)
      refine ⟨d :: added, hsub.cons_cons d, ?_, ?_, hfold⟩
      · rw [hcount, List.length_cons]
        omega
      · rw [hdefinitions, hput, List.append_assoc]
        rfl

/-- Definitions that are there already are all passed over. -/
theorem installFrom_of_forall (h : ∀ d ∈ ds, ∃ known, catalog.get? d.id = some known ∧ known.span = d.span ∧
    known.circuit = d.circuit) (line count : Nat) : installFrom line count catalog ds = .ok (count, catalog) := by
  induction ds generalizing line with
  | nil => rfl
  | cons d ds ih =>
    rw [List.forall_mem_cons] at h
    obtain ⟨⟨known, hknown, hspan, hcircuit⟩, hrest⟩ := h
    rw [installFrom, hknown]
    simp only [hspan, hcircuit, and_self, if_true]
    exact ih hrest (line + 1)

/-- A second installation has nothing to add. -/
theorem install_install (h : b.install catalog = .ok (count, catalog')) : b.install catalog' = .ok (0, catalog') := by
  obtain ⟨hinstalled, hvalid⟩ := installFrom_of_install h
  exact install_eq (installFrom_of_forall (exists_of_installFrom hinstalled) 1 0) hvalid

/-- An installation that succeeds puts the definitions that it counts after those of the catalog. Stamps that mean
    something keep their meaning, the gates of the bundle are all there, and a second installation changes nothing.
    One that fails leaves the catalog as it is. -/
theorem install_grows (b : Bundle) (catalog : Catalog) :
    (∀ m catalog', b.installStaged catalog = (.ok m, catalog') →
      b.install catalog = .ok (m, catalog') ∧
      (∃ added, added.Sublist b.definitions ∧ added.length = m ∧
        catalog'.definitions = catalog.definitions ++ added ∧ catalog' = added.foldl Catalog.define catalog) ∧
      (∀ stamp kind, GateKind.ofStamp catalog stamp = .ok kind → GateKind.ofStamp catalog' stamp = .ok kind) ∧
      (∀ d ∈ b.definitions, ∃ known, catalog'.get? d.id = some known ∧ known.span = d.span ∧
        known.circuit = d.circuit) ∧
      b.circuit.validate catalog' = .ok () ∧ b.installStaged catalog' = (.ok 0, catalog')) ∧
    ∀ e catalog', b.installStaged catalog = (.error e, catalog') →
      b.install catalog = .error e ∧ catalog' = catalog := by
  cases h : b.install catalog with
  | error e =>
    rw [installStaged_of_error h]
    refine ⟨nofun, fun e' catalog' heq => ?_⟩
    obtain ⟨he, rfl⟩ := Prod.mk.inj heq
    obtain rfl := Except.error.inj he
    exact ⟨rfl, rfl⟩
  | ok installed =>
    obtain ⟨count, installed⟩ := installed
    rw [installStaged_of_ok h]
    refine ⟨fun m catalog' heq => ?_, nofun⟩
    obtain ⟨hm, rfl⟩ := Prod.mk.inj heq
    obtain rfl := Except.ok.inj hm
    obtain ⟨hinstalled, hvalid⟩ := installFrom_of_install h
    obtain ⟨added, hsub, hcount, hdefinitions, hfold⟩ := exists_added_of_installFrom hinstalled
    rw [Nat.zero_add] at hcount
    exact ⟨rfl, ⟨added, hsub, hcount.symm, hdefinitions, hfold⟩,
      fun stamp kind hkind => GateKind.ofStamp_mono hkind (within_of_installFrom hinstalled _),
      exists_of_installFrom hinstalled, hvalid, installStaged_of_ok (install_install h)⟩

/-- The loose bundle with a circuit that means nothing once its definitions are there. -/
def danglingBundle : Bundle := { looseBundle with circuit := { wires := [{ stamps := ["cg1", "cg3"] }] } }

theorem install_grows_loose :
    looseBundle.installStaged innerCatalog = (.ok 1, nestedCatalog) ∧
      looseBundle.installStaged nestedCatalog = (.ok 0, nestedCatalog) ∧
      ∃ e, danglingBundle.installStaged innerCatalog = (.error e, innerCatalog) := by
  have hinstalled : looseBundle.installStaged innerCatalog = (.ok 1, nestedCatalog) := rfl
  obtain ⟨-, -, -, -, -, hagain⟩ := (install_grows looseBundle innerCatalog).1 1 nestedCatalog hinstalled
  have hrefused : danglingBundle.installStaged innerCatalog =
      (.error (.circuit 4 (.unknownGate "cg3")), (danglingBundle.installStaged innerCatalog).2) := rfl
  obtain ⟨-, hcatalog⟩ := (install_grows danglingBundle innerCatalog).2 _ _ hrefused
  exact ⟨hinstalled, hagain, _, hcatalog ▸ hrefused⟩

end Bundle

end CircuitDesigner
