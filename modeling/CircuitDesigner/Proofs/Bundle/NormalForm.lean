import CircuitDesigner.Bundle.Normal
import CircuitDesigner.Proofs.Bundle.RoundTrip
import CircuitDesigner.Proofs.Restore.Tiled

/-! The normal form of a bundle.

    A bundle need not be one of a circuit: rows may have any lengths, columns may be empty, and definitions may be
    unused or stand there twice. When supports stand where gates reach, its circuit is loaded into a settled one, and
    the bundle of a settled circuit is its own normal form, whatever the settings (`normalize_normalize`). -/

namespace CircuitDesigner

open Circuit

variable {K : Type} [Coordinate K] {c d : Circuit K} {catalog : Catalog} {b : Bundle} {count : Nat} {text : String}
  {settings : Settings}

theorem Circuit.Settled.current_refresh_clearHistory (h : c.Settled catalog) :
    c.clearHistory.refresh.current = c.current := by
  have hshows : Shows c.clearHistory.wires (gridOf c.clearHistory.wires) := h.consistent.shows
  have hminimal : (gridOf c.clearHistory.wires).Minimal c.clearHistory.settings.minQubits := h.minimal
  rw [refresh_of_minimal hshows hminimal, current_redraw]
  rfl

namespace Bundle

theorem ofCircuit_refresh_clearHistory (h : c.Settled catalog) : ofCircuit c.clearHistory.refresh = ofCircuit c := by
  unfold ofCircuit
  rw [h.current_refresh_clearHistory, (rest_refresh _).catalog]
  rfl

theorem normalize_eq (hparse : parse text = .ok b) (happly : b.applyTo (.ofSettings settings) = .ok c)
    (hc : c.Settled catalog) : normalize K settings text = .ok (ofCircuit c).render := by
  have hload : b.load settings = .ok c.clearHistory := by
    unfold load
    rw [happly]
    rfl
  unfold normalize
  rw [bind_of_ok hparse, bind_of_ok hload, ofCircuit_refresh_clearHistory hc]

/-- A bundle whose supports stand where its gates reach is loaded into a settled circuit. -/
theorem exists_applyTo_tiled (hinstall : b.install d.catalog = .ok (count, catalog)) (ht : b.circuit.Tiled catalog)
    (hd : d.settings.Positive) :
    ∃ e, b.applyTo d = .ok e ∧ e.Settled catalog ∧ e.catalog = catalog ∧
      e.settings = d.settings.dressed b.circuit .none := by
  obtain ⟨-, hvalid⟩ := installFrom_of_install hinstall
  have hsaved : ({ d with catalog } : Circuit K).save.catalog = catalog := rfl
  obtain ⟨e, he, hintact, hcatalog, hsettings, -, -⟩ :=
    exists_restore_tiled (d := { d with catalog }.save) (by rwa [hsaved]) (by rwa [hsaved]) .none
  have hsettings : e.settings = d.settings.dressed b.circuit .none := hsettings
  have hpositive := hd.dressed b.circuit .none
  rw [← hsettings] at hpositive
  have hrest := rest_refresh e
  exact ⟨e.refresh, applyTo_eq hinstall he, hintact.settled hpositive.qubits hpositive.shots,
    hrest.catalog.trans hcatalog, hrest.settings.trans hsettings⟩

/-- The bundle of a settled circuit is its own normal form. -/
theorem normalize_render (hc : c.Settled c.catalog) (hordered : Catalog.Ordered c.catalog.definitions)
    (hparse : parse (ofCircuit c).render = .ok (ofCircuit c)) (settings : Settings) :
    normalize K settings (ofCircuit c).render = .ok (ofCircuit c).render := by
  have hnew : Catalog.Ordered ((ofSettings settings : Circuit K).catalog.definitions ++ (ofCircuit c).definitions) := by
    rw [catalog_ofSettings]
    exact ordered_usedDefinitions hordered c.current
  obtain ⟨created, hinstall⟩ := exists_installFrom 1 0 hnew
  obtain ⟨e, he, hesettled, hcurrent, -, hcatalog, -⟩ := exists_applyTo (d := ofSettings settings) hc hinstall
  have hbundle : ofCircuit e = ofCircuit c := by
    unfold ofCircuit
    rw [hcurrent, hcatalog, catalog_ofSettings]
    exact congrArg (Bundle.mk · c.current) (usedDefinitions_usedDefinitions c.current c.catalog.definitions)
  rw [normalize_eq hparse he hesettled, hbundle]

/-- A bundle whose supports stand where its gates reach is brought into a normal form, which is left as it is, whatever
    the settings. Shots and wires are counted by numbers of 64 bits. -/
theorem normalize_normalize (hparse : parse text = .ok b) (hinstall : b.install {} = .ok (count, catalog))
    (ht : b.circuit.Tiled catalog) (hsettings : settings.Positive) (hshots : settings.shots < Text.word)
    (hwires : ∀ c : Circuit K, b.load settings = .ok c → c.wires.length < Text.word) :
    ∃ out, normalize K settings text = .ok out ∧ ∀ settings', normalize K settings' out = .ok out := by
  obtain ⟨hdefinitions, hcircuit⟩ := fits_of_parse hparse
  obtain ⟨hordered, hsource⟩ := ordered_of_installFrom (installFrom_of_install hinstall).1 Catalog.ordered_nil
  have hempty : (ofSettings settings : Circuit K).catalog = {} := catalog_ofSettings settings
  have hconfigured : (ofSettings settings : Circuit K).settings = settings := settings_ofSettings settings
  obtain ⟨c, happly, hc, rfl, hdressed⟩ := exists_applyTo_tiled (hempty ▸ hinstall) ht (hconfigured.symm ▸ hsettings)
  have hlength : c.clearHistory.wires.length < Text.word := by
    refine hwires _ ?_
    unfold load
    rw [happly]
    rfl
  have hword : c.settings.shots < Text.word := by
    rw [hdressed, hconfigured]
    exact Settings.shots_dressed_lt hshots fun n hn => Template.shots_lt_of_fits hcircuit hn
  have hread := parse_render_ofCircuit (hc.timeless hlength hword) fun d hd =>
    hdefinitions d ((hsource d hd).resolve_left List.not_mem_nil)
  exact ⟨_, normalize_eq hparse happly hc, normalize_render hc hordered hread⟩

/-- Rows of different lengths, a column and a wire without gates, and definitions twice and for nothing. -/
def looseBundle : Bundle where
  definitions := [innerGate, innerGate, outerGate]
  circuit :=
    { wires := [{ stamps := ["h"] }, { stamps := ["cg1", "inertia", "x"] }, { stamps := ["supp"] }, { stamps := [] }] }

theorem normalize_normalize_loose :
    ∃ out, normalize Rat {} looseBundle.render = .ok out ∧ ∀ settings', normalize Rat settings' out = .ok out := by
  have hparse : parse looseBundle.render = .ok looseBundle := by
    have htimeless : looseBundle.circuit.Timeless := by
      unfold looseBundle
      exact ⟨rfl, rfl, by decide, nofun, nofun⟩
    refine parse_render ?_ (htimeless.fits 124)
    rw [looseBundle, List.forall_mem_cons]
    exact ⟨declared_nestedCatalog.fits _ List.mem_cons_self, declared_nestedCatalog.fits⟩
  have hinstall : looseBundle.install {} = .ok (2, nestedCatalog) := rfl
  have hload : ∃ c : Circuit Rat, looseBundle.load {} = .ok c ∧ c.wires.length = 3 := ⟨_, rfl, by decide⟩
  obtain ⟨c, hc, hlength⟩ := hload
  refine normalize_normalize hparse hinstall (by decide) ⟨by decide, by decide⟩ (by decide) ?_
  intro c' hc'
  rw [hc] at hc'
  cases hc'
  rw [hlength]
  decide

end Bundle

end CircuitDesigner
