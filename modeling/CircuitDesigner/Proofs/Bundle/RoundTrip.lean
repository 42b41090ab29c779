import CircuitDesigner.Proofs.Bundle.Framing
import CircuitDesigner.Proofs.Bundle.Install
import CircuitDesigner.Proofs.History.Timeline

/-! Circuits carried over in bundles.

    A settled circuit that is exported, written, read and applied to another circuit is there as it was, on the catalog
    of the other one with the gates that it uses. The other circuit is one step back. -/

namespace CircuitDesigner

open Circuit

variable {K : Type}

/-! ### What is exported -/

/-- A template as it is taken of a circuit without its history: its counts are numbers of 64 bits. -/
structure Template.Timeless (t : Template) : Prop where
  undos : t.undos = none
  redos : t.redos = none
  length : t.wires.length < Text.word
  qubits : ∀ n, t.minQubits = some n → n < Text.word
  shots : ∀ n, t.shots = some n → n < Text.word

theorem Template.Timeless.fits {t : Template} (h : t.Timeless) (depth : Nat) : Json.Fits (depth + 3) t.toJson :=
  fits_toJson h.length (fun _ => Nat.le_add_left 2 depth) h.qubits h.shots (by rw [h.undos]; nofun)
    (by rw [h.redos]; nofun)

/-- A catalog as declarations leave it. -/
structure Catalog.Declared (c : Catalog) : Prop where
  numbered : ∀ d ∈ c.definitions, ∃ n : Nat, d.id = "cg" ++ toString n
  ordered : Catalog.Ordered c.definitions
  spans : ∀ d ∈ c.definitions, d.span < Text.word
  timeless : ∀ d ∈ c.definitions, d.circuit.Timeless

theorem Catalog.Declared.fits {catalog : Catalog} (h : catalog.Declared) :
    ∀ d ∈ catalog.definitions, Json.Fits Json.maxDepth d.toJson :=
  fun d hd => Definition.fits_toJson (h.spans d hd) ((h.timeless d hd).fits 123)

/-- A custom gate covers as many wires as the catalog says. -/
def GateKind.Spanned (catalog : Catalog) : GateKind → Prop
  | custom id span => catalog.span? id = some span
  | _ => True

instance (catalog : Catalog) : (kind : GateKind) → Decidable (kind.Spanned catalog)
  | .custom id span => inferInstanceAs (Decidable (catalog.span? id = some span))
  | .standard _ | .powered _ _ | .control _ | .measurement _ | .swap | .inertia | .support _ => .isTrue trivial

theorem GateKind.known_builtin (catalog : Catalog) {kind : GateKind} (hcustom : ∀ id span, kind ≠ .custom id span)
    (hsupport : ∀ p, kind ≠ .support p) : kind.Known catalog := by
  cases kind with
  | standard gate => exact known_standard catalog gate
  | powered axis exponent => exact known_powered catalog axis exponent
  | custom id span => exact absurd rfl (hcustom id span)
  | control mode => exact known_control catalog mode
  | measurement mode => exact known_measurement catalog mode
  | swap => exact known_swap catalog
  | inertia => exact known_inertia catalog
  | support p => exact absurd rfl (hsupport p)

theorem Catalog.Declared.known {catalog : Catalog} (h : catalog.Declared) {kind : GateKind}
    (hspanned : kind.Spanned catalog) (hsupport : ∀ p, kind ≠ .support p) : kind.Known catalog := by
  by_cases hcustom : ∃ id span, kind = .custom id span
  · obtain ⟨id, span, rfl⟩ := hcustom
    obtain ⟨d, hd, -⟩ := Catalog.span?_eq_some_iff.mp hspanned
    obtain ⟨n, hn⟩ := h.numbered d (List.mem_of_find?_eq_some hd)
    exact GateKind.known_custom (Catalog.id_of_get? hd ▸ hn) hspanned
  · exact GateKind.known_builtin catalog (fun id span heq => hcustom ⟨id, span, heq⟩) hsupport

/-! ### Kinds in other catalogs -/

section Kinds

variable {catalog catalog' : Catalog} {c : Circuit K}

/-- The kinds are read back in a catalog that has the gates to which the template refers. -/
theorem Resolves.mono (h : Resolves catalog c.wires)
    (hkeeps : ∀ id, c.current.references id = true → catalog.Keeps catalog' id) : Resolves catalog' c.wires := by
  intro w hw g hg hne
  refine GateKind.ofStamp_mono (h w hw g hg hne) (hkeeps _ ?_)
  exact Template.references_of_mem (List.mem_map_of_mem hw) (List.mem_map_of_mem hg)

theorem Circuit.Settled.timeless [Coordinate K] (h : c.Settled catalog) (hwires : c.wires.length < Text.word)
    (hshots : c.settings.shots < Text.word) : c.current.Timeless where
  undos := rfl
  redos := rfl
  length := by rwa [show c.current.wires.length = c.wires.length from List.length_map _]
  qubits n hn := by
    obtain rfl := Option.some.inj hn
    exact Nat.lt_of_le_of_lt h.minimal.rows hwires
  shots n hn := by
    obtain rfl := Option.some.inj hn
    exact hshots

theorem Circuit.Settled.mono [Coordinate K] (h : c.Settled catalog) (hwithin : catalog.Within catalog') :
    c.Settled catalog' :=
  { h with resolved := h.resolved.mono fun id _ => hwithin id }

end Kinds

namespace Bundle

variable {catalog catalog' : Catalog} {c d : Circuit K} {line count count' : Nat}

/-! ### Installing an exported circuit -/

theorem within_of_installFrom {ds : List Definition} (h : installFrom line count catalog ds = .ok (count', catalog')) :
    catalog.Within catalog' := by
  intro id n hn
  obtain ⟨e, he, rfl⟩ := Catalog.span?_eq_some_iff.mp hn
  exact Catalog.span?_eq_some_iff.mpr ⟨e, get?_of_installFrom h he, rfl⟩

/-- The exported circuit finds its gates where its definitions were installed. -/
theorem resolves_of_installFrom (hc : Resolves c.catalog c.wires)
    (h : installFrom line count catalog (ofCircuit c).definitions = .ok (count', catalog')) :
    Resolves catalog' c.wires := by
  refine hc.mono fun id hid n hn => ?_
  obtain ⟨e, he, rfl⟩ := Catalog.span?_eq_some_iff.mp hn
  have hused : (ofCircuit c).definitions.find? (fun e => e.id == id) = some e :=
    (find?_usedDefinitions hid c.catalog.definitions).trans he
  obtain ⟨e', he', hspan, -⟩ := exists_of_installFrom h e (List.mem_of_find?_eq_some hused)
  rw [Catalog.id_of_get? he] at he'
  exact Catalog.span?_eq_some_iff.mpr ⟨e', he', hspan⟩

theorem install_of_installFrom (hc : Resolves c.catalog c.wires)
    (h : installFrom 1 0 catalog (ofCircuit c).definitions = .ok (count, catalog')) :
    (ofCircuit c).install catalog = .ok (count, catalog') :=
  install_eq h (validate_capture .timeless (resolves_of_installFrom hc h))

/-- An exported circuit is refused for a conflict only. -/
theorem exists_installFrom_ofCircuit (hordered : Catalog.Ordered c.catalog.definitions)
    (hconflict : ∀ line id, (ofCircuit c).install catalog ≠ .error (.conflict line id)) :
    ∃ count catalog', installFrom 1 0 catalog (ofCircuit c).definitions = .ok (count, catalog') := by
  cases h : installFrom 1 0 catalog (ofCircuit c).definitions with
  | ok installed => exact ⟨installed.1, installed.2, rfl⟩
  | error e =>
    have hnone : Catalog.Within { definitions := [] } catalog := nofun
    obtain ⟨line, id, rfl⟩ := conflict_of_installFrom (ordered_usedDefinitions hordered c.current) hnone h
    refine absurd ?_ (hconflict line id)
    unfold install
    rw [h]
    rfl

variable [Coordinate K]

theorem applyTo_eq {b : Bundle} {e : Circuit K} (hinstall : b.install d.catalog = .ok (count, catalog))
    (hrestore : { d with catalog }.save.restore b.circuit .none = .ok e) : b.applyTo d = .ok e := by
  unfold applyTo
  rw [bind_of_ok hinstall]
  dsimp only
  rw [hrestore]
  rfl

/-- An exported circuit comes back on the catalog of another circuit, as one step of its history. -/
theorem exists_applyTo (hc : c.Settled c.catalog)
    (h : installFrom 1 0 d.catalog (ofCircuit c).definitions = .ok (count, catalog')) :
    ∃ e, (ofCircuit c).applyTo d = .ok e ∧ e.Settled catalog' ∧ e.current = c.current ∧ e.tally = c.tally ∧
      e.catalog = catalog' ∧ e.undos = d.undos ++ [d.current] := by
  have hsettled : c.Settled catalog' := { hc with resolved := resolves_of_installFrom hc.resolved h }
  obtain ⟨e, he, hesettled, hcurrent, htally, hcatalog, hundos, -⟩ :=
    hsettled.exists_restore (d := { d with catalog := catalog' }.save)
  exact ⟨e, applyTo_eq (install_of_installFrom hc.resolved h) he, hesettled, hcurrent, htally, hcatalog, hundos⟩

omit [Coordinate K] in
/-- A circuit is read back from its bundle. -/
theorem parse_render_ofCircuit (hc : c.current.Timeless)
    (hdefinitions : ∀ d ∈ c.catalog.definitions, Json.Fits Json.maxDepth d.toJson) :
    parse (ofCircuit c).render = .ok (ofCircuit c) :=
  parse_render (fun d hd => hdefinitions d ((usedDefinitions_sublist c.current c.catalog.definitions).subset hd))
    (hc.fits 124)

end Bundle

variable [Coordinate K] {c d : Circuit K}

/-- A settled circuit on declared gates that is exported to a text and read from it again takes the place of any other
    settled circuit whose gates do not conflict, and the other circuit is one step back. Shots and wires are counted by
    numbers of 64 bits. -/
theorem import_export (hc : c.Consistent) (hrefreshed : c.refresh = c) (hqubits : 0 < c.settings.minQubits)
    (hshots : 0 < c.settings.shots) (hcatalog : c.catalog.Declared)
    (hspanned : ∀ w ∈ c.wires, ∀ g ∈ w.cells, g.kind.Spanned c.catalog)
    (hd : d.Settled d.catalog)
    (hconflict : ∀ line id, (Bundle.ofCircuit c).install d.catalog ≠ .error (.conflict line id))
    (hwires : c.wires.length < Text.word) (hword : c.settings.shots < Text.word) :
    ∃ b e, Bundle.parse (Bundle.ofCircuit c).render = .ok b ∧ b.applyTo d = .ok e ∧ e.current = c.current ∧
      e.tally = c.tally ∧ ∃ f, e.load .previous = .ok (some f) ∧ f.current = d.current := by
  have hsettled : c.Settled c.catalog :=
    ⟨hc, hrefreshed, hqubits, hshots, fun w hw g hg => hcatalog.known (hspanned w hw g hg)⟩
  have hparse := Bundle.parse_render_ofCircuit (hsettled.timeless hwires hword) hcatalog.fits
  obtain ⟨count, catalog, hinstall⟩ := Bundle.exists_installFrom_ofCircuit hcatalog.ordered hconflict
  obtain ⟨e, he, hesettled, hcurrent, htally, rfl, hundos⟩ := Bundle.exists_applyTo hsettled hinstall
  obtain ⟨f, hf⟩ := exists_load_previous hundos (hd.mono (Bundle.within_of_installFrom hinstall)).snapshot
  exact ⟨_, e, hparse, he, hcurrent, htally, f, hf⟩

/-- A gate on two wires. -/
def innerGate : Definition where
  id := "cg1"
  span := 2
  symbol := "CG1"
  title := "Custom Gate #1"
  circuit := { wires := [{ stamps := ["h"] }, { stamps := ["x"] }] }

/-- A gate on three wires that uses the other one. -/
def outerGate : Definition where
  id := "cg2"
  span := 3
  symbol := "CG2"
  title := "Custom Gate #2"
  circuit := { wires := [{ stamps := ["cg1"] }, { stamps := ["supp"] }, { stamps := ["swap"] }] }

def innerCatalog : Catalog := { definitions := [innerGate], created := 1 }

def nestedCatalog : Catalog := { definitions := [innerGate, outerGate], created := 2 }

theorem installFrom_nested : Bundle.installFrom 1 0 {} [innerGate, outerGate] = .ok (2, nestedCatalog) := rfl

theorem declared_nestedCatalog : nestedCatalog.Declared where
  numbered := by
    simp only [nestedCatalog, List.forall_mem_cons, List.not_mem_nil, false_implies, implies_true, and_true]
    exact ⟨⟨1, by decide⟩, ⟨2, by decide⟩⟩
  ordered := (Bundle.ordered_of_installFrom installFrom_nested Catalog.ordered_nil).1
  spans := by decide
  timeless := by
    simp only [nestedCatalog, List.forall_mem_cons, List.not_mem_nil, false_implies, implies_true, and_true]
    exact ⟨⟨rfl, rfl, by decide, nofun, nofun⟩, ⟨rfl, rfl, by decide, nofun, nofun⟩⟩

def outerCircuit : Circuit Rat := (single nestedCatalog (.custom "cg2" 3) 0).refresh

def innerCircuit : Circuit Rat := (single innerCatalog (.custom "cg1" 2) 1).refresh

theorem import_export_nested :
    ∃ b e, Bundle.parse (Bundle.ofCircuit outerCircuit).render = .ok b ∧ b.applyTo innerCircuit = .ok e ∧
      e.current = outerCircuit.current ∧ e.tally = outerCircuit.tally ∧
      ∃ f, e.load .previous = .ok (some f) ∧ f.current = innerCircuit.current := by
  have houter : (single nestedCatalog (.custom "cg2" 3) 0).Intact (GateKind.Known nestedCatalog) [] :=
    intact_single (GateKind.known_custom (n := 2) rfl rfl) (by decide)
  have hinner : (single innerCatalog (.custom "cg1" 2) 1).Intact (GateKind.Known innerCatalog) [] :=
    intact_single (GateKind.known_custom (n := 1) rfl rfl) (by decide)
  have hinstall : (Bundle.ofCircuit outerCircuit).install innerCircuit.catalog = .ok (1, nestedCatalog) := rfl
  exact import_export houter.refresh.wellFormed.toConsistent (refresh_refresh _) (by decide) (by decide)
    declared_nestedCatalog (by decide) (hinner.settled (by decide) (by decide))
    (fun line id h => by rw [hinstall] at h; cases h) (by decide) (by decide)

end CircuitDesigner
