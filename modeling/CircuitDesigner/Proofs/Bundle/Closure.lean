import CircuitDesigner.Proofs.Bundle.RoundTrip
import CircuitDesigner.Proofs.Workspace.Gates
import Mathlib.Algebra.Group.Nat.Defs
import Mathlib.Data.List.Nodup

/-! What a bundle needs.

    The definitions that a circuit needs are those that its stamps or the stamps of other definitions in need name
    (`Catalog.Needs`). A single pass over the catalog finds them because no definition names a later one. Every way to
    add definitions keeps the catalog so (`Catalog.Built.founded`), so that an export holds what the circuit needs and
    nothing else, and can be installed anywhere (`export_minimal`). -/

namespace CircuitDesigner

open Circuit

/-! ### Need -/

/-- A stamp of the template is read as the gate of the definition. -/
def Template.Uses (catalog : Catalog) (t : Template) (d : Definition) : Prop :=
  ∃ r ∈ t.wires, ∃ stamp ∈ r.stamps, GateKind.ofStamp catalog stamp = .ok (.custom d.id d.span)

/-- The definitions of the catalog that a template uses, itself or by way of others. -/
inductive Catalog.Needs (catalog : Catalog) (t : Template) : Definition → Prop
  | direct {d : Definition} (hd : d ∈ catalog.definitions) (huses : t.Uses catalog d) : Needs catalog t d
  | through {user d : Definition} (huser : Needs catalog t user) (hd : d ∈ catalog.definitions)
    (huses : user.circuit.Uses catalog d) : Needs catalog t d

namespace Catalog

variable {catalog : Catalog} {t : Template} {d e : Definition}

/-- All ids are numbered. -/
def Labelled (catalog : Catalog) : Prop := ∀ d ∈ catalog.definitions, ∃ n : Nat, d.id = "cg" ++ toString n

theorem Ordered.get?_of_mem (h : Ordered catalog.definitions) (hd : d ∈ catalog.definitions) :
    catalog.get? d.id = some d := by
  cases hfound : catalog.get? d.id with
  | none => exact absurd (beq_self_eq_true d.id) (List.find?_eq_none.mp hfound d hd)
  | some e =>
    have he := List.mem_of_find?_eq_some hfound
    exact congrArg some (List.inj_on_of_nodup_map h.distinct he hd (id_of_get? hfound))

theorem uses_iff (hordered : Ordered catalog.definitions) (hlabelled : catalog.Labelled)
    (hd : d ∈ catalog.definitions) :
    t.Uses catalog d ↔ t.references d.id = true := by
  constructor
  · rintro ⟨r, hr, stamp, hstamp, hkind⟩
    obtain ⟨e, he, hid, -⟩ := GateKind.exists_of_ofStamp_custom hkind
    rw [← hid, id_of_get? he]
    exact Template.references_of_mem hr hstamp
  · intro hrefers
    obtain ⟨r, hr, hany⟩ := List.any_eq_true.mp hrefers
    obtain ⟨stamp, hstamp, heq⟩ := List.any_eq_true.mp hany
    have htype : Stamp.typeId stamp = d.id := beq_iff_eq.mp heq
    obtain ⟨n, hn⟩ := hlabelled d hd
    exact ⟨r, hr, stamp, hstamp, GateKind.ofStamp_custom (htype.trans hn) (htype ▸ hordered.get?_of_mem hd)⟩

/-- A definition uses older ones only. -/
theorem Ordered.exists_of_uses {user : Definition} (hordered : Ordered catalog.definitions)
    (huser : user ∈ catalog.definitions) (hd : d ∈ catalog.definitions) (huses : user.circuit.Uses catalog d) :
    ∃ before between after, catalog.definitions = before ++ d :: (between ++ user :: after) := by
  obtain ⟨older, after, heq⟩ := List.append_of_mem huser
  obtain ⟨r, hr, stamp, hstamp, hkind⟩ := huses
  obtain ⟨kind, hkind'⟩ := Template.validate_eq_ok_iff.mp (hordered.resolved heq) r hr stamp hstamp
    (GateKind.isSupport_of_ofStamp hkind)
  have hwithin : Within { definitions := older } catalog := by
    intro id n hn
    obtain ⟨e, he, rfl⟩ := span?_eq_some_iff.mp hn
    refine span?_eq_some_iff.mpr ⟨e, ?_, rfl⟩
    unfold get? at he ⊢
    rw [heq, List.find?_append, he]
    rfl
  -- The stamp means the same among the older definitions as in the whole catalog.
  obtain rfl : kind = .custom d.id d.span := Except.ok.inj ((GateKind.ofStamp_mono hkind' (hwithin _)).symm.trans hkind)
  obtain ⟨e, he, hid, -⟩ := GateKind.exists_of_ofStamp_custom hkind'
  have holder : e ∈ older := List.mem_of_find?_eq_some he
  have hmem : e ∈ catalog.definitions := heq ▸ List.mem_append_left _ holder
  obtain rfl := List.inj_on_of_nodup_map hordered.distinct hmem hd hid
  obtain ⟨before, between, rfl⟩ := List.append_of_mem holder
  exact ⟨before, between, after, by rw [heq, List.append_assoc, List.cons_append]⟩

end Catalog

namespace Bundle

variable {catalog : Catalog} {t : Template} {d : Definition} {before after : List Definition}

/-- What is older does not change what is used of the newer ones. -/
theorem suffix_usedDefinitions (t : Template) (before after : List Definition) :
    ∃ older, usedDefinitions t (before ++ after) = older ++ usedDefinitions t after ∧ older.Sublist before := by
  induction before with
  | nil => exact ⟨[], rfl, .refl []⟩
  | cons b before ih =>
    obtain ⟨older, heq, hsub⟩ := ih
    rw [List.cons_append, usedDefinitions_cons]
    split
    · exact ⟨b :: older, congrArg (b :: ·) heq, hsub.cons_cons b⟩
    · exact ⟨older, heq, hsub.cons b⟩

/-- A definition is used if the template or a newer definition in use refers to it. -/
theorem mem_usedDefinitions
    (h : t.references d.id = true ∨ ∃ user ∈ usedDefinitions t after, user.circuit.references d.id = true) :
    d ∈ usedDefinitions t (before ++ d :: after) := by
  obtain ⟨older, heq, -⟩ := suffix_usedDefinitions t before (d :: after)
  rw [heq, usedDefinitions_cons, if_pos (by simpa using h)]
  exact List.mem_append_right older List.mem_cons_self

/-- A definition in use among all is in use among the newer ones that it is one of. -/
theorem mem_usedDefinitions_right (hdistinct : ((before ++ after).map Definition.id).Nodup)
    (hused : d ∈ usedDefinitions t (before ++ after)) (hafter : d ∈ after) : d ∈ usedDefinitions t after := by
  obtain ⟨older, heq, hsub⟩ := suffix_usedDefinitions t before after
  rw [heq] at hused
  rcases List.mem_append.mp hused with holder | hnewer
  · rw [List.map_append, List.nodup_append] at hdistinct
    exact absurd rfl (hdistinct.2.2 _ (List.mem_map_of_mem (hsub.subset holder)) _ (List.mem_map_of_mem hafter))
  · exact hnewer

theorem keeps_usedDefinitions {id : String} (h : t.references id = true) (created : UInt64) :
    catalog.Keeps { definitions := usedDefinitions t catalog.definitions, created } id := by
  intro n hn
  unfold Catalog.span? Catalog.get? at hn ⊢
  rwa [find?_usedDefinitions h]

theorem needs_of_mem_usedDefinitions (hordered : Catalog.Ordered catalog.definitions) (hlabelled : catalog.Labelled)
    {ds : List Definition} (hds : ds ⊆ catalog.definitions) (hd : d ∈ usedDefinitions t ds) : catalog.Needs t d := by
  induction ds generalizing d with
  | nil => cases hd
  | cons e ds ih =>
    obtain ⟨he, hrest⟩ := List.cons_subset.mp hds
    rw [usedDefinitions_cons] at hd
    split at hd
    · rename_i hused
      rcases List.mem_cons.mp hd with rfl | hd
      · rw [Bool.or_eq_true, List.any_eq_true] at hused
        rcases hused with hrefers | ⟨user, huser, hrefers⟩
        · exact .direct he ((Catalog.uses_iff hordered hlabelled he).mpr hrefers)
        · exact .through (ih hrest huser) he ((Catalog.uses_iff hordered hlabelled he).mpr hrefers)
      · exact ih hrest hd
    · exact ih hrest hd

theorem mem_usedDefinitions_of_needs (hordered : Catalog.Ordered catalog.definitions) (hlabelled : catalog.Labelled)
    (h : catalog.Needs t d) : d ∈ usedDefinitions t catalog.definitions := by
  induction h with
  | direct hd huses =>
    obtain ⟨before, after, heq⟩ := List.append_of_mem hd
    rw [heq]
    exact mem_usedDefinitions (.inl ((Catalog.uses_iff hordered hlabelled hd).mp huses))
  | @through user d _ hd huses ih =>
    -- The pass has met the user when it comes to `d`, as it goes from the newest definition to the oldest.
    have huser := (usedDefinitions_sublist t catalog.definitions).subset ih
    obtain ⟨before, between, after, heq⟩ := hordered.exists_of_uses huser hd huses
    have hcut : catalog.definitions = (before ++ [d]) ++ (between ++ user :: after) := by
      rw [heq, List.append_assoc, List.singleton_append]
    have hnewer : user ∈ between ++ user :: after := List.mem_append_right between List.mem_cons_self
    rw [heq]
    refine mem_usedDefinitions (.inr ⟨user, ?_, (Catalog.uses_iff hordered hlabelled hd).mp huses⟩)
    exact mem_usedDefinitions_right (hcut ▸ hordered.distinct) (hcut ▸ ih) hnewer

end Bundle

/-! ### Catalogs over time -/

/-- The catalog has the gate if it is a custom one. -/
def GateKind.Listed (catalog : Catalog) : GateKind → Prop
  | custom id _ => catalog.contains id
  | _ => True

instance (catalog : Catalog) : (kind : GateKind) → Decidable (kind.Listed catalog)
  | .custom id _ => inferInstanceAs (Decidable (catalog.contains id = true))
  | .standard _ | .powered _ _ | .control _ | .measurement _ | .swap | .inertia | .support _ => .isTrue trivial

/-- All custom gates on the wires are in the catalog of the circuit. -/
def Circuit.Listed {K : Type} (c : Circuit K) : Prop := ∀ w ∈ c.wires, ∀ g ∈ w.cells, g.kind.Listed c.catalog

/-- The catalogs that are built from the empty one. A step makes a circuit a custom gate or installs a bundle. The
    custom gates of the circuit are in the catalog, and the ids of the bundle are numbered. -/
inductive Catalog.Built (K : Type) : Catalog → Prop
  | empty : Built K {}
  | create {w w' : Workspace K} {caption : Caption} {id : String} (h : Built K w.circuit.catalog)
    (hlisted : w.circuit.Listed) (hcreate : w.createGate? caption = some (.ok (id, w'))) : Built K w'.circuit.catalog
  | install {catalog catalog' : Catalog} {b : Bundle} {count : Nat} (h : Built K catalog)
    (hids : ∀ d ∈ b.definitions, ∃ n : Nat, d.id = "cg" ++ toString n)
    (hinstall : b.install catalog = .ok (count, catalog')) : Built K catalog'

namespace Catalog

/-- Definitions that use older ones only, with numbers that have been counted. -/
structure Founded (catalog : Catalog) : Prop where
  ordered : Ordered catalog.definitions
  labelled : catalog.Labelled
  numbered : catalog.Numbered

variable {K : Type} {catalog catalog' : Catalog} {d : Definition} {w : Workspace K} {number : UInt64}
  {caption : Caption}

theorem founded_empty : Founded {} := ⟨ordered_nil, nofun, numbered_empty⟩

/-- A numbered definition that is new and valid keeps a catalog founded. -/
theorem Founded.define (h : catalog.Founded) (hid : ∃ n : Nat, d.id = "cg" ++ toString n)
    (hnew : catalog.contains d.id = false) (hvalid : d.circuit.validate catalog = .ok ()) :
    (catalog.define d).Founded where
  ordered := h.ordered.put hnew hvalid
  labelled e he := by
    rcases mem_put he with rfl | he
    · exact hid
    · exact h.labelled e he
  numbered := h.numbered.define d

/-- The templates of a circuit whose gates are listed are valid. -/
theorem Labelled.validate_capture {c : Circuit K} (h : c.catalog.Labelled) (hlisted : c.Listed) (parts : Parts) :
    (c.capture parts).validate c.catalog = .ok () := by
  refine Template.validate_eq_ok_iff.mpr fun r hr stamp hstamp hsupport => ?_
  obtain ⟨w, hw, rfl⟩ := List.mem_map.mp hr
  obtain ⟨g, hg, rfl⟩ := List.mem_map.mp hstamp
  have hkind := hlisted w hw g hg
  generalize g.kind = kind at hsupport hkind ⊢
  -- Only a custom gate is looked up. The other kinds are read the same in every catalog.
  by_cases hcustom : ∃ id span, kind = .custom id span
  · obtain ⟨id, span, rfl⟩ := hcustom
    obtain ⟨d, hd⟩ := Option.isSome_iff_exists.mp hkind
    obtain ⟨n, hn⟩ := h d (List.mem_of_find?_eq_some hd)
    have hknown : (GateKind.custom id d.span).Known c.catalog :=
      GateKind.known_custom (id_of_get? hd ▸ hn) (span?_eq_some_iff.mpr ⟨d, hd, rfl⟩)
    exact ⟨_, hknown⟩
  · refine ⟨kind, GateKind.known_builtin c.catalog (fun id span heq => hcustom ⟨id, span, heq⟩) ?_⟩
    rintro p rfl
    rw [GateKind.isSupport_stamp_support] at hsupport
    cases hsupport

/-- A circuit becomes a gate that uses those of the catalog. -/
theorem Founded.grown (h : w.circuit.catalog.Founded) (hnumber : w.circuit.catalog.next? = some number)
    (hlisted : w.circuit.Listed) : (w.grown number caption).circuit.catalog.Founded where
  ordered := h.ordered.put (h.numbered.not_contains hnumber _ _ _) (h.labelled.validate_capture hlisted _)
  labelled e he := by
    rcases mem_put he with rfl | he
    · exact ⟨_, rfl⟩
    · exact h.labelled e he
  numbered := h.numbered.declared hnumber _ _ _

/-- After any number of steps the catalog is founded. -/
theorem Built.founded (h : Built K catalog) : catalog.Founded := by
  induction h with
  | empty => exact founded_empty
  | create _ hlisted hcreate ih =>
    obtain ⟨number, hnumber, -, rfl⟩ := Workspace.exists_of_createGate? hcreate
    exact ih.grown hnumber hlisted
  | install _ hids hinstall ih =>
    refine Bundle.invariant_of_installFrom (P := Founded) (Bundle.installFrom_of_install hinstall).1 ?_ ih
    rintro c d hd hnew hvalid hfounded
    exact hfounded.define (hids d hd) hnew hvalid

end Catalog

/-- The bundle of a circuit holds the definitions that it needs, each of them once and in the order of its catalog. They
    are all that an installation of the bundle into an empty catalog adds. -/
theorem export_minimal {K : Type} {c : Circuit K} (hbuilt : Catalog.Built K c.catalog) (hlisted : c.Listed) :
    ((Bundle.ofCircuit c).definitions.map Definition.id).Nodup ∧
      (Bundle.ofCircuit c).definitions.Sublist c.catalog.definitions ∧
      (∀ d, d ∈ (Bundle.ofCircuit c).definitions ↔ c.catalog.Needs c.current d) ∧
      ∃ created, (Bundle.ofCircuit c).install {} =
        .ok ((Bundle.ofCircuit c).definitions.length,
          { definitions := (Bundle.ofCircuit c).definitions, created }) := by
  obtain ⟨hordered, hlabelled, -⟩ := hbuilt.founded
  have hused := Bundle.ordered_usedDefinitions hordered c.current
  refine ⟨hused.distinct, Bundle.usedDefinitions_sublist _ _, fun d => ⟨?_, ?_⟩, ?_⟩
  · exact Bundle.needs_of_mem_usedDefinitions hordered hlabelled (List.Subset.refl _)
  · exact Bundle.mem_usedDefinitions_of_needs hordered hlabelled
  · have hnew : Catalog.Ordered (({} : Catalog).definitions ++ (Bundle.ofCircuit c).definitions) := hused
    obtain ⟨created, hinstall⟩ := Bundle.exists_installFrom 1 0 hnew
    rw [Nat.zero_add] at hinstall
    have hvalid := Template.validate_mono (hlabelled.validate_capture hlisted .timeless) fun id hid =>
      Bundle.keeps_usedDefinitions hid created
    exact ⟨created, Bundle.install_eq hinstall hvalid⟩

/-- The nested gates are installed, and a circuit around them becomes a third one. -/
def wrapped : Workspace Rat := (Workspace.ofCircuit outerCircuit).grown 3 {}

theorem built_wrapped : Catalog.Built Rat wrapped.circuit.catalog := by
  have hids : ∀ d ∈ [innerGate, outerGate], ∃ n : Nat, d.id = "cg" ++ toString n := by
    rw [List.forall_mem_cons, List.forall_mem_singleton]
    exact ⟨⟨1, by decide⟩, ⟨2, by decide⟩⟩
  have hinstall : Bundle.install ⟨[innerGate, outerGate], .empty⟩ {} = .ok (2, nestedCatalog) := rfl
  have hcreate : (Workspace.ofCircuit outerCircuit).createGate? {} = some (.ok ("cg3", wrapped)) := rfl
  exact .create (.install .empty hids hinstall) (by unfold Listed; decide) hcreate

/-- The circuit needs the nested gates and not the one around it. -/
theorem export_minimal_wrapped :
    (∀ d, d ∈ [innerGate, outerGate] ↔ wrapped.circuit.catalog.Needs wrapped.circuit.current d) ∧
      ∃ created, (Bundle.ofCircuit wrapped.circuit).install {} =
        .ok (2, { definitions := [innerGate, outerGate], created }) := by
  have hdefinitions : (Bundle.ofCircuit wrapped.circuit).definitions = [innerGate, outerGate] := by decide
  have h := export_minimal built_wrapped (by unfold Listed; decide)
  rw [hdefinitions] at h
  exact h.2.2

end CircuitDesigner
