import CircuitDesigner.Execution.Request
import CircuitDesigner.Proofs.Bundle.RoundTrip
import CircuitDesigner.Proofs.Workspace.Run

/-! Requests that are skipped.

    A request is skipped when the circuit has the template that was sent last. The template names custom gates by
    their ids, and the definitions that are sent along are not compared. What is skipped would compute the same as
    long as no id has changed its meaning and all gates are defined. A workspace keeps it so, whatever is done with it
    (`isStale_record_iff`). -/

namespace CircuitDesigner

open Circuit

/-! ### Gates that a template refers to -/

/-- A stamp of the template has the id of a custom gate. -/
def Template.Names (t : Template) (id : String) : Prop :=
  t.references id = true ∧ id ∉ GateKind.builtinIds ∧ Stamp.isSupport id = false

/-- The id is in the template, or in the definition of a gate that the template refers to. -/
inductive Template.Reaches (catalog : Catalog) (t : Template) : String → Prop
  | direct {id : String} (hnames : t.Names id) : Reaches catalog t id
  | through {user id : String} {d : Definition} (huser : Reaches catalog t user) (hd : catalog.get? user = some d)
    (hnames : d.circuit.Names id) : Reaches catalog t id

/-- All custom gates to which the template refers are defined. -/
def Catalog.Defines (catalog : Catalog) (t : Template) : Prop := ∀ id, t.Reaches catalog id → catalog.contains id = true

/-- No id means two gates. -/
def Catalog.Agrees (c d : Catalog) : Prop :=
  ∀ id e f, c.get? id = some e → d.get? id = some f → e.span = f.span ∧ e.circuit = f.circuit

variable {c d : Catalog} {t : Template} {id : String}

/-- A stamp that is read and that is left to custom gates has one of the catalog. -/
theorem GateKind.contains_of_ofStamp {stamp : String} {kind : GateKind} (h : ofStamp c stamp = .ok kind)
    (hcustom : Stamp.typeId stamp ∉ builtinIds) (hvisible : Stamp.isSupport (Stamp.typeId stamp) = false) :
    c.contains (Stamp.typeId stamp) = true := by
  rw [ofStamp_eq_lookup hcustom hvisible] at h
  by_contra hnone
  rw [Bool.not_eq_true, Catalog.contains_eq_false_iff] at hnone
  rw [hnone] at h
  cases h

theorem Template.Names.contains (h : t.Names id) (hvalid : t.validate c = .ok ()) : c.contains id = true := by
  obtain ⟨hrefers, hcustom, hvisible⟩ := h
  obtain ⟨r, hr, hany⟩ := List.any_eq_true.mp hrefers
  obtain ⟨stamp, hstamp, htype⟩ := List.any_eq_true.mp hany
  obtain rfl := beq_iff_eq.mp htype
  have hplaced : Stamp.isSupport stamp = false :=
    Bool.eq_false_iff.mpr fun hsupport => Bool.eq_false_iff.mp hvisible (Stamp.isSupport_typeId hsupport)
  obtain ⟨kind, hkind⟩ := Template.validate_eq_ok_iff.mp hvalid r hr stamp hstamp hplaced
  exact GateKind.contains_of_ofStamp hkind hcustom hvisible

namespace Catalog

/-- Valid templates are all defined if the definitions are valid too. -/
theorem Defines.of_validate (ht : t.validate c = .ok ()) (hc : ∀ d ∈ c.definitions, d.circuit.validate c = .ok ()) :
    c.Defines t := by
  intro id h
  cases h with
  | direct hnames => exact hnames.contains ht
  | through huser hd hnames => exact hnames.contains (hc _ (List.mem_of_find?_eq_some hd))

theorem Agrees.symm (h : c.Agrees d) : d.Agrees c := fun id e f he hf =>
  have ⟨hspan, hcircuit⟩ := h id f e hf he
  ⟨hspan.symm, hcircuit.symm⟩

/-- The references lead from definition to definition in one catalog as they do in the other. -/
theorem Agrees.reaches (h : c.Agrees d) (hd : d.Defines t) (hreaches : t.Reaches c id) : t.Reaches d id := by
  induction hreaches with
  | direct hnames => exact .direct hnames
  | through _ he hnames ih =>
    obtain ⟨f, hf⟩ := Option.isSome_iff_exists.mp (hd _ ih)
    obtain ⟨-, hcircuit⟩ := h _ _ _ he hf
    exact .through ih hf (hcircuit ▸ hnames)

theorem Recalls.agrees (h : c.Recalls d) : c.Agrees d := by
  intro id e f he hf
  obtain ⟨f', hf', hspan, hcircuit⟩ := h id e he
  obtain rfl := Option.some.inj (hf.symm.trans hf')
  exact ⟨hspan.symm, hcircuit.symm⟩

end Catalog

/-! ### The cache -/

variable {K : Type} {a b : Circuit K}

/-- The circuits are executed from the same template, and all custom gates to which it refers are the same. -/
structure Circuit.SameComputation (a b : Circuit K) : Prop where
  executed : a.executed = b.executed
  gates : ∀ id, a.executed.Reaches a.catalog id ∨ b.executed.Reaches b.catalog id →
    ∃ e f, a.catalog.get? id = some e ∧ b.catalog.get? id = some f ∧ e.span = f.span ∧ e.circuit = f.circuit

theorem isStale_record_eq_false_iff (cache : ResultCache) (kind : OutputKind) (a b : Circuit K) :
    (cache.record kind a).isStale kind b = false ↔ a.executed = b.executed := by
  simp [ResultCache.isStale, ResultCache.record]

/-- Circuits with the same template refer to the same gates if no id means two gates and all gates are defined. -/
theorem sameComputation_of_executed (h : a.executed = b.executed) (hagrees : a.catalog.Agrees b.catalog)
    (ha : a.catalog.Defines a.executed) (hb : b.catalog.Defines b.executed) : a.SameComputation b := by
  refine ⟨h, fun id hreaches => ?_⟩
  have hboth : a.executed.Reaches a.catalog id ∧ b.executed.Reaches b.catalog id := by
    rcases hreaches with hid | hid
    · exact ⟨hid, h ▸ hagrees.reaches (h.symm ▸ hb) hid⟩
    · exact ⟨h.symm ▸ hagrees.symm.reaches (h ▸ ha) hid, hid⟩
  obtain ⟨e, he⟩ := Option.isSome_iff_exists.mp (ha id hboth.1)
  obtain ⟨f, hf⟩ := Option.isSome_iff_exists.mp (hb id hboth.2)
  exact ⟨e, f, he, hf, hagrees id e f he hf⟩

/-! ### Runs -/

namespace Workspace.Live

variable {w : Workspace Rat} {count : Nat}

theorem defines (h : w.Live count) : w.circuit.catalog.Defines w.circuit.executed :=
  .of_validate (validate_capture .execution h.tidy.circuit.editable.intact.resolves) fun d hd =>
    (h.tidy.catalog.framed d hd).validate

/-- Along a run just those requests are skipped that ask for the computation of the last one. -/
theorem isStale_run (h : w.Live count) (as : List Act) (cache : ResultCache) (kind : OutputKind) :
    (cache.record kind w.circuit).isStale kind (w.run as).circuit = false ↔
      w.circuit.SameComputation (w.run as).circuit := by
  obtain ⟨hlive, hrecalls⟩ := h.run_recalls as
  rw [isStale_record_eq_false_iff]
  exact ⟨fun heq => sameComputation_of_executed heq hrecalls.agrees h.defines hlive.defines,
    fun hsame => hsame.executed⟩

end Workspace.Live

/-! ### Requests that are skipped -/

/-- After a request for a circuit one for another circuit is skipped if and only if the templates are the same. If no
    id means two gates and each circuit has its gates defined, the two requests ask for the same computation then. Two
    states of a workspace, one after the other in a run, are such circuits. -/
theorem isStale_record_iff (cache : ResultCache) (kind : OutputKind) :
    (∀ a b : Circuit K, ((cache.record kind a).isStale kind b = false ↔ a.executed = b.executed) ∧
      (a.catalog.Agrees b.catalog → a.catalog.Defines a.executed → b.catalog.Defines b.executed →
        ((cache.record kind a).isStale kind b = false ↔ a.SameComputation b))) ∧
    ∀ settings : Settings, settings.Positive → ∀ (as bs : List Act) (w : Workspace Rat),
      (Workspace.ofCircuit (ofSettings settings)).run as = w →
        ((cache.record kind w.circuit).isStale kind (w.run bs).circuit = false ↔
          w.circuit.SameComputation (w.run bs).circuit) := by
  refine ⟨fun a b => ?_, ?_⟩
  · have hiff := isStale_record_eq_false_iff cache kind a b
    refine ⟨hiff, fun hagrees ha hb => hiff.trans ⟨fun h => ?_, Circuit.SameComputation.executed⟩⟩
    exact sameComputation_of_executed h hagrees ha hb
  · rintro settings hsettings as bs w rfl
    exact ((Workspace.live_ofCircuit hsettings).run as).isStale_run bs cache kind

/-- A gate is made and used in a second tab. -/
def gateInUse : List Act :=
  [.gesture (.edit (.drop (.toolbox "h") [] ⟨130, 150⟩)) trivial, .createGate {}, .addTab,
    .gesture (.edit (.drop (.toolbox "cg1") [] ⟨130, 150⟩)) trivial]

/-- The gate is hidden and another one made in the first tab. -/
def secondGate : List Act := [.hideGate "cg1", .activate 0, .createGate {}, .activate 1]

/-- The catalog has changed, and the request is skipped for good reason. -/
theorem isStale_record_iff_secondGate : ∃ a b : Circuit Rat,
    (a.catalog.Agrees b.catalog ∧ a.catalog.Defines a.executed ∧ b.catalog.Defines b.executed) ∧
      a.catalog.definitions.map Definition.id = ["cg1"] ∧ b.catalog.definitions.map Definition.id = ["cg1", "cg2"] ∧
      (ResultCache.empty.record .counts a).isStale .counts b = false ∧ a.SameComputation b ∧
      ((Workspace.ofCircuit (ofSettings {})).run gateInUse).circuit = a ∧
      (((Workspace.ofCircuit (ofSettings {})).run gateInUse).run secondGate).circuit = b := by
  have hpositive : Settings.Positive {} := ⟨by decide, by decide⟩
  have hlive := (Workspace.live_ofCircuit hpositive).run gateInUse
  obtain ⟨hlater, hrecalls⟩ := hlive.run_recalls secondGate
  obtain ⟨hpair, hrun⟩ := isStale_record_iff (K := Rat) ResultCache.empty .counts
  have hsame := ((hpair _ _).2 hrecalls.agrees hlive.defines hlater.defines).mp ((hpair _ _).1.mpr (by decide +kernel))
  exact ⟨_, _, ⟨hrecalls.agrees, hlive.defines, hlater.defines⟩, by decide +kernel, by decide +kernel,
    (hrun {} hpositive gateInUse secondGate _ rfl).mpr hsame, hsame, rfl, rfl⟩

/-- The gate inside the one in use is replaced, or it is defined only after the request, and the next request is
    skipped. -/
theorem isStale_misses :
    ((ResultCache.empty.record .counts outerCircuit).isStale .counts
        { outerCircuit with catalog := nestedCatalog.define { innerGate with circuit := .empty } } = false ∧
      outerCircuit.executed.Reaches nestedCatalog "cg1" ∧ nestedCatalog.get? "cg1" = some innerGate ∧
      (nestedCatalog.define { innerGate with circuit := .empty }).get? "cg1" =
        some { innerGate with circuit := .empty } ∧
      innerGate.circuit ≠ .empty) ∧
    ((ResultCache.empty.record .counts { outerCircuit with catalog := { definitions := [outerGate] } }).isStale .counts
        { outerCircuit with catalog := { definitions := [outerGate, innerGate] } } = false ∧
      outerCircuit.executed.Reaches { definitions := [outerGate] } "cg1" ∧
      Catalog.get? { definitions := [outerGate] } "cg1" = none) := by
  have houter : outerCircuit.executed.Names "cg2" := ⟨by decide, by decide, by decide⟩
  have hinner : outerGate.circuit.Names "cg1" := ⟨by decide, by decide, by decide⟩
  refine ⟨⟨?_, .through (.direct houter) rfl hinner, rfl, rfl, by decide⟩,
    ?_, .through (.direct houter) rfl hinner, rfl⟩
  · exact (isStale_record_eq_false_iff _ _ _ _).mpr rfl
  · exact (isStale_record_eq_false_iff _ _ _ _).mpr rfl

end CircuitDesigner
