import CircuitDesigner.Proofs.Catalog
import CircuitDesigner.Proofs.Restore.Tiled
import CircuitDesigner.Workspace

/-! Custom gates made of circuits.

    A gate records the cells of the circuit that it was made of, not its wires. As the circuit was consistent, it can be
    opened again in any catalog that has its gates (`Framed.exists_restore`). -/

namespace CircuitDesigner

open Circuit Workspace

variable {K : Type}

/-! ### Making a gate -/

namespace Workspace

variable {w w' : Workspace K} {number : UInt64} {caption : Caption} {id : String}

/-- The gate that a circuit would become under a number. -/
def made (w : Workspace K) (number : UInt64) (caption : Caption) : Definition :=
  Catalog.declared number w.circuit.wires.length caption (w.circuit.capture definitionParts)

/-- The workspace with the gate in its catalog. -/
def grown (w : Workspace K) (number : UInt64) (caption : Caption) : Workspace K :=
  { w with
    circuit.catalog :=
      { definitions := Catalog.put (w.made number caption) w.circuit.catalog.definitions, created := number } }

/-- To make a circuit a gate changes the catalog only. -/
theorem exists_of_createGate? (h : w.createGate? caption = some (.ok (id, w'))) : ∃ number,
    w.circuit.catalog.next? = some number ∧ id = (w.made number caption).id ∧ w' = w.grown number caption := by
  unfold createGate? at h
  dsimp only at h
  split at h
  · cases h
  · split at h
    · cases h
    · obtain ⟨⟨d, catalog⟩, hdeclare, heq⟩ := Option.map_eq_some_iff.mp h
      cases heq
      obtain ⟨number, hnumber, rfl, rfl⟩ := Catalog.exists_of_declare? hdeclare
      exact ⟨number, hnumber, rfl, rfl⟩

/-- The workspace with a number counted for which there is no gate yet. -/
def counted (w : Workspace K) (number : UInt64) : Workspace K := { w with circuit.catalog.created := number }

/-- A circuit becomes a gate stage by stage: the outcome, and the workspace that the last stage leaves. -/
def createGateStaged (w : Workspace K) (caption : Caption) : Option (Except CircuitError String) × Workspace K :=
  let button := w.circuit.toolbar.addCustom
  let span := w.circuit.wires.length
  if !button.enabled then (some (.error (.rejected (.disabled button.title))), w)
  else if 3 * span < (Text.trim caption.symbol).length then (some (.error (.rejected (.longSymbol (3 * span)))), w)
  else
    match w.circuit.catalog.next? with
    | none => (none, w)
    | some number =>
      let d := w.made number caption
      let w := w.counted number
      (some (.ok d.id), { w with circuit.catalog.definitions := Catalog.put d w.circuit.catalog.definitions })

/-- The stages come to the same outcome. Until all that can fail is done they write nothing. -/
theorem createGateStaged_eq (w : Workspace K) (caption : Caption) :
    w.createGateStaged caption = match w.createGate? caption with
      | some (.ok (id, w')) => (some (.ok id), w')
      | some (.error e) => (some (.error e), w)
      | none => (none, w) := by
  unfold createGateStaged createGate? Catalog.declare?
  dsimp only
  split
  · rfl
  · split
    · rfl
    · cases w.circuit.catalog.next? <;> rfl

end Workspace

/-! ### Opening a gate -/

variable [Coordinate K]

/-- A template as a gate records it, of a consistent circuit whose kinds the catalog knows. -/
def Framed (K : Type) [Coordinate K] (catalog : Catalog) (t : Template) : Prop :=
  ∃ c : Circuit K, c.Consistent ∧ Resolves catalog c.wires ∧ c.capture definitionParts = t

namespace Framed

variable {catalog catalog' : Catalog} {t : Template} {d : Circuit K}

theorem within (h : Framed K catalog t) (hwithin : catalog.Within catalog') : Framed K catalog' t := by
  obtain ⟨c, hc, hk, rfl⟩ := h
  exact ⟨c, hc, fun w hw g hg hne => (hk w hw g hg hne).within hwithin, rfl⟩

theorem validate (h : Framed K catalog t) : t.validate catalog = .ok () := by
  obtain ⟨c, -, hk, rfl⟩ := h
  exact validate_capture definitionParts hk

theorem timeless (h : Framed K catalog t) : t.undos = none ∧ t.redos = none := by
  obtain ⟨c, -, -, rfl⟩ := h
  exact ⟨rfl, rfl⟩

theorem exists_restore (h : Framed K d.catalog t) :
    ∃ e, d.restore t .none = .ok e ∧ e.Intact (GateKind.Known d.catalog) [] ∧ d.Restored t .none e := by
  have hvalid := h.validate
  obtain ⟨c, hc, hk, rfl⟩ := h
  obtain ⟨e, he, hintact, -⟩ := exists_restore_tiled hvalid (hc.tiled_capture hk definitionParts) .none
  exact ⟨e.refresh, he, hintact.refresh, restored_of_restore he⟩

end Framed

/-- Every gate of the catalog can be opened, and the next one will be new. -/
structure Catalog.Open (K : Type) [Coordinate K] (catalog : Catalog) : Prop where
  numbered : catalog.Numbered
  framed : ∀ d ∈ catalog.definitions, Framed K catalog d.circuit

namespace Catalog.Open

variable {catalog : Catalog}

theorem empty : Catalog.Open K {} := ⟨numbered_empty, nofun⟩

theorem hide (h : catalog.Open K) (id : String) : (catalog.hide id).Open K where
  numbered := h.numbered.hide id
  framed d hd := by
    obtain ⟨e, he, -, hcircuit⟩ := exists_of_mem_hide hd
    rw [hcircuit]
    exact (h.framed e he).within (.hide catalog id)

end Catalog.Open

/-- A circuit becomes a gate that can be opened, and the catalog keeps all gates. -/
theorem Workspace.open_grown {w : Workspace K} {number : UInt64} (h : w.circuit.catalog.Open K)
    (hnumber : w.circuit.catalog.next? = some number) (hc : w.circuit.Consistent)
    (hk : Resolves w.circuit.catalog w.circuit.wires) (caption : Caption) :
    (w.grown number caption).circuit.catalog.Open K ∧
      w.circuit.catalog.Recalls (w.grown number caption).circuit.catalog := by
  have hrecalls : w.circuit.catalog.Recalls (w.grown number caption).circuit.catalog :=
    .put (h.numbered.not_contains hnumber _ _ _) _
  refine ⟨⟨h.numbered.declared hnumber _ _ _, fun d hd => ?_⟩, hrecalls⟩
  rcases Catalog.mem_put hd with rfl | hd
  · exact Framed.within ⟨w.circuit, hc, hk, rfl⟩ hrecalls.within
  · exact (h.framed d hd).within hrecalls.within

end CircuitDesigner
