import CircuitDesigner.Proofs.Restore.Rebuild

/-! Round trips through templates.

    A circuit of minimal size comes back from its template as it was, but for the numbers of gates and wires. -/

namespace CircuitDesigner

open Circuit

variable {K : Type}

/-! ### Kinds -/

section Kinds

variable {P : GateKind → Prop} {catalog : Catalog} {hand : List GateId} {c : Circuit K} {ws : List (Wire K)}

/-- The kinds of a sound circuit are read back from its template. -/
theorem Circuit.Sound.resolves (h : c.Sound (GateKind.Known catalog) hand) : Resolves catalog c.wires := by
  intro w hw g hg hne
  obtain ⟨r, hr⟩ := List.getElem?_of_mem hw
  obtain ⟨k, hk⟩ := List.getElem?_of_mem hg
  have hmark : (gridOf c.wires).mark r k = g.mark? :=
    mark_of_cell? (by rw [cell?_eq_bind, hr, Option.bind_some, hk])
  cases hm : g.mark? with
  | none =>
    have hi := Gate.mark?_eq_none_iff.mp hm
    unfold Gate.isInertia GateKind.isInertia at hi
    split at hi
    · rename_i hkind
      rw [hkind]
      exact GateKind.known_inertia catalog
    · cases hi
  | some m => cases m with
    | cover p => exact absurd (Gate.mark?_eq_cover_iff.mp hm) (hne p)
    | gate id kind =>
      rw [hm] at hmark
      rw [(Gate.mark?_eq_gate_iff.mp hm).2.1]
      exact h.kinds r k id kind hmark

theorem Resolves.each (h : Resolves catalog ws) : (gridOf ws).Each (GateKind.Known catalog) := by
  intro r k id kind hm
  obtain ⟨w, g, hw, hg, hmark⟩ := markIn_eq_some_iff.mp hm
  obtain ⟨-, rfl, hp⟩ := Gate.mark?_eq_gate_iff.mp hmark
  exact h w (List.mem_of_getElem? hw) g (List.mem_of_getElem? hg) (GateKind.ne_support hp)

end Kinds

/-! ### Size -/

section Size

/-- Which cells hold inertias. -/
def Wire.idles (w : Wire K) : List Bool := w.cells.map Gate.isInertia

variable {vs ws : List (Wire K)}

theorem markIn_eq_none_iff {r k : Nat} :
    markIn ws r k = none ↔ ∀ cells, (ws.map Wire.idles)[r]? = some cells → cells[k]? ≠ some false := by
  rw [markIn_eq_bind_cell, List.getElem?_map]
  cases ws[r]? with
  | none => simp
  | some w =>
    simp only [Option.bind_some, Option.map_some, Option.some.injEq, forall_eq', Wire.idles, List.getElem?_map]
    cases w.cells[k]? with
    | none => simp
    | some g => simp [Gate.mark?_eq_none_iff]

/-- The size of wires is read off the cells that are idle. -/
theorem minimal_of_idles (h : vs.map Wire.idles = ws.map Wire.idles) {least : Nat} (hm : (gridOf ws).Minimal least) :
    (gridOf vs).Minimal least := by
  have hrows : vs.length = ws.length := by simpa using congrArg List.length h
  have hcolumns : columnsOf vs = columnsOf ws := by
    refine columnsOf_congr ?_
    simpa [Wire.idles, Function.comp_def] using congrArg (List.map List.length) h
  have hmark : ∀ r k, markIn vs r k = none ↔ markIn ws r k = none := fun r k => by
    rw [markIn_eq_none_iff, markIn_eq_none_iff, h]
  refine ⟨fun k hk => ?_, ?_, fun hlt => ?_⟩
  · obtain ⟨r, hr⟩ := hm.columns k (by show k < columnsOf ws; rw [← hcolumns]; exact hk)
    exact ⟨r, fun hnone => hr ((hmark r k).mp hnone)⟩
  · show least ≤ vs.length
    rw [hrows]
    exact hm.rows
  · obtain ⟨k, hk⟩ := hm.bottom (by show least < ws.length; rw [← hrows]; exact hlt)
    refine ⟨k, fun hnone => hk ?_⟩
    have hnone : markIn vs (vs.length - 1) k = none := hnone
    rw [hmark, hrows] at hnone
    exact hnone

theorem minimal_of_bare (h : vs.map Wire.bare = ws.map Wire.bare) {least : Nat} (hm : (gridOf ws).Minimal least) :
    (gridOf vs).Minimal least := by
  have hidles : ∀ ws : List (Wire K), ws.map Wire.idles = (ws.map Wire.bare).map Wire.idles := fun ws => by
    simp [Wire.idles, Wire.bare, Gate.isInertia, Gate.bare]
  refine minimal_of_idles ?_ hm
  rw [hidles vs, h, ← hidles]

end Size

theorem Settings.dressed_capture (s : Settings) {c : Circuit K} {parts : Parts}
    (hparts : { parts with history := true } = Parts.all) (hqubits : 0 < c.settings.minQubits)
    (hshots : 0 < c.settings.shots) : s.dressed (c.capture parts) .none = c.settings := by
  obtain ⟨h1, h2, h3, h4, h5, h6, h7⟩ := parts
  cases hparts
  have hkeep : ∀ n m : Nat, 0 < n → ((some n).filter (· > 0)).getD m = n := fun n m hn => by
    rw [Option.filter_some, if_pos (by simpa using hn)]
    rfl
  simp only [Settings.dressed, capture, Parts.none, Bool.false_eq_true, if_false, if_true, Option.getD_some,
    hkeep _ _ hqubits, hkeep _ _ hshots]

variable [Coordinate K]

/-- A minimal circuit comes back from its template up to numbers. -/
theorem exists_restore_minimal {c : Circuit K} (hc : c.Consistent) (hm : (gridOf c.wires).Minimal c.settings.minQubits)
    (hqubits : 0 < c.settings.minQubits) (hshots : 0 < c.settings.shots) (d : Circuit K)
    (hk : Resolves d.catalog c.wires) (parts : Parts) (hparts : { parts with history := true } = Parts.all) :
    ∃ e : Circuit K, d.restore (c.capture parts) .none = .ok e.redraw ∧ e.wires.map Wire.bare = c.wires.map Wire.bare ∧
      e.settings = c.settings ∧ e.catalog = d.catalog ∧ e.undos = (c.capture parts).undos.getD d.undos ∧
      e.redos = (c.capture parts).redos.getD d.redos ∧ e.Sound (GateKind.Known d.catalog) [] ∧
      ∀ w ∈ e.wires, w.Collapsed := by
  have hwiring : parts.wiring true := by
    obtain ⟨h1, h2, h3, h4, h5, h6, h7⟩ := parts
    cases hparts
    exact ⟨rfl, rfl, rfl⟩
  obtain ⟨e, he, hbare, hsound, hcollapsed, hcatalog, hsettings, hundos, hredos⟩ :=
    exists_restore hc d hk parts .none hwiring ⟨rfl, rfl, rfl⟩
  have hsettings : e.settings = c.settings :=
    hsettings.trans (Settings.dressed_capture d.settings hparts hqubits hshots)
  refine ⟨e, ?_, hbare, hsettings, hcatalog, hundos, hredos, hsound, hcollapsed⟩
  rw [he, refresh_of_minimal hsound.shows]
  rw [hsettings]
  exact minimal_of_bare hbare hm

/-- The circuit that comes back is intact, and drawn for good. -/
theorem exists_restore_intact {c : Circuit K} (hc : c.Consistent) (hm : (gridOf c.wires).Minimal c.settings.minQubits)
    (hqubits : 0 < c.settings.minQubits) (hshots : 0 < c.settings.shots) (d : Circuit K)
    (hk : Resolves d.catalog c.wires) (parts : Parts) (hparts : { parts with history := true } = Parts.all) :
    ∃ e : Circuit K, d.restore (c.capture parts) .none = .ok e ∧ e.Intact (GateKind.Known d.catalog) [] ∧
      d.Restored (c.capture parts) .none e ∧ e.redraw = e ∧ e.wires.map Wire.bare = c.wires.map Wire.bare ∧
      e.settings = c.settings := by
  obtain ⟨e, he, hbare, hsettings, -, -, -, hsound, hcollapsed⟩ :=
    exists_restore_minimal hc hm hqubits hshots d hk parts hparts
  exact ⟨e.redraw, he, ⟨hsound.redraw, collapsed_of_core (map_core_redraw e) hcollapsed⟩, restored_of_restore he,
    redraw_redraw e, (map_bare_redraw e).trans hbare, (rest_redraw e).settings.trans hsettings⟩

/-- A settled circuit with positive settings comes back from its template into any circuit that knows its kinds: the
    template of the result is the same, and so is everything that is drawn and counted. -/
theorem restore_capture_all {c : Circuit K} (hc : c.Consistent) (hsettled : c.refresh = c)
    (hqubits : 0 < c.settings.minQubits) (hshots : 0 < c.settings.shots) (d : Circuit K)
    (hk : Resolves d.catalog c.wires) :
    ∃ d', d.restore (c.capture .all) .none = .ok d' ∧ d'.capture .all = c.capture .all ∧
      d'.connectors = c.connectors ∧ d'.borders = c.borders ∧ d'.registers = c.registers ∧
      d'.wires.map (fun w => w.cells.map fun g => (g.fault, g.textured)) =
        c.wires.map (fun w => w.cells.map fun g => (g.fault, g.textured)) ∧
      d'.wires.map Wire.pivot = c.wires.map Wire.pivot ∧
      d'.wires.map Wire.placeholder = c.wires.map Wire.placeholder ∧
      d'.extent = c.extent ∧ d'.tally = c.tally ∧ d'.toolbar = c.toolbar ∧ d'.widgets = c.widgets := by
  have hm := minimal_of_settled hc.shows hsettled
  obtain ⟨e, he, hbare, hsettings, -, hundos, hredos, -, -⟩ :=
    exists_restore_minimal hc hm hqubits hshots d hk .all rfl
  have hundos : e.undos = c.undos := hundos
  have hredos : e.redos = c.redos := hredos
  -- Both circuits are drawn from the same bare wires.
  have halike := alike_redraw hbare hsettings (by rw [hundos]) (by rw [hredos])
  rw [← refresh_of_minimal hc.shows hm, hsettled] at halike
  have hrest := rest_redraw e
  have hplain : ∀ {α : Type} (f : Wire K → α), (∀ w, f w.plain = f w) →
      e.redraw.wires.map f = c.wires.map f := fun f hf => by
    have := congrArg (List.map f) halike.wires
    simpa only [List.map_map, Function.comp_def, hf] using this
  refine ⟨e.redraw, he, capture_congr ?_ ?_ fun _ => ⟨?_, ?_⟩, halike.connectors, halike.borders, halike.registers,
    hplain _ fun w => ?_, hplain _ fun w => rfl, hplain _ fun w => rfl, halike.extent, tally_congr halike.wires,
    halike.toolbar, halike.widgets⟩
  · rw [map_bare_redraw, hbare]
  · rw [hrest.settings, hsettings]
  · rw [hrest.undos, hundos]
  · rw [hrest.redos, hredos]
  · show (w.cells.map Gate.plain).map _ = _
    rw [List.map_map]
    rfl

/-- Three empty wires. -/
def triple (catalog : Catalog) : Circuit Rat := { ofSettings { minQubits := 3 } with catalog }

/-- Three wires with one gate. -/
def single (catalog : Catalog) (kind : GateKind) (row : Nat) : Circuit Rat :=
  ((triple catalog).newGate kind).2.attachAt ((triple catalog).newGate kind).1 row 0

theorem intact_triple (catalog : Catalog) : (triple catalog).Intact (GateKind.Known catalog) [] := by
  have h : (ofSettings { minQubits := 3 } : Circuit Rat).Intact (GateKind.Known catalog) [] := intact_ofSettings _
  refine h.congr ?_ ?_ <;> unfold triple <;> with_reducible rfl

theorem intact_single {catalog : Catalog} {kind : GateKind} (hknown : kind.Known catalog) {row : Nat} (hrow : row < 3) :
    (single catalog kind row).Intact (GateKind.Known catalog) [] := by
  refine (intact_triple catalog).attachFirst rfl hknown (fun p hp => ?_) hrow
  exact GateKind.not_known_support catalog p (hp ▸ hknown)

/-- A catalog with one gate, on two wires. -/
def pairCatalog : Catalog where
  definitions := [{ id := "cg1", span := 2, symbol := "CG1", title := "Custom Gate #1", circuit := .empty }]
  created := 1

/-- Three empty wires. -/
def tripleStart : Circuit Rat := { ofSettings { minQubits := 3 } with catalog := pairCatalog }

/-- Three wires, with the gate on the lower two of them. -/
def pairDraft : Circuit Rat :=
  (tripleStart.newGate (.custom "cg1" 2)).2.attachAt (tripleStart.newGate (.custom "cg1" 2)).1 1 0

def pairCircuit : Circuit Rat := pairDraft.refresh

theorem known_pair : (GateKind.custom "cg1" 2).Known pairCatalog := rfl

theorem intact_tripleStart : tripleStart.Intact (GateKind.Known pairCatalog) [] := intact_triple pairCatalog

theorem intact_pairDraft : pairDraft.Intact (GateKind.Known pairCatalog) [] := intact_single known_pair (by decide)

theorem restore_capture_all_pair :
    ∃ d', ({ ofSettings {} with catalog := pairCatalog } : Circuit Rat).restore (pairCircuit.capture .all) .none =
        .ok d' ∧
      d'.capture .all = pairCircuit.capture .all ∧
      d'.connectors = pairCircuit.connectors ∧ d'.borders = pairCircuit.borders ∧ d'.registers = pairCircuit.registers ∧
      d'.wires.map (fun w => w.cells.map fun g => (g.fault, g.textured)) =
        pairCircuit.wires.map (fun w => w.cells.map fun g => (g.fault, g.textured)) ∧
      d'.wires.map Wire.pivot = pairCircuit.wires.map Wire.pivot ∧
      d'.wires.map Wire.placeholder = pairCircuit.wires.map Wire.placeholder ∧
      d'.extent = pairCircuit.extent ∧ d'.tally = pairCircuit.tally ∧ d'.toolbar = pairCircuit.toolbar ∧
      d'.widgets = pairCircuit.widgets :=
  restore_capture_all intact_pairDraft.refresh.wellFormed.toConsistent (refresh_refresh pairDraft)
    (by decide) (by decide) _ intact_pairDraft.refresh.resolves

end CircuitDesigner
