import CircuitDesigner.Circuit.Snapshot
import CircuitDesigner.Proofs.Refresh.Compact

/-! Refreshed circuits.

    A refresh keeps a circuit sound and makes it minimal. A circuit that a refresh does not change is settled; it is
    minimal, and a circuit that is minimal is only drawn anew. -/

namespace CircuitDesigner

open Circuit

variable {K : Type}

/-! ### Templates -/

theorem GateKind.stamp_plain (kind : GateKind) : kind.plain.stamp = kind.stamp := by cases kind <;> rfl

theorem Wire.record_bare (w : Wire K) (parts : Parts) : w.bare.record parts = w.record parts := by
  unfold Wire.record Wire.bare
  simp [Gate.bare, GateKind.stamp_plain]

/-- A template is taken of bare wires, settings and history. -/
theorem Circuit.capture_congr {c d : Circuit K} (hw : c.wires.map Wire.bare = d.wires.map Wire.bare)
    (hs : c.settings = d.settings) {parts : Parts}
    (hh : parts.history = true → c.undos = d.undos ∧ c.redos = d.redos) : c.capture parts = d.capture parts := by
  have hwires : ∀ ws : List (Wire K), (ws.map fun w => w.record parts) =
      (ws.map Wire.bare).map fun w => w.record parts := fun ws => by
    rw [List.map_map]
    exact List.map_congr_left fun w _ => (w.record_bare parts).symm
  unfold capture
  rw [hwires, hw, ← hwires, hs]
  by_cases hhistory : parts.history = true
  · rw [(hh hhistory).1, (hh hhistory).2]
  · rw [if_neg hhistory, if_neg hhistory, if_neg hhistory, if_neg hhistory]

theorem Circuit.current_congr {c d : Circuit K} (hw : c.wires.map Wire.bare = d.wires.map Wire.bare)
    (hs : c.settings = d.settings) : c.current = d.current :=
  capture_congr hw hs fun h => by cases h

/-! ### Refreshing -/

section Refresh

variable {P : GateKind → Prop} {hand : List GateId} {c d : Circuit K}

theorem Circuit.Sound.of_core (h : c.Sound P hand) (hw : d.wires.map Wire.core = c.wires.map Wire.core)
    (hn : d.nextGate = c.nextGate) : d.Sound P hand where
  shows := shows_of_core hw h.shows
  spanned := gridOf_of_core hw ▸ h.spanned
  kinds := gridOf_of_core hw ▸ h.kinds
  numbered i := by
    rw [usesIn_of_core hw, hn]
    exact h.numbered i
  owned := owned_of_core hw h.owned

variable [Coordinate K]

/-- What a refresh keeps of the rest of the circuit. -/
structure Circuit.Rest (c d : Circuit K) : Prop where
  settings : d.settings = c.settings
  undos : d.undos = c.undos
  redos : d.redos = c.redos
  catalog : d.catalog = c.catalog
  geometry : d.geometry = c.geometry

omit [Coordinate K] in
theorem Circuit.Rest.trans {b c d : Circuit K} (h : Rest b c) (h' : Rest c d) : Rest b d where
  settings := h'.settings.trans h.settings
  undos := h'.undos.trans h.undos
  redos := h'.redos.trans h.redos
  catalog := h'.catalog.trans h.catalog
  geometry := h'.geometry.trans h.geometry

theorem Kept.rest (h : Kept c d) : Rest c d := ⟨h.settings, h.undos, h.redos, h.catalog, h.geometry⟩

theorem rest_redraw (c : Circuit K) : Rest c c.redraw := by
  rw [redraw_eq]
  exact ⟨rfl, rfl, rfl, rfl, rfl⟩

theorem rest_refresh (c : Circuit K) : Rest c c.refresh := by
  rw [refresh_eq]
  exact c.kept_minimize.rest.trans (rest_redraw _)

theorem settings_ofSettings (s : Settings) : (ofSettings s : Circuit K).settings = s :=
  (rest_refresh _).settings.trans (kept_addWires _ s.minQubits).settings

theorem undos_ofSettings (s : Settings) : (ofSettings s : Circuit K).undos = [] :=
  (rest_refresh _).undos.trans (kept_addWires _ s.minQubits).undos

theorem redos_ofSettings (s : Settings) : (ofSettings s : Circuit K).redos = [] :=
  (rest_refresh _).redos.trans (kept_addWires _ s.minQubits).redos

theorem catalog_ofSettings (s : Settings) : (ofSettings s : Circuit K).catalog = {} :=
  (rest_refresh _).catalog.trans (kept_addWires _ s.minQubits).catalog

theorem nextGate_redraw (c : Circuit K) : c.redraw.nextGate = c.nextGate := by
  rw [redraw_eq]

theorem current_redraw (c : Circuit K) : c.redraw.current = c.current :=
  current_congr (map_bare_redraw c) (rest_redraw c).settings

namespace Circuit.Sound

theorem redraw (h : c.Sound P hand) : c.redraw.Sound P hand := h.of_core (map_core_redraw c) (nextGate_redraw c)

theorem refresh (h : c.Sound P hand) : c.refresh.Sound P hand := h.minimize.redraw

end Circuit.Sound

theorem minimal_refresh {G : Grid} (h : Shows c.wires G) : (gridOf c.refresh.wires).Minimal c.settings.minQubits := by
  rw [refresh_eq, gridOf_of_core (map_core_redraw c.minimize)]
  exact minimal_minimize h

theorem exists_carries_refresh {G : Grid} (h : Shows c.wires G) (Q : GateId → Prop) :
    ∃ f, Grid.Carries Q f G (gridOf c.refresh.wires) := by
  rw [refresh_eq, gridOf_of_core (map_core_redraw c.minimize)]
  exact exists_carries_minimize h Q

theorem collapsed_refresh (h : ∀ w ∈ c.wires, w.Collapsed) : ∀ w ∈ c.refresh.wires, w.Collapsed :=
  collapsed_of_core (map_core_redraw c.minimize) (c.kept_minimize.closed Wire.closed_collapsed h)

theorem Circuit.Intact.refresh (h : c.Intact P hand) : c.refresh.Intact P hand :=
  ⟨h.toSound.refresh, collapsed_refresh h.collapsed⟩

theorem intact_ofSettings (settings : Settings) : (ofSettings settings : Circuit K).Intact P [] :=
  ((Circuit.Intact.of_nil rfl).addWires settings.minQubits).refresh

/-- A minimal circuit is drawn anew and keeps its cells. -/
theorem refresh_of_minimal (h : Shows c.wires (gridOf c.wires)) (hm : (gridOf c.wires).Minimal c.settings.minQubits) :
    c.refresh = c.redraw := by
  rw [refresh_eq, minimize_eq_self h hm]

omit [Coordinate K] in
theorem Gate.ext_core {g h : Gate} (heq : g.core = h.core) (hfault : g.fault = h.fault)
    (htextured : g.textured = h.textured) : g = h := by
  obtain ⟨id, kind, owner, fault, textured, hg⟩ := g
  obtain ⟨id', kind', owner', fault', textured', hh⟩ := h
  simp only [Gate.core] at heq
  obtain ⟨rfl, rfl, rfl⟩ := heq
  cases hfault
  cases htextured
  rfl

/-- What a gate looks like is drawn anew, whatever it was. -/
theorem Gate.drawn_core (g : Gate) (controlled onBit : Bool) (swaps : Nat) :
    (g.core.dressed controlled).judged onBit swaps = (g.dressed controlled).judged onBit swaps := by
  have hkind : (g.core.dressed controlled).kind = (g.dressed controlled).kind := by
    rw [Gate.kind_dressed, Gate.kind_dressed]
    rfl
  have hjudged : ∀ o : Gate, (o.judged onBit swaps).textured = o.textured := fun o => by
    unfold Gate.judged
    split <;> rfl
  refine Gate.ext_core ?_ ?_ ?_
  · simp only [Gate.core_judged, Gate.core_dressed]
    rfl
  · unfold Gate.judged
    rw [hkind]
    split <;> simp [Gate.flagged, Gate.inspected, hkind]
  · rw [hjudged, hjudged, Gate.textured_dressed, Gate.textured_dressed]
    rfl

theorem Wire.drawn_core (ws : List (Wire K)) (w : Wire K) (label : String) :
    (w.core.drawn (ws.map Wire.core)).labelled label = (w.drawn ws).labelled label := by
  have hcore : ∀ v : Wire K, v.core.core = v.core := fun v => by
    simp only [Wire.core, List.map_map]
    rfl
  have hbare : (ws.map Wire.core).map Wire.bare = ws.map Wire.bare := map_bare_map hcore ws
  have hcontrolled : ∀ k, controlled (ws.map Wire.core) k = controlled ws k := fun k => by
    unfold controlled
    rw [← Layout.columnLinks_bare, hbare, Layout.columnLinks_bare]
  have hcount : ∀ k, swapCount (ws.map Wire.core) k = swapCount ws k := fun k => by
    rw [← swapCount_bare, hbare, swapCount_bare]
  simp only [Wire.drawn, Wire.labelled, Wire.core, hcontrolled, hcount]
  congr 1
  refine List.ext_getElem? fun k => ?_
  rw [List.getElem?_mapIdx, List.getElem?_map, List.getElem?_mapIdx]
  cases w.cells[k]? with
  | none => rfl
  | some g => exact congrArg some (g.drawn_core _ _ _)

theorem map_drawnWires_congr {vs ws : List (Wire K)} (h : vs.map Wire.core = ws.map Wire.core) (labels : List String) :
    List.zipWith (fun w label => w.labelled label) (drawnWires vs) labels =
      List.zipWith (fun w label => w.labelled label) (drawnWires ws) labels := by
  have hcore : ∀ ws : List (Wire K), List.zipWith (fun w label => w.labelled label) (drawnWires ws) labels =
      List.zipWith (fun w label => (w.drawn (ws.map Wire.core)).labelled label) (ws.map Wire.core) labels := by
    intro ws
    rw [drawnWires, List.zipWith_map_left, List.zipWith_map_left]
    simp only [Wire.drawn_core]
  rw [hcore, h, ← hcore]

/-- What is drawn depends on the cores of the wires, and on what is stored beside the grid. -/
theorem redraw_congr (hw : d.wires.map Wire.core = c.wires.map Wire.core) (hrest : Rest c d) :
    d.redraw = { c.redraw with nextGate := d.nextGate, nextWire := d.nextWire } := by
  have hbare := map_bare_of_map_core hw
  have halike := alike_redraw hbare hrest.settings (by rw [hrest.undos]) (by rw [hrest.redos])
  obtain ⟨-, -, hconnectors, hborders, hregisters, htoolbar, hwidgets, hextent⟩ := halike
  rw [redraw_eq, redraw_eq] at hconnectors hborders hregisters htoolbar hwidgets hextent
  dsimp only at hconnectors hborders hregisters htoolbar hwidgets hextent
  rw [redraw_eq, redraw_eq, hconnectors, hborders, hregisters, htoolbar, hwidgets, hextent,
    map_drawnWires_congr hw, length_of_map_bare hbare, hrest.settings, hrest.undos, hrest.redos, hrest.catalog,
    hrest.geometry]

theorem redraw_redraw (c : Circuit K) : c.redraw.redraw = c.redraw := redraw_congr (map_core_redraw c) (rest_redraw c)

theorem compact_refresh (c : Circuit K) : c.refresh.Compact := by
  rw [refresh_eq]
  exact (compact_minimize c).of_bare (map_bare_redraw _) (rest_redraw _).settings

/-- A refreshed circuit is settled. -/
theorem refresh_refresh (c : Circuit K) : c.refresh.refresh = c.refresh := by
  calc c.refresh.refresh = c.refresh.minimize.redraw := refresh_eq _
    _ = c.refresh.redraw := by rw [(compact_refresh c).minimize]
    _ = c.minimize.redraw.redraw := by rw [refresh_eq]
    _ = c.minimize.redraw := redraw_redraw _
    _ = c.refresh := (refresh_eq c).symm

/-- A refresh of any circuit leaves nothing to drop and no wire to add, and a second one changes nothing at all. -/
theorem refresh_idempotent (c : Circuit K) : c.refresh.Compact ∧ c.refresh.refresh = c.refresh :=
  ⟨compact_refresh c, refresh_refresh c⟩

theorem minimal_of_settled {G : Grid} (h : Shows c.wires G) (hc : c.refresh = c) :
    (gridOf c.wires).Minimal c.settings.minQubits := by
  have := minimal_refresh h
  rwa [hc] at this

end Refresh

end CircuitDesigner
