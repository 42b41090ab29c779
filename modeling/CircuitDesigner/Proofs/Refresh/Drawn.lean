import CircuitDesigner.Proofs.Refresh.Settled

/-! # Drawn circuits

A circuit is drawn if all that is stored beside its grid, and the faults, appearances and ordinals on it, are what
drawing makes of its wires (`Circuit.Drawn`). A refresh leaves a circuit alone (`Circuit.Still`) just if it is drawn and
of minimal size. An operation that computes only a part anew keeps the rest drawn if it changes the kinds of gates in
ways that drawing does not notice (`Drawn.recast`). -/

namespace CircuitDesigner

open Circuit

variable {K : Type} [Coordinate K]

/-- What is stored beside the grid and on its gates is what drawing makes of the wires. -/
structure Circuit.Drawn (c : Circuit K) : Prop where
  cells : drawnWires c.wires = c.wires
  labels : c.wires.map Wire.placeholder = c.settings.endianness.placeholders c.wires.length
  connectors : c.connectors = (List.range c.columns).flatMap fun k => (Layout.columnLinks c.wires k none).connectors
  borders : c.borders = (List.range c.columns).filterMap fun k => Layout.columnBorder c.wires k none
  registers : c.registers = Layout.registers c.wires
  toolbar : c.toolbar = Toolbar.derive c.tally c.undos.length c.redos.length c.isEmpty
  widgets : c.widgets = Widgets.derive c.wires.length c.columns c.tally c.settings
  extent : c.extent = c.columns

/-- A refresh changes nothing. -/
def Circuit.Still (c : Circuit K) : Prop := c.refresh = c

/-! ### Gates and wires -/

section Wires

variable {ws : List (Wire K)} {w : Wire K} {g : Gate} {k : Nat}

theorem Wire.getElem?_drawn (ws : List (Wire K)) (w : Wire K) (k : Nat) : (w.drawn ws).cells[k]? =
    (w.cells[k]?).map fun g => (g.dressed (controlled ws k)).judged (w.bitAt k) (swapCount ws k) :=
  List.getElem?_mapIdx

theorem drawnWires_eq_self_iff : drawnWires ws = ws ↔ ∀ w ∈ ws, ∀ k (g : Gate), w.cells[k]? = some g →
    (g.dressed (controlled ws k)).judged (w.bitAt k) (swapCount ws k) = g := by
  have hwire : ∀ w : Wire K, w.drawn ws = w ↔ (w.drawn ws).cells = w.cells :=
    fun w => ⟨fun h => congrArg Wire.cells h, fun h => congrArg (fun cells => { w with cells }) h⟩
  unfold drawnWires
  conv_lhs => rhs; rw [← List.map_id' ws]
  rw [List.map_inj_left]
  refine forall₂_congr fun w _ => ?_
  rw [hwire, List.ext_getElem?_iff]
  refine forall_congr' fun k => ?_
  rw [Wire.getElem?_drawn]
  cases w.cells[k]? <;> simp

theorem Circuit.Drawn.gate {c : Circuit K} (h : c.Drawn) (hw : w ∈ c.wires) (hg : w.cells[k]? = some g) :
    (g.dressed (controlled c.wires k)).judged (w.bitAt k) (swapCount c.wires k) = g :=
  drawnWires_eq_self_iff.mp h.cells w hw k g hg

end Wires

/-! ### Circuits -/

section Circuits

variable {c : Circuit K}

omit [Coordinate K] in
theorem zipWith_labelled_placeholders (ws : List (Wire K)) :
    List.zipWith (fun w label => w.labelled label) ws (ws.map Wire.placeholder) = ws := by
  rw [List.zipWith_map_right, List.zipWith_self]
  exact List.map_id' ws

omit [Coordinate K] in
theorem map_placeholder_zipWith {ws : List (Wire K)} {labels : List String} (h : labels.length = ws.length) :
    (List.zipWith (fun w label => w.labelled label) ws labels).map Wire.placeholder = labels := by
  calc (List.zipWith (fun w label => w.labelled label) ws labels).map Wire.placeholder
      = (ws.zip labels).map Prod.snd := by rw [List.map_zipWith, List.zip, List.map_zipWith]; rfl
    _ = labels := List.map_snd_zip (Nat.le_of_eq h)

theorem drawnTally_of_drawn (h : drawnWires c.wires = c.wires) : drawnTally c.wires = c.tally := by
  rw [drawnTally, h, tally]

theorem drawnWires_of_redraw (h : c.redraw = c) : drawnWires c.wires = c.wires := by
  have hwires := congrArg Circuit.wires h
  rw [redraw_eq] at hwires
  rw [drawnWires_eq_self_iff]
  intro w hw k g hg
  obtain ⟨r, hr⟩ := List.getElem?_of_mem hw
  obtain ⟨v, label, hv, -, rfl⟩ := List.getElem?_zipWith_eq_some.mp (hwires ▸ hr)
  rw [drawnWires, List.getElem?_map, hr, Option.map_some] at hv
  have hcell := Wire.getElem?_drawn c.wires (v.labelled label) k
  have hcells : ((v.labelled label).drawn c.wires).cells = v.cells := congrArg Wire.cells (Option.some.inj hv)
  rw [hcells, show v.cells[k]? = some g from hg, hg] at hcell
  exact (Option.some.inj hcell).symm

theorem redraw_eq_self_iff : c.redraw = c ↔ c.Drawn := by
  constructor
  · intro h
    have hcells := drawnWires_of_redraw h
    have hlength : (c.settings.endianness.placeholders c.wires.length).length = (drawnWires c.wires).length := by
      rw [Endianness.length_placeholders, hcells]
    have hstored := redraw_eq c
    rw [h, drawnTally_of_drawn hcells] at hstored
    exact
      { cells := hcells
        labels := by
          conv_lhs => rw [hstored]
          exact map_placeholder_zipWith hlength
        connectors := congrArg Circuit.connectors hstored
        borders := congrArg Circuit.borders hstored
        registers := congrArg Circuit.registers hstored
        toolbar := congrArg Circuit.toolbar hstored
        widgets := congrArg Circuit.widgets hstored
        extent := congrArg Circuit.extent hstored }
  · intro h
    rw [redraw_eq, drawnTally_of_drawn h.cells, h.cells, ← h.labels, zipWith_labelled_placeholders, ← h.connectors,
      ← h.borders, ← h.registers, ← h.toolbar, ← h.widgets, ← h.extent]

theorem still_iff : c.Still ↔ c.Compact ∧ c.Drawn := by
  constructor
  · intro h
    have hcompact : c.Compact := h ▸ compact_refresh c
    have hdrawn : c.redraw = c := by
      rw [Still, refresh_eq, hcompact.minimize] at h
      exact h
    exact ⟨hcompact, redraw_eq_self_iff.mp hdrawn⟩
  · rintro ⟨hcompact, hdrawn⟩
    rw [Still, refresh_eq, hcompact.minimize, redraw_eq_self_iff.mpr hdrawn]

theorem still_refresh (c : Circuit K) : c.refresh.Still := refresh_refresh c

theorem drawn_refresh (c : Circuit K) : c.refresh.Drawn := (still_iff.mp (still_refresh c)).2

theorem Circuit.Drawn.alike {d : Circuit K} (h : c.Drawn) (h' : d.Drawn)
    (hw : c.wires.map Wire.bare = d.wires.map Wire.bare) (hs : c.settings = d.settings)
    (hu : c.undos.length = d.undos.length) (hr : c.redos.length = d.redos.length) : c.Alike d := by
  have halike := alike_redraw hw hs hu hr
  rwa [redraw_eq_self_iff.mpr h, redraw_eq_self_iff.mpr h'] at halike

end Circuits

/-! ### Other kinds -/

section Recast

variable {f : GateKind → GateKind} (hf : GateKind.Faithful f) {c d : Circuit K} {vs ws : List (Wire K)}

/-- What is drawn over the grid is the same. -/
structure Circuit.Overlaid (c d : Circuit K) : Prop where
  connectors : d.connectors = c.connectors
  borders : d.borders = c.borders
  registers : d.registers = c.registers
  extent : d.extent = c.extent

include hf

theorem controlled_recast (hw : vs.map (Wire.recast f) = ws.map (Wire.recast f)) (k : Nat) :
    controlled vs k = controlled ws k := by
  rw [controlled, ← hf.columnLinks, hw, hf.columnLinks, controlled]

omit [Coordinate K] in
theorem swapCount_recast (hw : vs.map (Wire.recast f) = ws.map (Wire.recast f)) (k : Nat) :
    swapCount vs k = swapCount ws k := by
  rw [← hf.swapCount, hw, hf.swapCount]

/-- Where drawing does not notice that kinds were changed, the old drawing will do. -/
theorem Circuit.Drawn.recast (h : c.Drawn) (hw : d.wires.map (Wire.recast f) = c.wires.map (Wire.recast f))
    (hover : Overlaid c d) (hcells : drawnWires d.wires = d.wires)
    (hlabels : d.wires.map Wire.placeholder = d.settings.endianness.placeholders d.wires.length)
    (htoolbar : d.toolbar = Toolbar.derive d.tally d.undos.length d.redos.length d.isEmpty)
    (hwidgets : d.widgets = Widgets.derive d.wires.length d.columns d.tally d.settings) : d.Drawn := by
  have hcolumns : d.columns = c.columns := by
    rw [columns, ← columnsOf_map_recast f, hw, columnsOf_map_recast, columns]
  have hlinks : ∀ k, Layout.columnLinks d.wires k none = Layout.columnLinks c.wires k none := fun k => by
    rw [← hf.columnLinks, hw, hf.columnLinks]
  have hborders : ∀ k, Layout.columnBorder d.wires k none = Layout.columnBorder c.wires k none := fun k => by
    rw [← hf.columnBorder, hw, hf.columnBorder]
  have hregisters : Layout.registers d.wires = Layout.registers c.wires := by
    rw [← GateKind.Faithful.registers (f := f), hw, GateKind.Faithful.registers]
  refine ⟨hcells, hlabels, ?_, ?_, ?_, htoolbar, hwidgets, ?_⟩
  · simp only [hcolumns, hlinks]
    exact hover.connectors.trans h.connectors
  · simp only [hcolumns, hborders]
    exact hover.borders.trans h.borders
  · exact hover.registers.trans (h.registers.trans hregisters.symm)
  · exact hover.extent.trans (h.extent.trans hcolumns.symm)

end Recast

end CircuitDesigner
