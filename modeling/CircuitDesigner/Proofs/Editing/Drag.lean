import CircuitDesigner.Proofs.Editing.Landing

/-! Drags.

    A drag starts with a spare wire under the circuit (`Spared`). While it lasts, the circuit changes in what is drawn
    and in its collapses only (`Underway`): the gates stay in their cells, whatever the pointer does. The drop takes
    the gate in hand and puts it into free cells, or nowhere, and computes the collapses anew, so that the circuit is
    intact again (`Drag.Dropped`). -/

namespace CircuitDesigner

open Circuit

variable {K : Type}

/-- The wire without its collapse. -/
def Wire.uncollapsed (w : Wire K) : Wire K := { w with pivot := none }

/-- The wire without what a drag changes. -/
def Wire.trunk (w : Wire K) : Wire K := w.core.uncollapsed

/-! ### What looks at the trunk alone -/

section Trunk

variable {c d : Circuit K} {ws vs : List (Wire K)}

theorem Wire.record_trunk (w : Wire K) (parts : Parts) : w.trunk.record parts = w.record parts := by
  simp [Wire.record, Wire.trunk, Wire.uncollapsed, Wire.core, Gate.core]

theorem Circuit.current_of_trunk (hw : d.wires.map Wire.trunk = c.wires.map Wire.trunk) (hs : d.settings = c.settings) :
    d.current = c.current := by
  have hwires : ∀ ws : List (Wire K), (ws.map fun w => w.record .timeless) =
      (ws.map Wire.trunk).map fun w => w.record .timeless := fun ws => by
    rw [List.map_map]
    exact List.map_congr_left fun w _ => (w.record_trunk .timeless).symm
  unfold current capture
  rw [hwires, hw, ← hwires, hs]
  rfl

theorem map_trunk_of_map_core (h : ws.map Wire.core = vs.map Wire.core) : ws.map Wire.trunk = vs.map Wire.trunk := by
  have := congrArg (List.map Wire.uncollapsed) h
  rwa [List.map_map, List.map_map] at this

theorem map_face_of_trunk (h : ws.map Wire.trunk = vs.map Wire.trunk) : ws.map Wire.face = vs.map Wire.face := by
  have := congrArg (List.map Wire.face) h
  rwa [List.map_map, List.map_map] at this

theorem gridOf_of_trunk (h : ws.map Wire.trunk = vs.map Wire.trunk) : gridOf ws = gridOf vs := by
  have huncollapsed : ∀ ws : List (Wire K), gridOf (ws.map Wire.uncollapsed) = gridOf ws := fun ws =>
    gridOf_congr (by rw [List.map_map]; rfl)
  rw [← huncollapsed ws, ← huncollapsed vs]
  refine gridOf_of_core ?_
  rw [List.map_map, List.map_map]
  exact h

theorem Circuit.Sound.of_trunk {P : GateKind → Prop} {hand : List GateId} (h : c.Sound P hand)
    (hw : d.wires.map Wire.trunk = c.wires.map Wire.trunk) (hn : d.nextGate = c.nextGate) : d.Sound P hand := by
  have hcells : ∀ ws : List (Wire K), (ws.map Wire.uncollapsed).map (fun w => (w.id, w.cells)) =
      ws.map fun w => (w.id, w.cells) := fun ws => by
    rw [List.map_map]
    rfl
  have hcore : ∀ ws : List (Wire K), (ws.map Wire.uncollapsed).map Wire.core = ws.map Wire.trunk := fun ws => by
    rw [List.map_map]
    rfl
  have hc : Circuit.Sound P hand { c with wires := c.wires.map Wire.uncollapsed } := h.of_cells (hcells c.wires) rfl
  have hd : Circuit.Sound P hand { d with wires := d.wires.map Wire.uncollapsed } :=
    hc.of_core (by rw [hcore, hcore, hw]) hn
  exact hd.of_cells (hcells d.wires).symm rfl

variable [Coordinate K]

theorem firstMeasurement_map_core (cells : List Gate) (ignored : Option GateId) :
    Wire.firstMeasurement (cells.map Gate.core) ignored = Wire.firstMeasurement cells ignored := by
  unfold Wire.firstMeasurement
  rw [List.findIdx?_map]
  rfl

theorem core_rescan (w : Wire K) : (w.rescan none).core = (w.trunk.rescan none).core := by
  simp only [Wire.rescan, Wire.trunk, Wire.uncollapsed, Wire.core, firstMeasurement_map_core, List.map_map]
  rfl

theorem Wire.rescan_of_collapsed {w : Wire K} (h : w.Collapsed) : w.rescan none = w := by
  unfold Wire.rescan
  rw [firstMeasurement_none, ← h]

/-- Rescanning brings back the collapses. -/
theorem map_core_rescan (h : ∀ w ∈ c.wires, w.Collapsed) (hw : d.wires.map Wire.trunk = c.wires.map Wire.trunk) :
    (d.rescan none).wires.map Wire.core = c.wires.map Wire.core := by
  have hcore : ∀ ws : List (Wire K), (ws.map fun w => w.rescan none).map Wire.core =
      (ws.map Wire.trunk).map fun w => (w.rescan none).core := fun ws => by
    rw [List.map_map, List.map_map]
    exact List.map_congr_left fun w _ => core_rescan w
  have hself : c.wires.map (fun w => w.rescan none) = c.wires := by
    conv_rhs => rw [← List.map_id c.wires]
    exact List.map_congr_left fun w hw => Wire.rescan_of_collapsed (h w hw)
  show (d.wires.map fun w => w.rescan none).map Wire.core = _
  rw [hcore, hw, ← hcore, hself]

end Trunk

theorem map_core_updateOrder (c : Circuit K) : c.updateOrder.wires.map Wire.core = c.wires.map Wire.core := by
  refine List.ext_getElem? fun r => ?_
  show ((List.zipWith _ c.wires (c.settings.endianness.placeholders c.wires.length)).map Wire.core)[r]? = _
  rw [List.getElem?_map, List.getElem?_map, List.getElem?_zipWith]
  cases hw : c.wires[r]? with
  | none => rfl
  | some w =>
    have hr := (List.getElem?_eq_some_iff.mp hw).1
    rw [List.getElem?_eq_getElem (by rwa [Endianness.length_placeholders])]
    rfl

theorem map_core_linkColumn [Coordinate K] (ignored : Option GateId) (c : Circuit K) (column : Nat) :
    (linkColumn ignored c column).wires.map Wire.core = c.wires.map Wire.core := by
  show (textureColumn c.wires column ignored _).map Wire.core = _
  unfold textureColumn
  rw [List.map_map]
  refine List.map_congr_left fun w _ => ?_
  unfold Wire.core
  dsimp only [Function.comp_apply]
  rw [map_modify_of_eq fun g => ?_]
  split
  · exact g.core_withTexture _
  · rfl

theorem map_core_drawConnectors [Coordinate K] (ignored : Option GateId) (c : Circuit K) :
    (c.drawConnectors ignored).wires.map Wire.core = c.wires.map Wire.core := by
  have hfold : ∀ (ks : List Nat) (d : Circuit K),
      (ks.foldl (linkColumn ignored) d).wires.map Wire.core = d.wires.map Wire.core := fun ks => by
    induction ks with
    | nil => exact fun _ => rfl
    | cons k ks ih => exact fun d => (ih _).trans (map_core_linkColumn ignored d k)
  exact hfold _ _

/-! ### The course of a drag -/

section Course

variable {b m : Circuit K}

/-- The circuit differs from `b` in what is drawn and in its collapses only. -/
structure Underway (b m : Circuit K) : Prop where
  trunks : m.wires.map Wire.trunk = b.wires.map Wire.trunk
  next : m.nextGate = b.nextGate
  rest : Rest b m

namespace Underway

theorem refl (b : Circuit K) : Underway b b := ⟨rfl, rfl, rfl, rfl, rfl, rfl, rfl⟩

theorem trans {c : Circuit K} (h : Underway b m) (h' : Underway m c) : Underway b c :=
  ⟨h'.trunks.trans h.trunks, h'.next.trans h.next, h.rest.trans h'.rest⟩

theorem updateOrder (c : Circuit K) : Underway c c.updateOrder :=
  ⟨map_trunk_of_map_core (map_core_updateOrder c), rfl, rfl, rfl, rfl, rfl, rfl⟩

variable [Coordinate K]

theorem drawConnectors (ignored : Option GateId) (c : Circuit K) : Underway c (c.drawConnectors ignored) := by
  have hfold : ∀ (ks : List Nat) (d : Circuit K), Underway d (ks.foldl (Circuit.linkColumn ignored) d) := fun ks => by
    induction ks with
    | nil => exact refl
    | cons k ks ih =>
      intro d
      have hlink : Underway d (Circuit.linkColumn ignored d k) :=
        ⟨map_trunk_of_map_core (map_core_linkColumn ignored d k), rfl, rfl, rfl, rfl, rfl, rfl⟩
      exact hlink.trans (ih _)
  have hclear : Underway c { c with connectors := [] } := ⟨rfl, rfl, rfl, rfl, rfl, rfl, rfl⟩
  exact hclear.trans (hfold _ _)

theorem rescan (ignored : Option GateId) (c : Circuit K) : Underway c (c.rescan ignored) := by
  refine ⟨?_, rfl, rfl, rfl, rfl, rfl, rfl⟩
  show (c.wires.map fun w => w.rescan ignored).map Wire.trunk = _
  rw [List.map_map]
  rfl

theorem preview (ignored : Option GateId) (c : Circuit K) (row : Nat) (position : K) :
    Underway c (c.modifyWire row fun w => w.preview ignored position) := by
  refine ⟨map_modify_of_eq (fun w => ?_) c.wires row, rfl, rfl, rfl, rfl, rfl, rfl⟩
  unfold Wire.preview
  split <;> rfl

theorem prepare (c : Circuit K) (id : GateId) : Underway c.addWire (Drag.prepare c id) := by
  have hdraw : Underway c.addWire ((c.addWire.extend 1).drawBorders (some id)) := ⟨rfl, rfl, rfl, rfl, rfl, rfl, rfl⟩
  exact hdraw.trans (updateOrder _)

theorem hover [Add K] [Sub K] [Mul K] [Div K] (d : Drag K) (c : Circuit K) (p : Pointer K) :
    Underway c (d.hover c p).2.2 ∧ (d.hover c p).2.1.id = d.id ∧ (d.hover c p).2.1.floating = d.floating := by
  have hdraw : Underway c ((c.rescan (some d.id)).drawConnectors (some d.id)) :=
    (rescan (some d.id) c).trans (drawConnectors (some d.id) _)
  unfold Drag.hover
  dsimp only
  split
  · exact ⟨hdraw, rfl, rfl⟩
  · split
    · split
      · exact ⟨hdraw.trans (preview _ _ _ _), rfl, rfl⟩
      · exact ⟨hdraw, rfl, rfl⟩
    · exact ⟨hdraw, rfl, rfl⟩

end Underway

variable [Coordinate K]

/-- The pointer moves from place to place. -/
def Drag.hovers [Add K] [Sub K] [Mul K] [Div K] (d : Drag K) (c : Circuit K) : List (Pointer K) → Drag K × Circuit K
  | [] => (d, c)
  | p :: ps =>
    let (_, d, c) := d.hover c p
    Drag.hovers d c ps

theorem Underway.hovers [Add K] [Sub K] [Mul K] [Div K] (d : Drag K) (c : Circuit K) (ps : List (Pointer K)) :
    Underway c (d.hovers c ps).2 ∧ (d.hovers c ps).1.id = d.id ∧ (d.hovers c ps).1.floating = d.floating := by
  induction ps generalizing d c with
  | nil => exact ⟨.refl c, rfl, rfl⟩
  | cons p ps ih =>
    obtain ⟨hhover, hid, hfloating⟩ := hover d c p
    obtain ⟨hrest, hid', hfloating'⟩ := ih (d.hover c p).2.1 (d.hover c p).2.2
    exact ⟨hhover.trans hrest, hid'.trans hid, hfloating'.trans hfloating⟩

/-- The rescan that ends a drag makes the circuit intact again. -/
theorem Underway.intact {P : GateKind → Prop} {hand : List GateId} (h : Underway b m) (hb : b.Intact P hand) :
    (m.rescan none).Intact P hand where
  toSound := hb.toSound.of_trunk ((rescan none m).trunks.trans h.trunks) h.next
  collapsed := collapsed_of_core (map_core_rescan hb.collapsed h.trunks) hb.collapsed

/-- Rescanning makes any sound circuit intact. -/
theorem Circuit.Sound.rescan {P : GateKind → Prop} {hand : List GateId} (h : m.Sound P hand) :
    (m.rescan none).Intact P hand := by
  have hcourse := Underway.rescan none m
  refine ⟨h.of_trunk hcourse.trunks hcourse.next, fun w hw => ?_⟩
  obtain ⟨v, -, rfl⟩ := List.mem_map.mp hw
  exact v.collapsed_rescan

/-- The drag takes the gate `g` in hand, which leaves the circuit `c`. -/
structure Drag.Takes (P : GateKind → Prop) (d : Drag K) (m : Circuit K) (g : Gate) (c : Circuit K) : Prop where
  take : d.take m = (some g, c)
  rest : Rest m c
  sound : c.Sound P [g.id]
  carries : ∃ f, Grid.Carries (· ≠ g.id) f (gridOf m.wires) (gridOf c.wires)
  allowed : P g.kind
  proper : ∀ p, g.kind ≠ .support p

theorem Drag.takes_of_floating {P : GateKind → Prop} {d : Drag K} {g : Gate} (hg : d.floating = some g)
    (hm : m.Sound P [g.id]) (hP : P g.kind) (hne : ∀ p, g.kind ≠ .support p) : d.Takes P m g m := by
  refine ⟨?_, ⟨rfl, rfl, rfl, rfl, rfl⟩, hm, ⟨_, .refl _⟩, hP, hne⟩
  unfold Drag.take
  rw [hg]

theorem Drag.exists_takes_of_mark {P : GateKind → Prop} {d : Drag K} {row column : Nat} {kind : GateKind}
    (hfloating : d.floating = none) (hm : m.Sound P [])
    (hmark : (gridOf m.wires).mark row column = some (.gate d.id kind)) :
    ∃ g c, d.Takes P m g c ∧ g.id = d.id ∧ g.kind = kind := by
  obtain ⟨g, c, hc, hid, rfl, hgrid, hk, hsound⟩ := hm.detach? hmark
  refine ⟨g, c, ⟨?_, hk.rest, hid ▸ hsound, ?_, hm.kinds _ _ _ _ hmark, ?_⟩, hid, rfl⟩
  · unfold Drag.take
    rw [hfloating, hc]
  · rw [hgrid, hid]
    exact ⟨_, hm.spanned.carries_clear hmark⟩
  · obtain ⟨o, -, ho⟩ := exists_cell?_of_mark hmark
    obtain ⟨-, hkind, hplaceholder⟩ := Gate.mark?_eq_gate_iff.mp ho
    exact GateKind.ne_support (hkind ▸ hplaceholder)

end Course

/-! ### The start of a drag -/

/-- What is dragged: a new gate out of the toolbox, by its kind, or a gate of the circuit. -/
inductive Drag.Source where
  | toolbox (kind : GateKind)
  | cell (id : GateId)

namespace Drag.Source

/-- The gate before it is dragged. -/
def gate? (c : Circuit K) : Source → Option Gate
  | toolbox kind => some (c.newGate kind).1
  | cell id => c.gate? id

/-- A gate that may be put into cells. One that stands in a cell has to show. -/
def Proper (P : GateKind → Prop) (c : Circuit K) : Source → Prop
  | toolbox kind => P kind ∧ ∀ p, kind ≠ .support p
  | cell id => c.isShown id = true

variable [Coordinate K]

/-- The start of a drag. -/
def start? (c : Circuit K) : Source → Option (Drag K × Circuit K)
  | toolbox kind => some (Drag.ofToolbox c kind)
  | cell id => Drag.ofPlaced? c id

end Drag.Source

/-- The circuit `b` is `c` with the idle wire `w` under it. -/
structure Spared (c b : Circuit K) (w : Wire K) : Prop where
  rest : Rest c b
  wires : b.wires = c.wires ++ [w]
  idle : w.isIdle = true
  length : w.cells.length = c.columns

theorem Spared.mark_eq {c b : Circuit K} {w : Wire K} (h : Spared c b w) (r k : Nat) :
    (gridOf b.wires).mark r k = (gridOf c.wires).mark r k := by
  show markIn b.wires r k = markIn c.wires r k
  rw [h.wires]
  exact markIn_append (Wire.isIdle_iff.mp h.idle) r k

section Start

variable [Coordinate K] {P : GateKind → Prop} {c : Circuit K}

theorem spared_addWire (c : Circuit K) : Spared c c.addWire c.freshWire.1 where
  rest := (kept_addWires c 1).rest
  wires := addWire_wires c
  idle := Wire.isIdle_iff.mpr (mark?_freshWire c)
  length := c.length_freshWire

/-- A drag starts with a spare wire, and as long as it is underway it can take its gate in hand. -/
theorem Drag.Source.exists_start {source : Source} {s : Drag K × Circuit K} (h : c.Intact P [])
    (hs : source.start? c = some s) :
    ∃ b hand w g, b.Intact P hand ∧ Spared c b w ∧ Underway b s.2 ∧ source.gate? c = some g ∧ g.id = s.1.id ∧
      (source.Proper P c → ∀ (o : Drag K) m, Underway b m → o.id = s.1.id → o.floating = s.1.floating →
        ∃ g' d, o.Takes P m g' d ∧ g'.id = g.id ∧ g'.kind = g.kind) := by
  cases source with
  | toolbox kind =>
    cases hs
    have hb := (h.newGate kind).addWires 1
    have hspared := spared_addWire (c.newGate kind).2
    refine ⟨_, _, _, (c.newGate kind).1, hb, { hspared with rest := (kept_newGate c kind).rest.trans hspared.rest },
      .prepare _ _, rfl, rfl, ?_⟩
    rintro ⟨hP, hne⟩ o m hm - hfloating
    exact ⟨_, _, Drag.takes_of_floating hfloating (hb.toSound.of_trunk hm.trunks hm.next) hP hne, rfl, rfl⟩
  | cell id =>
    obtain ⟨⟨row, column⟩, hloc, rfl⟩ := Option.map_eq_some_iff.mp hs
    obtain ⟨g, hg, rfl⟩ := exists_of_locate? hloc
    have hb := h.addWires 1
    refine ⟨_, _, _, g, hb, spared_addWire c, .prepare c g.id, (gate?_eq hloc).trans hg, rfl, ?_⟩
    intro hshown o m hm hid hfloating
    obtain ⟨row, column, g', -, hgate, hcell, -, hp⟩ := exists_of_isShown hshown
    obtain rfl : g = g' := Option.some.inj (((gate?_eq hloc).trans hg).symm.trans hgate)
    have hmark : (gridOf m.wires).mark row column = some (.gate o.id g.kind) := by
      rw [hid, gridOf_of_trunk hm.trunks]
      show (gridOf (c.addWires 1).wires).mark row column = some (.gate g.id g.kind)
      rw [(shows_addWires h.shows 1).eq_gridOf]
      exact gate_of_cell? hcell hp
    obtain ⟨g', d, htakes, hid', hkind⟩ :=
      Drag.exists_takes_of_mark hfloating (hb.toSound.of_trunk hm.trunks hm.next) hmark
    exact ⟨g', d, htakes, hid'.trans hid, hkind⟩

end Start

/-! ### The end of a drag -/

section End

variable {P : GateKind → Prop} {d : Drag Rat} {m c : Circuit Rat} {g : Gate}

/-- A gate is put at a placement: into free cells of a column, or of a new one. -/
structure Grid.Lands (G : Grid) (g : Gate) (target : Placement Rat) (H : Grid) : Prop where
  position : Coordinate.isWhole target.position = false ∨ ∃ n : Nat, target.position = n
  free : (G.openColumn (!Coordinate.isWhole target.position) (Coordinate.column target.position G.columns)).Free
    target.row (Coordinate.column target.position G.columns) g.span
  eq : H = (G.openColumn (!Coordinate.isWhole target.position) (Coordinate.column target.position G.columns)).put g
    target.row (Coordinate.column target.position G.columns)

theorem Grid.Lands.carries {G H : Grid} {target : Placement Rat} (h : G.Lands g target H) :
    ∃ f, Grid.Carries (· ≠ g.id) f G H :=
  ⟨_, h.eq ▸ (Grid.carries_openColumn G _ _).trans (Grid.carries_put h.free)⟩

theorem Grid.Lands.exists_mark {G H : Grid} {target : Placement Rat} (h : G.Lands g target H) :
    ∃ k, H.mark target.row k = g.mark? := by
  rw [h.eq]
  exact ⟨Coordinate.column target.position G.columns, by simp [Grid.put]⟩

/-- A gate in hand is put into free cells, or nowhere. -/
theorem release_cases (h : c.Sound P [g.id]) (hP : P g.kind) (hne : ∀ p, g.kind ≠ .support p) (p : Pointer Rat) :
    Drag.release c p (some g) = none ∨
      ∃ target e, Drag.release c p (some g) = some (target, e) ∧ Rest c e ∧ e.Sound P [] ∧
        (gridOf c.wires).Lands g target (gridOf e.wires) := by
  unfold Drag.release
  simp only [Option.bind_eq_bind, Option.bind_some]
  cases hlocal : Drag.localize c p g with
  | none => exact .inl rfl
  | some target =>
    have hfree := free_of_localize h.shows h.spanned h.usesIn_hand hlocal
    obtain ⟨hrow, n, hposition⟩ := exists_of_localize hlocal
    obtain ⟨e, he, hk, hsound, hgrid⟩ := h.exists_attach? hP hne hrow target.position hfree
    rw [Option.bind_some, he]
    exact .inr ⟨target, e, rfl, hk.rest, hsound, hposition.imp_right fun h => ⟨n, h.1⟩, hfree, hgrid⟩

/-- A gate that reaches no further than the last wire adds none. -/
theorem map_face_of_release {p : Pointer Rat} {target : Placement Rat} {e : Circuit Rat}
    (he : Drag.release c p (some g) = some (target, e)) (hrow : target.row + g.span ≤ c.wires.length) :
    e.wires.map Wire.face = c.wires.map Wire.face := by
  obtain ⟨target', -, he⟩ := Option.bind_eq_some_iff.mp he
  obtain ⟨d, hd, he⟩ := Option.bind_eq_some_iff.mp he
  cases he
  unfold attach? at hd
  split at hd
  · cases hd
    exact map_face_put hrow
  · cases hd

/-- What a drop makes of the circuit before it is refreshed: the gate shows in the row to which the pointer led, or it
    is in no cell, and all others are carried along. -/
structure Drag.Dropped (P : GateKind → Prop) (g : Gate) (m e : Circuit Rat) (placement : Option (Placement Rat)) :
    Prop where
  intact : e.Intact P []
  rest : Rest m e
  carries : ∃ f, Grid.Carries (· ≠ g.id) f (gridOf m.wires) (gridOf e.wires)
  landed : ∀ target ∈ placement, ∃ k, (gridOf e.wires).mark target.row k = g.mark?
  gone : placement = none → e.Sound P [g.id]

/-- After a drop the gate is at its new place or is gone, and the circuit is intact. -/
theorem exists_drop (h : d.Takes P m g c) (p : Pointer Rat) :
    ∃ e, (d.drop m p).2 = ((e.saveState? m.current).getD e).refresh ∧ Drag.Dropped P g m e (d.drop m p).1 := by
  have hgrid : ∀ e : Circuit Rat, gridOf (e.rescan none).wires = gridOf e.wires := fun e =>
    gridOf_of_trunk (Underway.rescan none e).trunks
  unfold Drag.drop
  rw [h.take]
  dsimp only
  rcases release_cases h.sound h.allowed h.proper p with hnone | ⟨target, e, he, hrest, hsound, hlands⟩
  · rw [hnone]
    refine ⟨c.rescan none, rfl, h.sound.rescan.discard, h.rest.trans (Underway.rescan none c).rest, ?_, nofun, ?_⟩
    · rw [hgrid]
      exact h.carries
    · exact fun _ => h.sound.rescan.toSound
  · rw [he]
    refine ⟨e.rescan none, rfl, hsound.rescan, (h.rest.trans hrest).trans (Underway.rescan none e).rest, ?_, ?_, nofun⟩
    · rw [hgrid]
      obtain ⟨f, hf⟩ := h.carries
      obtain ⟨f', hf'⟩ := hlands.carries
      exact ⟨_, hf.trans hf'⟩
    · rw [hgrid]
      rintro _ ⟨⟩
      exact hlands.exists_mark

/-- What a drag from start to end makes of the circuit: the drop saves the state with the spare wire, if any. -/
theorem Drag.Source.exists_dropped {source : Source} {s : Drag Rat × Circuit Rat} (h : c.Intact P [])
    (hs : source.start? c = some s) (hproper : source.Proper P c) (hovers : List (Pointer Rat)) (p : Pointer Rat) :
    ∃ b hand w e g g', b.Intact P hand ∧ Spared c b w ∧
      ((s.1.hovers s.2 hovers).1.drop (s.1.hovers s.2 hovers).2 p).2 = ((e.saveState? b.current).getD e).refresh ∧
      source.gate? c = some g ∧ g'.id = g.id ∧ g'.kind = g.kind ∧
      Drag.Dropped P g' b e ((s.1.hovers s.2 hovers).1.drop (s.1.hovers s.2 hovers).2 p).1 := by
  obtain ⟨b, hand, w, g, hb, hspared, hstart, hgate, -, htakes⟩ := exists_start h hs
  obtain ⟨hhovers, hid, hfloating⟩ := Underway.hovers s.1 s.2 hovers
  have hunder := hstart.trans hhovers
  obtain ⟨g', c', htake, hid', hkind⟩ := htakes hproper _ _ hunder hid hfloating
  obtain ⟨e, he, hdropped⟩ := exists_drop htake p
  refine ⟨b, hand, w, e, g, g', hb, hspared, ?_, hgate, hid', hkind, ?_⟩
  · rw [he, current_of_trunk hunder.trunks hunder.rest.settings]
  · have hgrid := gridOf_of_trunk hunder.trunks
    exact { hdropped with rest := hunder.rest.trans hdropped.rest, carries := hgrid ▸ hdropped.carries }

end End

end CircuitDesigner
