import CircuitDesigner.Proofs.Editing.Drop

/-! Where a hover shows that the gate would go.

    A hover localizes while the dragged gate is still in its cells, a drop after it has left them. Both look at the
    same row and column, and go before the column if it is blocked there (`localize_eq_or`). A gate blocks neither its
    own cell nor those it covers, with one exception: of the rows below the pointer, localizing asks only whether a
    gate shows in them, and this may be the dragged gate itself. So a hover shows what a drop does, unless the gate is
    moved up in its column to a row from which it would reach the one where it stands (`hover_eq_drop`). -/

namespace CircuitDesigner

open Circuit

/-! ### Blocked columns -/

namespace Grid

variable {G : Grid} {row column r k span : Nat} {id : GateId} {kind : GateKind}

/-- A gate `id` of span `span` cannot go to the cell: it shows another gate or is covered by one, or a gate shows in one
    of the cells below that would be covered. -/
def Blocked (G : Grid) (id : GateId) (span row column : Nat) : Prop :=
  (∃ m, G.mark row column = some m ∧ m.owner ≠ id) ∨
    ∃ r i kind, row < r ∧ r < row + span ∧ G.mark r column = some (.gate i kind)

/-- Of the places that are blocked, a gate that leaves frees those from which it would reach its own cell, at most. -/
theorem Spanned.blocked_clear (h : G.Spanned) (hu : G.Unique) (hm : G.mark row column = some (.gate id kind))
    (span r k : Nat) :
    ((G.clear row column kind.span).Blocked id span r k → G.Blocked id span r k) ∧
      (G.Blocked id span r k → ¬(G.clear row column kind.span).Blocked id span r k →
        k = column ∧ r < row ∧ row < r + span) := by
  have hsub := sub_clear G row column kind.span
  constructor
  · rintro (⟨m, hm', hne⟩ | ⟨q, i, kind', hlt, hlt', hm'⟩)
    · exact .inl ⟨m, hsub.marks hm', hne⟩
    · exact .inr ⟨q, i, kind', hlt, hlt', hsub.marks hm'⟩
  · rintro (⟨m, hm', hne⟩ | ⟨q, i, kind', hlt, hlt', hm'⟩) hfree
    · exact absurd (.inl ⟨m, h.mark_clear hm hm' hne, hne⟩) hfree
    · by_cases hi : i = id
      · subst hi
        obtain ⟨rfl, rfl⟩ := hu hm hm'
        exact ⟨rfl, hlt, hlt'⟩
      · exact absurd (.inr ⟨q, i, kind', hlt, hlt', h.mark_clear hm hm' hi⟩) hfree

end Grid

/-! ### Localizing -/

section Localize

variable {K : Type}

/-- A gate goes before the column, whichever half of it the pointer is in. -/
def Pointer.isBlocked (wires : List (Wire K)) (dragged : Gate) (row column : Nat) : Bool :=
  (((wires.drop (row + 1)).take (dragged.span - 1)).any fun w => isShown w column) ||
    (wires[row]?).any fun w => isTaken dragged w column

/-- The placement at a column, or before it. -/
def Placement.beside (row column : Nat) (before : Bool) : Placement Rat :=
  ⟨row, if before then column - Coordinate.half else column⟩

/-- Two placements for one pointer are the same, unless just one of them finds its column blocked. -/
theorem localize_eq_or {vs ws : List (Wire Rat)} (hlength : vs.length = ws.length) (geometry : Geometry Rat)
    (g h : Gate) (p : Pointer Rat) : p.localize geometry vs g = p.localize geometry ws h ∨
      ∃ row column, Pointer.isBlocked vs g row column ≠ Pointer.isBlocked ws h row column ∧
        p.localize geometry vs g = some (.beside row column (Pointer.isBlocked vs g row column)) ∧
        p.localize geometry ws h = some (.beside row column (Pointer.isBlocked ws h row column)) := by
  unfold Pointer.localize
  rw [hlength]
  cases p.row? geometry ws.length with
  | none => exact .inl rfl
  | some row =>
    dsimp only [Option.bind_eq_bind, Option.bind_some]
    split
    · exact .inl rfl
    · rename_i hpos
      generalize p.x - (geometry.left + geometry.wireOffset) = offset at hpos ⊢
      obtain ⟨column, hindex, hcolumn⟩ := exists_floor_eq (by simpa only [Bool.or_eq_true] using hpos)
      rw [hindex, hcolumn]
      cases Coordinate.lt offset (((column : Rat) + Coordinate.half) * geometry.step) with
      | true => exact .inl (by simp only [Bool.true_or])
      | false =>
        simp only [Bool.false_or]
        rw [← Pointer.isBlocked, ← Pointer.isBlocked]
        by_cases hsame : Pointer.isBlocked vs g row column = Pointer.isBlocked ws h row column
        · exact .inl (by rw [hsame])
        · exact .inr ⟨row, column, hsame, rfl, rfl⟩

variable {ws : List (Wire Rat)} {G : Grid} {g : Gate} {row k : Nat}

theorem isTaken_iff {w : Wire K} (hself : ∀ o ∈ w.cells, o.id = g.id → o.kind.isPlaceholder = false) :
    Pointer.isTaken g w k = true ↔ ∃ m, w.mark? k = some m ∧ m.owner ≠ g.id := by
  unfold Pointer.isTaken Wire.mark?
  cases ho : w.cells[k]? with
  | none => simp
  | some o =>
    simp only [Option.any_some, Option.bind_some, Bool.not_eq_true', Bool.or_eq_false_iff, beq_eq_false_iff_ne]
    constructor
    · rintro ⟨⟨hinertia, hsupports⟩, hid⟩
      cases hm : o.mark? with
      | none => exact absurd (Gate.mark?_eq_none_iff.mp hm) (Bool.eq_false_iff.mp hinertia)
      | some m =>
        refine ⟨m, rfl, ?_⟩
        cases m with
        | gate i kind => exact (Gate.mark?_eq_gate_iff.mp hm).1 ▸ hid
        | cover parent =>
          rintro rfl
          exact beq_eq_false_iff_ne.mp hsupports (Gate.mark?_eq_cover_iff.mp hm)
    · rintro ⟨m, hm, hne⟩
      have hinertia := Gate.isInertia_of_mark? hm
      cases m with
      | gate i kind =>
        obtain ⟨rfl, rfl, hp⟩ := Gate.mark?_eq_gate_iff.mp hm
        exact ⟨⟨hinertia, beq_eq_false_iff_ne.mpr (GateKind.ne_support hp _)⟩, hne⟩
      | cover parent =>
        have hkind := Gate.mark?_eq_cover_iff.mp hm
        refine ⟨⟨hinertia, ?_⟩, fun hid => ?_⟩
        · refine beq_eq_false_iff_ne.mpr fun heq => ?_
          rw [hkind] at heq
          cases heq
          exact hne rfl
        · have := hself o (List.mem_of_getElem? ho) hid
          rw [hkind] at this
          cases this

theorem isShown_iff {w : Wire K} : Pointer.isShown w k = true ↔ ∃ i kind, w.mark? k = some (.gate i kind) := by
  unfold Pointer.isShown Wire.mark?
  cases ho : w.cells[k]? with
  | none => simp
  | some o => simp [Gate.mark?_eq_gate_iff]

/-- Localizing sees which places are blocked, if the cells that hold the gate show it. -/
theorem isBlocked_iff (h : Shows ws G) (hself : ∀ w ∈ ws, ∀ o ∈ w.cells, o.id = g.id → o.kind.isPlaceholder = false) :
    Pointer.isBlocked ws g row k = true ↔ G.Blocked g.id g.span row k := by
  unfold Pointer.isBlocked Grid.Blocked
  rw [Bool.or_eq_true, or_comm]
  refine or_congr ?_ ?_
  · rw [← h.marks]
    unfold markIn
    cases hw : ws[row]? with
    | none => simp
    | some w => exact isTaken_iff (hself w (List.mem_of_getElem? hw))
  · simp only [List.any_eq_true, isShown_iff]
    constructor
    · rintro ⟨w, hw, i, kind, hm⟩
      obtain ⟨j, hj⟩ := List.getElem?_of_mem hw
      rw [List.getElem?_take, Option.ite_none_right_eq_some, List.getElem?_drop] at hj
      exact ⟨row + 1 + j, i, kind, by omega, by omega, by rw [← h.marks, markIn_of_getElem? hj.2, hm]⟩
    · rintro ⟨r, i, kind, hlt, hlt', hm⟩
      rw [← h.marks] at hm
      obtain ⟨w, hw, hm⟩ := Option.bind_eq_some_iff.mp hm
      refine ⟨w, List.mem_of_getElem? (i := r - (row + 1)) ?_, i, kind, hm⟩
      rw [List.getElem?_take, if_pos (by omega), List.getElem?_drop, show row + 1 + (r - (row + 1)) = r by omega, hw]

end Localize

/-! ### The dragged gate -/

section Holds

variable {K : Type} {P : GateKind → Prop} {d e : Drag K} {g : Gate} {b m : Circuit K}

/-- The drag has the gate in hand, or the gate stands in a cell that shows it. -/
inductive Drag.Holds (P : GateKind → Prop) (g : Gate) (d : Drag K) (m : Circuit K) : Prop where
  | floating (hand : d.floating = some g) (sound : m.Sound P [g.id])
  | placed {row column : Nat} (hand : d.floating = none) (sound : m.Sound P [])
      (mark : (gridOf m.wires).mark row column = some (.gate g.id g.kind))

/-- What moves with the pointer is neither the gate nor its cell. -/
theorem Drag.Holds.underway (h : d.Holds P g b) (hm : Underway b m) (hfloating : e.floating = d.floating) :
    e.Holds P g m := by
  cases h with
  | floating hand sound => exact .floating (hfloating.trans hand) (sound.of_trunk hm.trunks hm.next)
  | placed hand sound mark =>
    exact .placed (hfloating.trans hand) (sound.of_trunk hm.trunks hm.next) (gridOf_of_trunk hm.trunks ▸ mark)

theorem Drag.Holds.exists_sound (h : d.Holds P g m) : ∃ hand, m.Sound P hand := by
  cases h with
  | floating _ sound => exact ⟨_, sound⟩
  | placed _ sound _ => exact ⟨_, sound⟩

/-- A cell that holds the dragged gate shows it. -/
theorem Drag.Holds.isPlaceholder_eq_false (h : d.Holds P g m) :
    ∀ w ∈ m.wires, ∀ o ∈ w.cells, o.id = g.id → o.kind.isPlaceholder = false := by
  intro w hw o ho hid
  cases h with
  | floating _ sound =>
    have hpos := Wire.uses_pos ho
    have hle := uses_le_usesIn hw o.id
    rw [hid] at hpos hle
    have := sound.usesIn_hand
    omega
  | placed _ sound mark =>
    obtain ⟨o', ho', hmark⟩ := exists_cell?_of_mark mark
    obtain ⟨hid', hkind, hp⟩ := Gate.mark?_eq_gate_iff.mp hmark
    obtain ⟨r, hr⟩ := List.getElem?_of_mem hw
    obtain ⟨k, hk⟩ := List.getElem?_of_mem ho
    have hcell : m.cell? r k = some o := by
      rw [cell?_eq_bind, hr]
      exact hk
    obtain ⟨rfl, rfl⟩ := sound.labelled.unique hcell ho' (hid.trans hid'.symm)
    rw [hcell] at ho'
    cases ho'
    exact hp

/-- The gate that a hover sees. -/
theorem Drag.Holds.exists_gate? (h : d.Holds P g m) (hid : d.id = g.id) :
    ∃ o, d.gate? m = some o ∧ o.id = g.id ∧ o.kind = g.kind := by
  unfold Drag.gate?
  cases h with
  | floating hand _ =>
    rw [hand]
    exact ⟨g, rfl, rfl, rfl⟩
  | placed hand sound mark =>
    rw [hand, hid]
    obtain ⟨o, ho, hmark⟩ := exists_cell?_of_mark mark
    obtain ⟨hid', hkind, -⟩ := Gate.mark?_eq_gate_iff.mp hmark
    have hloc := locate?_eq sound.labelled ho
    rw [hid'] at hloc
    exact ⟨o, (gate?_eq hloc).trans ho, hid', hkind⟩

variable [Coordinate K]

/-- The gate that a drop takes in hand. If it stood in a cell, its cells are empty then. -/
theorem Drag.Holds.exists_take (h : d.Holds P g m) (hid : d.id = g.id) :
    ∃ o c, d.take m = (some o, c) ∧ o.id = g.id ∧ o.kind = g.kind ∧ Rest m c ∧ c.Sound P [g.id] ∧
      (gridOf c.wires = gridOf m.wires ∨ ∃ row column, (gridOf m.wires).mark row column = some (.gate g.id g.kind) ∧
        gridOf c.wires = (gridOf m.wires).clear row column g.span) := by
  unfold Drag.take
  cases h with
  | floating hand sound =>
    rw [hand]
    exact ⟨g, m, rfl, rfl, rfl, ⟨rfl, rfl, rfl, rfl, rfl⟩, sound, .inl rfl⟩
  | placed hand sound mark =>
    obtain ⟨o, c, hc, hoid, hkind, hgrid, hk, hsound⟩ := sound.detach? mark
    rw [hand, hid, hc]
    exact ⟨o, c, rfl, hoid, hkind, hk.rest, hsound, .inr ⟨_, _, mark, hgrid⟩⟩

/-- From its start on, a drag holds its gate, which has to show if it is in a cell. -/
theorem Drag.Source.exists_holds {c : Circuit K} {source : Source} {s : Drag K × Circuit K} (h : c.Intact P [])
    (hg : source.gate? c = some g) (hvisible : ∀ id, source = .cell id → g.kind.isPlaceholder = false)
    (hs : source.start? c = some s) :
    s.1.id = g.id ∧ ∃ b w, s.1.Holds P g b ∧ Spared c b w ∧ Underway b s.2 := by
  cases source with
  | toolbox kind =>
    cases hs
    cases hg
    have hspared := spared_addWire (c.newGate kind).2
    exact ⟨rfl, _, _, .floating rfl ((h.newGate kind).addWires 1).toSound,
      { hspared with rest := (kept_newGate c kind).rest.trans hspared.rest }, .prepare _ _⟩
  | cell id =>
    obtain ⟨⟨row, column⟩, hloc, rfl⟩ := Option.map_eq_some_iff.mp hs
    obtain ⟨o, ho, rfl⟩ := exists_of_locate? hloc
    obtain rfl : o = g := Option.some.inj (((gate?_eq hloc).trans ho).symm.trans hg)
    have hmark : (gridOf (c.addWires 1).wires).mark row column = some (.gate o.id o.kind) := by
      rw [(shows_addWires h.shows 1).eq_gridOf]
      exact gate_of_cell? ho (hvisible _ rfl)
    exact ⟨rfl, _, _, .placed rfl (h.addWires 1).toSound hmark, spared_addWire c, .prepare c o.id⟩

/-- Over whatever points it goes, the drag holds the gate, and all gates show where they did before. -/
theorem Drag.Source.holds_of_hovers [Add K] [Sub K] [Mul K] [Div K] {c : Circuit K} {source : Source}
    {s : Drag K × Circuit K} (h : c.Intact P []) (hg : source.gate? c = some g)
    (hvisible : g.kind.isPlaceholder = false) (hs : source.start? c = some s) {hovers : List (Pointer K)}
    (hm : s.1.hovers s.2 hovers = (d, m)) :
    d.Holds P g m ∧ d.id = g.id ∧ ∀ r k, (gridOf m.wires).mark r k = (gridOf c.wires).mark r k := by
  obtain ⟨hid, b, w, hholds, hspared, hstart⟩ := exists_holds h hg (fun _ _ => hvisible) hs
  obtain ⟨hhovers, hid', hfloating⟩ := Underway.hovers s.1 s.2 hovers
  rw [hm] at hhovers hid' hfloating
  have hunder := hstart.trans hhovers
  refine ⟨hholds.underway hunder hfloating, hid'.trans hid, fun r k => ?_⟩
  rw [gridOf_of_trunk hunder.trunks, hspared.mark_eq]

end Holds

/-! ### Hovers and drops -/

/-- The circuit that a hover looks at: collapses and connectors are drawn without the dragged gate. -/
def Drag.drawn {K : Type} [Coordinate K] (d : Drag K) (c : Circuit K) : Circuit K :=
  (c.rescan (some d.id)).drawConnectors (some d.id)

theorem Underway.drawn {K : Type} [Coordinate K] (d : Drag K) (c : Circuit K) : Underway c (d.drawn c) :=
  (rescan (some d.id) c).trans (drawConnectors (some d.id) _)

section Placements

variable {P : GateKind → Prop} {d e : Drag Rat} {g : Gate} {m c : Circuit Rat}

theorem Drag.placement_hover (d : Drag Rat) (c : Circuit Rat) (p : Pointer Rat) :
    (d.hover c p).1 = (d.gate? (d.drawn c)).bind (Drag.localize (d.drawn c) p) := by
  unfold Drag.hover
  rw [← Drag.drawn]
  dsimp only
  split
  · rename_i hnone
    rw [hnone]
    rfl
  · rename_i g hg
    rw [hg, Option.bind_some]
    split
    · split <;> rfl
    · rfl

theorem Drag.placement_drop (h : d.take m = (some g, c)) (p : Pointer Rat) :
    (d.drop m p).1 = Drag.localize c p g := by
  unfold Drag.drop Drag.release
  rw [h]
  simp only [Option.bind_eq_bind, Option.bind_some]
  cases hlocal : Drag.localize c p g with
  | none => rfl
  | some target =>
    -- A place on a wire takes any gate.
    have hattach : c.attach? g target.row target.position = some (c.put g target.row
        (Coordinate.column target.position c.columns) (!Coordinate.isWhole target.position)) := by
      unfold attach?
      rw [if_pos (by simpa [Coordinate.isNumber] using (exists_of_localize hlocal).1)]
    rw [Option.bind_some, hattach]
    rfl

/-- The gate would go up in its column, to a row from which it reaches the one where it stands. -/
def Circuit.Lifts (c : Circuit Rat) (g : Gate) (row column : Nat) : Prop :=
  ∃ r, row < r ∧ r < row + g.span ∧ c.Places g.id g.kind r column

/-- A gate in hand is blocked where it was before, up to the places to which it is lifted. -/
theorem Drag.Holds.blocked (h : d.Holds P g m)
    (hgrid : gridOf c.wires = gridOf m.wires ∨
      ∃ row column, (gridOf m.wires).mark row column = some (.gate g.id g.kind) ∧
      gridOf c.wires = (gridOf m.wires).clear row column g.span) (row k : Nat) :
    ((gridOf c.wires).Blocked g.id g.span row k → (gridOf m.wires).Blocked g.id g.span row k) ∧
      ((gridOf m.wires).Blocked g.id g.span row k → ¬(gridOf c.wires).Blocked g.id g.span row k → m.Lifts g row k) := by
  obtain ⟨hand, hsound⟩ := h.exists_sound
  rcases hgrid with heq | ⟨r, column, hmark, heq⟩
  · rw [heq]
    exact ⟨fun hb => hb, fun hb hn => absurd hb hn⟩
  · rw [heq]
    obtain ⟨hsub, hlifts⟩ := hsound.spanned.blocked_clear (hsound.labelled.unique_marks hsound.shows) hmark g.span row k
    refine ⟨hsub, fun hb hn => ?_⟩
    obtain ⟨rfl, hlt, hlt'⟩ := hlifts hb hn
    exact ⟨r, hlt, hlt', places_iff.mpr hmark⟩

/-- A placement at a whole column has no gate in the cells below it. -/
theorem not_gate_of_localize {geometry : Geometry Rat} {ws : List (Wire Rat)} {G : Grid} (hG : Shows ws G)
    {p : Pointer Rat} {row k r : Nat} (hat : p.localize geometry ws g = some ⟨row, k⟩) (hlt : row < r)
    (hlt' : r < row + g.span) (i : GateId) (kind : GateKind) : G.mark r k ≠ some (.gate i kind) := by
  obtain ⟨-, k', hwhole | ⟨hk, -, hshown⟩⟩ := exists_of_localize hat
  · rw [Coordinate.isWhole_natCast] at hwhole
    cases hwhole
  · have hk : (k : Rat) = k' := hk
    obtain rfl : k = k' := by exact_mod_cast hk
    exact hG.not_gate_of_isShown (fun w hw => hshown r w hlt hlt' hw) i kind

/-- A hover sees the columns blocked as they are with the gate. -/
theorem Drag.Holds.exists_hovered (h : d.Holds P g m) (hid : d.id = g.id) :
    ∃ o, d.gate? (d.drawn m) = some o ∧ o.span = g.span ∧ Shows (d.drawn m).wires (gridOf m.wires) ∧
      ∀ row k, Pointer.isBlocked (d.drawn m).wires o row k = true ↔ (gridOf m.wires).Blocked g.id g.span row k := by
  have hdrawn := Underway.drawn d m
  have hhover := h.underway hdrawn rfl
  obtain ⟨_, hsound⟩ := hhover.exists_sound
  obtain ⟨o, ho, hoid, hkind⟩ := hhover.exists_gate? hid
  have hspan : o.span = g.span := congrArg GateKind.span hkind
  have hshows : Shows (d.drawn m).wires (gridOf m.wires) := gridOf_of_trunk hdrawn.trunks ▸ hsound.shows
  refine ⟨o, ho, hspan, hshows, fun row k => ?_⟩
  rw [isBlocked_iff hshows (hoid ▸ hhover.isPlaceholder_eq_false), hoid, hspan]

/-- A drop sees them blocked as they are without it. -/
theorem Drag.Holds.exists_taken (h : d.Holds P g m) (hid : d.id = g.id) :
    ∃ o c, d.take m = (some o, c) ∧ Rest m c ∧
      (gridOf c.wires = gridOf m.wires ∨ ∃ row column, (gridOf m.wires).mark row column = some (.gate g.id g.kind) ∧
        gridOf c.wires = (gridOf m.wires).clear row column g.span) ∧
      ∀ row k, Pointer.isBlocked c.wires o row k = true ↔ (gridOf c.wires).Blocked g.id g.span row k := by
  obtain ⟨o, c, htake, hoid, hkind, hrest, hsound, hgrid⟩ := h.exists_take hid
  have hspan : o.span = g.span := congrArg GateKind.span hkind
  have hself := (Drag.Holds.floating (d := ⟨g.id, some g, none⟩) rfl hsound).isPlaceholder_eq_false
  refine ⟨o, c, htake, hrest, hgrid, fun row k => ?_⟩
  rw [isBlocked_iff hsound.shows (hoid ▸ hself), hoid, hspan]

/-- What a hover shows is what a drop at the same place does, unless the gate is lifted. -/
theorem Drag.Holds.placements (h : d.Holds P g m) (hid : d.id = g.id) (hid' : e.id = g.id)
    (hfloating : e.floating = d.floating) {n : Circuit Rat} (hn : Underway m n) (p : Pointer Rat) :
    (∀ row k : Nat, (e.drop n p).1 = some ⟨row, k⟩ → m.Lifts g row k → (d.hover m p).1 = some ⟨row, k - 1 / 2⟩) ∧
      ((d.hover m p).1 ≠ (e.drop n p).1 → ∃ row k : Nat, (e.drop n p).1 = some ⟨row, k⟩ ∧ m.Lifts g row k) := by
  have hdrawn := Underway.drawn d m
  obtain ⟨o, ho, hspan, hshows, hblocked⟩ := h.exists_hovered hid
  obtain ⟨o', c, htake, hrest, hgrid, hblocked'⟩ := (h.underway hn hfloating).exists_taken hid'
  rw [gridOf_of_trunk hn.trunks] at hgrid
  have hlength : (d.drawn m).wires.length = c.wires.length := by
    have hrows : (gridOf c.wires).rows = (gridOf m.wires).rows := by
      rcases hgrid with heq | ⟨_, _, -, heq⟩ <;> rw [heq]
      rfl
    exact hshows.rows.trans hrows.symm
  have hgeometry : c.geometry = (d.drawn m).geometry := by
    rw [hdrawn.rest.geometry, hrest.geometry, hn.rest.geometry]
  rw [Drag.placement_hover, ho, Option.bind_some, Drag.placement_drop htake]
  unfold Drag.localize
  rw [hgeometry]
  rcases localize_eq_or hlength (d.drawn m).geometry o o' p with heq | ⟨row, k, hne, hhovered, hdropped⟩
  · rw [heq]
    refine ⟨?_, fun hne => absurd rfl hne⟩
    rintro row k hat ⟨r, hlt, hlt', hplaces⟩
    exact absurd (places_iff.mp hplaces) (not_gate_of_localize hshows (heq.trans hat) hlt (hspan ▸ hlt') g.id g.kind)
  · obtain ⟨hsub, hlifts⟩ := h.blocked hgrid row k
    rw [← hblocked, ← hblocked'] at hsub hlifts
    have hfree : Pointer.isBlocked c.wires o' row k = false := by
      refine Bool.eq_false_iff.mpr fun hb => hne ?_
      rw [hb, hsub hb]
    have hcovered : Pointer.isBlocked (d.drawn m).wires o row k = true := by
      refine Bool.not_eq_false _ ▸ fun hb => hne ?_
      rw [hb, hfree]
    rw [hfree] at hdropped
    rw [hcovered] at hhovered
    refine ⟨fun row' k' hat _ => ?_, fun _ => ⟨row, k, hdropped, hlifts hcovered (Bool.eq_false_iff.mp hfree)⟩⟩
    rw [hdropped] at hat
    obtain ⟨rfl, hk⟩ := Placement.mk.injEq .. ▸ Option.some.inj hat
    have hk : (k : Rat) = k' := hk
    obtain rfl : k = k' := by exact_mod_cast hk
    exact hhovered

/-- A hover over any point shows where the gate that is dragged goes if it is dropped there, be it new or one of the
    circuit. There is one exception: where a drop lifts the gate in its column, to a row from which it reaches the one
    where it stood, the hover shows it before that column. -/
theorem hover_eq_drop (hc : c.WellFormed) {source : Drag.Source} (hg : source.gate? c = some g)
    (hvisible : g.kind.isPlaceholder = false) {s : Drag Rat × Circuit Rat} (hs : source.start? c = some s)
    (hovers : List (Pointer Rat)) (p : Pointer Rat) {hovered placement : Option (Placement Rat)} {o o' : Drag Rat}
    {m m' d : Circuit Rat} (hm : s.1.hovers s.2 hovers = (o, m)) (hm' : o.hover m p = (hovered, o', m'))
    (hd : o'.drop m' p = (placement, d)) :
    (hovered = placement ↔ ∀ row k : Nat, placement = some ⟨row, k⟩ → ¬c.Lifts g row k) ∧
      ∀ row k : Nat, placement = some ⟨row, k⟩ → c.Lifts g row k → hovered = some ⟨row, k - 1 / 2⟩ := by
  have hintact : c.Intact (fun _ => True) [] := hc.intact fun _ _ _ _ _ => trivial
  obtain ⟨hholds, hid, hmarks⟩ := Drag.Source.holds_of_hovers hintact hg hvisible hs hm
  obtain ⟨hlast, hid', hfloating⟩ := Underway.hover o m p
  rw [hm'] at hlast hid' hfloating
  obtain ⟨hlifted, hdiffer⟩ := hholds.placements hid (hid'.trans hid) hfloating hlast p
  rw [hm', hd] at hlifted hdiffer
  have hlifts : ∀ row k, m.Lifts g row k ↔ c.Lifts g row k := fun row k => by
    simp only [Lifts, places_iff, hmarks]
  simp only [hlifts] at hlifted hdiffer
  refine ⟨⟨?_, fun hfree => ?_⟩, hlifted⟩
  · rintro rfl row k hat hlift
    have hbefore : (k : Rat) = k - 1 / 2 :=
      congrArg Placement.position (Option.some.inj (hat.symm.trans (hlifted row k hat hlift)))
    linarith
  · by_contra hne
    obtain ⟨row, k, hat, hlift⟩ := hdiffer hne
    exact hfree row k hat hlift

/-- The gate on two wires is picked up, and put back where it stood. -/
theorem hover_eq_drop_pair :
    ∃ s hovered o' m' d, (Drag.Source.cell ⟨0⟩).start? pairCircuit = some s ∧
      s.1.hover s.2 ⟨130, 200⟩ = (hovered, o', m') ∧ o'.drop m' ⟨130, 200⟩ = (some ⟨1, (0 : Nat)⟩, d) ∧
      hovered = some ⟨1, (0 : Nat)⟩ := by
  have hformed : pairCircuit.WellFormed := intact_pairDraft.refresh.wellFormed
  have hgate : (pairCircuit.gate? ⟨0⟩).any fun g => g.kind == .custom "cg1" 2 && g.id == ⟨0⟩ := by decide +kernel
  obtain ⟨g, hg, hcustom⟩ := (Option.any_eq_true _ _).mp hgate
  simp only [Bool.and_eq_true, beq_iff_eq] at hcustom
  obtain ⟨hkind, hid⟩ := hcustom
  have hsource : (Drag.Source.cell ⟨0⟩).gate? pairCircuit = some g := hg
  have hdrag : ((Drag.Source.cell ⟨0⟩).start? pairCircuit).any fun s =>
      ((s.1.hover s.2 ⟨130, 200⟩).2.1.drop (s.1.hover s.2 ⟨130, 200⟩).2.2 ⟨130, 200⟩).1 == some ⟨1, (0 : Nat)⟩ := by
    decide +kernel
  obtain ⟨s, hs, hat⟩ := (Option.any_eq_true _ _).mp hdrag
  rcases hm' : s.1.hover s.2 ⟨130, 200⟩ with ⟨hovered, o', m'⟩
  rw [hm'] at hat
  rcases hd : o'.drop m' ⟨130, 200⟩ with ⟨placement, d⟩
  rw [hd] at hat
  obtain rfl := beq_iff_eq.mp hat
  have heq := (hover_eq_drop hformed hsource (by rw [hkind]; rfl) hs [] ⟨130, 200⟩ rfl hm' hd).1.mpr ?_
  · exact ⟨s, hovered, o', m', d, hs, hm', hd, heq⟩
  · -- Of the cells from the second row down, only the one in the last row is below it, and it holds a support.
    rintro row k hat' ⟨r, hlt, hlt', o, ho, hoid, -⟩
    obtain ⟨rfl, hk⟩ := Placement.mk.injEq .. ▸ Option.some.inj hat'
    obtain rfl : 0 = k := by exact_mod_cast hk
    have hspan : g.span = 2 := congrArg GateKind.span hkind
    obtain rfl : r = 2 := by omega
    have hother : (pairCircuit.cell? 2 0).all fun o => o.id != ⟨0⟩ := by decide +kernel
    rw [ho, Option.all_some, hoid, hid] at hother
    cases hother

/-- The gate on two wires is picked up and moved up by one row. The hover shows it before its column, the drop puts it
    into the column. -/
theorem hover_ne_drop :
    pairCircuit.WellFormed ∧ pairCircuit.refresh = pairCircuit ∧
      ∃ s, (Drag.Source.cell ⟨0⟩).start? pairCircuit = some s ∧
        (s.1.hover s.2 ⟨130, 150⟩).1 = some ⟨0, -1 / 2⟩ ∧
        ((s.1.hover s.2 ⟨130, 150⟩).2.1.drop (s.1.hover s.2 ⟨130, 150⟩).2.2 ⟨130, 150⟩).1 = some ⟨0, 0⟩ := by
  refine ⟨intact_pairDraft.refresh.wellFormed, refresh_refresh pairDraft, ?_⟩
  have hdrag : ((Drag.Source.cell ⟨0⟩).start? pairCircuit).any fun s =>
      (s.1.hover s.2 ⟨130, 150⟩).1 == some ⟨0, -1 / 2⟩ &&
        ((s.1.hover s.2 ⟨130, 150⟩).2.1.drop (s.1.hover s.2 ⟨130, 150⟩).2.2 ⟨130, 150⟩).1 == some ⟨0, 0⟩ := by
    decide +kernel
  obtain ⟨s, hs, hboth⟩ := (Option.any_eq_true _ _).mp hdrag
  simp only [Bool.and_eq_true, beq_iff_eq] at hboth
  exact ⟨s, hs, hboth⟩

end Placements

end CircuitDesigner
