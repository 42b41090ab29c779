import CircuitDesigner.Proofs.Editing.Placeholders
import CircuitDesigner.Proofs.Editing.Preview
import CircuitDesigner.Proofs.Editing.Saved

/-! Gestures on inertias and supports.

    The gestures take the number of any cell, and go on with an inertia or a support as with any other gate. A copy of
    an inertia does no harm, and a copy of a support always does. A support may only be put back where it was. An
    inertia may be taken out if no part of a gate on several wires slips with the cells behind it, and if the wire is
    level with the others afterwards: because it alone reaches the last column, or because the inertia comes back at
    the end of the wires (`placeholder_gestures_orderly_iff`). -/

namespace CircuitDesigner

open Circuit

/-! ### Columns -/

/-- The column of a position is the last one, or a new one after it. -/
theorem Coordinate.column_last_iff {position : Rat} {n : Nat} (hpos : 0 < n)
    (hposition : isWhole position = false ∨ ∃ k : Nat, position = k) :
    (if (!isWhole position) = true then column position n = n else n ≤ column position n + 1) ↔
      (n : Rat) ≤ position + 1 := by
  cases hwhole : isWhole position with
  | false =>
    rw [Bool.not_false, if_pos rfl, column_eq_ceil]
    have hne : position ≠ (n - 1 : Int) := by
      rintro rfl
      rw [Bool.eq_false_iff, ne_eq, isWhole_iff, Int.fract_intCast] at hwhole
      exact hwhole rfl
    have hceil : ⌈min position n⌉.toNat = n ↔ ⌈min position (n : Rat)⌉ = n := by omega
    rw [hceil, Int.ceil_eq_iff]
    push_cast at hne ⊢
    constructor
    · rintro ⟨hlt, -⟩
      have := lt_min_iff.mp hlt
      linarith
    · intro hle
      have hlt : (n : Rat) - 1 < position := lt_of_le_of_ne (by linarith) hne.symm
      exact ⟨lt_min hlt (by linarith), min_le_right _ _⟩
  | true =>
    obtain ⟨k, rfl⟩ := hposition.resolve_left (by rw [hwhole]; nofun)
    rw [Bool.not_true, if_neg Bool.false_ne_true, column_natCast]
    have hle : (n : Rat) ≤ k + 1 ↔ n ≤ k + 1 := by exact_mod_cast Iff.rfl
    rw [hle]
    omega

theorem Coordinate.column_eq_iff {position : Rat} {k n : Nat} (hk : k < n)
    (hposition : isWhole position = false ∨ ∃ l : Nat, position = l) :
    (!isWhole position) = false ∧ column position n = k ↔ position = k := by
  constructor
  · rintro ⟨hwhole, hcolumn⟩
    obtain ⟨l, rfl⟩ := hposition.resolve_left (by simpa using hwhole)
    rw [column_natCast] at hcolumn
    obtain rfl : l = k := by omega
    rfl
  · rintro rfl
    rw [isWhole_natCast, column_natCast]
    exact ⟨rfl, Nat.min_eq_left hk.le⟩

/-- A drop into a column finds a vacant cell there. -/
theorem vacant_of_localize {geometry : Geometry Rat} {ws : List (Wire Rat)} {g : Gate} {p : Pointer Rat}
    {target : Placement Rat} {w : Wire Rat} {n : Nat} (h : p.localize geometry ws g = some target)
    (habsent : usesIn ws g.id = 0) (hcover : ∀ r k, markIn ws r k ≠ some (.cover g.id))
    (hwhole : Coordinate.isWhole target.position = true) (hw : ws[target.row]? = some w)
    (hlength : w.cells.length ≤ n) :
    w.mark? (Coordinate.column target.position n) = none := by
  obtain ⟨-, k, hnot | ⟨hk, htaken, -⟩⟩ := exists_of_localize h
  · rw [hwhole] at hnot
    cases hnot
  · rw [hk, Coordinate.column_natCast]
    rcases Nat.le_total k n with hle | hle
    · rw [Nat.min_eq_left hle]
      refine mark?_of_isTaken habsent hw (fun hm => ?_) (htaken w hw)
      exact hcover target.row k ((markIn_of_getElem? hw).trans hm)
    · rw [Nat.min_eq_right hle]
      exact Wire.mark?_of_le hlength

/-! ### The end of a drag -/

section End

variable {c d e m : Circuit Rat} {g q : Gate} {o : Drag Rat} {p : Pointer Rat}

/-- The circuit with the gate that was in hand at a placement, if any. -/
def Circuit.withReleased (c : Circuit Rat) (g : Gate) : Option (Placement Rat) → Circuit Rat
  | none => c
  | some target =>
    c.put g target.row (Coordinate.column target.position c.columns) (!Coordinate.isWhole target.position)

theorem Drag.drop_eq (h : o.take m = (some q, e)) (p : Pointer Rat) :
    (o.drop m p).2 = ((((e.withReleased q (o.drop m p).1).rescan none).saveState? m.current).getD
      ((e.withReleased q (o.drop m p).1).rescan none)).refresh := by
  rw [Drag.placement_drop h]
  unfold Drag.drop Drag.release
  rw [h]
  simp only [Option.bind_eq_bind, Option.bind_some]
  cases hlocal : Drag.localize e p q with
  | none => rfl
  | some target =>
    have hrow : target.row < e.wires.length := (exists_of_localize hlocal).1
    rw [Option.bind_some, attach?, if_pos (by simpa [Coordinate.isNumber] using hrow)]
    rfl

/-- What the drop does last makes no difference. -/
theorem orderly_drop_iff (h : o.take m = (some q, e))
    (hcount : ∀ i, usesIn e.wires i + itself q.id i ≤ made 0 e.nextGate i) (p : Pointer Rat) :
    (o.drop m p).2.Orderly ↔ (e.withReleased q (o.drop m p).1).refresh.Orderly := by
  rw [Drag.drop_eq h]
  have hl : Labelled (e.withReleased q (o.drop m p).1).wires (e.withReleased q (o.drop m p).1).nextGate := by
    cases (o.drop m p).1 with
    | none => exact fun i => Nat.le_trans (Nat.le_add_right _ _) (hcount i)
    | some target => exact labelled_put hcount _ _ _
  generalize e.withReleased q (o.drop m p).1 = d at hl ⊢
  have hsettings : (((d.rescan none).saveState? m.current).getD (d.rescan none)).settings = d.settings := by
    rcases saved_cases (d.rescan none) m.current with heq | heq <;> rw [heq] <;> rfl
  obtain ⟨hwires, hnext⟩ := wires_saved (d.rescan none) m.current
  refine orderly_refresh_congr hl ?_ hsettings hnext
  rw [hwires]
  show (d.wires.map fun w => w.rescan none).map Wire.cells = _
  rw [List.map_map]
  rfl

end End

/-- A support that was taken out goes back into a free cell. -/
theorem orderly_put_back_iff {K : Type} [Coordinate K] {e : Circuit K} {G : Grid} {g : Gate} {row column r k : Nat}
    {p : GateId} (h : Shows e.wires (G.set row column none)) (hs : G.Spanned) (hu : G.Unique)
    (hm : G.mark row column = some (.cover p)) (hcolumn : column < G.columns) (hkind : g.kind = .support p)
    (hcount : ∀ i, usesIn e.wires i + itself g.id i ≤ made 0 e.nextGate i) {squeeze : Bool} (hr : r < e.wires.length)
    (hk : k ≤ G.columns) (hfree : squeeze = false → (G.set row column none).mark r k = none) :
    (e.put g r k squeeze).refresh.Orderly ↔ squeeze = false ∧ r = row ∧ k = column := by
  have hl := labelled_put hcount r k squeeze
  have hput : ((G.set row column none).openColumn squeeze k).mark r k = none → Shows (e.put g r k squeeze).wires
      (((G.set row column none).openColumn squeeze k).set r k (some (.cover p))) := fun hnone =>
    Gate.mark?_eq_cover_iff.mpr hkind ▸ shows_put_single h (Gate.span_of_support hkind) (h.rows ▸ hr) hk hnone
  by_cases hopens : squeeze = true ∨ k = G.columns
  · have halone : ∀ q, ((G.set row column none).openColumn squeeze k).mark q k = none := fun q =>
      Grid.free_openColumn (G := G.set row column none) (n := 1) hopens q (Nat.le_refl q) (Nat.lt_succ_self q)
    rw [orderly_refresh_of_shows (hput (halone r)) hl]
    refine iff_of_false (Grid.not_spanned_set_alone halone) ?_
    rintro ⟨rfl, -, rfl⟩
    rcases hopens with hsqueeze | heq
    · cases hsqueeze
    · omega
  · push Not at hopens
    obtain rfl : squeeze = false := by simpa using hopens.1
    have hself : (G.set row column none).openColumn false k = G.set row column none :=
      openColumn_grid_eq_self (Nat.lt_of_le_of_ne hk hopens.2)
    rw [hself] at hput
    rw [orderly_refresh_of_shows (hput (hfree rfl)) hl, hs.set_cover_iff hu hm, and_iff_right rfl]

/-! ### The course of a drag -/

section Course

theorem exists_cell?_of_trunk {K : Type} {c d : Circuit K} (h : d.wires.map Wire.trunk = c.wires.map Wire.trunk)
    {row column : Nat} {g : Gate} (hg : c.cell? row column = some g) :
    ∃ q, d.cell? row column = some q ∧ q.id = g.id ∧ q.kind = g.kind := by
  obtain ⟨w, hw, hgw⟩ := Option.bind_eq_some_iff.mp (cell?_eq_bind c row column ▸ hg)
  have htrunk := congrArg (·[row]?) h
  simp only [List.getElem?_map, hw, Option.map_some] at htrunk
  obtain ⟨v, hv, heq⟩ := Option.map_eq_some_iff.mp htrunk
  have hcells : v.cells.map Gate.core = w.cells.map Gate.core := congrArg Wire.cells heq
  have hcore := congrArg (·[column]?) hcells
  simp only [List.getElem?_map, hgw, Option.map_some] at hcore
  obtain ⟨q, hq, heq⟩ := Option.map_eq_some_iff.mp hcore
  refine ⟨q, ?_, (congrArg Gate.id heq : q.core.id = g.core.id), (congrArg Gate.kind heq : q.core.kind = g.core.kind)⟩
  rw [cell?_eq_bind, hv]
  exact hq

variable {c m : Circuit Rat} {g : Gate} {o : Drag Rat} {row column : Nat} {p : GateId}

/-- The drag refers to the gate, and the circuit underway shows what `c` does, with more wires below. -/
structure Drag.Hauls (c : Circuit Rat) (g : Gate) (row column : Nat) (o : Drag Rat) (m : Circuit Rat) : Prop where
  hand : o.floating = none
  id : o.id = g.id
  sound : m.Sound (fun _ => True) []
  cell : ∃ q, m.cell? row column = some q ∧ q.id = g.id ∧ q.kind = g.kind
  marks : ∀ r k, (gridOf m.wires).mark r k = (gridOf c.wires).mark r k
  columns : m.columns = c.columns
  settings : m.settings = c.settings
  rows : c.wires.length < m.wires.length

theorem Drag.exists_hauls (h : c.Intact (fun _ => True) []) (hg : c.cell? row column = some g) :
    ∃ s, (Drag.Source.cell g.id).start? c = some s ∧ ∀ hovers : List (Pointer Rat),
      Drag.Hauls c g row column (s.1.hovers s.2 hovers).1 (s.1.hovers s.2 hovers).2 := by
  have hstart : Drag.ofPlaced? c g.id = some (⟨g.id, none, none⟩, Drag.prepare c g.id) := by
    unfold Drag.ofPlaced?
    rw [locate?_eq h.labelled hg]
    rfl
  refine ⟨_, hstart, fun hovers => ?_⟩
  obtain ⟨hhovers, hid, hfloating⟩ := Underway.hovers ⟨g.id, none, none⟩ (Drag.prepare c g.id) hovers
  have hunder := (Underway.prepare c g.id).trans hhovers
  have hspared := spared_addWire c
  have hgrid := gridOf_of_trunk hunder.trunks
  have hb : c.addWire.cell? row column = some g := by
    obtain ⟨w, hw, hgw⟩ := Option.bind_eq_some_iff.mp (cell?_eq_bind c row column ▸ hg)
    rw [cell?_eq_bind, hspared.wires, List.getElem?_append_left (List.getElem?_eq_some_iff.mp hw).1, hw]
    exact hgw
  refine ⟨hfloating, hid, (h.addWires 1).toSound.of_trunk hunder.trunks hunder.next,
    exists_cell?_of_trunk hunder.trunks hb,
    fun r k => hgrid ▸ hspared.mark_eq r k, (congrArg Grid.columns hgrid).trans hspared.columns,
    (hspared.rest.trans hunder.rest).settings, ?_⟩
  have hlength := congrArg Grid.rows hgrid
  exact Nat.lt_of_lt_of_eq (Nat.lt_succ_self c.wires.length) (hlength.trans hspared.length_wires).symm

namespace Drag.Hauls

/-- No gate covers cells for an inertia or a support. -/
theorem not_cover (h : Drag.Hauls c g row column o m) (hp : g.kind.isPlaceholder = true) (r k : Nat) :
    (gridOf m.wires).mark r k ≠ some (.cover g.id) := by
  intro hm
  obtain ⟨q, hq, hid, hkind⟩ := h.cell
  obtain ⟨r', kind, -, -, hm'⟩ := h.sound.spanned.parent hm
  obtain ⟨q', hq', hmark⟩ := exists_cell?_of_mark hm'
  obtain ⟨hid', rfl, hshows⟩ := Gate.mark?_eq_gate_iff.mp hmark
  obtain ⟨rfl, rfl⟩ := h.sound.labelled.unique hq hq' (hid.trans hid'.symm)
  obtain rfl := Option.some.inj (hq.symm.trans hq')
  rw [hkind, hp] at hshows
  cases hshows

theorem take_eq {q : Gate} {e : Circuit Rat} (h : Drag.Hauls c g row column o m) (hd : m.detach? g.id = some (q, e)) :
    o.take m = (some q, e) := by
  unfold Drag.take
  rw [h.hand, h.id, hd]

theorem drop_inertia (h : Drag.Hauls c g row column o m) (hc : c.Sound (fun _ => True) []) (hcompact : c.Compact)
    (hg : c.cell? row column = some g) (hi : g.isInertia = true) (p : Pointer Rat) :
    (o.drop m p).2.Orderly ↔ c.Loose row column ∧
      (c.LastOn row ∨ ∃ target ∈ (o.drop m p).1, (c.columns : Rat) ≤ target.position + 1) := by
  obtain ⟨q, hq, hid, hkind⟩ := h.cell
  have hiq : q.isInertia = true := GateKind.isInertia_iff.mpr (hkind.trans (GateKind.isInertia_iff.mp hi))
  obtain ⟨e, he, hlength, hcount, hslipped⟩ := h.sound.exists_detach_inertia hq hiq
  have htake := h.take_eq (hid ▸ he)
  have hcover := hslipped.not_cover fun r k => hid ▸ h.not_cover (by rw [GateKind.isInertia_iff.mp hi]; rfl) r k
  -- What has slipped since the drag began has slipped in `c`.
  rw [h.columns] at hslipped
  replace hslipped := hslipped.congr h.marks h.columns h.settings
  obtain ⟨hrow, hcolumn⟩ := lt_of_cell? hg
  have hpos : 0 < c.columns := Nat.zero_lt_of_lt hcolumn
  rw [orderly_drop_iff htake hcount p, Drag.placement_drop htake]
  cases hlocal : Drag.localize e p q.released with
  | none =>
    have hiff := hslipped.orderly_iff hc hcompact hg hi
    rw [or_iff_right (by omega)] at hiff
    exact hiff.trans (by simp)
  | some target =>
    -- The spare wire still has all columns.
    have hcolumns : e.columns = c.columns :=
      hslipped.columns_eq (Nat.sub_le _ _) (hlength ▸ h.rows) hrow.ne'
    have hvacant : (!Coordinate.isWhole target.position) = false → ∀ w, e.wires[target.row]? = some w →
        w.mark? (Coordinate.column target.position c.columns) = none := fun hwhole w hw =>
      vacant_of_localize hlocal (usesIn_eq_zero (hcount q.id)) hcover (by simpa using hwhole) hw
        (hcolumns ▸ length_le_columnsOf (List.mem_of_getElem? hw))
    have hle := Coordinate.column_le target.position c.columns
    have hput := hslipped.put (g := q.released) hcount hiq hpos hle hvacant
    have hposition := (exists_of_localize hlocal).2
    show (e.put q.released target.row (Coordinate.column target.position e.columns) _).refresh.Orderly ↔ _
    rw [hcolumns, hput.orderly_iff hc hcompact hg hi, stretched_eq_iff hpos hle, or_comm]
    simp only [Option.mem_some_iff, exists_eq_left']
    rw [Coordinate.column_last_iff hpos]
    obtain ⟨k, hnot | ⟨hk, -⟩⟩ := hposition
    · exact .inl hnot
    · exact .inr ⟨k, hk⟩

theorem drop_support (h : Drag.Hauls c g row column o m) (hkind : g.kind = .support p) (p' : Pointer Rat) :
    (o.drop m p').2.Orderly ↔ (o.drop m p').1 = some ⟨row, (column : Rat)⟩ := by
  obtain ⟨q, hq, hid, hqkind⟩ := h.cell
  have hqkind : q.kind = .support p := hqkind.trans hkind
  have hm : (gridOf m.wires).mark row column = some (.cover p) := cover_of_cell? hq hqkind
  have hi : q.isInertia = false := Gate.isInertia_of_mark? (Gate.mark?_eq_cover_iff.mpr hqkind)
  obtain ⟨e, he, hshows, hkept, huses⟩ :=
    exists_detach_single h.sound.shows h.sound.labelled hq hi (Gate.span_of_support hqkind)
  -- The support is in hand, so that no cell holds it.
  have hcount : ∀ i, usesIn e.wires i + itself q.id i ≤ made 0 e.nextGate i := fun i => by
    have h1 := h.sound.labelled i
    have h2 := made_add (Nat.zero_le m.nextGate) hkept.next i
    rw [huses]
    omega
  have htake := h.take_eq (hid ▸ he)
  have hcover : ∀ r k, markIn e.wires r k ≠ some (.cover q.id) := fun r k hrk => by
    have hrk : (if r = row ∧ k = column then none else _) = some (Mark.cover q.id) := (hshows.marks r k).symm.trans hrk
    rw [hid] at hrk
    split_ifs at hrk
    exact h.not_cover (by rw [hkind]; rfl) r k hrk
  rw [orderly_drop_iff htake hcount p', Drag.placement_drop htake]
  cases hlocal : Drag.localize e p' q.released with
  | none =>
    refine iff_of_false ?_ nofun
    show ¬e.refresh.Orderly
    rw [orderly_refresh_of_shows hshows fun i => Nat.le_trans (Nat.le_add_right _ _) (hcount i)]
    exact h.sound.spanned.not_set_none hm
  | some target =>
    have hcolumns : e.columns = c.columns := hshows.columns.trans h.columns
    have hcolumn : column < c.columns := h.columns ▸ (h.sound.shows.lt_of_mark hm).2
    have hle := Coordinate.column_le target.position c.columns
    obtain ⟨htarget, k, hposition⟩ := exists_of_localize hlocal
    show (e.put q.released target.row (Coordinate.column target.position e.columns) _).refresh.Orderly ↔ _
    rw [hcolumns, orderly_put_back_iff (g := q.released) hshows h.sound.spanned h.sound.labelled.unique_gridOf hm
      (h.columns.symm ▸ hcolumn : column < m.columns) hqkind hcount htarget
      (h.columns.symm ▸ hle : _ ≤ m.columns) fun hwhole => ?_]
    · rw [and_left_comm, Coordinate.column_eq_iff hcolumn (hposition.imp_right fun hk => ⟨k, hk.1⟩), Option.some.injEq,
        Placement.mk.injEq]
    · rw [← hshows.marks, markIn_of_getElem? (List.getElem?_eq_getElem htarget)]
      exact vacant_of_localize hlocal (usesIn_eq_zero (hcount q.id)) hcover (by simpa using hwhole)
        (List.getElem?_eq_getElem htarget) (hcolumns ▸ length_le_columnsOf (List.getElem_mem htarget))

end Drag.Hauls

end Course

/-! ### Gestures -/

/-- Where an inertia or a support of the circuit may be dropped. -/
def Circuit.Bears (c : Circuit Rat) (g : Gate) (row column : Nat) (placement : Option (Placement Rat)) : Prop :=
  if g.isInertia = true then
    c.Loose row column ∧ (c.LastOn row ∨ ∃ target ∈ placement, (c.columns : Rat) ≤ target.position + 1)
  else placement = some ⟨row, (column : Rat)⟩

theorem GateKind.cases_of_isPlaceholder {kind : GateKind} (h : kind.isPlaceholder = true) :
    kind = .inertia ∨ ∃ p, kind = .support p := by
  cases kind <;> simp [isPlaceholder] at h ⊢

/-- Which gestures on an inertia or a support leave all wires of one length and all supports in place. All of them are
    carried out, be that so or not. -/
theorem placeholder_gestures_orderly_iff {c : Circuit Rat} (hc : c.WellFormed) (hsettled : c.refresh = c)
    {row column : Nat} {g : Gate} (hg : c.cell? row column = some g) (hp : g.kind.isPlaceholder = true) :
    (∃ d, c.deleteGate? g.id = some d ∧ (d.Orderly ↔ g.isInertia = true ∧ c.Loose row column ∧ c.LastOn row)) ∧
      (∃ d, c.duplicateRight? g.id = some d ∧ (d.Orderly ↔ g.isInertia = true)) ∧
      (∃ d, c.duplicateDown? g.id = some d ∧ (d.Orderly ↔ g.isInertia = true)) ∧
      ∃ s, (Drag.Source.cell g.id).start? c = some s ∧ ∀ (hovers : List (Pointer Rat)) (p : Pointer Rat) placement d,
        (s.1.hovers s.2 hovers).1.drop (s.1.hovers s.2 hovers).2 p = (placement, d) →
          (d.Orderly ↔ c.Bears g row column placement) := by
  have hintact : c.Intact (fun _ => True) [] := hc.intact fun _ _ _ _ _ => trivial
  have hcompact : c.Compact := hsettled ▸ compact_refresh c
  obtain ⟨s, hs, hhauls⟩ := Drag.exists_hauls hintact hg
  rcases GateKind.cases_of_isPlaceholder hp with hkind | ⟨i, hkind⟩
  · have hi : g.isInertia = true := GateKind.isInertia_iff.mpr hkind
    obtain ⟨d, hd, hdelete⟩ := exists_delete_inertia hintact.toSound hcompact hg hi
    obtain ⟨e, he, hright⟩ := exists_duplicateRight_inertia hintact trivial hg hi
    obtain ⟨f, hf, hdown⟩ := exists_duplicateDown_inertia hintact trivial hg hi
    refine ⟨⟨d, hd, hdelete.trans (and_iff_right hi).symm⟩, ⟨e, he, iff_of_true hright hi⟩,
      ⟨f, hf, iff_of_true hdown hi⟩, s, hs, fun hovers p placement d hd => ?_⟩
    have hdrop := (hhauls hovers).drop_inertia hintact.toSound hcompact hg hi p
    rw [hd] at hdrop
    rwa [Circuit.Bears, if_pos hi]
  · have hi : ¬g.isInertia = true := Bool.eq_false_iff.mp (Gate.isInertia_of_mark? (Gate.mark?_eq_cover_iff.mpr hkind))
    obtain ⟨d, hd, hdelete⟩ := exists_delete_support hintact.toSound hg hkind
    obtain ⟨e, he, hright⟩ := exists_duplicateRight_support hintact hg hkind
    obtain ⟨f, hf, hdown⟩ := exists_duplicateDown_support hintact hg hkind
    refine ⟨⟨d, hd, iff_of_false hdelete fun h => hi h.1⟩, ⟨e, he, iff_of_false hright hi⟩,
      ⟨f, hf, iff_of_false hdown hi⟩, s, hs, fun hovers p placement d hd => ?_⟩
    have hdrop := (hhauls hovers).drop_support hkind p
    rw [hd] at hdrop
    rwa [Circuit.Bears, if_neg hi]

/-- An inertia beside the gate on two wires is copied, and the support of that gate is put back where it was. -/
theorem placeholder_gestures_orderly_pair :
    (∃ g d, pairCircuit.cell? 0 0 = some g ∧ g.kind = .inertia ∧
      pairCircuit.duplicateRight? g.id = some d ∧ d.Orderly) ∧
      ∃ g s placement d, pairCircuit.cell? 2 0 = some g ∧ g.kind = .support ⟨0⟩ ∧
        (Drag.Source.cell g.id).start? pairCircuit = some s ∧
        (s.1.hovers s.2 []).1.drop (s.1.hovers s.2 []).2 ⟨130, 270⟩ = (placement, d) ∧ d.Orderly := by
  have hformed : pairCircuit.WellFormed := intact_pairDraft.refresh.wellFormed
  have hsettled : pairCircuit.refresh = pairCircuit := refresh_refresh pairDraft
  constructor
  · have hcell : (pairCircuit.cell? 0 0).any fun g => g.kind == .inertia := by decide +kernel
    obtain ⟨g, hg, hkind⟩ := (Option.any_eq_true _ _).mp hcell
    have hkind : g.kind = .inertia := beq_iff_eq.mp hkind
    obtain ⟨-, ⟨d, hd, hiff⟩, -⟩ := placeholder_gestures_orderly_iff hformed hsettled hg (by rw [hkind]; rfl)
    exact ⟨g, d, hg, hkind, hd, hiff.mpr (GateKind.isInertia_iff.mpr hkind)⟩
  · have hdrop : (pairCircuit.cell? 2 0).any fun g => g.kind == .support ⟨0⟩ &&
        ((Drag.Source.cell g.id).start? pairCircuit).any fun s =>
          ((s.1.hovers s.2 []).1.drop (s.1.hovers s.2 []).2 ⟨130, 270⟩).1 == some ⟨2, (0 : Nat)⟩ := by decide +kernel
    obtain ⟨g, hg, hboth⟩ := (Option.any_eq_true _ _).mp hdrop
    simp only [Bool.and_eq_true, beq_iff_eq] at hboth
    obtain ⟨hkind, hdrop⟩ := hboth
    obtain ⟨s, hs, hplacement⟩ := (Option.any_eq_true _ _).mp hdrop
    obtain ⟨-, -, -, s', hs', hiff⟩ := placeholder_gestures_orderly_iff hformed hsettled hg (by rw [hkind]; rfl)
    obtain rfl := Option.some.inj (hs.symm.trans hs')
    rcases hd : (s.1.hovers s.2 []).1.drop (s.1.hovers s.2 []).2 ⟨130, 270⟩ with ⟨placement, d⟩
    rw [hd] at hplacement
    refine ⟨g, s, placement, d, hg, hkind, hs, hd, (hiff [] ⟨130, 270⟩ placement d hd).mpr ?_⟩
    rw [Circuit.Bears, if_neg (by rw [Gate.isInertia, hkind]; exact Bool.false_ne_true)]
    exact beq_iff_eq.mp hplacement

/-- The gate on two wires loses its support, and a wire an inertia that others still have. -/
theorem placeholder_gestures_disorderly :
    pairCircuit.WellFormed ∧ pairCircuit.refresh = pairCircuit ∧
      (∃ g d, pairCircuit.cell? 2 0 = some g ∧ g.kind = .support ⟨0⟩ ∧ pairCircuit.deleteGate? g.id = some d ∧
        ¬d.Orderly) ∧
      ∃ g d, pairCircuit.cell? 0 0 = some g ∧ g.kind = .inertia ∧
        pairCircuit.deleteGate? g.id = some d ∧ ¬d.Orderly := by
  refine ⟨intact_pairDraft.refresh.wellFormed, refresh_refresh pairDraft, ?_, ?_⟩
  · have hdelete : (pairCircuit.cell? 2 0).any fun g => g.kind == .support ⟨0⟩ &&
        (pairCircuit.deleteGate? g.id).any fun d =>
          (d.cell? 1 0).any (fun o => o.span == 2) && (d.cell? 2 0).all Gate.isInertia := by
      decide +kernel
    obtain ⟨g, hg, hboth⟩ := (Option.any_eq_true _ _).mp hdelete
    simp only [Bool.and_eq_true, beq_iff_eq] at hboth
    obtain ⟨hkind, hdelete⟩ := hboth
    obtain ⟨d, hd, hcells⟩ := (Option.any_eq_true _ _).mp hdelete
    rw [Bool.and_eq_true] at hcells
    obtain ⟨o, ho, hspan⟩ := (Option.any_eq_true _ _).mp hcells.1
    refine ⟨g, d, hg, hkind, hd, fun h => ?_⟩
    obtain ⟨t, ht, hsupport⟩ := (h.supported.supports ho 2 0).mpr ⟨rfl, by omega, by rw [beq_iff_eq.mp hspan]; omega⟩
    have hinertia := hcells.2
    rw [ht, Option.all_some, Gate.isInertia, hsupport] at hinertia
    cases hinertia
  · have hdelete : (pairCircuit.cell? 0 0).any fun g => g.kind == .inertia &&
        (pairCircuit.deleteGate? g.id).any fun d => d.wires.map (·.cells.length) == [0, 1, 1] := by decide +kernel
    obtain ⟨g, hg, hboth⟩ := (Option.any_eq_true _ _).mp hdelete
    simp only [Bool.and_eq_true, beq_iff_eq] at hboth
    obtain ⟨hkind, hdelete⟩ := hboth
    obtain ⟨d, hd, hlengths⟩ := (Option.any_eq_true _ _).mp hdelete
    exact ⟨g, d, hg, hkind, hd, fun h => Nat.zero_ne_one (h.eq_of_lengths (beq_iff_eq.mp hlengths))⟩

end CircuitDesigner
