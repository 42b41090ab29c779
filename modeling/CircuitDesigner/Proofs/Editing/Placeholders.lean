import CircuitDesigner.Proofs.Editing.Duplicate
import CircuitDesigner.Proofs.Editing.Placed
import CircuitDesigner.Proofs.Editing.Slipped

/-! Inertias and supports that are deleted or copied.

    A support that is missing, or one too many, stays so: a refresh moves no support away from its gate and none to
    it. An inertia that is deleted leaves its wire short (`Circuit.Slipped`), but a copy of it takes a free cell, as
    any gate does. -/

namespace CircuitDesigner

open Circuit

/-! ### Supports in grids -/

namespace Grid

variable {G : Grid} {row column r k : Nat} {p : GateId}

/-- A support that is taken out is missed, wherever it is put but in its own cell. -/
theorem Spanned.set_cover_iff (h : G.Spanned) (hu : G.Unique) (hm : G.mark row column = some (.cover p)) :
    ((G.set row column none).set r k (some (.cover p))).Spanned ↔ r = row ∧ k = column := by
  constructor
  · intro hs
    have hmark : ∀ q l, ((G.set row column none).set r k (some (.cover p))).mark q l =
        if q = r ∧ l = k then some (.cover p) else if q = row ∧ l = column then none else G.mark q l := fun _ _ => rfl
    obtain ⟨q, kind, hlt, hle, hq⟩ := hs.parent ((hmark r k).trans (if_pos ⟨rfl, rfl⟩))
    rw [hmark, if_neg (by omega)] at hq
    split_ifs at hq with hcell
    obtain ⟨q', kind', hlt', hle', hq'⟩ := h.parent hm
    obtain ⟨rfl, rfl⟩ := hu hq hq'
    rw [hq] at hq'
    cases hq'
    -- The gate reaches to the cell that the support was in.
    have hgate : ((G.set row k none).set r k (some (.cover p))).mark q k = some (.gate p kind) := by
      rw [hmark, if_neg (by omega), if_neg (by omega)]
      exact hq
    have hcover := hs.cover_of_lt hgate hlt' hle'
    rw [hmark] at hcover
    by_contra hne
    rw [if_neg fun heq => hne ⟨heq.1.symm, rfl⟩, if_pos ⟨rfl, rfl⟩] at hcover
    cases hcover
  · rintro ⟨rfl, rfl⟩
    have hself : (G.set r k none).set r k (some (.cover p)) = G := by
      ext1
      · rfl
      · rfl
      · funext q l
        show (if q = r ∧ l = k then some (.cover p) else if q = r ∧ l = k then none else G.mark q l) = G.mark q l
        split_ifs with hcell
        · rw [hcell.1, hcell.2, hm]
        · rfl
    rwa [hself]

theorem Spanned.not_set_none (h : G.Spanned) (hm : G.mark row column = some (.cover p)) :
    ¬(G.set row column none).Spanned := by
  intro hs
  obtain ⟨q, kind, hlt, hle, hq⟩ := h.parent hm
  have hgate : (G.set row column none).mark q column = some (.gate p kind) := (if_neg (by omega)).trans hq
  have hcover := hs.cover_of_lt hgate hlt hle
  rw [show (G.set row column none).mark row column = none from if_pos ⟨rfl, rfl⟩] at hcover
  cases hcover

/-- No gate is above a support in a column of its own. -/
theorem not_spanned_set_alone (halone : ∀ q, G.mark q column = none) :
    ¬(G.set row column (some (.cover p))).Spanned := by
  intro hs
  have hm : (G.set row column (some (.cover p))).mark row column = some (.cover p) := if_pos ⟨rfl, rfl⟩
  obtain ⟨q, kind, hlt, -, hq⟩ := hs.parent hm
  rw [show (G.set row column (some (.cover p))).mark q column = G.mark q column from if_neg (by omega), halone] at hq
  cases hq

end Grid

/-! ### Supports in circuits -/

section Supports

variable {K : Type} [Coordinate K] {P : GateKind → Prop} {hand : List GateId} {c d : Circuit K} {g : Gate} {G : Grid}
  {row column r k : Nat} {p : GateId}

theorem orderly_refresh_of_shows (h : Shows c.wires G) (hl : Labelled c.wires c.nextGate) :
    c.refresh.Orderly ↔ G.Spanned := by
  rw [orderly_refresh_iff hl, h.eq_gridOf]
  refine and_iff_right fun w hw k hk => ?_
  obtain ⟨v, hv, g, hg, -⟩ := hk
  rw [h.aligned w (List.mem_of_mem_take hw), ← h.aligned v hv]
  exact (List.getElem?_eq_some_iff.mp hg).1

theorem Gate.span_of_support (h : g.kind = .support p) : g.span = 1 := by
  unfold span
  rw [h]
  rfl

/-- A gate on one wire that takes a free cell. -/
theorem shows_put_single (h : Shows c.wires G) (hspan : g.span = 1) {squeeze : Bool} (hrow : row < G.rows)
    (hcolumn : column ≤ G.columns) (hfree : (G.openColumn squeeze column).mark row column = none) :
    Shows (c.put g row column squeeze).wires ((G.openColumn squeeze column).set row column g.mark?) := by
  unfold put
  rw [hspan]
  exact shows_putCell h g squeeze hrow hcolumn hfree

/-- A copy of a support is out of place wherever it is put. -/
theorem not_orderly_refresh_put (h : c.Sound P [g.id]) (hkind : g.kind = .support p) {squeeze : Bool}
    (hrow : row < c.wires.length) (hcolumn : column ≤ c.columns) : ¬(c.put g row column squeeze).refresh.Orderly := by
  intro horderly
  have hspanned := ((orderly_refresh_iff (labelled_put h.counted_hand row column squeeze)).mp horderly).2
  have hinserts := inserts_put h.shows hrow hcolumn g squeeze
  exact ((hinserts.spanned_iff h.spanned h.labelled.unique_gridOf (Grid.free_shift _ _ _ _ _)).mp hspanned).1 p hkind

end Supports

/-! ### Deleting -/

section Delete

variable {K : Type} [Coordinate K] {P : GateKind → Prop} {c : Circuit K} {g : Gate} {row column : Nat} {p : GateId}

theorem deleteGate?_eq {o : Gate} {d : Circuit K} (h : c.Sound P []) (hg : c.cell? row column = some g)
    (hd : c.save.detach? g.id = some (o, d)) : c.deleteGate? g.id = some d.refresh := by
  unfold deleteGate?
  rw [locate?_eq h.labelled hg, detachAll, hd]
  rfl

theorem exists_delete_inertia (h : c.Sound P []) (hcompact : c.Compact) (hg : c.cell? row column = some g)
    (hi : g.isInertia = true) :
    ∃ d, c.deleteGate? g.id = some d ∧ (d.Orderly ↔ c.Loose row column ∧ c.LastOn row) := by
  have hsave : c.save.Sound P [] := h.congr rfl rfl
  have hgs : c.save.cell? row column = some g := hg
  obtain ⟨d, hd, -, -, hslipped⟩ := hsave.exists_detach_inertia hgs hi
  have hcolumn := (lt_of_cell? hg).2
  have horderly := (hslipped.congr (c := c) (fun _ _ => rfl) rfl rfl).orderly_iff h hcompact hg hi
  refine ⟨d.refresh, deleteGate?_eq h hg hd, horderly.trans (and_congr_right' (or_iff_right ?_))⟩
  show ¬c.columns - 1 = c.columns
  omega

theorem exists_delete_support (h : c.Sound P []) (hg : c.cell? row column = some g) (hkind : g.kind = .support p) :
    ∃ d, c.deleteGate? g.id = some d ∧ ¬d.Orderly := by
  have hsave : c.save.Sound P [] := h.congr rfl rfl
  have hgs : (c.save.wires[row]?).bind (fun w => w.cells[column]?) = some g := hg
  have hi : g.isInertia = false := Gate.isInertia_of_mark? (Gate.mark?_eq_cover_iff.mpr hkind)
  obtain ⟨d, hd, hshows, hkept, huses⟩ :=
    exists_detach_single hsave.shows hsave.labelled hgs hi (Gate.span_of_support hkind)
  have hl : Labelled d.wires d.nextGate := hsave.labelled.mono (fun i => by have := huses i; omega) hkept.next
  refine ⟨d.refresh, deleteGate?_eq h hg hd, ?_⟩
  rw [orderly_refresh_of_shows hshows hl]
  exact h.spanned.not_set_none (cover_of_cell? hg hkind)

end Delete

/-! ### Copying to the right -/

section Right

variable {P : GateKind → Prop} {c : Circuit Rat} {g : Gate} {row column : Nat} {p : GateId}

theorem exists_duplicateRight_inertia (h : c.Intact P []) (hP : P .inertia) (hg : c.cell? row column = some g)
    (hi : g.isInertia = true) : ∃ d, c.duplicateRight? g.id = some d ∧ d.Orderly := by
  have hkind : g.kind = .inertia := GateKind.isInertia_iff.mp hi
  obtain ⟨e, he, hintact, -⟩ := exists_duplicateRight? h hg (hkind ▸ hP) fun q hq => by cases hkind.symm.trans hq
  exact ⟨e.refresh, he, hintact.refresh.wellFormed.orderly⟩

theorem exists_duplicateRight_support (h : c.Intact P []) (hg : c.cell? row column = some g)
    (hkind : g.kind = .support p) :
    ∃ d, c.duplicateRight? g.id = some d ∧ ¬d.Orderly := by
  have hrow : row < (c.save.newGate g.kind).2.wires.length := (lt_of_cell? hg).1
  have hcopy : (c.save.newGate g.kind).2.Sound P [(c.save.newGate g.kind).1.id] := h.save.toSound.newGate g.kind
  have hwhole : Coordinate.isWhole (Coordinate.ofNat column + Coordinate.half : Rat) = false :=
    Coordinate.isWhole_intCast_add_half column
  refine ⟨_, duplicateRight?_eq h hg, ?_⟩
  rw [attach?, if_pos (by simpa [Coordinate.isNumber] using hrow), hwhole, Option.getD_some]
  exact not_orderly_refresh_put hcopy hkind hrow (Coordinate.column_le _ _)

end Right

/-! ### Copying down -/

section Down

/-- A cell of `H` under a row, in which no gate has come to start. -/
theorem Shifted.not_gate {G H : Grid} {column row : Nat} (h : Shifted G H column 1 (row + 1)) (id : GateId)
    (kind : GateKind) : H.mark (row + 1) column ≠ some (.gate id kind) := by
  intro hm
  have := (h.below (Nat.le_refl _) hm).1
  omega

/-- A cover there is of the gate that covers the cell above it. -/
theorem Shifted.cover {G H : Grid} {column row : Nat} {p : GateId} (h : Shifted G H column 1 (row + 1)) (hG : G.Spanned)
    (hH : H.Spanned) (hm : H.mark (row + 1) column = some (.cover p)) :
    (∃ kind, G.mark row column = some (.gate p kind)) ∨ G.mark row column = some (.cover p) := by
  obtain ⟨q, kind, hlt, hle, hq⟩ := hH.parent hm
  have hqG := (h.above hlt).mp hq
  rcases Nat.eq_or_lt_of_le (Nat.le_of_lt_succ hlt) with rfl | hlt
  · exact .inl ⟨kind, hqG⟩
  · exact .inr (hG.cover_of_lt hqG hlt (by omega))

variable {K : Type} [Coordinate K] {P : GateKind → Prop} {c : Circuit K} {g : Gate} {row column : Nat} {p : GateId}

/-- The gates below make room for a copy of a gate on one wire. -/
theorem exists_room (h : c.Intact P []) (hg : c.cell? row column = some g) (hspan : g.span = 1) :
    ∃ (o : Gate) (e : Circuit K), c.duplicateDown? g.id = some (e.put o (row + 1) column false).refresh ∧
      o.kind = g.kind ∧ e.Intact P [o.id] ∧ Shifted (gridOf c.wires) (gridOf e.wires) column 1 (row + 1) ∧
      row + 1 < e.wires.length ∧ column < e.columns := by
  obtain ⟨hrow, hcolumn⟩ := lt_of_cell? hg
  obtain ⟨e, hd, he, -, hshift, hlength, hcolumns⟩ := exists_makeRoom h hg (by omega) hcolumn
  rw [hspan] at hd hshift hlength
  refine ⟨(c.save.newGate g.kind).1, e, ?_, rfl, he, hshift, by omega, by omega⟩
  rw [hd, attachAt, if_pos (by omega), Nat.min_eq_left (by omega)]

theorem exists_duplicateDown_inertia (h : c.Intact P []) (hP : P .inertia) (hg : c.cell? row column = some g)
    (hi : g.isInertia = true) : ∃ d, c.duplicateDown? g.id = some d ∧ d.Orderly := by
  have hkind : g.kind = .inertia := GateKind.isInertia_iff.mp hi
  have hnone : (gridOf c.wires).mark row column = none := (mark_of_cell? hg).trans (Gate.mark?_eq_none_iff.mpr hi)
  obtain ⟨o, e, hd, ho, he, hshift, hrow, hcolumn⟩ := exists_room h hg (Gate.span_of_isInertia hi)
  have hfree : ((gridOf e.wires).openColumn false column).Free (row + 1) column o.span := by
    rw [openColumn_grid_eq_self hcolumn]
    refine he.spanned.free ?_ fun r hr hr' => ?_
    · cases hm : (gridOf e.wires).mark (row + 1) column with
      | none => rfl
      | some m => cases m with
        | gate id kind => exact absurd hm (hshift.not_gate id kind)
        | cover id =>
          rcases hshift.cover h.spanned he.spanned hm with ⟨kind, hm'⟩ | hm'
          · cases hm'.symm.trans hnone
          · cases hm'.symm.trans hnone
    · have : o.span = 1 := Gate.span_of_isInertia (GateKind.isInertia_iff.mpr (ho.trans hkind))
      omega
  have hput := he.toSound.put (ho ▸ hkind ▸ hP)
    (fun q hq => by cases (ho.trans hkind).symm.trans hq) hrow hcolumn.le hfree
  exact ⟨_, hd, (he.of_kept (e.kept_put o (row + 1) column false) hput).refresh.wellFormed.orderly⟩

theorem exists_duplicateDown_support (h : c.Intact P []) (hg : c.cell? row column = some g)
    (hkind : g.kind = .support p) :
    ∃ d, c.duplicateDown? g.id = some d ∧ ¬d.Orderly := by
  obtain ⟨o, e, hd, ho, he, -, hrow, hcolumn⟩ := exists_room h hg (Gate.span_of_support hkind)
  exact ⟨_, hd, not_orderly_refresh_put he.toSound (ho.trans hkind) hrow hcolumn.le⟩

end Down

end CircuitDesigner
