import CircuitDesigner.Proofs.Editing.Landing

/-! Copies of gates.

    A copy goes into a new column, or below its gate. In the second case the gates below make room: they go down one
    after the other, the lowest one first, so that each of them lands where the one below it no longer is. What is
    left above a row and what went down below it are described by `Shifted`. -/

namespace CircuitDesigner

open Circuit

/-! ### Grids -/

/-- The gates of `H` are those of `G`, but the ones of a column that start at `row` or below it are `span` rows further
    down. -/
def Shifted (G H : Grid) (column span row : Nat) : Prop :=
  ∀ r k id kind, H.mark r k = some (.gate id kind) ↔
    ∃ q, G.mark q k = some (.gate id kind) ∧ r = if k = column ∧ row ≤ q then q + span else q

section Shifted

variable {G H : Grid} {column span row r k n : Nat} {id : GateId} {kind : GateKind}

theorem Shifted.above (h : Shifted G H column span row) (hr : r < row) :
    H.mark r column = some (.gate id kind) ↔ G.mark r column = some (.gate id kind) := by
  rw [h]
  constructor
  · rintro ⟨q, hq, heq⟩
    split_ifs at heq with hle
    · omega
    · exact heq ▸ hq
  · exact fun hm => ⟨r, hm, by rw [if_neg (by omega)]⟩

theorem Shifted.below (h : Shifted G H column span row) (hr : row ≤ r) (hm : H.mark r column = some (.gate id kind)) :
    row + span ≤ r ∧ G.mark (r - span) column = some (.gate id kind) := by
  obtain ⟨q, hq, heq⟩ := (h r column id kind).mp hm
  split_ifs at heq with hle
  · subst heq
    exact ⟨by omega, by rwa [Nat.add_sub_cancel]⟩
  · omega

/-- No gate starts in new rows. -/
theorem shifted_addRows (hbound : ∀ q id kind, G.mark q column = some (.gate id kind) → q < row) (count : Nat) :
    Shifted G (G.addRows count) column span row := by
  intro r k id kind
  constructor
  · intro hm
    refine ⟨r, hm, (if_neg ?_).symm⟩
    rintro ⟨rfl, hle⟩
    exact Nat.not_le.mpr (hbound r id kind hm) hle
  · rintro ⟨q, hq, rfl⟩
    rw [if_neg]
    · exact hq
    · rintro ⟨rfl, hle⟩
      exact Nat.not_le.mpr (hbound q id kind hq) hle

theorem Shifted.skip (h : Shifted G H column span (row + 1))
    (hnone : ∀ id kind, H.mark row column ≠ some (.gate id kind)) : Shifted G H column span row := by
  intro r k id kind
  rw [h]
  refine exists_congr fun q => and_congr_right fun hq => ?_
  have hne : ¬(k = column ∧ q = row) := by
    rintro ⟨rfl, rfl⟩
    exact hnone id kind ((h.above (Nat.lt_succ_self q)).mpr hq)
  split_ifs <;> omega

/-- The gate of a row finds room further down, because the next one went down before. -/
theorem Shifted.free (h : Shifted G H column span (row + 1)) (hG : G.Spanned) (hH : H.Spanned)
    (hm : H.mark row column = some (.gate id kind)) :
    (H.clear row column kind.span).Free (row + span) column kind.span := by
  have hspan := kind.span_pos
  have hmG : G.mark row column = some (.gate id kind) := (h.above (Nat.lt_succ_self row)).mp hm
  have hfree : (H.clear row column kind.span).Free row column (span + kind.span) := by
    refine (hH.clear hm).free (if_pos ⟨rfl, Nat.le_refl _, by omega⟩) fun r hr hr' id' kind' hmr => ?_
    simp only [Grid.clear] at hmr
    split at hmr
    · cases hmr
    · obtain ⟨hle, hmr⟩ := h.below hr hmr
      have := hG.disjoint hmG hmr (by omega)
      omega
  exact fun r hr hr' => hfree r (by omega) (by omega)

/-- A gate that is put into free cells joins those that show. -/
theorem Grid.gate_put_iff {g : Gate} (hfree : G.Free row column g.span) (hp : g.kind.isPlaceholder = false) :
    (G.put g row column).mark r k = some (.gate id kind) ↔
      (id = g.id ∧ kind = g.kind ∧ r = row ∧ k = column) ∨ G.mark r k = some (.gate id kind) := by
  have hspan : 0 < g.span := g.kind.span_pos
  unfold Grid.put
  dsimp only
  by_cases hin : k = column ∧ row ≤ r ∧ r < row + g.span
  · obtain ⟨rfl, hle, hlt⟩ := hin
    rw [if_pos rfl, hfree r hle hlt]
    split_ifs with hr
    · rw [Gate.mark?_eq_gate_iff]
      simp [hr, hp, eq_comm]
    · simp [hr]
    · omega
  · have hne : ¬(r = row ∧ k = column) := fun h => hin ⟨h.2, by omega, by omega⟩
    split_ifs with hk hr hcovered
    · exact absurd ⟨hr, hk⟩ hne
    · omega
    · simp [hne]
    · simp [hk]

/-- A gate that is taken out leaves the others that show. -/
theorem Grid.Spanned.gate_clear_iff (h : G.Spanned) (hm : G.mark row column = some (.gate id kind)) {i : GateId}
    {kind' : GateKind} : (G.clear row column kind.span).mark r k = some (.gate i kind') ↔
      G.mark r k = some (.gate i kind') ∧ ¬(k = column ∧ r = row) := by
  have hspan := kind.span_pos
  unfold Grid.clear
  dsimp only
  split_ifs with hin
  · obtain ⟨rfl, hle, hlt⟩ := hin
    refine iff_of_false nofun ?_
    rintro ⟨hmr, hne⟩
    rw [h.cover_of_lt hm (by omega) hlt] at hmr
    cases hmr
  · refine (and_iff_left ?_).symm
    rintro ⟨rfl, rfl⟩
    exact hin ⟨rfl, Nat.le_refl r, by omega⟩

/-- The gate of a row went down. -/
theorem Shifted.move (h : Shifted G H column span (row + 1)) (hG : G.Spanned) (hH : H.Spanned)
    (hm : H.mark row column = some (.gate id kind)) {g : Gate} (hid : g.id = id) (hkind : g.kind = kind)
    (hp : kind.isPlaceholder = false) :
    Shifted G ((H.clear row column kind.span).put g (row + span) column) column span row := by
  subst hid hkind
  have hmG : G.mark row column = some (.gate g.id g.kind) := (h.above (Nat.lt_succ_self row)).mp hm
  intro r k i kind'
  rw [Grid.gate_put_iff (h.free hG hH hm) hp, hH.gate_clear_iff hm, h]
  constructor
  · rintro (⟨rfl, rfl, rfl, rfl⟩ | ⟨⟨q, hq, heq⟩, hne⟩)
    · exact ⟨row, hmG, by rw [if_pos ⟨rfl, Nat.le_refl row⟩]⟩
    · refine ⟨q, hq, ?_⟩
      split_ifs at heq ⊢ <;> omega
  · rintro ⟨q, hq, heq⟩
    by_cases hmoved : k = column ∧ q = row
    · obtain ⟨rfl, rfl⟩ := hmoved
      rw [if_pos ⟨rfl, Nat.le_refl q⟩] at heq
      rw [hmG] at hq
      cases hq
      exact .inl ⟨rfl, rfl, heq, rfl⟩
    · refine .inr ⟨⟨q, hq, ?_⟩, ?_⟩ <;> split_ifs at heq ⊢ <;> omega

/-- The cells right below a gate are free if no gate starts in them. -/
theorem Grid.Spanned.free_below (h : H.Spanned) (hm : H.mark row column = some (.gate id kind))
    (hnone : ∀ r, row + kind.span ≤ r → r < row + kind.span + n →
      ∀ id' kind', H.mark r column ≠ some (.gate id' kind')) :
    H.Free (row + kind.span) column n := by
  intro r hle hlt
  cases hmr : H.mark r column with
  | none => rfl
  | some m => cases m with
    | gate id' kind' => exact absurd hmr (hnone r hle hlt id' kind')
    | cover id' =>
      obtain ⟨q, kind', hq, hqr, hmq⟩ := h.parent hmr
      rcases Nat.lt_trichotomy q row with hlt' | rfl | hgt
      · have := h.disjoint hmq hm hlt'
        omega
      · rw [hm] at hmq
        cases hmq
        omega
      · have := h.disjoint hm hmq hgt
        exact absurd hmq (hnone q this (by omega) id' kind')

end Shifted

/-! ### Circuits -/

section Down

variable {K : Type} [Coordinate K] {P : GateKind → Prop} {hand : List GateId} {c : Circuit K} {G : Grid}
  {column span : Nat}

/-- The gate of a row moves down. -/
theorem exists_moveDown {row : Nat} {id : GateId} {kind : GateKind} (h : c.Intact P hand) (hG : G.Spanned)
    (hshift : Shifted G (gridOf c.wires) column span (row + 1))
    (hm : (gridOf c.wires).mark row column = some (.gate id kind)) (hp : kind.isPlaceholder = false)
    (hrow : row + span < c.wires.length) (hcolumn : column < c.columns) :
    ∃ o d, c.detach? id = some (o, d) ∧ (d.attachAt o (row + span) column).Intact P hand ∧
      Kept c (d.attachAt o (row + span) column) ∧
      Shifted G (gridOf (d.attachAt o (row + span) column).wires) column span row ∧
      c.wires.length ≤ (d.attachAt o (row + span) column).wires.length ∧
      (d.attachAt o (row + span) column).columns = c.columns := by
  obtain ⟨o, d, hd, rfl, rfl, hgrid, hk, hintact⟩ := h.detach? hm
  have hlength : d.wires.length = c.wires.length := congrArg Grid.rows hgrid
  have hcolumns : d.columns = c.columns := congrArg Grid.columns hgrid
  have hself : (gridOf d.wires).openColumn false column = gridOf d.wires :=
    openColumn_grid_eq_self (hcolumns.symm ▸ hcolumn : column < d.columns)
  have hfree : ((gridOf d.wires).openColumn false column).Free (row + span) column o.span := by
    rw [hself, hgrid]
    exact Shifted.free hshift hG h.spanned hm
  have hrow' : row + span < d.wires.length := hlength.symm ▸ hrow
  have hcolumn' : column ≤ d.columns := hcolumns.symm ▸ hcolumn.le
  have hput := hintact.attachAt (h.kinds _ _ _ _ hm) (GateKind.ne_support hp) hrow' hcolumn' hfree
  have hgrid' := (shows_attachAt hintact.shows o hrow' hcolumn' hfree).eq_gridOf
  rw [hself, hgrid] at hgrid'
  have hrows : (d.attachAt o (row + span) column).wires.length = max c.wires.length (row + span + o.span) :=
    congrArg Grid.rows hgrid'
  exact ⟨o, d, hd, hput, hk.trans (kept_attachAt d o _ column), hgrid' ▸ Shifted.move hshift hG h.spanned hm rfl rfl hp,
    hrows ▸ Nat.le_max_left _ _, congrArg Grid.columns hgrid'⟩

/-- The gates below make room. -/
theorem exists_pushDown (h : c.Intact P hand) (hG : G.Spanned) (row count : Nat)
    (hshift : Shifted G (gridOf c.wires) column span (row + count)) (hrows : row + count + span ≤ c.wires.length)
    (hcolumn : column < c.columns) :
    (c.pushDown column row span count).Intact P hand ∧ Kept c (c.pushDown column row span count) ∧
      Shifted G (gridOf (c.pushDown column row span count).wires) column span row ∧
      c.wires.length ≤ (c.pushDown column row span count).wires.length ∧
      (c.pushDown column row span count).columns = c.columns := by
  induction count generalizing c with
  | zero => exact ⟨h, .refl c, hshift, Nat.le_refl _, rfl⟩
  | succ count ih =>
    rw [pushDown]
    -- The lowest gate goes first, so that the one above it finds room.
    by_cases hgate : ∃ g, c.cell? (row + count) column = some g ∧ g.kind.isPlaceholder = false
    · obtain ⟨g, hg, hp⟩ := hgate
      have hshift : Shifted G (gridOf c.wires) column span (row + count + 1) := hshift
      obtain ⟨o, d, hd, hput, hk, hshift, hlength, hcolumns⟩ :=
        exists_moveDown h hG hshift (gate_of_cell? hg hp) hp (by omega) hcolumn
      have hoccupant : ((c.cell? (row + count) column).filter fun g => !g.kind.isPlaceholder).bind
          (fun g => c.detach? g.id) = some (o, d) := by
        rw [hg, Option.filter_some, hp]
        exact hd
      rw [hoccupant]
      obtain ⟨hdone, hk', hshift', hlength', hcolumns'⟩ := ih hput hshift (by omega) (hcolumns.symm ▸ hcolumn)
      exact ⟨hdone, hk.trans hk', hshift', hlength.trans hlength', hcolumns'.trans hcolumns⟩
    · have hnone : ((c.cell? (row + count) column).filter fun g => !g.kind.isPlaceholder).bind
          (fun g => c.detach? g.id) = none := by
        cases hg : c.cell? (row + count) column with
        | none => rfl
        | some g =>
          rw [Option.filter_some, if_neg]
          · rfl
          · intro hp
            exact hgate ⟨g, hg, by simpa using hp⟩
      rw [hnone]
      refine ih h (hshift.skip fun id kind hm => ?_) (by omega) hcolumn
      obtain ⟨g, hg, hmark⟩ := exists_cell?_of_mark hm
      exact hgate ⟨g, hg, (Gate.mark?_eq_gate_iff.mp hmark).2.2⟩

/-- The gates below a cell go down, with new wires at the bottom, before a copy of its gate is put there. -/
theorem exists_makeRoom {row : Nat} {g : Gate} (h : c.Intact P []) (hg : c.cell? row column = some g)
    (hbottom : row + g.span ≤ c.wires.length) (hcolumn : column < c.columns) :
    ∃ e, c.duplicateDown? g.id = some (e.attachAt (c.save.newGate g.kind).1 (row + g.span) column).refresh ∧
      e.Intact P [(c.save.newGate g.kind).1.id] ∧ Rest c.save e ∧
      Shifted (gridOf c.wires) (gridOf e.wires) column g.span (row + g.span) ∧
      c.wires.length + g.span ≤ e.wires.length ∧ e.columns = c.columns := by
  have hlocate := locate?_eq h.labelled hg
  -- The circuit with the copy in hand, and with new wires at the bottom.
  have hcopy := (h.save.newGate g.kind).addWires g.span
  have hrest := (kept_newGate c.save g.kind).rest.trans (kept_addWires (c.save.newGate g.kind).2 g.span).rest
  have hgrid := (shows_addWires (c := (c.save.newGate g.kind).2) (G := gridOf c.wires) h.shows g.span).eq_gridOf
  have hd : c.duplicateDown? g.id = some (((((c.save.newGate g.kind).2.addWires g.span).pushDown column (row + g.span)
      g.span (c.wires.length - (row + g.span))).attachAt (c.save.newGate g.kind).1 (row + g.span) column).refresh) := by
    unfold duplicateDown?
    rw [hlocate, gate?_eq hlocate, hg]
    rfl
  generalize (c.save.newGate g.kind).2.addWires g.span = b at hcopy hrest hgrid hd
  have hrows : b.wires.length = c.wires.length + g.span := congrArg Grid.rows hgrid
  have hcolumns : b.columns = c.columns := congrArg Grid.columns hgrid
  have hstart : Shifted (gridOf c.wires) (gridOf b.wires) column g.span c.wires.length :=
    hgrid ▸ shifted_addRows (fun _ _ _ hmq => (h.shows.lt_of_mark hmq).1) g.span
  obtain ⟨hdown, hk, hshift, hlength, hcolumns'⟩ := exists_pushDown hcopy h.spanned (row + g.span)
    (c.wires.length - (row + g.span)) (by rwa [Nat.add_sub_cancel' hbottom]) (by omega) (by omega)
  exact ⟨_, hd, hdown, hrest.trans hk.rest, hshift, by omega, hcolumns'.trans hcolumns⟩

/-- A copy lands below its gate, and before the refresh all gates are there, those below it further down. -/
theorem exists_duplicateDown? {row : Nat} {g : Gate} (h : c.Intact P []) (hg : c.cell? row column = some g)
    (hp : g.kind.isPlaceholder = false) :
    ∃ e, c.duplicateDown? g.id = some e.refresh ∧ e.Intact P [] ∧ Rest c.save e ∧ e.columns = c.columns ∧
      ∀ r k i kind, (gridOf e.wires).mark r k = some (.gate i kind) ↔
        (i = ⟨c.nextGate⟩ ∧ kind = g.kind ∧ r = row + g.span ∧ k = column) ∨
          ∃ q, (gridOf c.wires).mark q k = some (.gate i kind) ∧
            r = if k = column ∧ row + g.span ≤ q then q + g.span else q := by
  have hm := gate_of_cell? hg hp
  have hspan : 0 < g.span := g.kind.span_pos
  have hbottom : row + g.span ≤ c.wires.length := h.shows.add_span_le h.spanned hm
  have hcolumn : column < c.columns := (h.shows.lt_of_mark hm).2
  obtain ⟨e, hd, hdown, hrest, hshift, hlength, hcolumns⟩ := exists_makeRoom h hg hbottom hcolumn
  have hme : (gridOf e.wires).mark row column = some (.gate g.id g.kind) := (hshift.above (by omega)).mpr hm
  have hrow : row + g.span < e.wires.length := by omega
  have hcolumn' : column < e.columns := hcolumns ▸ hcolumn
  have hself : (gridOf e.wires).openColumn false column = gridOf e.wires := openColumn_grid_eq_self hcolumn'
  have hfree : ((gridOf e.wires).openColumn false column).Free (row + g.span) column g.span := by
    rw [hself]
    refine hdown.spanned.free_below hme fun r hr hr' id kind hmr => ?_
    have hle := (hshift.below hr hmr).1
    have hr' : r < row + g.span + g.span := hr'
    omega
  have hput := (shows_attachAt hdown.shows (c.save.newGate g.kind).1 hrow hcolumn'.le hfree).eq_gridOf
  refine ⟨e.attachAt (c.save.newGate g.kind).1 (row + g.span) column, hd,
    hdown.attachAt (h.kinds _ _ _ _ hm) (GateKind.ne_support hp) hrow hcolumn'.le hfree,
    hrest.trans (kept_attachAt _ _ _ _).rest, ?_, fun r k i kind => ?_⟩
  · rw [hself] at hput
    exact (congrArg Grid.columns hput).trans hcolumns
  · rw [hself] at hput hfree
    rw [hput, Grid.gate_put_iff (g := (c.save.newGate g.kind).1) hfree hp, hshift]
    rfl

/-- A copy lands below its gate. -/
theorem edited_duplicateDown? {id : GateId} {d : Circuit K} (h : c.Intact P []) (hs : c.isShown id = true)
    (hd : c.duplicateDown? id = some d) : Edited P c d := by
  obtain ⟨row, column, g, -, -, hg, rfl, hp⟩ := exists_of_isShown hs
  obtain ⟨e, he, hintact, hrest, -⟩ := exists_duplicateDown? h hg hp
  exact ⟨e, hintact, hrest, Option.some.inj (hd.symm.trans he)⟩

end Down

section Right

variable {P : GateKind → Prop} {c d : Circuit Rat} {id : GateId} {g : Gate} {row column : Nat}

theorem duplicateRight?_eq (h : c.Intact P []) (hg : c.cell? row column = some g) :
    c.duplicateRight? g.id = some (((c.save.newGate g.kind).2.attach? (c.save.newGate g.kind).1 row
      (Coordinate.ofNat column + Coordinate.half)).getD (c.save.newGate g.kind).2).refresh := by
  have hlocate := locate?_eq h.labelled hg
  unfold duplicateRight?
  rw [hlocate, gate?_eq hlocate, hg]
  rfl

/-- A copy goes into a new column. -/
theorem exists_duplicateRight? (h : c.Intact P []) (hg : c.cell? row column = some g) (hP : P g.kind)
    (hkind : ∀ p, g.kind ≠ .support p) :
    ∃ e, c.duplicateRight? g.id = some e.refresh ∧ e.Intact P [] ∧ Rest c.save e := by
  have hrow : row < (c.save.newGate g.kind).2.wires.length := (lt_of_cell? hg).1
  have hwhole : Coordinate.isWhole (Coordinate.ofNat column + Coordinate.half : Rat) = false :=
    Coordinate.isWhole_intCast_add_half column
  have hcopy := h.save.newGate g.kind
  obtain ⟨e, he, hk, hsound, -⟩ := hcopy.toSound.exists_attach? (g := (c.save.newGate g.kind).1) hP hkind hrow
    (Coordinate.ofNat column + Coordinate.half) (Grid.free_openColumn (.inl (by rw [hwhole]; rfl)))
  refine ⟨e, ?_, hcopy.of_kept hk hsound, (kept_newGate c.save g.kind).rest.trans hk.rest⟩
  rw [duplicateRight?_eq h hg, he]
  rfl

theorem edited_duplicateRight? (h : c.Intact P []) (hs : c.isShown id = true) (hd : c.duplicateRight? id = some d) :
    Edited P c d := by
  obtain ⟨row, column, g, -, -, hg, rfl, hp⟩ := exists_of_isShown hs
  obtain ⟨e, he, hintact, hrest⟩ := exists_duplicateRight? h hg (h.kinds _ _ _ _ (gate_of_cell? hg hp))
    (GateKind.ne_support hp)
  exact ⟨e, hintact, hrest, Option.some.inj (hd.symm.trans he)⟩

end Right

end CircuitDesigner
