import CircuitDesigner.Proofs.Editing.Relocation
import CircuitDesigner.Proofs.Editing.Saved
import CircuitDesigner.Proofs.Restore.Tiled

/-! Undo steps that undo nothing.

    A drop saves the state at its start if it differs from the one that it leaves before the refresh. A new column
    makes the two differ, but the refresh may then remove the one that the gate has left: the circuit is as it was,
    and the undo stack has one more entry (`drop_saves_same`). That comes of a gate that is alone in its column and
    gets a new one next to it, or beyond columns that are like its own, and of an inertia that gets a new column. In
    all other cases an entry is added exactly if the drop has changed the circuit (`drop_saves_iff`). -/

namespace CircuitDesigner

open Circuit

section Columns

variable {K : Type} [Coordinate K] {b c e : Circuit K} {w : Wire K} {column : Nat}

theorem Wire.face_dropInertia (w : Wire K) (column : Nat) : (w.dropInertia column).face = w.face :=
  congrArg Prod.snd (w.badge_dropInertia column)

/-- An idle column goes. -/
theorem Circuit.Moved.dropInertia (h : b.Moved e) (hcolumn : column < e.columns)
    (hidle : ∀ r, (gridOf e.wires).mark r column = none) :
    b.Moved { e with wires := e.wires.map fun w => w.dropInertia column } ∧
      gridOf (e.wires.map fun w => w.dropInertia column) = (gridOf e.wires).removeColumn column := by
  have hshows := h.shows.dropInertia hcolumn hidle
  have hgrid := hshows.eq_gridOf
  have hlength : (e.wires.map fun w => w.dropInertia column).length = e.wires.length := List.length_map _
  refine ⟨⟨h.settings, hgrid ▸ hshows, ?_, ?_, fun hsame => ?_⟩, hgrid⟩
  · show (gridOf _).Each _
    rw [hgrid]
    exact fun r k id kind hm => h.told r _ id kind hm
  · show (e.wires.map fun w => w.dropInertia column).length = _ ∨ ∃ r k m, _ ∧ (gridOf _).mark r k = some m
    rw [hgrid, hlength]
    refine h.rows.imp_right fun ⟨r, k, m, hr, hm⟩ => ⟨r, if k < column then k else k - 1, m, hr, ?_⟩
    have hne : k ≠ column := by
      rintro rfl
      rw [hidle] at hm
      cases hm
    rw [← hm, Grid.removeColumn]
    dsimp only
    congr 1
    split_ifs <;> omega
  · show (e.wires.map fun w => w.dropInertia column).map Wire.face = _
    rw [← h.face (hlength ▸ hsame), List.map_map]
    exact List.map_congr_left fun w _ => w.face_dropInertia column

/-- With one more column, the refresh brings back the circuit exactly if all cells are as before beside an idle
    column. -/
theorem Spared.current_refresh_iff (h : Spared c b w) (hc : c.Compact) (hb : Shows b.wires (gridOf b.wires))
    (htold : (gridOf b.wires).Each GateKind.Told) (he : b.Moved e) (hcolumns : e.columns = c.columns + 1) :
    e.refresh.current = c.current ↔ ∃ k ≤ c.columns, (∀ r, (gridOf e.wires).mark r k = none) ∧
      ∀ r x, ((gridOf e.wires).removeColumn k).stamp r x = (gridOf b.wires).stamp r x := by
  -- The refresh does the same to the circuit without the idle column, that is as wide as it was.
  have hdrop : ∀ k ≤ c.columns, (∀ r, (gridOf e.wires).mark r k = none) →
      ∃ e' : Circuit K, b.Moved e' ∧ gridOf e'.wires = (gridOf e.wires).removeColumn k ∧
        (gridOf e'.wires).columns = c.columns ∧ e'.refresh.current = e.refresh.current := by
    intro k hk hidle
    have hk : k < e.columns := by omega
    obtain ⟨hmoved, hgrid⟩ := he.dropInertia hk hidle
    refine ⟨_, hmoved, hgrid, ?_, ?_⟩
    · rw [hgrid]
      show e.columns - 1 = _
      omega
    · rw [CircuitDesigner.current_refresh, CircuitDesigner.current_refresh,
        minimize_dropInertia ((he.shows.isVacant hk).mpr hidle)]
  constructor
  · intro hcurrent
    obtain ⟨k, hk, hidle⟩ : ∃ k ≤ c.columns, ∀ r, (gridOf e.wires).mark r k = none := by
      by_contra hbusy
      have hsame : e.minimize.columns = e.columns := columns_minimize_iff.mpr fun k hk => by
        refine Bool.eq_false_iff.mpr fun hvacant => hbusy ⟨k, ?_, (he.shows.isVacant hk).mp hvacant⟩
        have hk : k < e.columns := hk
        omega
      rw [CircuitDesigner.current_refresh] at hcurrent
      have := columns_of_current hcurrent
      omega
    obtain ⟨e', hmoved, hgrid, hcolumns', hsame⟩ := hdrop k hk hidle
    have heq := h.current_eq hmoved hcolumns' (hsame.trans hcurrent)
    refine ⟨k, hk, hidle, ?_⟩
    rw [← hgrid]
    exact (current_eq_iff_stamp hmoved.shows hb hmoved.settings (hmoved.face (length_of_current heq))
      (hcolumns'.trans h.columns.symm)).mp heq
  · rintro ⟨k, hk, hidle, hstamps⟩
    obtain ⟨e', hmoved, hgrid, hcolumns', hsame⟩ := hdrop k hk hidle
    rw [← hgrid] at hstamps
    have hlength : e'.wires.length = b.wires.length := by
      refine hmoved.rows.resolve_right ?_
      rintro ⟨r, x, m, hr, hm⟩
      have hinertia := (hstamps r x).trans (hb.stamp_of_le (.inl hr))
      rw [(hmoved.shows.stamp_eq_iff hmoved.told).mp hinertia] at hm
      cases hm
    have heq := (current_eq_iff_stamp hmoved.shows hb hmoved.settings (hmoved.face hlength)
      (hcolumns'.trans h.columns.symm)).mpr hstamps
    rw [← hsame]
    exact h.current_refresh hc hb htold hmoved heq

end Columns

section Drops

variable {c b e : Circuit Rat} {w : Wire Rat} {g : Gate} {target : Placement Rat} {G : Grid} {row column k : Nat}

/-- The columns have the same stamps. -/
def Circuit.SameStamps (c : Circuit Rat) (k column : Nat) : Prop :=
  ∀ row, c.current.stamp? row k = c.current.stamp? row column

/-- The gate shows in the cell, and nothing else shows in the column but that it covers. -/
def Circuit.Alone (c : Circuit Rat) (g : Gate) (row column : Nat) : Prop :=
  c.Places g.id g.kind row column ∧
    ∀ r o, c.cell? r column = some o → o.isInertia = true ∨ o.id = g.id ∨ o.kind = .support g.id

/-- A new column for the gate takes the place of its old one, that it leaves empty. Between them, if they are not side
    by side, all columns have the same stamps. An inertia leaves its new column empty. -/
def Circuit.Replaces (c : Circuit Rat) (g : Gate) (target : Placement Rat) : Prop :=
  c.Opens target ∧ (g.isInertia = true ∨ ∃ column, c.Alone g target.row column ∧
    ∀ k, Coordinate.column target.position c.columns ≤ k ∧ k ≤ column ∨
      column ≤ k ∧ k < Coordinate.column target.position c.columns → c.SameStamps k column)

theorem sameStamps_iff (h : Shows c.wires G) (hk : k < G.columns) (hcolumn : column < G.columns) :
    c.SameStamps k column ↔ ∀ r, G.stamp r k = G.stamp r column := by
  have hstamp : ∀ {k}, k < G.columns → ∀ r, c.current.stamp? r k = if r < G.rows then some (G.stamp r k) else none := by
    intro k hk r
    rw [current, stamp?_capture, cell?_eq_bind]
    split_ifs with hr
    · obtain ⟨w, o, hw, ho, -⟩ := h.exists_cell hr hk
      rw [hw, Option.bind_some, ho, h.stamp_of_cell hw ho]
      rfl
    · rw [List.getElem?_eq_none (by have := h.rows; omega)]
      rfl
  unfold SameStamps
  refine forall_congr' fun r => ?_
  rw [hstamp hk, hstamp hcolumn]
  split_ifs with hr
  · rw [Option.some.injEq]
  · rw [h.stamp_of_le (.inl (Nat.le_of_not_lt hr)), h.stamp_of_le (.inl (Nat.le_of_not_lt hr))]
    simp

theorem alone_iff {P : GateKind → Prop} {hand : List GateId} (h : c.Sound P hand)
    (hgate : g.mark? = some (.gate g.id g.kind)) :
    c.Alone g row column ↔ ∀ r, (gridOf c.wires).mark r column = g.solo row r := by
  unfold Alone
  rw [places_iff]
  constructor
  · rintro ⟨hm, halone⟩
    refine (Grid.mark_eq_solo_iff h.spanned hgate hm).mpr ⟨rfl, fun r hr => ?_⟩
    have hspan : 0 < g.span := g.kind.span_pos
    obtain ⟨m, hmr⟩ := Option.ne_none_iff_exists'.mp hr
    obtain ⟨o, ho, hom⟩ := exists_cell?_of_mark hmr
    obtain ⟨o', ho', hom'⟩ := exists_cell?_of_mark hm
    rcases halone r o ho with hinertia | hid | hsupport
    · rw [Gate.mark?_eq_none_iff.mpr hinertia] at hom
      cases hom
    · obtain ⟨rfl, -⟩ := h.labelled.unique ho ho' (hid.trans (Gate.mark?_eq_gate_iff.mp hom').1.symm)
      omega
    · obtain ⟨q, kind, hlt, hlt', hq⟩ := h.spanned.parent (cover_of_cell? ho hsupport)
      obtain ⟨rfl, -⟩ := h.labelled.unique_marks h.shows hq hm
      rw [hm] at hq
      cases hq
      exact ⟨hlt.le, hlt'⟩
  · intro hsolo
    refine ⟨by rw [hsolo, Gate.solo, if_pos rfl, hgate], fun r o ho => ?_⟩
    have hmark := (mark_of_cell? ho).symm.trans (hsolo r)
    unfold Gate.solo at hmark
    split_ifs at hmark
    · rw [hgate] at hmark
      exact .inr (.inl (Gate.mark?_eq_gate_iff.mp hmark).1)
    · exact .inr (.inr (Gate.mark?_eq_cover_iff.mp hmark))
    · exact .inl (Gate.mark?_eq_none_iff.mp hmark)

/-- No column is idle in a settled circuit, and a spare wire makes no difference to that. -/
theorem Spared.exists_mark (h : Spared c b w) (hc : Shows c.wires (gridOf c.wires)) (hsettled : c.refresh = c) :
    ∀ y < c.columns, ∃ r, (gridOf b.wires).mark r y ≠ none := fun y hy => by
  simp only [h.mark_eq]
  exact (minimal_of_settled hc hsettled).columns y hy

/-- A new column for a gate of the circuit takes the place of the old one exactly if the gate was alone in that, and is
    dropped in its row, with only columns like it between the two. -/
theorem Spared.exists_idle_relocate_iff {hand : List GateId} (h : Spared c b w) (hc : c.Sound GateKind.Told [])
    (hb : b.Sound GateKind.Told hand) (hsettled : c.refresh = c) (hgate : g.mark? = some (.gate g.id g.kind))
    (hm : (gridOf b.wires).mark row column = some (.gate g.id g.kind)) {t : Nat} (hk : k ≤ c.columns) :
    (∃ y ≤ c.columns, (∀ r, ((gridOf b.wires).relocate g row column t k).mark r y = none) ∧
      ∀ r x, (((gridOf b.wires).relocate g row column t k).removeColumn y).stamp r x = (gridOf b.wires).stamp r x) ↔
      ∃ column, c.Alone g t column ∧ ∀ y, k ≤ y ∧ y ≤ column ∨ column ≤ y ∧ y < k → c.SameStamps y column := by
  have hcolumns : (gridOf b.wires).columns = c.columns := h.columns
  have hbusy := h.exists_mark hc.shows hsettled
  have hcolumn := (hb.shows.lt_of_mark hm).2
  rw [← hcolumns] at hk hbusy
  have hrelocated := Grid.exists_idle_relocate_iff (t := t) hb.spanned hgate hm hbusy hcolumn hk fun r y =>
    hb.shows.stamp_eq_iff hb.kinds
  have hsolo : ∀ column', c.Alone g t column' ↔ ∀ r, (gridOf b.wires).mark r column' = g.solo t r := fun column' => by
    simp only [h.mark_eq]
    exact alone_iff hc hgate
  have hsame : ∀ y, k ≤ y ∧ y ≤ column ∨ column ≤ y ∧ y < k → (c.SameStamps y column ↔
      ∀ r, (gridOf b.wires).stamp r y = (gridOf b.wires).stamp r column) := fun y hy => by
    rw [hcolumns] at hk hcolumn
    simp only [h.stamp_eq]
    exact sameStamps_iff hc.shows (show y < c.columns by omega) hcolumn
  rw [← hcolumns]
  refine hrelocated.trans ?_
  constructor
  · rintro ⟨halone, halike⟩
    exact ⟨column, (hsolo column).mpr halone, fun y hy => (hsame y hy).mpr (halike y hy)⟩
  · rintro ⟨column', halone, halike⟩
    obtain ⟨-, rfl⟩ := hb.labelled.unique_marks hb.shows hm ((h.mark_eq _ _).trans (places_iff.mp halone.1))
    exact ⟨(hsolo column).mp halone, fun y hy => (hsame y hy).mp (halike y hy)⟩

namespace Drag.Landed

theorem grid_eq (h : Drag.Landed c b e w g (some target) G) (hopens : c.Opens target) :
    gridOf e.wires = (G.insertColumn (Coordinate.column target.position c.columns)).put g target.row
      (Coordinate.column target.position c.columns) := by
  have heq := Grid.Lands.eq h.lands
  rw [h.columns_grid, Grid.openColumn, h.columns_grid,
    if_pos (by simpa [Opens, Placement.squeezes] using hopens)] at heq
  exact heq

theorem isPlaceholder_eq_false (h : Drag.Landed c b e w g (some target) G) (hvisible : ¬g.isInertia = true) :
    g.kind.isPlaceholder = false := by
  have hne := h.proper
  unfold Gate.isInertia at hvisible
  cases hkind : g.kind with
  | inertia => exact absurd (by rw [hkind]; rfl) hvisible
  | support p => exact absurd hkind (hne p)
  | _ => rfl

/-- An inertia is not in the circuit. -/
theorem eq_of_isInertia (h : Drag.Landed c b e w g (some target) G) (hinertia : g.isInertia = true) :
    G = gridOf b.wires := by
  refine h.taken.resolve_right ?_
  rintro ⟨row, column, hm, -⟩
  obtain ⟨o, -, ho⟩ := exists_cell?_of_mark hm
  obtain ⟨-, hkind, hp⟩ := Gate.mark?_eq_gate_iff.mp ho
  rw [hkind, GateKind.isInertia_iff.mp hinertia] at hp
  cases hp

/-- A drop that opens a column leaves the circuit as it was exactly if the new column replaces one. -/
theorem current_iff (h : Drag.Landed c b e w g (some target) G) (hc : c.Sound GateKind.Told [])
    (hsettled : c.refresh = c) (hopens : c.Opens target) : e.refresh.current = c.current ↔ c.Replaces g target := by
  obtain ⟨hand, hb⟩ := h.prepared
  have hcompact : c.Compact := hsettled ▸ compact_refresh c
  have hcolumns : e.columns = c.columns + 1 := (h.columns.resolve_left fun hsame => hsame.2 ⟨target, rfl, hopens⟩).1
  have heq := h.grid_eq hopens
  have hk := Coordinate.column_le target.position c.columns
  rw [h.spared.current_refresh_iff hcompact hb.shows hb.kinds h.moved hcolumns]
  unfold Replaces
  rw [and_iff_right hopens, heq]
  generalize Coordinate.column target.position c.columns = k at hk ⊢
  by_cases hinertia : g.isInertia = true
  · refine iff_of_true ⟨k, hk, fun r => ?_, fun r x => ?_⟩ (.inl hinertia)
    · rw [Grid.mark_put_insertColumn, if_pos rfl, Gate.solo_of_isInertia hinertia]
    · rw [Grid.stamp, Grid.removeColumn_put_insertColumn, h.eq_of_isInertia hinertia, Grid.stamp]
  · have hvisible := h.isPlaceholder_eq_false hinertia
    have hgate : g.mark? = some (.gate g.id g.kind) := Gate.mark?_eq_gate_iff.mpr ⟨rfl, rfl, hvisible⟩
    rw [or_iff_right hinertia]
    rcases h.taken with hG | ⟨row, column, hm, hG⟩
    · -- A new gate adds its column to those that there are.
      have hbusy := h.spared.exists_mark hc.shows hsettled
      rw [← h.columns_grid, hG] at hk hbusy
      refine iff_of_false ?_ ?_
      · rintro ⟨y, hy, hidle, -⟩
        rw [← h.columns_grid, hG] at hy
        obtain ⟨r, hr⟩ := Grid.exists_mark_put_insertColumn (t := target.row) hbusy
          (hgate ▸ Option.some_ne_none _) hk hy
        exact hr (hG ▸ hidle r)
      · rintro ⟨column, halone, -⟩
        exact h.lacks _ _ _ (hG ▸ (h.spared.mark_eq _ _).trans (places_iff.mp halone.1))
    · rw [hG]
      exact h.spared.exists_idle_relocate_iff hc hb hsettled hgate hm hk

end Drag.Landed

theorem Circuit.replaces_congr {o : Gate} (hid : o.id = g.id) (hkind : o.kind = g.kind) :
    c.Replaces o target ↔ c.Replaces g target := by
  unfold Replaces Alone Gate.isInertia
  rw [hid, hkind]

/-- A drop adds an entry to the undo stack exactly if the template of the circuit is another one after it than before
    the drag, or if a new column has replaced one. That changes nothing, so that the entry undoes nothing. -/
theorem drop_saves_iff {c d : Circuit Rat} (hc : c.WellFormed) (hsettled : c.refresh = c)
    (htold : ∀ w ∈ c.wires, ∀ g ∈ w.cells, g.kind.Told) {source : Drag.Source}
    (hproper : source.Proper GateKind.Told c) {s : Drag Rat × Circuit Rat} (hs : source.start? c = some s)
    (hovers : List (Pointer Rat)) (p : Pointer Rat) {placement : Option (Placement Rat)}
    (hd : (s.1.hovers s.2 hovers).1.drop (s.1.hovers s.2 hovers).2 p = (placement, d)) :
    (c.undos.length < d.undos.length ↔ d.current ≠ c.current ∨
      ∃ target g, placement = some target ∧ source.gate? c = some g ∧ c.Replaces g target) ∧
    ∀ target g, placement = some target → source.gate? c = some g → c.Replaces g target → d.current = c.current := by
  have hintact : c.Intact GateKind.Told [] := hc.intact fun r k id kind hm => by
    obtain ⟨w, g, hw, hg, hmark⟩ := markIn_eq_some_iff.mp hm
    exact (Gate.mark?_eq_gate_iff.mp hmark).2.1 ▸ htold w (List.mem_of_getElem? hw) g (List.mem_of_getElem? hg)
  obtain ⟨b, w, e, g, o, G, h, he, hg, hid, hkind⟩ := Drag.Source.exists_landed hintact hproper hs hovers p
  rw [hd] at h he
  obtain rfl : d = e.refresh := he
  have hreplaces : ∀ target, placement = some target → c.Opens target →
      (e.refresh.current = c.current ↔ c.Replaces g target) := by
    rintro target rfl hopens
    rw [h.current_iff hintact.toSound hsettled hopens, replaces_congr hid hkind]
  rw [(rest_refresh e).undos, h.saved_iff (hsettled ▸ compact_refresh c)]
  refine ⟨⟨?_, ?_⟩, fun target g' htarget hg' hrep => ?_⟩
  · rintro (hchanged | ⟨target, htarget, hopens⟩)
    · exact .inl hchanged
    · refine or_iff_not_imp_left.mpr fun hsame => ⟨target, g, htarget, hg, ?_⟩
      exact (hreplaces target htarget hopens).mp (not_not.mp hsame)
  · rintro (hchanged | ⟨target, g', htarget, -, hrep⟩)
    · exact .inl hchanged
    · exact .inr ⟨target, htarget, hrep.1⟩
  · obtain rfl : g = g' := Option.some.inj (hg.symm.trans hg')
    exact (hreplaces target htarget hrep.1).mpr hrep

/-- A gate is moved to the wire below. -/
theorem drop_saves_iff_below :
    ∃ s d, (Drag.Source.cell ⟨0⟩).start? (single {} (.standard .h) 0).refresh = some s ∧
      s.1.drop s.2 ⟨130, 200⟩ = (some ⟨1, 0⟩, d) ∧
        (single {} (.standard .h) 0).refresh.undos.length < d.undos.length := by
  have hintact : (single {} (.standard .h) 0).Intact (GateKind.Known {}) [] := intact_single (by rfl) (by decide)
  have hdrag : ((Drag.Source.cell ⟨0⟩).start? (single {} (.standard .h) 0).refresh).any fun s =>
      (s.1.drop s.2 ⟨130, 200⟩).1 == some ⟨1, 0⟩ &&
        decide ((s.1.drop s.2 ⟨130, 200⟩).2.current ≠ (single {} (.standard .h) 0).refresh.current) := by decide +kernel
  obtain ⟨s, hs, hall⟩ := (Option.any_eq_true _ _).mp hdrag
  rcases hd : s.1.drop s.2 ⟨130, 200⟩ with ⟨placement, d⟩
  rw [hd] at hall
  simp only [Bool.and_eq_true, beq_iff_eq, decide_eq_true_eq] at hall
  obtain ⟨rfl, hchanged⟩ := hall
  have hshown : (single {} (.standard .h) 0).refresh.isShown ⟨0⟩ = true := by decide +kernel
  have hproper : (Drag.Source.cell ⟨0⟩).Proper GateKind.Told (single {} (.standard .h) 0).refresh := hshown
  have hiff := (drop_saves_iff hintact.refresh.wellFormed (refresh_refresh _) hintact.refresh.resolves.told hproper
    hs [] ⟨130, 200⟩ hd).1
  exact ⟨s, d, hs, hd, hiff.mpr (.inl hchanged)⟩

/-- The only gate is picked up and dropped on the left half of its cell. An entry is added, for the same state. -/
theorem drop_saves_same :
    (single {} (.standard .h) 0).refresh.WellFormed ∧
      (single {} (.standard .h) 0).refresh.refresh = (single {} (.standard .h) 0).refresh ∧
      ∃ s d, (Drag.Source.cell ⟨0⟩).start? (single {} (.standard .h) 0).refresh = some s ∧
        s.1.drop s.2 ⟨100, 150⟩ = (some ⟨0, -1 / 2⟩, d) ∧
        (single {} (.standard .h) 0).refresh.undos.length < d.undos.length ∧
        d.current = (single {} (.standard .h) 0).refresh.current := by
  have hintact : (single {} (.standard .h) 0).Intact (GateKind.Known {}) [] := intact_single (by rfl) (by decide)
  refine ⟨hintact.refresh.wellFormed, refresh_refresh _, ?_⟩
  have hdrag : ((Drag.Source.cell ⟨0⟩).start? (single {} (.standard .h) 0).refresh).any fun s =>
      (s.1.drop s.2 ⟨100, 150⟩).1 == some ⟨0, -1 / 2⟩ &&
        decide ((single {} (.standard .h) 0).refresh.undos.length < (s.1.drop s.2 ⟨100, 150⟩).2.undos.length) &&
        decide ((s.1.drop s.2 ⟨100, 150⟩).2.current = (single {} (.standard .h) 0).refresh.current) := by decide +kernel
  obtain ⟨s, hs, hall⟩ := (Option.any_eq_true _ _).mp hdrag
  rcases hd : s.1.drop s.2 ⟨100, 150⟩ with ⟨placement, d⟩
  rw [hd] at hall
  simp only [Bool.and_eq_true, beq_iff_eq, decide_eq_true_eq] at hall
  obtain ⟨⟨rfl, hgrown⟩, hsame⟩ := hall
  exact ⟨s, d, hs, hd, hgrown, hsame⟩

end Drops

end CircuitDesigner
