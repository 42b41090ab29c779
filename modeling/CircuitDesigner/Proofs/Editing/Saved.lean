import CircuitDesigner.Proofs.Editing.Badges
import CircuitDesigner.Proofs.Editing.Collapse
import CircuitDesigner.Proofs.Restore.Told

/-! When a drop saves a state.

    A drop compares the circuit at its start, with the spare wire, to the one that it leaves before the refresh. Both
    are of one template exactly if the refresh brings back the circuit before the drag and no column has been opened
    (`Drag.Landed.saved_iff`): a column that stays in the place of another one makes a difference at that time. -/

namespace CircuitDesigner

open Circuit

/-! ### Moves of gates -/

section Moves

variable {K : Type} {b c e : Circuit K} {w : Wire K}

/-- Gates have moved from `b` to `e`. Wires come to it only where something shows below the others. -/
structure Circuit.Moved (b e : Circuit K) : Prop where
  settings : e.settings = b.settings
  shows : Shows e.wires (gridOf e.wires)
  told : (gridOf e.wires).Each GateKind.Told
  rows : e.wires.length = b.wires.length ∨ ∃ r k m, b.wires.length ≤ r ∧ (gridOf e.wires).mark r k = some m
  face : e.wires.length = b.wires.length → e.wires.map Wire.face = b.wires.map Wire.face

theorem Circuit.Moved.congr {d : Circuit K} (h : b.Moved e) (hw : d.wires = e.wires) (hs : d.settings = e.settings) :
    b.Moved d := by
  obtain ⟨h1, h2, h3, h4, h5⟩ := h
  rw [← hw] at h2 h3 h4 h5
  exact ⟨hs.trans h1, h2, h3, h4, h5⟩

namespace Spared

theorem columns (h : Spared c b w) : b.columns = c.columns := by
  refine Nat.le_antisymm (columnsOf_le fun v hv => ?_) (columnsOf_le fun v hv => length_le_columnsOf ?_)
  · rw [h.wires] at hv
    rcases List.mem_append.mp hv with hv | hv
    · exact length_le_columnsOf hv
    · exact List.mem_singleton.mp hv ▸ Nat.le_of_eq h.length
  · rw [h.wires]
    exact List.mem_append_left _ hv

theorem length_wires (h : Spared c b w) : b.wires.length = c.wires.length + 1 := by
  rw [h.wires, List.length_append, List.length_singleton]

theorem stamp_eq (h : Spared c b w) (r k : Nat) : (gridOf b.wires).stamp r k = (gridOf c.wires).stamp r k := by
  unfold Grid.stamp
  rw [h.mark_eq]

variable [Coordinate K]

/-- If nothing has changed, a refresh takes the spare wire away, and that is all. -/
theorem current_refresh (h : Spared c b w) (hc : c.Compact) (hb : Shows b.wires (gridOf b.wires))
    (htold : (gridOf b.wires).Each GateKind.Told) (he : b.Moved e) (heq : e.current = b.current) :
    e.refresh.current = c.current := by
  have hlength := length_of_current heq
  have hcolumns := columns_of_current heq
  have hstamps := (current_eq_iff_stamp he.shows hb he.settings (he.face hlength) hcolumns).mp heq
  have hidle : ∀ r k, markIn e.wires r k = none ↔ markIn b.wires r k = none := fun r k => by
    have hnone := he.shows.stamp_eq_iff he.told (r := r) (k := k)
    rwa [hstamps, hb.stamp_eq_iff htold, iff_comm] at hnone
  have hbusy : Busy e.wires := fun k hk => by
    have hk' : k < b.columns := hcolumns ▸ hk
    have hbusy : isIdleColumn b.wires k = false := (h.wires ▸ hc.columns.append (Nat.le_of_eq h.length)) k hk'
    refine Bool.eq_false_iff.mpr fun hvacant => Bool.eq_false_iff.mp hbusy ?_
    rw [hb.isVacant hk']
    exact fun r => (hidle r k).mp ((he.shows.isVacant hk).mp hvacant r)
  have hdepth : depth e.wires = depth c.wires := by
    rw [depth_congr hidle, h.wires, depth_append_singleton, if_pos h.idle]
  have hsettings : e.settings = c.settings := he.settings.trans h.rest.settings
  have hwires := wires_minimize_of_busy hbusy
    (by rw [hsettings, hlength, h.length_wires]; exact Nat.le_succ_of_le hc.wires)
  rw [hsettings, hdepth, hc.length_eq] at hwires
  have hrecords : e.current.wires = c.current.wires ++ [w.record .timeless] := by
    rw [heq]
    show b.wires.map _ = _
    rw [h.wires, List.map_append]
    rfl
  rw [CircuitDesigner.current_refresh, current_eq_iff (e.kept_minimize.settings.trans hsettings)]
  show e.minimize.wires.map _ = _
  rw [hwires, List.map_take]
  show e.current.wires.take _ = _
  rw [hrecords, List.take_left']
  exact List.length_map _

/-- If a refresh brings back the circuit without the spare wire, with all its columns, nothing has changed. -/
theorem current_eq (h : Spared c b w) (he : b.Moved e) (hcolumns : e.columns = c.columns)
    (hcurrent : e.refresh.current = c.current) : e.current = b.current := by
  rw [CircuitDesigner.current_refresh] at hcurrent
  have hsettings : e.settings = c.settings := he.settings.trans h.rest.settings
  -- No column goes, and one wire.
  have hbusy := columns_minimize_iff.mp ((columns_of_current hcurrent).trans hcolumns.symm)
  obtain ⟨-, -, -, hlength, -, -⟩ := minimize_eq_condensed e
  have hdepth : max e.settings.minQubits (depth e.wires) = c.wires.length :=
    hlength.symm.trans (length_of_current hcurrent)
  have hrows : e.wires.length = c.wires.length + 1 := by
    refine (he.rows.resolve_right ?_).trans h.length_wires
    rintro ⟨r, k, m, hle, hm⟩
    have hnone := depth_le_iff.mp (Nat.le_refl (depth e.wires)) r k (by have := h.length_wires; omega)
    rw [show markIn e.wires r k = some m from hm] at hnone
    cases hnone
  have hwires := wires_minimize_of_busy hbusy (by omega)
  rw [hdepth] at hwires
  have hrecords : e.minimize.wires.map (fun w => w.record .timeless) = c.wires.map fun w => w.record .timeless :=
    congrArg Template.wires hcurrent
  obtain ⟨vs, v, hvs⟩ : ∃ vs v, e.wires = vs ++ [v] :=
    (List.eq_nil_or_concat' e.wires).resolve_left (List.ne_nil_of_length_pos (by omega))
  have hvslength : vs.length = c.wires.length := by simpa [hvs] using hrows
  rw [hwires, hvs, List.take_left' hvslength] at hrecords
  have hidle : v.isIdle = true := by
    by_contra hbusy
    rw [hvs, depth_append_singleton, if_neg hbusy] at hdepth
    omega
  have hlast : v.record .timeless = w.record .timeless := by
    have hfaces := he.face (hrows.trans h.length_wires.symm)
    rw [hvs, h.wires, List.map_append, List.map_append] at hfaces
    refine (Wire.record_eq_iff (List.singleton_inj.mp (List.append_inj' hfaces rfl).2) _).mpr ?_
    have hvlength : v.cells.length = e.columns := he.shows.aligned v (hvs ▸ List.mem_append_right _ List.mem_cons_self)
    rw [Wire.stamps_of_isIdle hidle, Wire.stamps_of_isIdle h.idle, hvlength, hcolumns, h.length]
  rw [current_eq_iff he.settings]
  show e.wires.map _ = b.wires.map _
  rw [hvs, h.wires, List.map_append, List.map_append, hrecords, List.map_singleton, hlast, List.map_singleton]

end Spared

end Moves

/-! ### Drops -/

/-- Rows that come with a gate show its supports. -/
theorem Grid.LandsAt.rows_eq_or {G H : Grid} {g : Gate} {placement : Option (Placement Rat)}
    (h : G.LandsAt g placement H) (hrow : ∀ target ∈ placement, target.row < G.rows) :
    H.rows = G.rows ∨ ∃ r k m, G.rows ≤ r ∧ H.mark r k = some m := by
  cases placement with
  | none => exact .inl (congrArg Grid.rows h)
  | some target =>
    have hrow := hrow target rfl
    have heq := Grid.Lands.eq h
    rcases Nat.lt_or_ge G.rows (target.row + g.span) with hlt | hle
    · refine .inr ⟨target.row + g.span - 1, Coordinate.column target.position G.columns, .cover g.id, by omega, ?_⟩
      rw [heq]
      simp only [Grid.put, if_true]
      rw [if_neg (by omega), if_pos (by omega)]
    · refine .inl ?_
      rw [heq, Grid.put, Grid.rows_openColumn]
      exact Nat.max_eq_left hle

theorem Drag.map_face_take {K : Type} [Coordinate K] {d : Drag K} {m c : Circuit K} {o : Option Gate}
    (h : d.take m = (o, c)) : c.wires.map Wire.face = m.wires.map Wire.face := by
  unfold Drag.take at h
  split at h
  · cases h
    rfl
  · split at h
    · rename_i hdetach
      cases h
      have hbadges := congrArg (List.map Prod.snd) (badges_detach? hdetach).1
      simpa [Circuit.badges, Wire.badge, Function.comp_def] using hbadges
    · cases h
      rfl

section Saved

variable {K : Type} (c : Circuit K) (t : Template)

theorem current_saved : ((c.saveState? t).getD c).current = c.current := by
  rcases saved_cases c t with heq | heq
  · rw [heq]
  · rw [heq]
    rfl

theorem settings_saved : ((c.saveState? t).getD c).settings = c.settings := by
  rcases saved_cases c t with heq | heq
  · rw [heq]
  · rw [heq]
    rfl

/-- A state is saved if it is another one. -/
theorem length_undos_saved_iff : c.undos.length < ((c.saveState? t).getD c).undos.length ↔ c.current ≠ t := by
  unfold saveState?
  split
  · rename_i heq
    simp [heq]
  · rename_i hne
    simp [remember, Ne.symm hne]

end Saved

/-- The circuit `e` that the drop of a drag refreshes. The drag has the spare wire `w` in `b` at its start, and the
    gate `g` leaves its cells, if it is in any. That makes the grid `G`, in which it is put at the placement, if there
    is one. -/
structure Drag.Landed (c b e : Circuit Rat) (w : Wire Rat) (g : Gate) (placement : Option (Placement Rat)) (G : Grid) :
    Prop where
  spared : Spared c b w
  prepared : ∃ hand, b.Sound GateKind.Told hand
  moved : b.Moved e
  saved : c.undos.length < e.undos.length ↔ e.current ≠ b.current
  proper : ∀ p, g.kind ≠ .support p
  lacks : G.Lacks g.id
  taken : G = gridOf b.wires ∨ ∃ row column, (gridOf b.wires).mark row column = some (.gate g.id g.kind) ∧
    G = (gridOf b.wires).clear row column g.span
  lands : G.LandsAt g placement (gridOf e.wires)

/-- The gate that is dropped there gets a new column: between two others, or after the last one. -/
def Circuit.Opens (c : Circuit Rat) (target : Placement Rat) : Prop :=
  target.squeezes = true ∨ Coordinate.column target.position c.columns = c.columns

section Drops

variable {c b e : Circuit Rat} {w : Wire Rat} {g : Gate} {placement : Option (Placement Rat)} {G : Grid}

theorem Drag.Source.exists_landed {source : Source} {s : Drag Rat × Circuit Rat} (h : c.Intact GateKind.Told [])
    (hproper : source.Proper GateKind.Told c) (hs : source.start? c = some s) (hovers : List (Pointer Rat))
    (p : Pointer Rat) :
    ∃ b w e g o G, Drag.Landed c b e w o ((s.1.hovers s.2 hovers).1.drop (s.1.hovers s.2 hovers).2 p).1 G ∧
      ((s.1.hovers s.2 hovers).1.drop (s.1.hovers s.2 hovers).2 p).2 = e.refresh ∧
      source.gate? c = some g ∧ o.id = g.id ∧ o.kind = g.kind := by
  obtain ⟨g, hg, htold, hne, hvisible⟩ : ∃ g, source.gate? c = some g ∧ g.kind.Told ∧ (∀ p, g.kind ≠ .support p) ∧
      ∀ id, source = .cell id → g.kind.isPlaceholder = false := by
    cases source with
    | toolbox kind => exact ⟨_, rfl, hproper.1, hproper.2, nofun⟩
    | cell id =>
      obtain ⟨row, column, g, -, hgate, hcell, -, hp⟩ := exists_of_isShown hproper
      exact ⟨g, hgate, h.kinds _ _ _ _ (gate_of_cell? hcell hp), GateKind.ne_support hp, fun _ _ => hp⟩
  obtain ⟨hid, b, w, hholds, hspared, hstart⟩ := Source.exists_holds h hg hvisible hs
  obtain ⟨hhovers, hid', hfloating⟩ := Underway.hovers s.1 s.2 hovers
  have hunder := hstart.trans hhovers
  obtain ⟨o, c', htake, hoid, hkind, hrest, hsound, hgrid⟩ :=
    (hholds.underway hunder hfloating).exists_take (hid'.trans hid)
  have hspan : o.span = g.span := congrArg GateKind.span hkind
  rw [← hoid] at hsound
  obtain ⟨e, he, hintact, hrest', hlands, hface⟩ := Drag.exists_landed htake hsound (hkind ▸ htold) (hkind ▸ hne) p
  -- From the start of the drag up to the drop, the wires are the same.
  have hfaces := (Drag.map_face_take htake).trans (map_face_of_trunk hunder.trunks)
  have hlength : c'.wires.length = b.wires.length := by simpa using congrArg List.length hfaces
  have hrow := hlands.rows_eq_or fun target htarget => by
    rw [Drag.placement_drop htake] at htarget
    exact (exists_of_localize htarget).1
  have hrest := hunder.rest.trans (hrest.trans hrest')
  have hmoved : b.Moved e :=
    ⟨hrest.settings, hintact.shows, hintact.kinds, hlength ▸ hrow,
      fun hsame => (hface (hsame.trans hlength.symm)).trans hfaces⟩
  obtain ⟨hwires, -⟩ := wires_saved e b.current
  obtain ⟨hand, hb⟩ := hholds.exists_sound
  refine ⟨b, w, (e.saveState? b.current).getD e, g, o, gridOf c'.wires, ⟨hspared, ⟨hand, hb⟩,
    hmoved.congr hwires (settings_saved e _), ?_, hkind ▸ hne, hsound.shows.lacks hsound.usesIn_hand, ?_,
    hwires ▸ hlands⟩, ?_, hg, hoid, hkind⟩
  · rw [← (hspared.rest.trans hrest).undos, length_undos_saved_iff, current_saved]
  · rwa [hoid, hkind, hspan, ← gridOf_of_trunk hunder.trunks]
  · rw [he, current_of_trunk hunder.trunks hunder.rest.settings]

theorem Drag.Landed.columns_grid (h : Drag.Landed c b e w g placement G) : G.columns = c.columns := by
  rcases h.taken with heq | ⟨row, column, -, heq⟩
  · rw [heq]
    exact h.spared.columns
  · rw [heq]
    exact h.spared.columns

/-- The column of a gate that is put at a placement is new if it comes between two others or after the last one. -/
theorem Drag.Landed.columns (h : Drag.Landed c b e w g placement G) :
    e.columns = c.columns ∧ (¬∃ target, placement = some target ∧ c.Opens target) ∨
      e.columns = c.columns + 1 ∧ ∃ target, placement = some target ∧ c.Opens target := by
  have hG := h.columns_grid
  have hlands := h.lands
  cases placement with
  | none => exact .inl ⟨(congrArg Grid.columns hlands).trans hG, nofun⟩
  | some target =>
    have heq : e.columns = (G.openColumn (!Coordinate.isWhole target.position)
        (Coordinate.column target.position G.columns)).columns := congrArg Grid.columns (Grid.Lands.eq hlands)
    simp only [Option.some.injEq, exists_eq_left']
    unfold Opens Placement.squeezes
    rw [heq, Grid.openColumn, hG]
    split
    · rename_i hopens
      exact .inr ⟨congrArg (· + 1) hG, by simpa using hopens⟩
    · rename_i hopens
      exact .inl ⟨hG, by simpa using hopens⟩

/-- A drop saves a state exactly if the refresh makes another one of it, or the drop opens a column. -/
theorem Drag.Landed.saved_iff (h : Drag.Landed c b e w g placement G) (hc : c.Compact) :
    c.undos.length < e.undos.length ↔
      e.refresh.current ≠ c.current ∨ ∃ target, placement = some target ∧ c.Opens target := by
  obtain ⟨hand, hb⟩ := h.prepared
  rw [h.saved, ne_eq, ne_eq, ← not_iff_not, not_not, not_or, not_not]
  constructor
  · intro heq
    refine ⟨h.spared.current_refresh hc hb.shows hb.kinds h.moved heq, ?_⟩
    have hcolumns := (columns_of_current heq).trans h.spared.columns
    rcases h.columns with ⟨-, hopens⟩ | ⟨hmore, -⟩
    · exact hopens
    · omega
  · rintro ⟨hcurrent, hopens⟩
    have hcolumns := (h.columns.resolve_right fun hmore => hopens hmore.2).1
    exact h.spared.current_eq h.moved hcolumns hcurrent

end Drops

end CircuitDesigner
