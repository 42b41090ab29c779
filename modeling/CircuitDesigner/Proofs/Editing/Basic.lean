import CircuitDesigner.Circuit.Gesture
import CircuitDesigner.Proofs.Restore.Recorded

/-! The parts of edits.

    Edits put gates into free cells, take out gates that show, give gates another kind and remove wires. Each of these
    keeps a circuit intact. -/

namespace CircuitDesigner

/-! ### Another kind -/

/-- A gate may turn into one that reaches as far. -/
theorem Grid.Spanned.recast {G : Grid} (h : G.Spanned) {row column : Nat} {id : GateId} {kind kind' : GateKind}
    (hm : G.mark row column = some (.gate id kind)) (hspan : kind'.span = kind.span) :
    (G.set row column (some (.gate id kind'))).Spanned where
  covered {r k d i kind''} hm' h0 hd := by
    simp only [Grid.set] at hm' ⊢
    have hbelow : G.mark (r + d) k = some (.cover i) := by
      split at hm'
      · rename_i hcell
        obtain ⟨rfl, rfl⟩ := hcell
        cases hm'
        exact h.covered hm h0 (hspan ▸ hd)
      · exact h.covered hm' h0 hd
    rw [if_neg]
    · exact hbelow
    · rintro ⟨rfl, rfl⟩
      rw [hm] at hbelow
      cases hbelow
  parent {r k i} hm' := by
    simp only [Grid.set] at hm' ⊢
    split at hm'
    · cases hm'
    · obtain ⟨q, kind'', hlt, hle, hq⟩ := h.parent hm'
      by_cases hcell : q = row ∧ k = column
      · obtain ⟨rfl, rfl⟩ := hcell
        rw [hm] at hq
        cases hq
        exact ⟨q, kind', hlt, by omega, if_pos ⟨rfl, rfl⟩⟩
      · exact ⟨q, kind'', hlt, hle, by rw [if_neg hcell]; exact hq⟩

theorem Grid.Each.set {G : Grid} {P : GateKind → Prop} (h : G.Each P) {row column : Nat} {id : GateId} {kind : GateKind}
    (hkind : P kind) : (G.set row column (some (.gate id kind))).Each P := by
  intro r k i kind' hm
  simp only [Grid.set] at hm
  split at hm
  · cases hm
    exact hkind
  · exact h r k i kind' hm

variable {K : Type}

theorem map_set_of_eq {α β : Type} {f : α → β} {l : List α} {i : Nat} {a b : α} (hl : l[i]? = some a) (h : f b = f a) :
    (l.set i b).map f = l.map f := by
  refine List.ext_getElem? fun j => ?_
  rw [List.getElem?_map, List.getElem?_map, List.getElem?_set]
  split
  · rename_i hij
    subst hij
    rw [if_pos (List.getElem?_eq_some_iff.mp hl).1, hl, Option.map_some, Option.map_some, h]
  · rfl

theorem Wire.Owned.set {w : Wire K} (h : w.Owned) {column : Nat} {g o : Gate} (hg : w.cells[column]? = some g)
    (howner : o.owner = g.owner) : Wire.Owned { w with cells := w.cells.set column o } := by
  intro p hp
  rcases List.mem_or_eq_of_mem_set hp with hp | rfl
  · exact h p hp
  · rw [howner]
    exact h g (List.mem_of_getElem? hg)

theorem Wire.Collapsed.set [Coordinate K] {w : Wire K} (h : w.Collapsed) {column : Nat} {g o : Gate}
    (hg : w.cells[column]? = some g) (hm : o.kind.isMeasurement = g.kind.isMeasurement) :
    Wire.Collapsed { w with cells := w.cells.set column o } := by
  have hfind : ∀ cells : List Gate, (cells.findIdx? fun g => g.kind.isMeasurement) =
      (cells.map fun g => g.kind.isMeasurement).findIdx? fun b => b := fun cells => by
    rw [List.findIdx?_map]
    rfl
  unfold Wire.Collapsed
  dsimp only
  rw [hfind, map_set_of_eq hg hm, ← hfind]
  exact h

namespace Circuit

variable {P : GateKind → Prop} {hand : List GateId} {c d : Circuit K} {row column : Nat} {g : Gate}

theorem gate?_eq {id : GateId} (h : c.locate? id = some (row, column)) : c.gate? id = c.cell? row column := by
  unfold gate?
  rw [h]
  rfl

theorem exists_of_locate? {id : GateId} (h : c.locate? id = some (row, column)) :
    ∃ g, c.cell? row column = some g ∧ g.id = id := by
  obtain ⟨w, g, -, hw, -, hg, hid⟩ := exists_of_locateFrom h
  exact ⟨g, by rw [cell?_eq_bind, show c.wires[row]? = some w from hw]; exact hg, hid⟩

theorem modifyCell_eq {f : Gate → Gate} {w : Wire K} (hw : c.wires[row]? = some w) (hg : w.cells[column]? = some g) :
    (c.modifyCell row column f).wires = c.wires.set row { w with cells := w.cells.set column (f g) } := by
  show c.wires.modify row _ = _
  rw [List.modify_eq_set_getElem?, hw]
  show c.wires.set row { w with cells := w.cells.modify column f } = _
  rw [List.modify_eq_set_getElem?, hg]
  rfl

/-- A changed gate that is no inertia leaves the size as it is. -/
theorem idles_modifyCell {f : Gate → Gate} (hg : c.cell? row column = some g) (hf : (f g).isInertia = g.isInertia) :
    (c.modifyCell row column f).wires.map Wire.idles = c.wires.map Wire.idles := by
  obtain ⟨w, hw, hgw⟩ := Option.bind_eq_some_iff.mp (cell?_eq_bind c row column ▸ hg)
  rw [modifyCell_eq hw hgw]
  exact map_set_of_eq hw (map_set_of_eq hgw hf)

variable [Coordinate K]

/-- A gate that shows gets another kind of the same span. -/
theorem Intact.modifyCell (h : c.Intact P hand) (hg : c.cell? row column = some g) (hp : g.kind.isPlaceholder = false)
    {f : Gate → Gate} (hid : (f g).id = g.id) (howner : (f g).owner = g.owner) (hspan : (f g).kind.span = g.kind.span)
    (hp' : (f g).kind.isPlaceholder = false) (hm : (f g).kind.isMeasurement = g.kind.isMeasurement)
    (hP : P (f g).kind) : (c.modifyCell row column f).Intact P hand := by
  obtain ⟨w, hw, hgw⟩ := Option.bind_eq_some_iff.mp (cell?_eq_bind c row column ▸ hg)
  have hrow := (List.getElem?_eq_some_iff.mp hw).1
  have hcolumn := (List.getElem?_eq_some_iff.mp hgw).1
  have hmem : w ∈ c.wires := List.mem_of_getElem? hw
  have hwires := modifyCell_eq (f := f) hw hgw
  have hmark := gate_of_cell? hg hp
  have hshow : Shows (c.modifyCell row column f).wires
      ((gridOf c.wires).set row column (some (.gate g.id (f g).kind))) := by
    rw [hwires]
    refine h.shows.set hrow (by rw [List.length_set]; exact h.shows.aligned w hmem) fun k => ?_
    rw [Wire.mark?_set hcolumn rfl]
    split
    · exact Gate.mark?_eq_gate_iff.mpr ⟨hid, rfl, hp'⟩
    · exact (markIn_of_getElem? hw).symm
  refine ⟨.of_shows hshow (h.spanned.recast hmark hspan) (h.kinds.set hP) (fun i => ?_) fun v hv => ?_, fun v hv => ?_⟩
  · have huses : usesIn (c.modifyCell row column f).wires i = usesIn c.wires i := by
      refine usesIn_congr ?_ i
      rw [hwires]
      exact map_set_of_eq hw (map_set_of_eq hgw hid)
    rw [huses]
    exact h.numbered i
  · rw [hwires] at hv
    rcases List.mem_or_eq_of_mem_set hv with hv | rfl
    · exact h.owned v hv
    · exact (h.owned w hmem).set hgw howner
  · rw [hwires] at hv
    rcases List.mem_or_eq_of_mem_set hv with hv | rfl
    · exact h.collapsed v hv
    · exact (h.collapsed w hmem).set hgw hm

/-! ### History -/

theorem Intact.remember (h : c.Intact P hand) (t : Template) : (c.remember t).Intact P hand := h.congr rfl rfl

theorem Intact.save (h : c.Intact P hand) : c.save.Intact P hand := h.remember c.current

omit [Coordinate K] in
/-- An earlier state is put on the history, unless it is the current one. -/
theorem saved_cases (c : Circuit K) (t : Template) :
    (c.saveState? t).getD c = c ∨ (c.saveState? t).getD c = c.remember t := by
  unfold saveState?
  split
  · exact .inl rfl
  · exact .inr rfl

/-- An edit saves the state, makes an intact circuit of the one it finds and refreshes that. -/
def Edited (P : GateKind → Prop) (c d : Circuit K) : Prop := ∃ e, e.Intact P [] ∧ Rest c.save e ∧ d = e.refresh

/-! ### Gates that show -/

/-- A cell of the circuit shows the gate. -/
def isShown (c : Circuit K) (id : GateId) : Bool := (c.gate? id).any fun g => !g.kind.isPlaceholder

omit [Coordinate K] in
theorem exists_of_isShown {id : GateId} (h : c.isShown id = true) :
    ∃ row column g, c.locate? id = some (row, column) ∧ c.gate? id = some g ∧ c.cell? row column = some g ∧
      g.id = id ∧ g.kind.isPlaceholder = false := by
  obtain ⟨g, hg, hp⟩ := (Option.any_eq_true _ _).mp h
  cases hloc : c.locate? id with
  | none =>
    unfold gate? at hg
    rw [hloc] at hg
    cases hg
  | some p =>
    obtain ⟨row, column⟩ := p
    obtain ⟨o, ho, hid⟩ := exists_of_locate? hloc
    rw [gate?_eq hloc, ho] at hg
    cases hg
    exact ⟨row, column, g, rfl, by rw [gate?_eq hloc, ho], ho, hid, by simpa using hp⟩

/-! ### Wires -/

omit [Coordinate K] in
/-- The gates on several wires that cross a wire reach it from above or start on it. -/
theorem mem_spanning_iff (h : c.Sound P hand) {w : Wire K} (hw : c.wires[row]? = some w) {i : GateId} :
    i ∈ spanning w ↔ ∃ r k kind, (gridOf c.wires).mark r k = some (.gate i kind) ∧ 1 < kind.span ∧ r ≤ row ∧
      row < r + kind.span := by
  have hcell : ∀ {k g}, c.cell? row k = some g ↔ w.cells[k]? = some g := by
    intro k g
    rw [cell?_eq_bind, hw, Option.bind_some]
  constructor
  · intro hi
    obtain ⟨g, hg, hgi⟩ := List.mem_filterMap.mp hi
    obtain ⟨k, hk⟩ := List.getElem?_of_mem hg
    split at hgi
    · rename_i parent hkind
      cases hgi
      obtain ⟨r, kind, hlt, hle, hr⟩ := h.spanned.parent (cover_of_cell? (hcell.mpr hk) hkind)
      exact ⟨r, k, kind, hr, by omega, by omega, hle⟩
    · split at hgi
      · rename_i hspan
        cases hgi
        have hm := gate_of_cell? (hcell.mpr hk) (GateKind.isPlaceholder_of_span hspan)
        exact ⟨row, k, g.kind, hm, hspan, Nat.le_refl row, Nat.lt_add_of_pos_right g.kind.span_pos⟩
      · cases hgi
  · rintro ⟨r, k, kind, hm, hspan, hle, hlt⟩
    rcases Nat.eq_or_lt_of_le hle with rfl | habove
    · obtain ⟨g, hg, hmark⟩ := exists_cell?_of_mark hm
      obtain ⟨rfl, rfl, -⟩ := Gate.mark?_eq_gate_iff.mp hmark
      refine List.mem_filterMap.mpr ⟨g, List.mem_of_getElem? (hcell.mp hg), ?_⟩
      split
      · rename_i parent hkind
        rw [hkind] at hspan
        exact absurd hspan (Nat.lt_irrefl 1)
      · exact if_pos hspan
    · obtain ⟨g, hg, hmark⟩ := exists_cell?_of_mark (h.spanned.cover_of_lt hm habove hlt)
      refine List.mem_filterMap.mpr ⟨g, List.mem_of_getElem? (hcell.mp hg), ?_⟩
      rw [Gate.mark?_eq_cover_iff.mp hmark]

/-- The gates on several wires that cross a wire can be taken out, and all others stay. -/
theorem Intact.detachSpanning (h : c.Intact P []) {w : Wire K} (hw : c.wires[row]? = some w) :
    (c.detachAll (spanning w)).Intact P [] ∧ Kept c (c.detachAll (spanning w)) ∧
      (c.detachAll (spanning w)).wires.length = c.wires.length ∧
      ∀ {r k i kind}, (gridOf (c.detachAll (spanning w)).wires).mark r k = some (.gate i kind) ↔
        (gridOf c.wires).mark r k = some (.gate i kind) ∧ (kind.span ≤ 1 ∨ r + kind.span ≤ row ∨ row < r) := by
  have hpresent : ∀ i ∈ spanning w, Present c.wires c.nextGate (gridOf c.wires) i := fun i hi => by
    obtain ⟨r, k, kind, hm, -⟩ := (mem_spanning_iff h.toSound hw).mp hi
    obtain ⟨v, g, hv, hg, hmark⟩ := markIn_eq_some_iff.mp hm
    obtain ⟨rfl, -, -⟩ := Gate.mark?_eq_gate_iff.mp hmark
    exact ⟨h.labelled.index_lt (List.mem_of_getElem? hv) (List.mem_of_getElem? hg), .inr ⟨r, k, kind, hm⟩⟩
  obtain ⟨H, hH, hsH, hlH, hk, hsub, hgone, hstays⟩ := exists_detachAll h.shows h.spanned h.labelled hpresent
  have hkinds := h.kinds.sub hsub
  obtain rfl := hH.eq_gridOf
  refine ⟨h.of_kept hk ⟨hH, hsH, hkinds, hlH, hk.closed Wire.closed_owned h.owned⟩, hk, hsub.rows, fun {r k i kind} =>
    ⟨fun hm => ⟨hsub.marks hm, ?_⟩, fun ⟨hm, hclear⟩ => hstays (fun hi => ?_) hm⟩⟩
  · by_contra hcrosses
    have hi : i ∈ spanning w :=
      (mem_spanning_iff h.toSound hw).mpr ⟨r, k, kind, hsub.marks hm, by omega, by omega, by omega⟩
    exact hgone i hi r k kind hm
  · obtain ⟨r', k', kind', hm', hspan, hle, hlt⟩ := (mem_spanning_iff h.toSound hw).mp hi
    obtain ⟨rfl, rfl⟩ := h.labelled.unique_marks h.shows hm hm'
    rw [hm] at hm'
    cases hm'
    omega

/-- A wire is removed with the gates that cross it. -/
theorem Intact.removeWireAt? (h : c.Intact P []) (hd : c.removeWireAt? row = some d) : d.Intact P [] ∧ Rest c d := by
  obtain ⟨w, hw, hd⟩ := Option.bind_eq_some_iff.mp hd
  cases hd
  obtain ⟨hintact, hkept, hlength, hstays⟩ := h.detachSpanning hw
  have hrow : row < (c.detachAll (spanning w)).wires.length := hlength ▸ (List.getElem?_eq_some_iff.mp hw).1
  refine ⟨⟨hintact.toSound.eraseIdx hrow (fun k id hm => ?_) (fun k id kind hm => ?_) rfl rfl,
    fun v hv => hintact.collapsed v (List.mem_of_mem_eraseIdx hv)⟩, hkept.rest.trans ⟨rfl, rfl, rfl, rfl, rfl⟩⟩
  · obtain ⟨r, kind, hlt, hle, hr⟩ := hintact.spanned.parent hm
    have := (hstays.mp hr).2
    omega
  · have := (hstays.mp hm).2
    have := kind.span_pos
    omega

end Circuit

end CircuitDesigner
