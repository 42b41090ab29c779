import CircuitDesigner.Proofs.Grid.Sound

/-! Well-formed circuits.

    `Circuit.WellFormed` says what the cells of a circuit look like after every edit. In proofs it is taken apart into
    the grid that the wires show, the numbers of the gates and their owners (`Circuit.Sound`), which every operation
    keeps, and the collapses, which a drag changes until it ends. -/

namespace CircuitDesigner

variable {K : Type}

/-- The supports of every gate are in its column, in the rows below it as far as it reaches, and there are no others. -/
structure Circuit.Supported (c : Circuit K) : Prop where
  supports : ∀ {row column g}, c.cell? row column = some g → ∀ r k,
    (∃ s, c.cell? r k = some s ∧ s.kind = .support g.id) ↔ k = column ∧ row < r ∧ r < row + g.span
  parents : ∀ {row column s id}, c.cell? row column = some s → s.kind = .support id →
    ∃ r k g, c.cell? r k = some g ∧ g.id = id

variable [Coordinate K]

/-- The wire is classical from its first measurement on. -/
def Wire.Collapsed (w : Wire K) : Prop :=
  w.pivot = (w.cells.findIdx? fun g => g.kind.isMeasurement).map Coordinate.ofNat

/-- The cells are aligned and hold distinct gates, and the supports of each gate are where it reaches. -/
structure Circuit.Consistent (c : Circuit K) : Prop where
  aligned : ∀ v ∈ c.wires, ∀ w ∈ c.wires, v.cells.length = w.cells.length
  distinct : ((c.wires.flatMap Wire.cells).map Gate.id).Nodup
  /-- The supports of a gate of span `n` are in its column, in the `n - 1` rows below it. -/
  supports : ∀ {row column g}, c.cell? row column = some g → ∀ r k,
    (∃ s, c.cell? r k = some s ∧ s.kind = .support g.id) ↔ k = column ∧ row < r ∧ r < row + g.span
  /-- A support is one of a placed gate. -/
  parents : ∀ {row column s id}, c.cell? row column = some s → s.kind = .support id →
    ∃ r k g, c.cell? r k = some g ∧ g.id = id
  collapsed : ∀ w ∈ c.wires, w.Collapsed

/-- The cells are consistent, the numbers of their gates are used up, and their owners are right. -/
structure Circuit.WellFormed (c : Circuit K) : Prop extends c.Consistent where
  counted : ∀ w ∈ c.wires, ∀ g ∈ w.cells, g.id.index < c.nextGate
  owned : ∀ w ∈ c.wires, w.Owned

/-! ### Collapses -/

theorem firstMeasurement_none (cells : List Gate) :
    Wire.firstMeasurement cells none = cells.findIdx? fun g => g.kind.isMeasurement := by
  unfold Wire.firstMeasurement
  congr 1
  funext g
  simp [Gate.isGate]

theorem Wire.collapsed_rescan (w : Wire K) : (w.rescan none).Collapsed := by
  unfold Collapsed rescan
  rw [firstMeasurement_none]

theorem Wire.closed_collapsed : Wire.Closed (Wire.Collapsed (K := K)) where
  blank _ := rfl
  place {w g column overwrite next} _ := by
    unfold Wire.place
    dsimp only
    split <;> exact Wire.collapsed_rescan _
  detach {w id next column g v next'} _ h := by
    obtain ⟨column', -, h⟩ := Option.bind_eq_some_iff.mp h
    obtain ⟨g', -, h⟩ := Option.bind_eq_some_iff.mp h
    split at h <;> cases h <;> exact Wire.collapsed_rescan _
  dropInertia {w column} h := by
    unfold Wire.dropInertia
    split
    · exact Wire.collapsed_rescan _
    · exact h

/-! ### Both forms -/

section Forms

variable {c : Circuit K}

omit [Coordinate K] in
theorem cell?_eq_bind (c : Circuit K) (row column : Nat) :
    c.cell? row column = (c.wires[row]?).bind fun w => w.cells[column]? := rfl

omit [Coordinate K] in
theorem lt_of_cell? {row column : Nat} {g : Gate} (h : c.cell? row column = some g) :
    row < c.wires.length ∧ column < c.columns := by
  obtain ⟨w, hw, hg⟩ := Option.bind_eq_some_iff.mp h
  exact ⟨(List.getElem?_eq_some_iff.mp hw).1,
    Nat.lt_of_lt_of_le (List.getElem?_eq_some_iff.mp hg).1 (length_le_columnsOf (List.mem_of_getElem? hw))⟩

omit [Coordinate K] in
theorem mark_of_cell? {row column : Nat} {g : Gate} (h : c.cell? row column = some g) :
    (gridOf c.wires).mark row column = g.mark? := by
  show markIn c.wires row column = _
  rw [markIn_eq_bind_cell, ← cell?_eq_bind, h]
  rfl

omit [Coordinate K] in
theorem gate_of_cell? {row column : Nat} {g : Gate} (h : c.cell? row column = some g)
    (hp : g.kind.isPlaceholder = false) : (gridOf c.wires).mark row column = some (.gate g.id g.kind) :=
  (mark_of_cell? h).trans (Gate.mark?_eq_gate_iff.mpr ⟨rfl, rfl, hp⟩)

omit [Coordinate K] in
theorem cover_of_cell? {row column : Nat} {g : Gate} {id : GateId} (h : c.cell? row column = some g)
    (hkind : g.kind = .support id) : (gridOf c.wires).mark row column = some (.cover id) :=
  (mark_of_cell? h).trans (Gate.mark?_eq_cover_iff.mpr hkind)

omit [Coordinate K] in
theorem exists_cell?_of_mark {row column : Nat} {m : Mark} (h : (gridOf c.wires).mark row column = some m) :
    ∃ g, c.cell? row column = some g ∧ g.mark? = some m := by
  have h : markIn c.wires row column = some m := h
  rw [markIn_eq_bind_cell, ← cell?_eq_bind] at h
  exact Option.bind_eq_some_iff.mp h

omit [Coordinate K] in
/-- A cell holds no more than an inertia if nothing shows there. -/
theorem forall_isInertia_iff {row column : Nat} :
    (∀ g, c.cell? row column = some g → g.isInertia = true) ↔ (gridOf c.wires).mark row column = none := by
  constructor
  · intro h
    by_contra hne
    obtain ⟨m, hm⟩ := Option.ne_none_iff_exists'.mp hne
    obtain ⟨g, hg, hmark⟩ := exists_cell?_of_mark hm
    exact Bool.eq_false_iff.mp (Gate.isInertia_of_mark? hmark) (h g hg)
  · intro hnone g hg
    rw [← Gate.mark?_eq_none_iff, ← mark_of_cell? hg, hnone]

theorem GateKind.isPlaceholder_of_span {kind : GateKind} (h : 1 < kind.span) : kind.isPlaceholder = false := by
  by_contra hp
  rw [GateKind.span_eq_one_of_isPlaceholder (by simpa using hp)] at h
  omega

omit [Coordinate K] in
theorem Circuit.Supported.spanned (h : c.Supported) : (gridOf c.wires).Spanned where
  covered {r k d id kind} hm h0 hd := by
    obtain ⟨g, hg, hmark⟩ := exists_cell?_of_mark hm
    obtain ⟨rfl, rfl, -⟩ := Gate.mark?_eq_gate_iff.mp hmark
    obtain ⟨s, hs, hkind⟩ := (h.supports hg (r + d) k).mpr ⟨rfl, by omega, by unfold Gate.span; omega⟩
    exact cover_of_cell? hs hkind
  parent {r k id} hm := by
    obtain ⟨s, hs, hmark⟩ := exists_cell?_of_mark hm
    have hkind := Gate.mark?_eq_cover_iff.mp hmark
    obtain ⟨q, k', g, hg, rfl⟩ := h.parents hs hkind
    obtain ⟨rfl, hlt, hle⟩ := (h.supports hg r k).mp ⟨s, hs, hkind⟩
    exact ⟨q, g.kind, hlt, hle, gate_of_cell? hg (GateKind.isPlaceholder_of_span (by unfold Gate.span at hle; omega))⟩

omit [Coordinate K] in
theorem Circuit.supported_of_spanned (hspan : (gridOf c.wires).Spanned) {next : Nat} (hl : Labelled c.wires next) :
    c.Supported where
  supports {row column g} hg r k := by
    constructor
    · rintro ⟨s, hcell, hkind⟩
      obtain ⟨q, kind, hlt, hle, hparent⟩ := hspan.parent (cover_of_cell? hcell hkind)
      obtain ⟨g', hg', hmark⟩ := exists_cell?_of_mark hparent
      obtain ⟨hid, rfl, -⟩ := Gate.mark?_eq_gate_iff.mp hmark
      obtain ⟨rfl, rfl⟩ := hl.unique hg' hg hid
      rw [hg] at hg'
      cases hg'
      exact ⟨rfl, hlt, hle⟩
    · rintro ⟨rfl, hlt, hle⟩
      have hm := gate_of_cell? hg (GateKind.isPlaceholder_of_span (by unfold Gate.span at hle; omega))
      obtain ⟨s, hcell, hmark⟩ := exists_cell?_of_mark (hspan.cover_of_lt hm hlt hle)
      exact ⟨s, hcell, Gate.mark?_eq_cover_iff.mp hmark⟩
  parents {row column s id} hcell hkind := by
    obtain ⟨q, kind, -, -, hparent⟩ := hspan.parent (cover_of_cell? hcell hkind)
    obtain ⟨g, hg, hmark⟩ := exists_cell?_of_mark hparent
    exact ⟨q, column, g, hg, (Gate.mark?_eq_gate_iff.mp hmark).1⟩

namespace Circuit.Consistent

theorem shows (h : c.Consistent) : Shows c.wires (gridOf c.wires) := by
  rw [shows_gridOf_iff]
  intro w hw
  exact (columnsOf_eq (fun v hv => h.aligned v hv w hw) (List.ne_nil_of_mem hw)).symm

theorem supported (h : c.Consistent) : c.Supported := ⟨h.supports, h.parents⟩

theorem spanned (h : c.Consistent) : (gridOf c.wires).Spanned := h.supported.spanned

end Circuit.Consistent

/-- A circuit that shows a grid with everything in place is consistent. -/
theorem Circuit.consistent_of_shows (hs : Shows c.wires (gridOf c.wires)) (hspan : (gridOf c.wires).Spanned)
    {next : Nat} (hl : Labelled c.wires next) (hc : ∀ w ∈ c.wires, w.Collapsed) : c.Consistent where
  aligned v hv w hw := (hs.aligned v hv).trans (hs.aligned w hw).symm
  distinct := (Labelled.iff_nodup.mp hl).1
  supports := (supported_of_spanned hspan hl).supports
  parents := (supported_of_spanned hspan hl).parents
  collapsed := hc

/-- A sound circuit whose wires are classical from their first measurements on. -/
structure Circuit.Intact (P : GateKind → Prop) (hand : List GateId) (c : Circuit K) : Prop extends c.Sound P hand where
  collapsed : ∀ w ∈ c.wires, w.Collapsed

namespace Circuit.Intact

variable {P : GateKind → Prop} {hand : List GateId} {d : Circuit K} {g : Gate} {row column : Nat}

theorem congr (h : c.Intact P hand) (hw : d.wires = c.wires) (hn : d.nextGate = c.nextGate) : d.Intact P hand where
  toSound := h.toSound.congr hw hn
  collapsed := by
    rw [hw]
    exact h.collapsed

/-- Collapses are right after every operation that keeps them. -/
theorem of_kept {hand' : List GateId} (h : c.Intact P hand) (hk : Kept c d) (hs : d.Sound P hand') : d.Intact P hand' :=
  ⟨hs, hk.closed Wire.closed_collapsed h.collapsed⟩

theorem of_nil (h : c.wires = []) : c.Intact P [] where
  toSound := Sound.of_nil h
  collapsed := by
    rw [h]
    exact fun w hw => (List.not_mem_nil hw).elim

theorem newGate (h : c.Intact P hand) (kind : GateKind) : (c.newGate kind).2.Intact P (⟨c.nextGate⟩ :: hand) :=
  ⟨h.toSound.newGate kind, h.collapsed⟩

theorem addWires (h : c.Intact P hand) (count : Nat) : (c.addWires count).Intact P hand :=
  h.of_kept (c.kept_addWires count) (h.toSound.addWires count)

theorem discard (h : c.Intact P hand) : c.Intact P [] := ⟨h.toSound.discard, h.collapsed⟩

theorem attachAt (h : c.Intact P (g.id :: hand)) (hP : P g.kind) (hg : ∀ p, g.kind ≠ .support p)
    (hrow : row < c.wires.length) (hcolumn : column ≤ c.columns)
    (hfree : ((gridOf c.wires).openColumn false column).Free row column g.span) :
    (c.attachAt g row column).Intact P hand :=
  h.of_kept (kept_attachAt c g row column) (h.toSound.attachAt hP hg hrow hcolumn hfree)

/-- The first gate on the wires of a circuit. -/
theorem attachFirst (h : c.Intact P []) (hcolumns : c.columns = 0) {kind : GateKind}
    (hP : P kind) (hkind : ∀ p, kind ≠ .support p) {row : Nat} (hrow : row < c.wires.length) :
    ((c.newGate kind).2.attachAt (c.newGate kind).1 row 0).Intact P [] := by
  have hgrid : (gridOf (c.newGate kind).2.wires).columns = 0 := hcolumns
  refine (h.newGate kind).attachAt hP hkind hrow (Nat.zero_le _) fun r _ _ => ?_
  rw [Grid.openColumn, if_pos (by rw [hgrid]; rfl)]
  rfl

theorem detach? (h : c.Intact P hand) {id : GateId} {kind : GateKind}
    (hm : (gridOf c.wires).mark row column = some (.gate id kind)) :
    ∃ g d, c.detach? id = some (g, d) ∧ g.id = id ∧ g.kind = kind ∧
      gridOf d.wires = (gridOf c.wires).clear row column kind.span ∧ Kept c d ∧ d.Intact P (id :: hand) := by
  obtain ⟨g, d, hd, hid, hkind, hgrid, hk, hs⟩ := h.toSound.detach? hm
  exact ⟨g, d, hd, hid, hkind, hgrid, hk, h.of_kept hk hs⟩

/-- A change of a wire beside its cells. -/
theorem modifyWire (h : c.Intact P hand) {f : Wire K → Wire K}
    (hid : ∀ w, (f w).id = w.id) (hcells : ∀ w, (f w).cells = w.cells) (hpivot : ∀ w, (f w).pivot = w.pivot)
    (row : Nat) :
    (c.modifyWire row f).Intact P hand where
  toSound := h.toSound.modifyWire hid hcells row
  collapsed w hw := by
    obtain ⟨v, hv, heq⟩ := List.mem_map.mp (map_modify_of_eq (f := fun w : Wire K => (w.cells, w.pivot))
      (fun w => by rw [hcells, hpivot]) c.wires row ▸ List.mem_map_of_mem hw :
        (w.cells, w.pivot) ∈ c.wires.map fun w => (w.cells, w.pivot))
    have hcollapsed := h.collapsed v hv
    unfold Wire.Collapsed at hcollapsed ⊢
    obtain ⟨hcells, hpivot⟩ := Prod.mk.injEq .. ▸ heq
    rwa [hcells, hpivot] at hcollapsed

theorem wellFormed (h : c.Intact P hand) : c.WellFormed where
  toConsistent := consistent_of_shows h.shows h.spanned h.labelled h.collapsed
  counted _ hw _ hg := h.labelled.index_lt hw hg
  owned := h.owned

end Circuit.Intact

theorem Circuit.WellFormed.intact {P : GateKind → Prop} (h : c.WellFormed) (hk : (gridOf c.wires).Each P) :
    c.Intact P [] where
  shows := h.toConsistent.shows
  spanned := h.toConsistent.spanned
  kinds := hk
  numbered i := Labelled.iff_nodup.mpr ⟨h.distinct, h.counted⟩ i
  owned := h.owned
  collapsed := h.collapsed

end Forms

end CircuitDesigner
