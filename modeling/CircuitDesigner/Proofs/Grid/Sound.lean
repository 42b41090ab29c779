import CircuitDesigner.Proofs.Grid.Removal
import Mathlib.Data.List.InsertIdx

/-! What every operation on a circuit keeps.

    A sound circuit shows a grid with all supports in place, and no number names two gates, be they placed or in
    hand: a gate that is taken out stays in hand until it is placed again or given up. -/

namespace CircuitDesigner

variable {K : Type}

/-- The gates of the wire know that it holds them. -/
def Wire.Owned (w : Wire K) : Prop := ∀ g ∈ w.cells, g.owner = some w.id

/-- `P` holds of the kinds of all gates that show, and `hand` are the gates that are on no wire yet. -/
structure Circuit.Sound (P : GateKind → Prop) (hand : List GateId) (c : Circuit K) : Prop where
  shows : Shows c.wires (gridOf c.wires)
  spanned : (gridOf c.wires).Spanned
  kinds : (gridOf c.wires).Each P
  numbered : ∀ i, usesIn c.wires i + hand.count i ≤ made 0 c.nextGate i
  owned : ∀ w ∈ c.wires, w.Owned

theorem Wire.closed_owned [Coordinate K] : Wire.Closed (Wire.Owned (K := K)) where
  blank _ g hg := by cases hg
  place {w g column overwrite next} h := by
    unfold Wire.place
    dsimp only
    split
    · intro o ho
      rcases List.mem_or_eq_of_mem_set ho with ho | rfl
      · exact h o ho
      · rfl
    · intro o ho
      rcases List.eq_or_mem_of_mem_insertIdx ho with rfl | ho
      · rfl
      · rcases List.mem_append.mp ho with ho | ho
        · exact h o ho
        · obtain ⟨i, -, rfl⟩ := List.mem_map.mp ho
          rfl
  detach {w id next column g v next'} h hd := by
    obtain ⟨column', -, hd⟩ := Option.bind_eq_some_iff.mp hd
    obtain ⟨g', -, hd⟩ := Option.bind_eq_some_iff.mp hd
    split at hd <;> cases hd
    · exact fun o ho => h o (List.mem_of_mem_eraseIdx ho)
    · intro o ho
      rcases List.mem_or_eq_of_mem_set ho with ho | rfl
      · exact h o ho
      · rfl
  dropInertia {w column} h := by
    unfold Wire.dropInertia
    split
    · exact fun o ho => h o (List.mem_of_mem_eraseIdx ho)
    · exact h

/-- The gate has a number of its own beside those on the wires, and is put on one of them. -/
theorem labelled_put [Coordinate K] {c : Circuit K} {g : Gate}
    (hcount : ∀ i, usesIn c.wires i + itself g.id i ≤ made 0 c.nextGate i) (row column : Nat) (squeeze : Bool) :
    Labelled (c.put g row column squeeze).wires (c.put g row column squeeze).nextGate := fun i => by
  have h1 := c.usesIn_put_le g row column squeeze i
  have h2 := hcount i
  have h3 := made_add (Nat.zero_le c.nextGate) (c.kept_put g row column squeeze).next i
  omega

namespace Circuit.Sound

variable {P : GateKind → Prop} {hand : List GateId} {c d : Circuit K} {G : Grid} {g : Gate} {row column : Nat}

theorem of_shows (h : Shows c.wires G) (hs : G.Spanned) (hk : G.Each P)
    (hn : ∀ i, usesIn c.wires i + hand.count i ≤ made 0 c.nextGate i) (ho : ∀ w ∈ c.wires, w.Owned) :
    c.Sound P hand := by
  obtain rfl := h.eq_gridOf
  exact ⟨h, hs, hk, hn, ho⟩

theorem of_nil (h : c.wires = []) : c.Sound P [] := by
  have hshows : Shows c.wires ⟨0, 0, fun _ _ => none⟩ := by
    rw [h]
    exact ⟨rfl, rfl, fun _ hw => (List.not_mem_nil hw).elim, fun _ _ => rfl⟩
  refine of_shows hshows ⟨fun hm => ?_, fun hm => ?_⟩ (fun _ _ _ _ hm => ?_) (fun i => ?_) fun w hw => ?_
  · cases hm
  · cases hm
  · cases hm
  · rw [h]
    exact Nat.zero_le _
  · rw [h] at hw
    exact (List.not_mem_nil hw).elim

theorem labelled (h : c.Sound P hand) : Labelled c.wires c.nextGate :=
  fun i => Nat.le_trans (Nat.le_add_right _ _) (h.numbered i)

theorem counted_hand (h : c.Sound P [g.id]) (i : GateId) : usesIn c.wires i + itself g.id i ≤ made 0 c.nextGate i := by
  have hle := h.numbered i
  simpa [List.count_cons, itself, beq_iff_eq] using hle

theorem congr (h : c.Sound P hand) (hw : d.wires = c.wires) (hn : d.nextGate = c.nextGate) : d.Sound P hand := by
  obtain ⟨h1, h2, h3, h4, h5⟩ := h
  refine ⟨?_, ?_, ?_, ?_, ?_⟩
  · rw [hw]
    exact h1
  · rw [hw]
    exact h2
  · rw [hw]
    exact h3
  · rw [hw, hn]
    exact h4
  · rw [hw]
    exact h5

/-- Soundness looks at the cells of the wires and at their numbers. -/
theorem of_cells (h : c.Sound P hand)
    (hw : d.wires.map (fun w => (w.id, w.cells)) = c.wires.map fun w => (w.id, w.cells))
    (hn : d.nextGate = c.nextGate) : d.Sound P hand := by
  have hcells : d.wires.map Wire.cells = c.wires.map Wire.cells := by
    have := congrArg (List.map Prod.snd) hw
    rwa [List.map_map, List.map_map] at this
  have hmem : ∀ w ∈ d.wires, ∃ v ∈ c.wires, v.id = w.id ∧ v.cells = w.cells := fun w hmem => by
    obtain ⟨v, hv, heq⟩ := List.mem_map.mp (hw ▸ List.mem_map_of_mem hmem :
      (w.id, w.cells) ∈ c.wires.map fun w => (w.id, w.cells))
    exact ⟨v, hv, congrArg Prod.fst heq, congrArg Prod.snd heq⟩
  have hgrid := gridOf_congr hcells
  refine ⟨?_, hgrid ▸ h.spanned, hgrid ▸ h.kinds, fun i => ?_, fun w hw' => ?_⟩
  · refine shows_gridOf_iff.mpr fun w hw' => ?_
    obtain ⟨v, hv, -, heq⟩ := hmem w hw'
    rw [← heq, h.shows.aligned v hv]
    exact (congrArg Grid.columns hgrid).symm
  · have hids := congrArg (List.map (List.map Gate.id)) hcells
    rw [List.map_map, List.map_map] at hids
    rw [usesIn_congr hids, hn]
    exact h.numbered i
  · obtain ⟨v, hv, hid, heq⟩ := hmem w hw'
    intro g hg
    rw [← hid]
    exact h.owned v hv g (heq ▸ hg)

theorem modifyWire (h : c.Sound P hand) {f : Wire K → Wire K} (hid : ∀ w, (f w).id = w.id)
    (hcells : ∀ w, (f w).cells = w.cells) (row : Nat) : (c.modifyWire row f).Sound P hand := by
  exact h.of_cells (map_modify_of_eq (fun w => by rw [hid, hcells]) c.wires row) rfl

theorem discard (h : c.Sound P hand) : c.Sound P [] where
  shows := h.shows
  spanned := h.spanned
  kinds := h.kinds
  numbered i := Nat.le_trans (Nat.add_le_add_left (Nat.zero_le _) _) (h.numbered i)
  owned := h.owned

theorem newGate (h : c.Sound P hand) (kind : GateKind) : (c.newGate kind).2.Sound P (⟨c.nextGate⟩ :: hand) where
  shows := h.shows
  spanned := h.spanned
  kinds := h.kinds
  numbered i := by
    have h1 := h.numbered i
    have h2 := made_add (Nat.zero_le c.nextGate) (Nat.le_add_right c.nextGate 1) i
    rw [made_succ] at h2
    unfold itself at h2
    show usesIn c.wires i + _ ≤ made 0 (c.nextGate + 1) i
    rw [List.count_cons]
    simp only [beq_iff_eq]
    omega
  owned := h.owned

/-- A wire goes that no gate on several wires crosses. -/
theorem eraseIdx (h : c.Sound P hand) (hrow : row < c.wires.length)
    (hcover : ∀ k id, (gridOf c.wires).mark row k ≠ some (.cover id))
    (hspan : ∀ k id kind, (gridOf c.wires).mark row k = some (.gate id kind) → kind.span ≤ 1)
    (hw : d.wires = c.wires.eraseIdx row) (hn : d.nextGate = c.nextGate) : d.Sound P hand := by
  refine of_shows (hw ▸ h.shows.eraseIdx hrow) (h.spanned.removeRow hcover hspan)
    (fun _ _ _ _ hm => h.kinds _ _ _ _ hm) (fun i => ?_)
    fun w hmem => ?_
  · have h1 := usesIn_sublist (List.eraseIdx_sublist c.wires row) i
    have h2 := h.numbered i
    rw [hw, hn]
    omega
  · rw [hw] at hmem
    exact h.owned w (List.mem_of_mem_eraseIdx hmem)

variable [Coordinate K]

theorem addWires (h : c.Sound P hand) (count : Nat) : (c.addWires count).Sound P hand := by
  have hk := c.kept_addWires count
  refine of_shows (shows_addWires h.shows count) (h.spanned.addRows count) h.kinds (fun i => ?_)
    (hk.closed Wire.closed_owned h.owned)
  have h1 := c.usesIn_addWires_le count i
  have h2 := h.numbered i
  have h3 := made_add (Nat.zero_le c.nextGate) hk.next i
  omega

/-- A gate in hand is put into cells, in a way that leaves the supports of all gates in place. -/
theorem of_put (h : c.Sound P (g.id :: hand)) {squeeze : Bool} (hshows : Shows (c.put g row column squeeze).wires G)
    (hspanned : G.Spanned) (hkinds : G.Each P) : (c.put g row column squeeze).Sound P hand := by
  have hk := c.kept_put g row column squeeze
  refine of_shows hshows hspanned hkinds (fun i => ?_) (hk.closed Wire.closed_owned h.owned)
  have h1 := c.usesIn_put_le g row column squeeze i
  have h2 := h.numbered i
  have h3 := made_add (Nat.zero_le c.nextGate) hk.next i
  rw [List.count_cons] at h2
  simp only [beq_iff_eq] at h2
  unfold itself at h1
  omega

/-- A gate in hand is put into free cells. -/
theorem put (h : c.Sound P (g.id :: hand)) (hP : P g.kind) (hg : ∀ p, g.kind ≠ .support p)
    (hrow : row < c.wires.length) {squeeze : Bool} (hcolumn : column ≤ c.columns)
    (hfree : ((gridOf c.wires).openColumn squeeze column).Free row column g.span) :
    (c.put g row column squeeze).Sound P hand :=
  h.of_put (shows_put h.shows g squeeze hrow hcolumn hfree) ((h.spanned.openColumn squeeze column).put hfree hg)
    ((h.kinds.openColumn squeeze column).put hP row column)

theorem attachAt (h : c.Sound P (g.id :: hand)) (hP : P g.kind) (hg : ∀ p, g.kind ≠ .support p)
    (hrow : row < c.wires.length) (hcolumn : column ≤ c.columns)
    (hfree : ((gridOf c.wires).openColumn false column).Free row column g.span) :
    (c.attachAt g row column).Sound P hand := by
  unfold Circuit.attachAt
  rw [if_pos hrow, Nat.min_eq_left hcolumn]
  exact h.put hP hg hrow hcolumn hfree

theorem detach? (h : c.Sound P hand) {id : GateId} {kind : GateKind}
    (hm : (gridOf c.wires).mark row column = some (.gate id kind)) :
    ∃ g d, c.detach? id = some (g, d) ∧ g.id = id ∧ g.kind = kind ∧
      gridOf d.wires = (gridOf c.wires).clear row column kind.span ∧ Kept c d ∧ d.Sound P (id :: hand) := by
  obtain ⟨g, d, hd, hid, hkind, hshow, hk, huses⟩ := exists_detach? h.shows h.spanned h.labelled hm
  refine ⟨g, d, hd, hid, hkind, hshow.eq_gridOf, hk, of_shows hshow (h.spanned.clear hm)
    (h.kinds.sub (Grid.sub_clear _ row column kind.span)) (fun i => ?_) (hk.closed Wire.closed_owned h.owned)⟩
  have h1 := huses i
  have h2 := h.numbered i
  have h3 := made_add (Nat.zero_le c.nextGate) hk.next i
  rw [List.count_cons]
  simp only [beq_iff_eq]
  unfold itself at h1
  omega

end Circuit.Sound

end CircuitDesigner
