import CircuitDesigner.Proofs.Editing.Drop

/-! What wires that come and go do to the gates on several wires.

    A wire at the bottom changes nothing. A wire that is removed takes those gates with it that reach into it or out
    of it, and no others. A wire that is inserted into the reach of a gate stays empty in its column, and the bottom
    wire may be popped while it holds the end of a gate; in both cases that gate loses a support
    (`supported_wire_operations`). -/

namespace CircuitDesigner

open Circuit

/-! ### Grids -/

namespace Grid

variable {G : Grid} {row : Nat}

/-- An empty row above the one at `row`. -/
def insertRow (G : Grid) (row : Nat) : Grid where
  rows := G.rows + 1
  columns := G.columns
  mark r k := if r < row then G.mark r k else if r = row then none else G.mark (r - 1) k

/-- A row goes between two others if no gate spans from the upper one to the lower one. -/
theorem Spanned.insertRow (h : G.Spanned) (hcover : ∀ k id, G.mark row k ≠ some (.cover id)) :
    (G.insertRow row).Spanned where
  covered {r k d id kind} hm h0 hd := by
    simp only [Grid.insertRow] at hm ⊢
    by_cases hr : r < row
    · rw [if_pos hr] at hm
      -- A gate that starts above the row and reaches over it would cover a cell of it.
      have hd' : r + d < row := by
        by_contra hge
        exact hcover k id (h.cover_of_lt hm hr (by omega))
      rw [if_pos hd']
      exact h.covered hm h0 hd
    · rw [if_neg hr] at hm
      split at hm
      · cases hm
      · rw [if_neg (by omega), if_neg (by omega), show r + d - 1 = r - 1 + d by omega]
        exact h.covered hm h0 hd
  parent {r k id} hm := by
    simp only [Grid.insertRow] at hm ⊢
    by_cases hr : r < row
    · rw [if_pos hr] at hm
      obtain ⟨q, kind, hlt, hle, hq⟩ := h.parent hm
      exact ⟨q, kind, hlt, hle, by rwa [if_pos (by omega)]⟩
    · rw [if_neg hr] at hm
      split at hm
      · cases hm
      · obtain ⟨q, kind, hlt, hle, hq⟩ := h.parent hm
        have hqrow : row ≤ q := by
          by_contra habove
          exact hcover k id (h.cover_of_lt hq (by omega) (by omega))
        exact ⟨q + 1, kind, by omega, by omega, by rwa [if_neg (by omega), if_neg (by omega), Nat.add_sub_cancel]⟩

end Grid

variable {K : Type}

theorem usesIn_insertIdx {ws : List (Wire K)} {row : Nat} (h : row ≤ ws.length) (w : Wire K) (i : GateId) :
    usesIn (ws.insertIdx row w) i = w.uses i + usesIn ws i := by
  rw [← usesIn_cons, usesIn_eq_count, usesIn_eq_count]
  exact (((List.perm_insertIdx w ws h).flatMap_right Wire.cells).map Gate.id).count_eq i

theorem Shows.insertIdx {ws : List (Wire K)} {G : Grid} {w : Wire K} {row : Nat} (h : Shows ws G) (hrow : row ≤ G.rows)
    (hlength : w.cells.length = G.columns) (hmark : ∀ k, w.mark? k = none) :
    Shows (ws.insertIdx row w) (G.insertRow row) := by
  have hrow' : row ≤ ws.length := h.rows ▸ hrow
  refine .of_aligned ?_ (Nat.succ_pos _) (fun v hv => ?_) fun r k => ?_
  · rw [List.length_insertIdx_of_le_length hrow', h.rows]
    rfl
  · rcases List.eq_or_mem_of_mem_insertIdx hv with rfl | hv
    · exact hlength
    · exact h.aligned v hv
  · simp only [Grid.insertRow, ← h.marks]
    unfold markIn
    rw [List.getElem?_insertIdx]
    by_cases hlt : r < row
    · rw [if_pos hlt, if_pos hlt]
    · rw [if_neg hlt, if_neg hlt]
      by_cases heq : r = row
      · rw [if_pos heq, if_pos heq, if_pos (heq ▸ hrow')]
        exact hmark k
      · rw [if_neg heq, if_neg heq]

namespace Circuit

/-- The gates that show in `d` are those of `c` that stay, each in its column and in the row that `f` gives. A gate that
    covers `n` cells from row `r` on stays if `stays r n`. -/
def Keeps (f : Nat → Nat) (stays : Nat → Nat → Prop) (c d : Circuit K) : Prop :=
  ∀ i kind r' k, d.Places i kind r' k ↔ ∃ r, f r = r' ∧ stays r kind.span ∧ c.Places i kind r k

/-- A gate that starts on a wire above reaches into the row. -/
def Crossed (c : Circuit K) (row : Nat) : Prop := ∃ column s id, c.cell? row column = some s ∧ s.kind = .support id

instance (c : Circuit K) (row : Nat) : Decidable (c.Crossed row) :=
  decidable_of_iff
    (((c.wires[row]?).any fun w => w.cells.any fun g => g.kind.isPlaceholder && !g.isInertia) = true) <| by
    simp only [Crossed, cell?_eq_bind, Option.any_eq_true, List.any_eq_true, Option.bind_eq_some_iff]
    constructor
    · rintro ⟨w, hw, g, hg, hkind⟩
      obtain ⟨k, hk⟩ := List.getElem?_of_mem hg
      have hsupport : ∃ id, g.kind = .support id := by
        unfold Gate.isInertia at hkind
        cases hk : g.kind <;> simp [hk, GateKind.isPlaceholder, GateKind.isInertia] at hkind ⊢
      obtain ⟨id, hid⟩ := hsupport
      exact ⟨k, g, id, ⟨w, hw, hk⟩, hid⟩
    · rintro ⟨k, g, id, ⟨w, hw, hg⟩, hkind⟩
      refine ⟨w, hw, g, List.mem_of_getElem? hg, ?_⟩
      unfold Gate.isInertia
      rw [hkind]
      rfl

variable {P : GateKind → Prop} {hand : List GateId} {c d : Circuit K} {row : Nat}

theorem crossed_iff : c.Crossed row ↔ ∃ k id, (gridOf c.wires).mark row k = some (.cover id) := by
  constructor
  · rintro ⟨k, s, id, hs, hkind⟩
    exact ⟨k, id, cover_of_cell? hs hkind⟩
  · rintro ⟨k, id, hm⟩
    obtain ⟨s, hs, hmark⟩ := exists_cell?_of_mark hm
    exact ⟨k, s, id, hs, Gate.mark?_eq_cover_iff.mp hmark⟩

/-- A gate that reaches into a row loses its support there if the row holds none any more. -/
theorem Sound.not_supported (h : c.Sound P hand) (hcrossed : c.Crossed row)
    (habove : ∀ r < row, ∀ k, d.cell? r k = c.cell? r k)
    (hrow : ∀ k s id, d.cell? row k = some s → s.kind ≠ .support id) : ¬d.Supported := by
  intro hd
  obtain ⟨k, id, hcover⟩ := crossed_iff.mp hcrossed
  obtain ⟨q, kind, hlt, hle, hgate⟩ := h.spanned.parent hcover
  obtain ⟨g, hg, hmark⟩ := exists_cell?_of_mark hgate
  obtain ⟨-, rfl, -⟩ := Gate.mark?_eq_gate_iff.mp hmark
  rw [← habove q hlt] at hg
  obtain ⟨s, hs, hkind⟩ := (hd.supports hg row k).mpr ⟨rfl, hlt, hle⟩
  exact hrow k s g.id hs hkind

theorem mark_ne_cover (hcrossed : ¬c.Crossed row) (k : Nat) (id : GateId) :
    (gridOf c.wires).mark row k ≠ some (.cover id) := fun hm => hcrossed (crossed_iff.mpr ⟨k, id, hm⟩)

variable [Coordinate K]

/-! ### Wires that come -/

theorem keeps_addWire (h : c.Intact P hand) : c.Keeps id (fun _ _ => True) c.addWire := by
  intro i kind r k
  rw [places_iff, (shows_addWire h.shows).eq_gridOf]
  simp only [id_eq, exists_eq_left, true_and, places_iff]
  rfl

theorem insertWire?_eq (hd : c.insertWire? row = some d) :
    row < c.wires.length ∧ d.wires = c.wires.insertIdx row c.freshWire.1 ∧ d.nextGate = c.freshWire.2.nextGate := by
  obtain ⟨next, wire, hrest⟩ := c.freshWire_rest
  unfold insertWire? at hd
  dsimp only at hd
  rw [hrest] at hd ⊢
  split at hd
  · rename_i hrow
    obtain rfl := Option.some.inj hd
    exact ⟨hrow, rfl, rfl⟩
  · cases hd

theorem shows_insertWire? (h : c.Intact P hand) (hd : c.insertWire? row = some d) :
    Shows d.wires ((gridOf c.wires).insertRow row) := by
  obtain ⟨hrow, hwires, -⟩ := insertWire?_eq hd
  exact hwires ▸ h.shows.insertIdx (Nat.le_of_lt hrow) c.length_freshWire (mark?_freshWire c)

theorem keeps_insertWire? (h : c.Intact P hand) (hd : c.insertWire? row = some d) :
    c.Keeps (fun r => if r < row then r else r + 1) (fun _ _ => True) d := by
  intro i kind r' k
  simp only [places_iff, true_and, (shows_insertWire? h hd).eq_gridOf, Grid.insertRow]
  constructor
  · intro hm
    split at hm
    · exact ⟨r', if_pos ‹_›, hm⟩
    · split at hm
      · cases hm
      · exact ⟨r' - 1, by rw [if_neg (by omega)]; omega, hm⟩
  · rintro ⟨r, rfl, hm⟩
    by_cases hr : r < row
    · rwa [if_pos hr, if_pos hr]
    · rwa [if_neg hr, if_neg (by omega), if_neg (by omega), Nat.add_sub_cancel]

/-- A wire is inserted where no gate reaches over it. -/
theorem Intact.insertWire? (h : c.Intact P hand) (hd : c.insertWire? row = some d) (hcrossed : ¬c.Crossed row) :
    d.Intact P hand := by
  obtain ⟨hrow, hwires, hnext⟩ := insertWire?_eq hd
  have hmem : ∀ w ∈ d.wires, w = c.freshWire.1 ∨ w ∈ c.wires := fun w hw => by
    rw [hwires] at hw
    exact List.eq_or_mem_of_mem_insertIdx hw
  refine ⟨.of_shows (shows_insertWire? h hd) (h.spanned.insertRow (mark_ne_cover hcrossed)) ?_ (fun i => ?_) ?_, ?_⟩
  · intro r k id kind hm
    simp only [Grid.insertRow] at hm
    split at hm
    · exact h.kinds r k id kind hm
    · split at hm
      · cases hm
      · exact h.kinds (r - 1) k id kind hm
  · obtain ⟨huses, hle⟩ := c.uses_freshWire_le i
    have hnumbered := h.numbered i
    have hmade := made_add (Nat.zero_le c.nextGate) hle i
    rw [hwires, usesIn_insertIdx (Nat.le_of_lt hrow), hnext]
    omega
  · intro w hw
    rcases hmem w hw with rfl | hw
    · exact freshWire_closed Wire.closed_owned c
    · exact h.owned w hw
  · intro w hw
    rcases hmem w hw with rfl | hw
    · exact freshWire_closed Wire.closed_collapsed c
    · exact h.collapsed w hw

theorem supported_insertWire?_iff (h : c.Intact P hand) (hd : c.insertWire? row = some d) :
    d.Supported ↔ ¬c.Crossed row := by
  refine ⟨fun hsupported hcrossed => ?_, fun hcrossed => (h.insertWire? hd hcrossed).wellFormed.supported⟩
  obtain ⟨hrow, hwires, -⟩ := insertWire?_eq hd
  have hcell : ∀ r k, d.cell? r k = ((c.wires.insertIdx row c.freshWire.1)[r]?).bind fun w => w.cells[k]? :=
    fun r k => by
    rw [cell?_eq_bind, hwires]
  refine h.not_supported hcrossed (fun r hr k => ?_) (fun k s id hs hkind => ?_) hsupported
  · rw [hcell, List.getElem?_insertIdx_of_lt hr]
    rfl
  · rw [hcell, List.getElem?_insertIdx_self, if_pos (Nat.le_of_lt hrow)] at hs
    have hmark := mark?_freshWire c k
    unfold Wire.mark? at hmark
    rw [show c.freshWire.1.cells[k]? = some s from hs, Option.bind_some, Gate.mark?_eq_cover_iff.mpr hkind] at hmark
    cases hmark

/-! ### Wires that go -/

omit [Coordinate K] in
theorem wires_popWire (c : Circuit K) : c.popWire.2.wires = c.wires.eraseIdx (c.wires.length - 1) :=
  List.eraseIdx_length_sub_one.symm

omit [Coordinate K] in
theorem keeps_popWire (c : Circuit K) : c.Keeps id (fun r _ => r + 1 < c.wires.length) c.popWire.2 := by
  intro i kind r k
  have hcell : c.popWire.2.cell? r k = if r + 1 < c.wires.length then c.cell? r k else none := by
    show (c.wires.dropLast[r]?).bind _ = _
    rw [List.getElem?_dropLast]
    by_cases hr : r + 1 < c.wires.length
    · rw [if_pos hr, if_pos (by omega)]
      rfl
    · rw [if_neg hr, if_neg (by omega)]
      rfl
  unfold Places
  simp only [id_eq, exists_eq_left, hcell, Option.ite_none_right_eq_some]
  simp only [and_assoc, exists_and_left]

/-- The bottom wire is popped where no gate reaches into it. -/
theorem Intact.popWire (h : c.Intact P hand) (hcrossed : ¬c.Crossed (c.wires.length - 1)) :
    c.popWire.2.Intact P hand := by
  rcases Nat.eq_zero_or_pos c.wires.length with hnil | hpos
  · have hnil := List.length_eq_zero_iff.mp hnil
    exact h.congr (by rw [wires_popWire, hnil]; rfl) rfl
  · refine ⟨h.toSound.eraseIdx (by omega) (mark_ne_cover hcrossed) (fun k id kind hm => ?_) (wires_popWire c) rfl,
      fun w hw => ?_⟩
    · have hend : c.wires.length - 1 + kind.span ≤ c.wires.length := h.shows.add_span_le h.spanned hm
      omega
    · rw [wires_popWire] at hw
      exact h.collapsed w (List.mem_of_mem_eraseIdx hw)

theorem supported_popWire_iff (h : c.Intact P hand) : c.popWire.2.Supported ↔ ¬c.Crossed (c.wires.length - 1) := by
  refine ⟨fun hsupported hcrossed => ?_, fun hcrossed => (h.popWire hcrossed).wellFormed.supported⟩
  have hcell : ∀ r k, c.popWire.2.cell? r k =
      ((c.wires.eraseIdx (c.wires.length - 1))[r]?).bind fun w => w.cells[k]? := fun r k => by
    rw [cell?_eq_bind, wires_popWire]
  refine h.not_supported hcrossed (fun r hr k => ?_) (fun k s id hs _ => ?_) hsupported
  · rw [hcell, List.getElem?_eraseIdx_of_lt hr]
    rfl
  · have hnone : c.wires[c.wires.length - 1 + 1]? = none := List.getElem?_eq_none (by omega)
    rw [hcell, List.getElem?_eraseIdx_of_ge (Nat.le_refl _), hnone] at hs
    cases hs

/-- A wire is removed with the gates that reach into it or out of it. -/
theorem keeps_removeWireAt? (h : c.Intact P []) (hd : c.removeWireAt? row = some d) :
    c.Keeps (fun r => if r < row then r else r - 1) (fun r n => r + n ≤ row ∨ row < r) d := by
  obtain ⟨w, hw, hd⟩ := Option.bind_eq_some_iff.mp hd
  cases hd
  obtain ⟨hintact, -, hlength, hstays⟩ := h.detachSpanning hw
  have hrow : row < (c.detachAll (spanning w)).wires.length := hlength ▸ (List.getElem?_eq_some_iff.mp hw).1
  have hgrid := (hintact.shows.eraseIdx hrow).eq_gridOf
  intro i kind r' k
  have hspan := kind.span_pos
  simp only [places_iff, updateWidgets, hgrid, Grid.removeRow, hstays]
  constructor
  · rintro ⟨hm, hclear⟩
    refine ⟨_, ?_, ?_, hm⟩ <;> split_ifs at hclear ⊢ <;> omega
  · rintro ⟨r, rfl, hclear, hm⟩
    have hback : (if (if r < row then r else r - 1) < row then if r < row then r else r - 1
        else (if r < row then r else r - 1) + 1) = r := by
      split_ifs <;> omega
    rw [hback]
    exact ⟨hm, by omega⟩

/-- What a removed wire leaves: a well-formed circuit, in which all gates stay that do not cover a cell of the row. -/
structure WithoutRow (c : Circuit K) (row : Nat) (d : Circuit K) : Prop where
  wellFormed : d.WellFormed
  keeps : c.Keeps (fun r => if r < row then r else r - 1) (fun r n => r + n ≤ row ∨ row < r) d

theorem exists_removeWireAt? (h : c.Intact P []) (hrow : row < c.wires.length) :
    ∃ d, c.removeWireAt? row = some d ∧ c.WithoutRow row d := by
  have hd : ∃ d, c.removeWireAt? row = some d := by
    unfold Circuit.removeWireAt?
    rw [List.getElem?_eq_getElem hrow]
    exact ⟨_, rfl⟩
  obtain ⟨d, hd⟩ := hd
  exact ⟨d, hd, (h.removeWireAt? hd).1.wellFormed, keeps_removeWireAt? h hd⟩

theorem removeWire?_cases (h : c.Intact P []) (id : WireId) :
    (c.removeWire? id = none ∧ ∀ w ∈ c.wires, w.id ≠ id) ∨
      ∃ row w d, c.wires[row]? = some w ∧ w.id = id ∧ c.removeWire? id = some d ∧ c.WithoutRow row d := by
  unfold removeWire?
  cases hrow : c.findWire? id with
  | none =>
    have hnone := List.findIdx?_eq_none_iff.mp hrow
    exact .inl ⟨rfl, fun w hw => beq_eq_false_iff_ne.mp (hnone w hw)⟩
  | some row =>
    obtain ⟨hlt, hid, -⟩ := List.findIdx?_eq_some_iff_getElem.mp hrow
    obtain ⟨d, hd, hwithout⟩ := exists_removeWireAt? h hlt
    exact .inr ⟨row, _, d, List.getElem?_eq_getElem hlt, beq_iff_eq.mp hid, hd, hwithout⟩

end Circuit

/-- Gates on several wires keep their supports, and no other support is left, when a wire is added at the bottom, and
    when one is removed, by its row or by its id, with the gates that cover a cell of it. The same goes for a wire
    that is inserted and for the bottom wire when it is popped, if and only if no gate reaches into that row. All
    other gates stay, and a row or an id that no wire has is ignored. -/
theorem supported_wire_operations [Coordinate K] {c : Circuit K} (hc : c.WellFormed) :
    (c.addWire.WellFormed ∧ c.Keeps id (fun _ _ => True) c.addWire) ∧
      (∀ row < c.wires.length, ∃ d, c.insertWire? row = some d ∧ (d.Supported ↔ ¬c.Crossed row) ∧
        (¬c.Crossed row → d.WellFormed) ∧ c.Keeps (fun r => if r < row then r else r + 1) (fun _ _ => True) d) ∧
      ((c.popWire.2.Supported ↔ ¬c.Crossed (c.wires.length - 1)) ∧
        (¬c.Crossed (c.wires.length - 1) → c.popWire.2.WellFormed) ∧
        c.Keeps id (fun r _ => r + 1 < c.wires.length) c.popWire.2) ∧
      (∀ row < c.wires.length, ∃ d, c.removeWireAt? row = some d ∧ c.WithoutRow row d) ∧
      (∀ row, c.wires.length ≤ row → c.insertWire? row = none ∧ c.removeWireAt? row = none) ∧
      ∀ id, (c.removeWire? id = none ∧ ∀ w ∈ c.wires, w.id ≠ id) ∨
        ∃ row w d, c.wires[row]? = some w ∧ w.id = id ∧ c.removeWire? id = some d ∧ c.WithoutRow row d := by
  have hintact : c.Intact (fun _ => True) [] := hc.intact fun _ _ _ _ _ => trivial
  refine ⟨⟨(hintact.addWires 1).wellFormed, keeps_addWire hintact⟩, fun row hrow => ?_,
    ⟨supported_popWire_iff hintact, fun hcrossed => (hintact.popWire hcrossed).wellFormed, keeps_popWire c⟩,
    fun row hrow => exists_removeWireAt? hintact hrow, fun row hrow => ⟨if_neg (by omega), ?_⟩,
      removeWire?_cases hintact⟩
  · obtain ⟨d, hd⟩ : ∃ d, c.insertWire? row = some d := ⟨_, if_pos hrow⟩
    exact ⟨d, hd, supported_insertWire?_iff hintact hd, fun hcrossed => (hintact.insertWire? hd hcrossed).wellFormed,
      keeps_insertWire? hintact hd⟩
  · unfold Circuit.removeWireAt?
    rw [List.getElem?_eq_none hrow]
    rfl

/-- A wire goes between the first of three wires and the gate on the other two. -/
theorem supported_wire_operations_pair : ∃ d, pairCircuit.insertWire? 1 = some d ∧ d.WellFormed := by
  have hformed : pairCircuit.WellFormed := intact_pairDraft.refresh.wellFormed
  have hrow : 1 < pairCircuit.wires.length ∧ ¬pairCircuit.Crossed 1 := by decide +kernel
  obtain ⟨d, hd, -, hinserted, -⟩ := (supported_wire_operations hformed).2.1 1 hrow.1
  exact ⟨d, hd, hinserted hrow.2⟩

/-- The gate on the lower two of three wires loses its support when the bottom wire is popped, and when a wire is
    inserted between the two. -/
theorem wire_operations_unsupported :
    pairCircuit.WellFormed ∧ ¬pairCircuit.popWire.2.Supported ∧
      ∃ d, pairCircuit.insertWire? 2 = some d ∧ ¬d.Supported := by
  have hintact := intact_pairDraft.refresh
  have hcrossed : pairCircuit.wires.length = 3 ∧ pairCircuit.Crossed 2 := by decide +kernel
  obtain ⟨hlength, hcrossed⟩ := hcrossed
  refine ⟨hintact.wellFormed, fun h => (supported_popWire_iff hintact).mp h ?_, ?_⟩
  · rw [show pairDraft.refresh.wires.length = 3 from hlength]
    exact hcrossed
  · obtain ⟨d, hd⟩ := Option.isSome_iff_exists.mp (by decide +kernel : (pairCircuit.insertWire? 2).isSome = true)
    exact ⟨d, hd, fun h => (supported_insertWire?_iff hintact hd).mp h hcrossed⟩

end CircuitDesigner
