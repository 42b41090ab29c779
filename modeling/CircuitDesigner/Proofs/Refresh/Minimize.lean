import CircuitDesigner.Proofs.Grid.Carried
import CircuitDesigner.Proofs.Grid.Invariant

/-! Minimal size.

    Minimizing drops idle columns and idle wires at the bottom and adds wires up to the least number. The result has
    none to drop or to add (`Grid.Minimal`), and a circuit of that kind is left as it is. The gates are carried
    along. -/

namespace CircuitDesigner

variable {K : Type}

/-- Every column shows something, there are `least` rows, and more only as far as something shows. -/
structure Grid.Minimal (G : Grid) (least : Nat) : Prop where
  columns : ∀ k, k < G.columns → ∃ r, G.mark r k ≠ none
  rows : least ≤ G.rows
  bottom : least < G.rows → ∃ k, G.mark (G.rows - 1) k ≠ none

/-- A property of grids that stays when idle columns and idle rows at the bottom come and go. -/
structure Grid.Trimmable (Q : Grid → Prop) : Prop where
  addRows : ∀ {G n}, Q G → Q (G.addRows n)
  removeColumn : ∀ {G k}, Q G → (∀ r, G.mark r k = none) → Q (G.removeColumn k)
  removeRow : ∀ {G}, Q G → (∀ k, G.mark (G.rows - 1) k = none) → Q (G.removeRow (G.rows - 1))

/-- The places of supports and the kinds of gates. -/
theorem Grid.trimmable_spanned (P : GateKind → Prop) : Trimmable fun G => G.Spanned ∧ G.Each P where
  addRows h := ⟨h.1.addRows _, h.2⟩
  removeColumn h _ := ⟨h.1.removeColumn _, fun _ _ _ _ hm => h.2 _ _ _ _ hm⟩
  removeRow h hidle := by
    refine ⟨h.1.removeRow (fun k id hm => ?_) fun k id kind hm => ?_, fun _ _ _ _ hm => h.2 _ _ _ _ hm⟩
    · rw [hidle] at hm
      cases hm
    · rw [hidle] at hm
      cases hm

/-- The gates of a grid, which has no marks below its rows. -/
theorem Grid.trimmable_carries (P : GateId → Prop) (G : Grid) :
    Trimmable fun H => (∀ {r k m}, H.mark r k = some m → r < H.rows) ∧ ∃ f, Carries P f G H where
  addRows {H n} := by
    rintro ⟨hbound, f, hf⟩
    exact ⟨fun hm => Nat.lt_add_right n (hbound hm), _, hf.trans (carries_addRows H n)⟩
  removeColumn := by
    rintro H k ⟨hbound, f, hf⟩ hidle
    exact ⟨fun hm => hbound hm, _, hf.trans (carries_removeColumn hidle)⟩
  removeRow := by
    rintro H ⟨hbound, f, hf⟩ hidle
    refine ⟨fun {r k m} hm => ?_, _, hf.trans (carries_removeRow hbound hidle)⟩
    have hrow := hbound hm
    split at hrow
    · assumption
    · exact Nat.lt_sub_of_add_lt hrow

section Idle

variable {w : Wire K} {ws : List (Wire K)} {G : Grid}

theorem Wire.isIdle_iff : w.isIdle = true ↔ ∀ k, w.mark? k = none := by
  unfold Wire.isIdle
  rw [List.all_eq_true]
  constructor
  · intro h k
    unfold Wire.mark?
    rw [Option.bind_eq_none_iff]
    exact fun g hg => Gate.mark?_eq_none_iff.mpr (h g (List.mem_of_getElem? hg))
  · intro h g hg
    obtain ⟨k, hk⟩ := List.getElem?_of_mem hg
    have := h k
    unfold Wire.mark? at this
    rw [hk] at this
    exact Gate.mark?_eq_none_iff.mp this

theorem Shows.getLast?_any_isIdle (h : Shows ws G) (hrows : 0 < G.rows) :
    (ws.getLast?).any Wire.isIdle = true ↔ ∀ k, G.mark (G.rows - 1) k = none := by
  have hlt : ws.length - 1 < ws.length := by
    rw [h.rows]
    omega
  rw [List.getLast?_eq_getElem?, List.getElem?_eq_getElem hlt, Option.any_some, Wire.isIdle_iff]
  refine forall_congr' fun k => ?_
  rw [← h.marks, ← h.rows, markIn_of_getElem? (List.getElem?_eq_getElem hlt)]

end Idle

namespace Circuit

variable [Coordinate K] {P : GateKind → Prop} {Q : Grid → Prop} {hand : List GateId} {c : Circuit K} {G : Grid}

/-! ### Idle columns -/

section Columns

variable {ws : List (Wire K)} {count column : Nat}

theorem dropIdleColumns_eq_self (h : ∀ k, column ≤ k → k < column + count → isIdleColumn ws k = false) :
    dropIdleColumns count column ws = ws := by
  induction count generalizing column with
  | zero => rfl
  | succ count ih =>
    rw [dropIdleColumns, h column (Nat.le_refl _) (by omega)]
    exact ih fun k hk hk' => h k (by omega) (by omega)

theorem closed_dropIdleColumns {Q : Wire K → Prop} (hQ : Wire.Closed Q) (h : ∀ w ∈ ws, Q w) :
    ∀ w ∈ dropIdleColumns count column ws, Q w := by
  induction count generalizing column ws with
  | zero => exact h
  | succ count ih =>
    rw [dropIdleColumns]
    split
    · refine ih fun w hw => ?_
      obtain ⟨v, hv, rfl⟩ := List.mem_map.mp hw
      exact hQ.dropInertia (h v hv)
    · exact ih h

theorem usesIn_dropIdleColumns_le (count column : Nat) (ws : List (Wire K)) (i : GateId) :
    usesIn (dropIdleColumns count column ws) i ≤ usesIn ws i := by
  induction count generalizing column ws with
  | zero => exact Nat.le_refl _
  | succ count ih =>
    rw [dropIdleColumns]
    split
    · exact Nat.le_trans (ih _ _) (usesIn_map_le (fun w => w.uses_dropInertia_le column i) ws)
    · exact ih _ _

/-- Of the columns from `column` on, those are left in which something shows. -/
theorem shows_dropIdleColumns (hQ : Grid.Trimmable Q) (h : Shows ws G) (hG : Q G) (count column : Nat)
    (hcount : column + count = G.columns) (hbusy : ∀ k, k < column → ∃ r, G.mark r k ≠ none) :
    ∃ H, Shows (dropIdleColumns count column ws) H ∧ Q H ∧ ∀ k, k < H.columns → ∃ r, H.mark r k ≠ none := by
  induction count generalizing column ws G with
  | zero => exact ⟨G, h, hG, fun k hlt => hbusy k (by omega)⟩
  | succ count ih =>
    rw [dropIdleColumns]
    have hlt : column < G.columns := by omega
    have hidle := h.isVacant hlt
    split
    · rename_i hvacant
      have hnone := hidle.mp hvacant
      refine ih (G := G.removeColumn column) (h.dropInertia hlt hnone) (hQ.removeColumn hG hnone) _
        (by show column + count = G.columns - 1; omega) fun k hlt => ?_
      obtain ⟨r, hr⟩ := hbusy k hlt
      refine ⟨r, ?_⟩
      simp only [Grid.removeColumn]
      rwa [if_pos hlt]
    · rename_i hvacant
      refine ih h hG _ (by omega) fun k hlt => ?_
      rcases Nat.lt_succ_iff_lt_or_eq.mp hlt with hlt | rfl
      · exact hbusy k hlt
      · by_contra hnone
        simp only [not_exists, not_not] at hnone
        exact hvacant (hidle.mpr hnone)

end Columns

/-! ### Idle wires -/

omit [Coordinate K] in
theorem popIdleWires_eq_self {count : Nat} (h : 0 < count → (c.wires.getLast?).any Wire.isIdle = false) :
    c.popIdleWires count = c := by
  cases count with
  | zero => rfl
  | succ count => rw [popIdleWires, h (Nat.succ_pos count)]; rfl

theorem kept_popIdleWires (c : Circuit K) (count : Nat) : Kept c (c.popIdleWires count) := by
  induction count generalizing c with
  | zero => exact .refl c
  | succ count ih =>
    rw [popIdleWires]
    split
    · refine .trans ?_ (ih _)
      exact ⟨rfl, rfl, rfl, rfl, rfl, Nat.le_refl _, fun _ hw w hmem => hw w (List.dropLast_subset _ hmem)⟩
    · exact .refl c

omit [Coordinate K] in
theorem usesIn_popIdleWires_le (c : Circuit K) (count : Nat) (i : GateId) :
    usesIn (c.popIdleWires count).wires i ≤ usesIn c.wires i := by
  induction count generalizing c with
  | zero => exact Nat.le_refl _
  | succ count ih =>
    rw [popIdleWires]
    split
    · exact Nat.le_trans (ih _) (usesIn_sublist (List.dropLast_sublist c.wires) i)
    · exact Nat.le_refl _

omit [Coordinate K] in
/-- Idle wires go from the bottom, until one is not idle or `least` are left. -/
theorem shows_popIdleWires (hQ : Grid.Trimmable Q) (h : Shows c.wires G) (hG : Q G)
    (hbusy : ∀ k, k < G.columns → ∃ r, G.mark r k ≠ none) {least count : Nat} (hleast : least ≤ G.rows)
    (hcount : count = G.rows - least) :
    ∃ H, Shows (c.popIdleWires count).wires H ∧ Q H ∧ H.Minimal least := by
  induction count generalizing c G with
  | zero => exact ⟨G, h, hG, hbusy, hleast, fun hlt => absurd hlt (by omega)⟩
  | succ count ih =>
    have hidle := h.getLast?_any_isIdle (by omega)
    rw [popIdleWires]
    split
    · rename_i hlast
      have hnone := hidle.mp hlast
      have hwires : c.popWire.2.wires = c.wires.eraseIdx (G.rows - 1) := by
        rw [← h.rows]
        exact List.eraseIdx_length_sub_one.symm
      have hrows : (G.removeRow (G.rows - 1)).rows = G.rows - 1 := rfl
      refine ih (G := G.removeRow (G.rows - 1)) (hwires ▸ h.eraseIdx (by omega)) (hQ.removeRow hG hnone)
        (fun k hk => ?_) (by omega) (by omega)
      have hcolumns : (G.removeRow (G.rows - 1)).columns ≤ G.columns := by
        show (if G.rows ≤ 1 then 0 else G.columns) ≤ G.columns
        split <;> omega
      obtain ⟨r, hr⟩ := hbusy k (by omega)
      -- Something shows in the column, but not on the wire that goes.
      have hlt : r < G.rows - 1 := by
        by_contra hge
        cases hm : G.mark r k with
        | none => exact hr hm
        | some m =>
          have hlt' := (h.lt_of_mark hm).1
          rw [show r = G.rows - 1 by omega, hnone] at hm
          cases hm
      refine ⟨r, ?_⟩
      show G.mark (if r < G.rows - 1 then r else r + 1) k ≠ none
      rwa [if_pos hlt]
    · rename_i hlast
      refine ⟨G, h, hG, hbusy, hleast, fun _ => ?_⟩
      by_contra hnone
      simp only [not_exists, not_not] at hnone
      exact hlast (hidle.mpr hnone)

/-! ### Minimizing -/

theorem kept_minimize (c : Circuit K) : Kept c c.minimize := by
  unfold minimize
  dsimp only
  refine .trans (.trans ?_ (kept_addWires { c with wires := dropIdleColumns c.columns 0 c.wires } _))
    (kept_popIdleWires _ _)
  exact ⟨rfl, rfl, rfl, rfl, rfl, Nat.le_refl _, fun hQ hw => closed_dropIdleColumns hQ hw⟩

theorem usesIn_minimize_le (c : Circuit K) (i : GateId) :
    usesIn c.minimize.wires i ≤ usesIn c.wires i + made c.nextGate c.minimize.nextGate i := by
  have hnext : ∀ (d : Circuit K) (count : Nat), (d.popIdleWires count).nextGate = d.nextGate := fun d count => by
    induction count generalizing d with
    | zero => rfl
    | succ count ih =>
      rw [popIdleWires]
      split
      · exact ih _
      · rfl
  unfold minimize
  dsimp only
  rw [hnext]
  refine Nat.le_trans (usesIn_popIdleWires_le _ _ i) (Nat.le_trans (usesIn_addWires_le _ _ i) ?_)
  exact Nat.add_le_add_right (usesIn_dropIdleColumns_le _ _ _ i) _

/-- Minimizing makes a grid minimal. -/
theorem shows_minimize (hQ : Grid.Trimmable Q) (h : Shows c.wires G) (hG : Q G) :
    ∃ H, Shows c.minimize.wires H ∧ Q H ∧ H.Minimal c.settings.minQubits := by
  obtain ⟨H, hH, hQH, hbusy⟩ := shows_dropIdleColumns hQ h hG G.columns 0 (Nat.zero_add _)
    fun k hk => absurd hk (Nat.not_lt_zero k)
  rw [← h.columns] at hH
  unfold minimize
  generalize hd : { c with wires := dropIdleColumns c.columns 0 c.wires } = d
  have hshow : Shows d.wires H := hd ▸ hH
  have hsettings : c.settings = d.settings := hd ▸ rfl
  rw [hsettings]
  dsimp only
  have hadd := shows_addWires hshow (d.settings.minQubits - d.wires.length)
  rw [(d.kept_addWires (d.settings.minQubits - d.wires.length)).settings]
  have hrows : (H.addRows (d.settings.minQubits - d.wires.length)).rows =
      d.wires.length + (d.settings.minQubits - d.wires.length) := by
    rw [hshow.rows]
    rfl
  refine shows_popIdleWires hQ hadd (hQ.addRows hQH) hbusy (by omega) ?_
  rw [hadd.rows]

theorem exists_carries_minimize (h : Shows c.wires G) (R : GateId → Prop) :
    ∃ f, Grid.Carries R f G (gridOf c.minimize.wires) := by
  obtain ⟨H, hH, ⟨-, hf⟩, -⟩ := shows_minimize (Grid.trimmable_carries R G) h
    ⟨fun hm => (h.lt_of_mark hm).1, id, .refl G⟩
  rwa [hH.eq_gridOf]

theorem Sound.minimize (h : c.Sound P hand) : c.minimize.Sound P hand := by
  obtain ⟨H, hH, ⟨hs, hk⟩, -⟩ := shows_minimize (Grid.trimmable_spanned P) h.shows ⟨h.spanned, h.kinds⟩
  have hkept := c.kept_minimize
  refine .of_shows hH hs hk (fun i => ?_) (hkept.closed Wire.closed_owned h.owned)
  have h1 := c.usesIn_minimize_le i
  have h2 := h.numbered i
  have h3 := made_add (Nat.zero_le c.nextGate) hkept.next i
  omega

theorem minimal_minimize (h : Shows c.wires G) : (gridOf c.minimize.wires).Minimal c.settings.minQubits := by
  obtain ⟨H, hH, -, hm⟩ := shows_minimize (Q := fun _ => True)
    ⟨fun _ => trivial, fun _ _ => trivial, fun _ _ => trivial⟩ h trivial
  rw [hH.eq_gridOf]
  exact hm

theorem minimize_eq_self (h : Shows c.wires G) (hm : G.Minimal c.settings.minQubits) : c.minimize = c := by
  have hdrop : dropIdleColumns c.columns 0 c.wires = c.wires := by
    refine dropIdleColumns_eq_self fun k _ hk => ?_
    have hk : k < G.columns := by
      have : c.columns = G.columns := h.columns
      omega
    obtain ⟨r, hr⟩ := hm.columns k hk
    refine Bool.eq_false_iff.mpr fun hidle => hr ((h.isVacant hk).mp hidle r)
  have hadd : c.settings.minQubits - c.wires.length = 0 := by
    have := hm.rows
    rw [h.rows]
    omega
  unfold minimize
  rw [hdrop]
  dsimp only
  rw [hadd]
  refine popIdleWires_eq_self fun hpos => ?_
  have hlt : c.settings.minQubits < G.rows := by
    have hpos : 0 < c.wires.length - c.settings.minQubits := hpos
    rw [h.rows] at hpos
    omega
  obtain ⟨k, hk⟩ := hm.bottom hlt
  refine Bool.eq_false_iff.mpr fun hidle => hk ((h.getLast?_any_isIdle (by omega)).mp hidle k)

end Circuit

end CircuitDesigner
