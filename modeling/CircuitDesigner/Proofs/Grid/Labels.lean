import CircuitDesigner.Circuit.Placement
import CircuitDesigner.Proofs.Grid.View

/-! Numbers of gates.

    The gates of a circuit have distinct numbers below the number of the next gate. Both facts are one bound on
    how many cells hold a gate of each number (`Labelled`), and each operation changes these counts by the gates
    it adds, takes and makes anew. The last section finds a gate by its number. -/

namespace CircuitDesigner

variable {K : Type}

/-- How many cells of the wire hold the gate. -/
def Wire.uses (w : Wire K) (i : GateId) : Nat := w.cells.countP fun g => g.id == i

/-- How many cells hold the gate. -/
def usesIn : List (Wire K) → GateId → Nat
  | [], _ => 0
  | w :: ws, i => w.uses i + usesIn ws i

/-- One for the numbers that are used up between `next` and `next'`. -/
def made (next next' : Nat) (i : GateId) : Nat := if next ≤ i.index ∧ i.index < next' then 1 else 0

/-- One for the gate itself. -/
def itself (id i : GateId) : Nat := if id = i then 1 else 0

/-- The gates have distinct numbers below `next`. -/
def Labelled (ws : List (Wire K)) (next : Nat) : Prop := ∀ i, usesIn ws i ≤ made 0 next i

theorem itself_self (id : GateId) : itself id id = 1 := if_pos rfl

/-- The gate is on none of the wires if it has a number of its own beside them. -/
theorem usesIn_eq_zero {ws : List (Wire K)} {id : GateId} {next : Nat}
    (h : usesIn ws id + itself id id ≤ made 0 next id) :
    usesIn ws id = 0 := by
  rw [itself_self] at h
  unfold made at h
  split at h <;> omega

theorem made_add {a b c : Nat} (h : a ≤ b) (h' : b ≤ c) (i : GateId) : made a b i + made b c i = made a c i := by
  unfold made
  split_ifs <;> omega

theorem made_self (a : Nat) (i : GateId) : made a a i = 0 := if_neg (by omega)

theorem made_succ (a : Nat) (i : GateId) : made a (a + 1) i = itself ⟨a⟩ i := by
  obtain ⟨n⟩ := i
  unfold made itself
  simp only [GateId.mk.injEq]
  split_ifs <;> omega

/-! ### Counts -/

section Counts

variable {w : Wire K} {ws : List (Wire K)} {next : Nat}

theorem usesIn_cons (w : Wire K) (ws : List (Wire K)) (i : GateId) : usesIn (w :: ws) i = w.uses i + usesIn ws i :=
  rfl

theorem usesIn_append (vs ws : List (Wire K)) (i : GateId) : usesIn (vs ++ ws) i = usesIn vs i + usesIn ws i := by
  induction vs with
  | nil => exact (Nat.zero_add _).symm
  | cons v vs ih => rw [List.cons_append, usesIn_cons, ih, usesIn_cons, Nat.add_assoc]

theorem Wire.uses_eq_count (w : Wire K) (i : GateId) : w.uses i = (w.cells.map Gate.id).count i := by
  rw [List.count_eq_countP, List.countP_map]
  rfl

theorem usesIn_eq_count (ws : List (Wire K)) (i : GateId) :
    usesIn ws i = ((ws.flatMap Wire.cells).map Gate.id).count i := by
  induction ws with
  | nil => rfl
  | cons w ws ih =>
    rw [usesIn_cons, ih, Wire.uses_eq_count, List.flatMap_cons, List.map_append, List.count_append]

theorem usesIn_congr {vs ws : List (Wire K)}
    (h : vs.map (fun w => w.cells.map Gate.id) = ws.map fun w => w.cells.map Gate.id) (i : GateId) :
    usesIn vs i = usesIn ws i := by
  induction vs generalizing ws with
  | nil => rw [List.map_eq_nil_iff.mp h.symm]
  | cons v vs ih =>
    obtain ⟨w, ws, rfl, hw, hws⟩ := List.map_eq_cons_iff.mp h.symm
    rw [usesIn_cons, usesIn_cons, ih hws.symm, Wire.uses_eq_count, Wire.uses_eq_count, hw]

theorem Wire.uses_pos {g : Gate} (h : g ∈ w.cells) : 0 < w.uses g.id :=
  List.countP_pos_iff.mpr ⟨g, h, beq_self_eq_true g.id⟩

theorem uses_le_usesIn (h : w ∈ ws) (i : GateId) : w.uses i ≤ usesIn ws i := by
  induction ws with
  | nil => cases h
  | cons v ws ih =>
    rw [usesIn_cons]
    rcases List.mem_cons.mp h with rfl | h
    · exact Nat.le_add_right _ _
    · exact Nat.le_trans (ih h) (Nat.le_add_left _ _)

theorem usesIn_set {r : Nat} {v : Wire K} (h : ws[r]? = some v) (w : Wire K) (i : GateId) :
    usesIn (ws.set r w) i + v.uses i = usesIn ws i + w.uses i := by
  induction ws generalizing r with
  | nil => simp at h
  | cons u ws ih =>
    cases r with
    | zero =>
      simp only [List.getElem?_cons_zero, Option.some.injEq] at h
      subst h
      rw [List.set_cons_zero, usesIn_cons, usesIn_cons]
      omega
    | succ r =>
      have := ih (r := r) (by simpa using h)
      rw [List.set_cons_succ, usesIn_cons, usesIn_cons]
      omega

theorem usesIn_sublist {vs : List (Wire K)} (h : vs.Sublist ws) (i : GateId) : usesIn vs i ≤ usesIn ws i := by
  induction h with
  | slnil => exact Nat.le_refl _
  | cons w _ ih =>
    rw [usesIn_cons]
    omega
  | cons_cons w _ ih =>
    rw [usesIn_cons, usesIn_cons]
    omega

theorem usesIn_map_le {f : Wire K → Wire K} {i : GateId} (h : ∀ w, (f w).uses i ≤ w.uses i) (ws : List (Wire K)) :
    usesIn (ws.map f) i ≤ usesIn ws i := by
  induction ws with
  | nil => exact Nat.le_refl _
  | cons w ws ih =>
    rw [List.map_cons, usesIn_cons, usesIn_cons]
    have := h w
    omega

theorem uses_add_uses_le {v : Wire K} {r r' : Nat} (hlt : r < r') (hr : ws[r]? = some w) (hr' : ws[r']? = some v)
    (i : GateId) : w.uses i + v.uses i ≤ usesIn ws i := by
  induction ws generalizing r r' with
  | nil => simp at hr
  | cons u ws ih =>
    rw [usesIn_cons]
    cases r' with
    | zero => omega
    | succ r' =>
      rw [List.getElem?_cons_succ] at hr'
      cases r with
      | zero =>
        rw [List.getElem?_cons_zero, Option.some.injEq] at hr
        subst hr
        exact Nat.add_le_add_left (uses_le_usesIn (List.mem_of_getElem? hr') i) _
      | succ r =>
        rw [List.getElem?_cons_succ] at hr
        exact Nat.le_trans (ih (by omega) hr hr') (Nat.le_add_left _ _)

end Counts

/-! ### What labels say -/

namespace Labelled

variable {w : Wire K} {ws vs : List (Wire K)} {next next' : Nat} {g h : Gate} {r k r' k' : Nat}

theorem mono (hl : Labelled ws next) (hle : ∀ i, usesIn vs i ≤ usesIn ws i + made next next' i) (hnext : next ≤ next') :
    Labelled vs next' := fun i => by
  have := hl i
  have := hle i
  have := made_add (Nat.zero_le next) hnext i
  omega

theorem index_lt (hl : Labelled ws next) (hw : w ∈ ws) (hg : g ∈ w.cells) : g.id.index < next := by
  have h1 := hl g.id
  have h2 := uses_le_usesIn hw g.id
  have h3 := Wire.uses_pos hg
  unfold made at h1
  split at h1 <;> omega

theorem uses_le_one (hl : Labelled ws next) (hw : w ∈ ws) (i : GateId) : w.uses i ≤ 1 := by
  have h1 := hl i
  have h2 := uses_le_usesIn hw i
  unfold made at h1
  split at h1 <;> omega

theorem ids_nodup (hl : Labelled ws next) (hw : w ∈ ws) : (w.cells.map Gate.id).Nodup := by
  rw [List.nodup_iff_count]
  intro i
  rw [List.count_eq_countP, List.countP_map]
  exact hl.uses_le_one hw i

theorem unique (hl : Labelled ws next) (hg : (ws[r]?).bind (fun w => w.cells[k]?) = some g)
    (hh : (ws[r']?).bind (fun w => w.cells[k']?) = some h) (heq : g.id = h.id) : r = r' ∧ k = k' := by
  obtain ⟨w, hw, hg⟩ := Option.bind_eq_some_iff.mp hg
  obtain ⟨v, hv, hh⟩ := Option.bind_eq_some_iff.mp hh
  have hmw := Wire.uses_pos (List.mem_of_getElem? hg)
  have hmv := Wire.uses_pos (List.mem_of_getElem? hh)
  rw [← heq] at hmv
  have hle : usesIn ws g.id ≤ 1 := by
    have := hl g.id
    unfold made at this
    split at this <;> omega
  rcases Nat.lt_trichotomy r r' with hlt | rfl | hlt
  · have := uses_add_uses_le hlt hw hv g.id
    omega
  · rw [hw] at hv
    cases hv
    refine ⟨rfl, ?_⟩
    refine (List.getElem?_inj ?_ (hl.ids_nodup (List.mem_of_getElem? hw))).mp ?_
    · rw [List.length_map]
      exact (List.getElem?_eq_some_iff.mp hg).1
    · rw [List.getElem?_map, List.getElem?_map, hg, hh, Option.map_some, Option.map_some, heq]
  · have := uses_add_uses_le hlt hv hw g.id
    omega

/-- Labels amount to distinct numbers below the next one. -/
theorem iff_nodup : Labelled ws next ↔ ((ws.flatMap Wire.cells).map Gate.id).Nodup ∧
    ∀ w ∈ ws, ∀ g ∈ w.cells, g.id.index < next := by
  constructor
  · intro hl
    refine ⟨List.nodup_iff_count.mpr fun i => ?_, fun w hw g hg => hl.index_lt hw hg⟩
    rw [← usesIn_eq_count]
    have := hl i
    unfold made at this
    split at this <;> omega
  · rintro ⟨hnodup, hlt⟩ i
    rw [usesIn_eq_count]
    have h1 := List.nodup_iff_count.mp hnodup i
    unfold made
    split
    · exact h1
    · rename_i hge
      rw [Nat.le_zero, List.count_eq_zero]
      intro hmem
      obtain ⟨g, hg, rfl⟩ := List.mem_map.mp hmem
      obtain ⟨w, hw, hg⟩ := List.mem_flatMap.mp hg
      exact hge ⟨Nat.zero_le _, hlt w hw g hg⟩

theorem unique_gridOf (hl : Labelled ws next) : (gridOf ws).Unique := by
  intro r k r' k' id kind kind' hm hm'
  obtain ⟨w, g, hw, hg, hmg⟩ := markIn_eq_some_iff.mp hm
  obtain ⟨v, h, hv, hh, hmh⟩ := markIn_eq_some_iff.mp hm'
  refine hl.unique (g := g) (h := h) ?_ ?_ ?_
  · rw [hw]
    exact hg
  · rw [hv]
    exact hh
  · rw [(Gate.mark?_eq_gate_iff.mp hmg).1, (Gate.mark?_eq_gate_iff.mp hmh).1]

theorem unique_marks (hl : Labelled ws next) {G : Grid} (hs : Shows ws G) : G.Unique := hs.eq_gridOf ▸ hl.unique_gridOf

end Labelled

/-! ### Finding a gate -/

section Find

variable {w : Wire K} {ws : List (Wire K)} {g : Gate} {r k next : Nat}

theorem Wire.find?_eq (hnodup : (w.cells.map Gate.id).Nodup) (hg : w.cells[k]? = some g) : w.find? g.id = some k := by
  obtain ⟨hk, hget⟩ := List.getElem?_eq_some_iff.mp hg
  unfold Wire.find?
  rw [List.findIdx?_eq_some_iff_getElem]
  refine ⟨hk, by rw [hget]; exact beq_self_eq_true g.id, fun j hj => ?_⟩
  simp only [beq_iff_eq]
  intro heq
  refine absurd ((List.getElem?_inj ?_ hnodup).mp ?_) (Nat.ne_of_lt hj)
  · rw [List.length_map]
    omega
  · rw [List.getElem?_map, List.getElem?_map, hg, List.getElem?_eq_getElem (by omega), Option.map_some, Option.map_some,
      heq]

theorem Wire.find?_eq_none_iff {i : GateId} : w.find? i = none ↔ w.uses i = 0 := by
  unfold Wire.find? Wire.uses
  rw [List.findIdx?_eq_none_iff, List.countP_eq_zero]
  simp

theorem Wire.exists_of_find? {i : GateId} (h : w.find? i = some k) : ∃ g, w.cells[k]? = some g ∧ g.id = i := by
  obtain ⟨hk, hid, -⟩ := List.findIdx?_eq_some_iff_getElem.mp h
  exact ⟨_, List.getElem?_eq_getElem hk, beq_iff_eq.mp hid⟩

theorem locateFrom_eq (row : Nat) (hl : Labelled ws next) (hw : ws[r]? = some w) (hg : w.cells[k]? = some g) :
    Circuit.locateFrom g.id row ws = some (row + r, k) := by
  induction ws generalizing row r with
  | nil => simp at hw
  | cons v ws ih =>
    rw [Circuit.locateFrom]
    cases r with
    | zero =>
      simp only [List.getElem?_cons_zero, Option.some.injEq] at hw
      subst hw
      rw [Wire.find?_eq (hl.ids_nodup List.mem_cons_self) hg]
      rfl
    | succ r =>
      have hw' : ws[r]? = some w := by simpa using hw
      -- The gate is on a later wire, so that this one does not hold it.
      have hv : v.find? g.id = none := by
        rw [Wire.find?_eq_none_iff]
        have h1 := uses_add_uses_le (Nat.succ_pos r) List.getElem?_cons_zero hw g.id
        have h2 := hl g.id
        have h3 := Wire.uses_pos (List.mem_of_getElem? hg)
        unfold made at h2
        split at h2 <;> omega
      rw [hv]
      have hl' : Labelled ws next := fun i => by
        have := hl i
        rw [usesIn_cons] at this
        omega
      simp only
      rw [ih (row + 1) hl' hw', show row + 1 + r = row + (r + 1) by omega]

theorem locate?_eq {c : Circuit K} (hl : Labelled c.wires next) (hg : c.cell? r k = some g) :
    c.locate? g.id = some (r, k) := by
  obtain ⟨w, hw, hgw⟩ := Option.bind_eq_some_iff.mp hg
  have hlocate := locateFrom_eq 0 hl hw hgw
  rwa [Nat.zero_add] at hlocate

theorem exists_of_locateFrom {i : GateId} {row : Nat} (h : Circuit.locateFrom i row ws = some (r, k)) :
    ∃ w g, row ≤ r ∧ ws[r - row]? = some w ∧ w.find? i = some k ∧ w.cells[k]? = some g ∧ g.id = i := by
  induction ws generalizing row with
  | nil => cases h
  | cons v ws ih =>
    rw [Circuit.locateFrom] at h
    cases hv : v.find? i with
    | some column =>
      rw [hv] at h
      cases h
      obtain ⟨g, hg, hid⟩ := Wire.exists_of_find? hv
      exact ⟨v, g, Nat.le_refl _, by simp, hv, hg, hid⟩
    | none =>
      rw [hv] at h
      obtain ⟨w, g, hle, hw, hf, hg, hid⟩ := ih h
      refine ⟨w, g, by omega, ?_, hf, hg, hid⟩
      rw [show r - row = (r - (row + 1)) + 1 by omega, List.getElem?_cons_succ]
      exact hw

end Find

end CircuitDesigner
