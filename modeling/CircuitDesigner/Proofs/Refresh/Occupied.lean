import CircuitDesigner.Proofs.Refresh.Clean

/-! Minimizing as one filter.

    Minimizing drops idle columns one by one, over a grid that gets narrower under it. Taken together that is one
    filter: each wire keeps its cells in the columns that were occupied before (`dropIdleColumns_eq_condensed`). Then
    wires are added, or idle ones popped, until there are as many as the least number or as reach down to the last
    wire in use (`minimize_eq_condensed`). None of this needs wires of one length. -/

namespace CircuitDesigner

open Circuit

/-! ### Places of a list -/

section Places

variable {α : Type}

/-- The entries of a list at the places with `p`, in order. -/
def entriesAt (p : Nat → Bool) (l : List α) : List α := (l.zipIdx.filter fun entry => p entry.2).map Prod.fst

theorem entriesAt_cons (p : Nat → Bool) (a : α) (l : List α) :
    entriesAt p (a :: l) = (if p 0 then [a] else []) ++ entriesAt (fun k => p (k + 1)) l := by
  have htail : ((l.zipIdx 1).filter fun entry => p entry.2).map Prod.fst = entriesAt (fun k => p (k + 1)) l := by
    rw [List.zipIdx_succ, List.filter_map, List.map_map]
    rfl
  rw [entriesAt, List.zipIdx_cons, List.filter_cons]
  by_cases h : p 0 = true
  · rw [if_pos h, if_pos h, List.map_cons, htail, List.singleton_append]
  · rw [if_neg h, if_neg h, htail, List.nil_append]

/-- To erase an entry that is passed over makes no difference, if the places after it count one less. -/
theorem entriesAt_eraseIdx {p q : Nat → Bool} {k : Nat} (hk : q k = false)
    (hq : ∀ j, p j = q (if j < k then j else j + 1)) (l : List α) : entriesAt p (l.eraseIdx k) = entriesAt q l := by
  induction l generalizing p q k with
  | nil => rfl
  | cons a l ih =>
    cases k with
    | zero =>
      have hp : p = fun j => q (j + 1) := funext fun j => by simpa using hq j
      rw [List.eraseIdx_cons_zero, entriesAt_cons q, hk, hp]
      rfl
    | succ k =>
      have hhead : p 0 = q 0 := by simpa using hq 0
      have htail : ∀ j, p (j + 1) = q ((if j < k then j else j + 1) + 1) := fun j => by
        rw [hq (j + 1)]
        congr 1
        split_ifs <;> omega
      rw [List.eraseIdx_cons_succ, entriesAt_cons p, entriesAt_cons q, hhead,
        ih (p := fun j => p (j + 1)) (q := fun j => q (j + 1)) hk htail]

theorem entriesAt_eq_self {p : Nat → Bool} {l : List α} (h : ∀ k < l.length, p k = true) : entriesAt p l = l := by
  induction l generalizing p with
  | nil => rfl
  | cons a l ih =>
    rw [entriesAt_cons, if_pos (h 0 (Nat.zero_lt_succ _)), ih fun k hk => h (k + 1) (Nat.succ_lt_succ hk)]
    rfl

theorem entriesAt_sublist (p : Nat → Bool) (l : List α) : (entriesAt p l).Sublist l := by
  have h := (List.filter_sublist (p := fun entry : α × Nat => p entry.2) (l := l.zipIdx)).map Prod.fst
  rwa [List.zipIdx_map_fst] at h

theorem length_entriesAt (p : Nat → Bool) (l : List α) : (entriesAt p l).length = (List.range l.length).countP p := by
  induction l generalizing p with
  | nil => rfl
  | cons a l ih =>
    rw [entriesAt_cons, List.length_append, ih, List.length_cons, List.range_succ_eq_map, List.countP_cons,
      List.countP_map, Nat.add_comm]
    congr 1
    split <;> rfl

/-- An entry that is taken goes as far up as there are places before it that are passed over. -/
theorem getElem?_entriesAt_iff {p : Nat → Bool} {l : List α} {i : Nat} {a : α} :
    (entriesAt p l)[i]? = some a ↔ ∃ k, l[k]? = some a ∧ p k = true ∧ (List.range k).countP p = i := by
  induction l generalizing p i with
  | nil => simp [entriesAt]
  | cons b l ih =>
    have hcount : ∀ k, (List.range (k + 1)).countP p =
        (List.range k).countP (fun k => p (k + 1)) + if p 0 = true then 1 else 0 := fun k => by
      rw [List.range_succ_eq_map, List.countP_cons, List.countP_map]
      rfl
    have hsplit : (∃ k, (b :: l)[k]? = some a ∧ p k = true ∧ (List.range k).countP p = i) ↔
        (b = a ∧ p 0 = true ∧ 0 = i) ∨ ∃ k, l[k]? = some a ∧ p (k + 1) = true ∧
          (List.range k).countP (fun k => p (k + 1)) + (if p 0 = true then 1 else 0) = i := by
      constructor
      · rintro ⟨_ | k, hk, hp, hi⟩
        · exact .inl ⟨Option.some.inj hk, hp, hi⟩
        · exact .inr ⟨k, hk, hp, hcount k ▸ hi⟩
      · rintro (⟨rfl, hp, hi⟩ | ⟨k, hk, hp, hi⟩)
        · exact ⟨0, rfl, hp, hi⟩
        · exact ⟨k + 1, hk, hp, (hcount k).trans hi⟩
    rw [entriesAt_cons, hsplit]
    by_cases h0 : p 0 = true
    · cases i with
      | zero => simp [h0]
      | succ i => simp [h0, ih]
    · simp [h0, ih]

/-- All places that matter are taken. -/
theorem all_entriesAt {p : Nat → Bool} {t : α → Bool} {l : List α}
    (h : ∀ k a, l[k]? = some a → t a = false → p k = true) : (entriesAt p l).all t = l.all t := by
  induction l generalizing p with
  | nil => rfl
  | cons a l ih =>
    rw [entriesAt_cons, List.all_append, ih fun k b hb => h (k + 1) b hb, List.all_cons]
    by_cases hp : p 0 = true
    · rw [if_pos hp, List.all_cons, List.all_nil, Bool.and_true]
    · have ha : t a = true := by
        by_contra ha
        exact hp (h 0 a rfl (by simpa using ha))
      rw [if_neg hp, ha]
      rfl

end Places

variable {K : Type}

/-! ### Columns in use -/

section Columns

variable {w : Wire K} {ws : List (Wire K)} {column k : Nat}

/-- Some wire holds more than an inertia in the column. -/
def Occupied (ws : List (Wire K)) (k : Nat) : Prop := ∃ w ∈ ws, ∃ g, w.cells[k]? = some g ∧ g.isInertia = false

theorem occupied_iff : Occupied ws k ↔ isIdleColumn ws k = false := by
  rw [isIdleColumn_eq_false_iff]
  refine exists_congr fun w => and_congr_right fun _ => ?_
  unfold Wire.isVacant
  cases w.cells[k]? <;> simp

instance (ws : List (Wire K)) (k : Nat) : Decidable (Occupied ws k) := decidable_of_iff _ occupied_iff.symm

variable [Coordinate K]

/-- The wire with its cells in occupied columns only. It collapses anew if it loses a cell. -/
def Wire.condensed (ws : List (Wire K)) (w : Wire K) : Wire K :=
  let v : Wire K := { w with cells := entriesAt (fun k => Occupied ws k) w.cells }
  if v.cells.length < w.cells.length then v.rescan none else v

theorem Wire.cells_condensed (ws : List (Wire K)) (w : Wire K) :
    (w.condensed ws).cells = entriesAt (fun k => Occupied ws k) w.cells := by
  unfold condensed
  dsimp only
  split <;> rfl

theorem Wire.condensed_of_busy (h : Busy ws) (hw : w ∈ ws) : w.condensed ws = w := by
  have hcells : entriesAt (fun k => Occupied ws k) w.cells = w.cells := entriesAt_eq_self fun k hk => by
    rw [decide_eq_true_iff, occupied_iff]
    exact h k (Nat.lt_of_lt_of_le hk (length_le_columnsOf hw))
  unfold condensed
  dsimp only
  rw [hcells, if_neg (Nat.lt_irrefl _)]

theorem Wire.cells_dropInertia (h : w.isVacant column = true) :
    (w.dropInertia column).cells = w.cells.eraseIdx column := by
  unfold dropInertia
  by_cases hlt : column < w.cells.length
  · simp only [isVacant, List.getElem?_eq_getElem hlt, Option.all_some] at h
    rw [List.getElem?_eq_getElem hlt, Option.any_some, if_pos h]
    rfl
  · rw [List.getElem?_eq_none (Nat.le_of_not_lt hlt), List.eraseIdx_of_length_le (Nat.le_of_not_lt hlt)]
    rfl

/-- The columns after the one that goes move up. -/
theorem occupied_map_dropInertia (h : ∀ w ∈ ws, w.isVacant column = true) :
    Occupied (ws.map fun w => w.dropInertia column) k ↔ Occupied ws (if k < column then k else k + 1) := by
  have hcell : ∀ w ∈ ws, (w.dropInertia column).cells[k]? = w.cells[if k < column then k else k + 1]? := fun w hw => by
    rw [Wire.cells_dropInertia (h w hw), List.getElem?_eraseIdx]
    split <;> rfl
  constructor
  · rintro ⟨v, hv, g, hg, hi⟩
    obtain ⟨w, hw, rfl⟩ := List.mem_map.mp hv
    exact ⟨w, hw, g, hcell w hw ▸ hg, hi⟩
  · rintro ⟨w, hw, g, hg, hi⟩
    exact ⟨_, List.mem_map_of_mem hw, g, (hcell w hw).trans hg, hi⟩

/-- A wire that has lost an idle column is filtered as it was before. -/
theorem Wire.condensed_dropInertia (h : ∀ w ∈ ws, w.isVacant column = true) (hw : w ∈ ws) :
    (w.dropInertia column).condensed (ws.map fun w => w.dropInertia column) = w.condensed ws := by
  have hidle : ¬Occupied ws column := fun ⟨v, hv, g, hg, hi⟩ => by
    have hvacant := h v hv
    rw [isVacant, hg, Option.all_some, hi] at hvacant
    cases hvacant
  have hcells : entriesAt (fun k => Occupied (ws.map fun w => w.dropInertia column) k) (w.dropInertia column).cells =
      entriesAt (fun k => Occupied ws k) w.cells := by
    rw [cells_dropInertia (h w hw)]
    exact entriesAt_eraseIdx (decide_eq_false hidle)
      (fun j => decide_eq_decide.mpr (occupied_map_dropInertia h)) w.cells
  have hsublist := entriesAt_sublist (fun k => Occupied (ws.map fun w => w.dropInertia column) k)
    (w.dropInertia column).cells
  unfold condensed
  dsimp only
  rw [hcells] at hsublist ⊢
  generalize entriesAt (fun k => decide (Occupied ws k)) w.cells = cells at hsublist ⊢
  by_cases hlt : column < w.cells.length
  · -- The cell that goes makes the wire collapse anew, whether or not others follow.
    have hvacant := h w hw
    rw [isVacant, List.getElem?_eq_getElem hlt, Option.all_some] at hvacant
    have hdrop := dropInertia_eq (List.getElem?_eq_getElem hlt) hvacant
    have hlength : (w.dropInertia column).cells.length < w.cells.length := by
      rw [length_dropInertia (h w hw), if_pos hlt]
      omega
    rw [if_pos (Nat.lt_of_le_of_lt hsublist.length_le hlength)]
    split
    · rw [hdrop]
      rfl
    · rename_i hsame
      rw [hsublist.eq_of_length_le (Nat.le_of_not_lt hsame), hdrop]
      rfl
  · have hdrop : w.dropInertia column = w := by
      unfold dropInertia
      rw [List.getElem?_eq_none (Nat.le_of_not_lt hlt)]
      rfl
    rw [hdrop]

/-- The columns are dropped one after the other, but that is one filter. -/
theorem dropIdleColumns_eq_condensed {count : Nat} (hcount : column + count = columnsOf ws)
    (hbusy : ∀ k < column, isIdleColumn ws k = false) :
    dropIdleColumns count column ws = ws.map (Wire.condensed ws) := by
  induction count generalizing column ws with
  | zero =>
    have hself : ∀ w ∈ ws, w.condensed ws = w := fun w hw =>
      Wire.condensed_of_busy (fun k hk => hbusy k (by omega)) hw
    rw [dropIdleColumns, List.map_congr_left hself, List.map_id']
  | succ count ih =>
    rw [dropIdleColumns]
    split
    · rename_i hidle
      have hvacant : ∀ w ∈ ws, w.isVacant column = true := List.all_eq_true.mp hidle
      have hcolumns := columnsOf_map_dropInertia hidle (by omega)
      rw [ih (by omega) fun k hk => ?_, List.map_map]
      · exact List.map_congr_left fun w hw => Wire.condensed_dropInertia hvacant hw
      · rw [← occupied_iff, occupied_map_dropInertia hvacant, if_pos hk, occupied_iff]
        exact hbusy k hk
    · rename_i hidle
      refine ih (by omega) fun k hk => ?_
      rcases Nat.lt_succ_iff_lt_or_eq.mp hk with hk | rfl
      · exact hbusy k hk
      · exact Bool.eq_false_iff.mpr hidle

theorem busy_map_condensed (ws : List (Wire K)) : Busy (ws.map (Wire.condensed ws)) := by
  have hnone : ∀ k < 0, isIdleColumn ws k = false := fun k hk => absurd hk (Nat.not_lt_zero k)
  rw [← dropIdleColumns_eq_condensed (Nat.zero_add _) hnone]
  exact busy_dropIdleColumns _ (Nat.zero_add _) hnone

theorem Wire.length_condensed (ws : List (Wire K)) (w : Wire K) :
    (w.condensed ws).cells.length = (List.range w.cells.length).countP fun k => Occupied ws k := by
  rw [cells_condensed, length_entriesAt]

/-- There are as many columns left as were occupied: the wire that holds the last of them has kept them all. -/
theorem columnsOf_map_condensed (ws : List (Wire K)) :
    columnsOf (ws.map (Wire.condensed ws)) = (List.range (columnsOf ws)).countP fun k => Occupied ws k := by
  have hle : ∀ {m n : Nat}, m ≤ n → (List.range m).countP (fun k => Occupied ws k) ≤
      (List.range n).countP fun k => Occupied ws k := fun hmn => (List.range_sublist.mpr hmn).countP_le
  have hreached : ∀ n, (List.range n).countP (fun k => Occupied ws k) ≤ columnsOf (ws.map (Wire.condensed ws)) := by
    intro n
    induction n with
    | zero => exact Nat.zero_le _
    | succ n ih =>
      by_cases hoccupied : Occupied ws n
      · obtain ⟨w, hw, g, hg, -⟩ := hoccupied
        calc (List.range (n + 1)).countP (fun k => Occupied ws k)
            ≤ (w.condensed ws).cells.length := by
              rw [Wire.length_condensed]
              exact hle (List.getElem?_eq_some_iff.mp hg).1
          _ ≤ columnsOf (ws.map (Wire.condensed ws)) := length_le_columnsOf (List.mem_map_of_mem hw)
      · rw [List.range_succ, List.countP_append, List.countP_singleton, if_neg (by simpa using hoccupied)]
        exact ih
  refine Nat.le_antisymm (columnsOf_le fun v hv => ?_) (hreached _)
  obtain ⟨w, hw, rfl⟩ := List.mem_map.mp hv
  rw [Wire.length_condensed]
  exact hle (length_le_columnsOf hw)

theorem Wire.isIdle_condensed (hw : w ∈ ws) : (w.condensed ws).isIdle = w.isIdle := by
  rw [isIdle, cells_condensed, isIdle]
  exact all_entriesAt fun k g hg hi => decide_eq_true ⟨w, hw, g, hg, hi⟩

end Columns

/-! ### Wires in use -/

section Rows

variable {w : Wire K} {ws : List (Wire K)} {c : Circuit K}

/-- The rows of the wires that hold more than inertias. -/
def busyRows (ws : List (Wire K)) : List Nat :=
  (List.range ws.length).filter fun row => (ws[row]?).any fun w => !w.isIdle

/-- One more than the last row of a wire that holds more than inertias; zero if no wire does. -/
def depth (ws : List (Wire K)) : Nat := (busyRows ws).getLast?.elim 0 (· + 1)

theorem busyRows_append_singleton (ws : List (Wire K)) (w : Wire K) :
    busyRows (ws ++ [w]) = busyRows ws ++ if w.isIdle then [] else [ws.length] := by
  have hold : ∀ row ∈ List.range ws.length, ((ws ++ [w])[row]?).any (fun w => !w.isIdle) =
      (ws[row]?).any fun w => !w.isIdle := fun row hrow => by
    rw [List.getElem?_append_left (List.mem_range.mp hrow)]
  rw [busyRows, List.length_append, List.length_singleton, List.range_succ, List.filter_append, List.filter_congr hold,
    List.filter_singleton, List.getElem?_concat_length, Option.any_some, busyRows]
  cases w.isIdle <;> rfl

theorem depth_append_singleton (ws : List (Wire K)) (w : Wire K) :
    depth (ws ++ [w]) = if w.isIdle then depth ws else ws.length + 1 := by
  rw [depth, busyRows_append_singleton]
  split
  · rw [List.append_nil, depth]
  · rw [List.getLast?_append, List.getLast?_singleton]
    rfl

theorem depth_le (ws : List (Wire K)) : depth ws ≤ ws.length := by
  induction ws using List.reverseRecOn with
  | nil => exact Nat.le_refl _
  | append_singleton ws w ih =>
    rw [depth_append_singleton, List.length_append, List.length_singleton]
    split <;> omega

theorem depth_append {vs : List (Wire K)} (h : ∀ v ∈ vs, v.isIdle = true) (ws : List (Wire K)) :
    depth (ws ++ vs) = depth ws := by
  induction vs using List.reverseRecOn with
  | nil => rw [List.append_nil]
  | append_singleton vs v ih =>
    rw [← List.append_assoc, depth_append_singleton, if_pos (h v (by simp)),
      ih fun u hu => h u (List.mem_append_left _ hu)]

theorem depth_map {f : Wire K → Wire K} (h : ∀ w ∈ ws, (f w).isIdle = w.isIdle) : depth (ws.map f) = depth ws := by
  have hrows : busyRows (ws.map f) = busyRows ws := by
    rw [busyRows, List.length_map]
    refine List.filter_congr fun row _ => ?_
    rw [List.getElem?_map, Option.any_map]
    cases hw : ws[row]? with
    | none => rfl
    | some w => simp [h w (List.mem_of_getElem? hw)]
  rw [depth, hrows, depth]

/-- The depth of wires bounds the rows in which something shows. -/
theorem depth_le_iff {n : Nat} : depth ws ≤ n ↔ ∀ r k, n ≤ r → markIn ws r k = none := by
  induction ws using List.reverseRecOn with
  | nil => exact iff_of_true (Nat.zero_le n) fun _ _ _ => rfl
  | append_singleton ws w ih =>
    rw [depth_append_singleton]
    split
    · rename_i hidle
      simp only [ih, markIn_append (Wire.isIdle_iff.mp hidle)]
    · rename_i hbusy
      have hbelow : ∀ r k, ws.length + 1 ≤ r → markIn (ws ++ [w]) r k = none := fun r k hle => by
        unfold markIn
        rw [List.getElem?_eq_none (by simpa using hle)]
        rfl
      refine ⟨fun hle r k hr => hbelow r k (by omega), fun hnone => ?_⟩
      by_contra hlt
      refine hbusy (Wire.isIdle_iff.mpr fun k => ?_)
      have hlast : (ws ++ [w])[ws.length]? = some w := List.getElem?_concat_length
      rw [← markIn_of_getElem? hlast]
      exact hnone _ k (by omega)

theorem depth_congr {vs : List (Wire K)} (h : ∀ r k, markIn vs r k = none ↔ markIn ws r k = none) :
    depth vs = depth ws :=
  eq_of_forall_ge_iff fun n => by simp only [depth_le_iff, h]

/-- Without an idle wire at the bottom all wires are in use. -/
theorem depth_of_not_idle (h : ¬(ws.getLast?).any Wire.isIdle = true) : depth ws = ws.length := by
  rcases List.eq_nil_or_concat' ws with rfl | ⟨vs, v, rfl⟩
  · rfl
  · rw [List.getLast?_concat, Option.any_some] at h
    rw [depth_append_singleton, if_neg h, List.length_append, List.length_singleton]

theorem depth_dropLast (h : (ws.getLast?).any Wire.isIdle = true) : depth ws.dropLast = depth ws := by
  rcases List.eq_nil_or_concat' ws with rfl | ⟨vs, v, rfl⟩
  · rfl
  · rw [List.getLast?_concat, Option.any_some] at h
    rw [depth_append_singleton, if_pos h, List.dropLast_concat]

/-- Idle wires are popped as far as `count` allows, and no others. -/
theorem wires_popIdleWires (c : Circuit K) (count : Nat) :
    (c.popIdleWires count).wires = c.wires.take (max (c.wires.length - count) (depth c.wires)) := by
  induction count generalizing c with
  | zero => rw [popIdleWires, List.take_of_length_le (by omega)]
  | succ count ih =>
    rw [popIdleWires]
    split
    · rename_i hidle
      have hdepth := depth_dropLast hidle
      have hle := depth_le c.wires.dropLast
      rw [List.length_dropLast] at hle
      calc (c.popWire.2.popIdleWires count).wires
          = c.wires.dropLast.take (max (c.wires.dropLast.length - count) (depth c.wires.dropLast)) := ih _
        _ = c.wires.take (max (c.wires.length - (count + 1)) (depth c.wires)) := by
          rw [List.length_dropLast, List.dropLast_eq_take, List.take_take, ← List.dropLast_eq_take, hdepth]
          congr 1
          omega
    · rename_i hbusy
      rw [depth_of_not_idle hbusy, List.take_of_length_le (Nat.le_max_right _ _)]

/-- Where no column is idle the wire that goes is not the only one to reach a column. -/
theorem columnsOf_dropLast (h : Busy ws) (hidle : (ws.getLast?).any Wire.isIdle = true) :
    columnsOf ws.dropLast = columnsOf ws := by
  rcases List.eq_nil_or_concat' ws with rfl | ⟨vs, v, rfl⟩
  · rfl
  rw [List.getLast?_concat, Option.any_some] at hidle
  rw [List.dropLast_concat]
  refine Nat.le_antisymm (columnsOf_le fun w hw => length_le_columnsOf (List.mem_append_left _ hw)) ?_
  by_contra hlt
  obtain ⟨w, hw, g, hg, hi⟩ := occupied_iff.mpr (h (columnsOf vs) (Nat.lt_of_not_le hlt))
  rcases List.mem_append.mp hw with hw | hw
  · have hreach := (List.getElem?_eq_some_iff.mp hg).1
    exact absurd (length_le_columnsOf hw) (Nat.not_le.mpr hreach)
  · rw [List.mem_singleton.mp hw] at hg
    rw [List.all_eq_true.mp hidle g (List.mem_of_getElem? hg)] at hi
    cases hi

theorem columns_popIdleWires (h : Busy c.wires) (count : Nat) : (c.popIdleWires count).columns = c.columns := by
  induction count generalizing c with
  | zero => rfl
  | succ count ih =>
    rw [popIdleWires]
    split
    · rename_i hidle
      exact (ih (h.dropLast hidle)).trans (columnsOf_dropLast h hidle)
    · rfl

variable [Coordinate K]

/-- Wires are added at the bottom, idle ones that reach as far as the others. -/
theorem exists_addWires (c : Circuit K) (count : Nat) : ∃ added, (c.addWires count).wires = c.wires ++ added ∧
    added.length = count ∧ (c.addWires count).columns = c.columns ∧
      ∀ w ∈ added, w.isIdle = true ∧ w.cells.length = c.columns := by
  induction count generalizing c with
  | zero => exact ⟨[], (List.append_nil _).symm, rfl, rfl, fun w hw => absurd hw List.not_mem_nil⟩
  | succ count ih =>
    have hcolumns : c.addWire.columns = c.columns := by
      refine Nat.le_antisymm (columnsOf_le fun w hw => ?_) (columnsOf_le fun w hw => length_le_columnsOf ?_)
      · rw [addWire_wires] at hw
        rcases List.mem_append.mp hw with hw | hw
        · exact length_le_columnsOf hw
        · rw [List.mem_singleton.mp hw, length_freshWire]
      · rw [addWire_wires]
        exact List.mem_append_left _ hw
    obtain ⟨added, hwires, hlength, hsame, hadded⟩ := ih c.addWire
    refine ⟨c.freshWire.1 :: added, ?_, by rw [List.length_cons, hlength], hsame.trans hcolumns, fun w hw => ?_⟩
    · rw [addWires, hwires, addWire_wires, List.append_assoc, List.singleton_append]
    · rcases List.mem_cons.mp hw with rfl | hw
      · exact ⟨isIdle_freshWire c, c.length_freshWire⟩
      · exact hcolumns ▸ hadded w hw

end Rows

/-- Minimizing any circuit keeps the columns in which some wire held more than an inertia, and the wires from the top
    down to the last one that did, or the least number of wires if that is more. Each old wire keeps its cells in the
    columns that stay, and each added one holds an inertia in each of them. The loops end because nothing is left to
    do, and not at their bounds. -/
theorem minimize_eq_condensed [Coordinate K] (c : Circuit K) : c.minimize.Compact ∧ ∃ added : List (Wire K),
    c.minimize.wires = (c.wires.take (max c.settings.minQubits (depth c.wires))).map (Wire.condensed c.wires) ++ added ∧
    c.minimize.wires.length = max c.settings.minQubits (depth c.wires) ∧
    c.minimize.columns = (List.range c.columns).countP (fun k => Occupied c.wires k) ∧
    ∀ w ∈ added, w.isIdle = true ∧ w.cells.length = c.minimize.columns := by
  -- The circuit after each of the three loops.
  let d : Circuit K := { c with wires := dropIdleColumns c.columns 0 c.wires }
  have hd : d.wires = c.wires.map (Wire.condensed c.wires) :=
    dropIdleColumns_eq_condensed (Nat.zero_add _) fun k hk => absurd hk (Nat.not_lt_zero k)
  let e := d.addWires (d.settings.minQubits - d.wires.length)
  obtain ⟨added, hwires, hlength, hcolumns, hadded⟩ : ∃ added, e.wires = d.wires ++ added ∧ _ := exists_addWires d _
  have hminimize : c.minimize = e.popIdleWires (e.wires.length - e.settings.minQubits) := rfl
  have hsettings : e.settings = c.settings := (d.kept_addWires _).settings
  have hbusy : Busy e.wires := Busy.addWires (hd ▸ busy_map_condensed c.wires) _
  have hdepth : depth e.wires = depth c.wires := by
    rw [hwires, depth_append fun w hw => (hadded w hw).1, hd, depth_map fun w hw => Wire.isIdle_condensed hw]
  have hrows : d.wires.length = c.wires.length := by rw [hd, List.length_map]
  have hmore : added.length = c.settings.minQubits - c.wires.length := hrows ▸ hlength
  have hle := depth_le c.wires
  have hpopped : c.minimize.wires = (d.wires ++ added).take (max c.settings.minQubits (depth c.wires)) := by
    rw [hminimize, wires_popIdleWires, hsettings, hdepth, hwires, List.length_append, hrows, hmore]
    congr 1
    omega
  have hfinal : c.minimize.columns = d.columns := by rw [hminimize, columns_popIdleWires hbusy]; exact hcolumns
  refine ⟨compact_minimize c, added.take (max c.settings.minQubits (depth c.wires) - d.wires.length), ?_, ?_, ?_,
    fun w hw => ?_⟩
  · rw [hpopped, List.take_append, hd, List.map_take]
  · rw [hpopped, List.length_take, List.length_append, hrows, hmore]
    omega
  · rw [hfinal, columns, hd]
    exact columnsOf_map_condensed c.wires
  · rw [hfinal]
    exact hadded w (List.mem_of_mem_take hw)

end CircuitDesigner
