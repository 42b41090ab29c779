import CircuitDesigner.Proofs.Refresh.Drawn

/-! # Swaps of drawn circuits

A swap is without fault if its column holds two swaps and its own wire is not classical there. The two wires are judged
apart, so that just one swap of a pair may have a fault. The counter halves the number of all swaps without one, which
makes it the number of pairs as long as no two columns have such a swap left over (`swapHalves_eq`). -/

namespace CircuitDesigner

open Circuit

variable {K : Type}

/-- The number of swaps without a fault in a column. -/
def soundSwaps (ws : List (Wire K)) (k : Nat) : Nat :=
  ws.countP fun w => (w.cells[k]?).any fun g => g.kind.isSwap && g.fault.isNone

/-- The number of columns among the first `n` with so many swaps without a fault. -/
def columnsWith (ws : List (Wire K)) (count n : Nat) : Nat := (List.range n).countP fun k => soundSwaps ws k == count

/-! ### Counting by columns -/

/-- One more column adds its gates of the sort that is counted. -/
theorem countP_take_succ (p : Gate → Bool) (ws : List (Wire K)) (n : Nat) :
    (ws.flatMap fun w => w.cells.take (n + 1)).countP p =
      (ws.flatMap fun w => w.cells.take n).countP p + ws.countP fun w => (w.cells[n]?).any p := by
  induction ws with
  | nil => rfl
  | cons w ws ih =>
    have hcell : (w.cells[n]?).toList.countP p = if (w.cells[n]?).any p then 1 else 0 := by
      cases w.cells[n]? with
      | none => rfl
      | some g => simp [List.countP_cons]
    simp only [List.flatMap_cons, List.countP_append, List.countP_cons, List.take_add_one, hcell] at ih ⊢
    omega

/-- Columns with one and with two swaps are all that count. -/
theorem countP_soundSwaps {ws : List (Wire K)} (h : ∀ k, soundSwaps ws k ≤ 2) (n : Nat) :
    (ws.flatMap fun w => w.cells.take n).countP (fun g => g.kind.isSwap && g.fault.isNone) =
      2 * columnsWith ws 2 n + columnsWith ws 1 n := by
  induction n with
  | zero => simp [columnsWith]
  | succ n ih =>
    rw [countP_take_succ, ih]
    simp only [columnsWith, List.range_succ, List.countP_append, List.countP_singleton, beq_iff_eq]
    have hle := h n
    unfold soundSwaps at hle ⊢
    split_ifs <;> omega

/-! ### Drawn circuits -/

variable [Coordinate K] {c : Circuit K} {w : Wire K} {k : Nat} {g : Gate}

theorem GateKind.isSwap_iff {kind : GateKind} : kind.isSwap = true ↔ kind = .swap := by
  cases kind <;> simp [isSwap]

theorem Fault.ofSwapCount_eq_none_iff {count : Nat} : ofSwapCount count = none ↔ count = 0 ∨ count = 2 := by
  unfold ofSwapCount
  split_ifs <;> simp <;> omega

theorem Circuit.Drawn.fault_eq (h : c.Drawn) (hw : w ∈ c.wires) (hg : w.cells[k]? = some g) :
    g.fault = (g.kind.inspect (w.bitAt k) <|>
      if g.kind.isSwap then Fault.ofSwapCount (swapCount c.wires k) else none) := by
  have hgate := h.gate hw hg
  have hkind := Gate.kind_dressed g (controlled c.wires k)
  conv_lhs => rw [← hgate]
  unfold Gate.judged
  rw [hkind]
  split <;> simp [Gate.flagged, Gate.inspected, hkind]

/-- A swap needs one other swap in its column, and its wire not to be classical there. -/
theorem Circuit.Drawn.fault_swap_iff (h : c.Drawn) (hw : w ∈ c.wires) (hg : w.cells[k]? = some g)
    (hswap : g.kind.isSwap = true) : g.fault = none ↔ swapCount c.wires k = 2 ∧ w.bitAt k = false := by
  have hpos : 0 < swapCount c.wires k := List.countP_pos_iff.mpr ⟨w, hw, by simpa [Wire.hasSwap, hg] using hswap⟩
  have hinspect : g.kind.inspect (w.bitAt k) = if w.bitAt k then some .onBit else none := by
    rw [GateKind.isSwap_iff.mp hswap]
    rfl
  rw [h.fault_eq hw hg, hinspect, if_pos hswap]
  cases w.bitAt k with
  | true => simp
  | false =>
    simp [Fault.ofSwapCount_eq_none_iff]
    omega

/-- The swaps of a column that are not on the classical part of their wire. -/
def quantumSwaps (ws : List (Wire K)) (k : Nat) : Nat := ws.countP fun w => w.hasSwap k && !w.bitAt k

/-- The swaps of a column that are. -/
def classicalSwaps (ws : List (Wire K)) (k : Nat) : Nat := ws.countP fun w => w.hasSwap k && w.bitAt k

theorem quantumSwaps_add_classicalSwaps (ws : List (Wire K)) (k : Nat) :
    quantumSwaps ws k + classicalSwaps ws k = swapCount ws k := by
  rw [swapCount, List.countP_eq_countP_filter_add ws _ fun w => !w.bitAt k, List.countP_filter, List.countP_filter]
  simp only [Bool.not_not]
  rfl

theorem Circuit.Drawn.soundSwaps_eq (h : c.Drawn) (k : Nat) :
    soundSwaps c.wires k = if swapCount c.wires k = 2 then quantumSwaps c.wires k else 0 := by
  have hsound : ∀ w ∈ c.wires, ((w.cells[k]?).any fun g => g.kind.isSwap && g.fault.isNone) = true ↔
      w.hasSwap k = true ∧ swapCount c.wires k = 2 ∧ w.bitAt k = false := by
    intro w hw
    unfold Wire.hasSwap
    cases hg : w.cells[k]? with
    | none => simp
    | some g =>
      simp only [Option.any_some, Bool.and_eq_true, Option.isNone_iff_eq_none]
      exact and_congr_right fun hswap => h.fault_swap_iff hw hg hswap
  split
  · refine List.countP_congr fun w hw => ?_
    rw [hsound w hw]
    simp [*]
  · refine List.countP_eq_zero.mpr fun w hw hswap => ?_
    exact absurd ((hsound w hw).mp hswap).2.1 ‹_›

/-- A column has no swap without a fault or two, or one of its two swaps is on the classical part of its wire. -/
theorem Circuit.Drawn.soundSwaps_cases (h : c.Drawn) (k : Nat) :
    soundSwaps c.wires k = 0 ∨ soundSwaps c.wires k = 2 ∨
      soundSwaps c.wires k = 1 ∧ swapCount c.wires k = 2 ∧ classicalSwaps c.wires k = 1 := by
  have hsum := quantumSwaps_add_classicalSwaps c.wires k
  rw [h.soundSwaps_eq]
  split
  · omega
  · exact .inl rfl

theorem Circuit.Drawn.swapHalves_eq (h : c.Drawn) :
    c.tally.swapHalves = 2 * columnsWith c.wires 2 c.columns + columnsWith c.wires 1 c.columns := by
  have hle : ∀ k, soundSwaps c.wires k ≤ 2 := fun k => by
    rcases h.soundSwaps_cases k with hk | hk | ⟨hk, -⟩ <;> omega
  have htake : (c.wires.flatMap fun w => w.cells.take c.columns) = c.wires.flatMap Wire.cells := by
    have hwhole : ∀ w ∈ c.wires, w.cells.take c.columns = w.cells :=
      fun w hw => List.take_of_length_le (length_le_columnsOf hw)
    rw [List.flatMap_def, List.flatMap_def, List.map_congr_left hwhole]
  have hcount := countP_soundSwaps hle c.columns
  rwa [htake] at hcount

theorem Circuit.Drawn.gates_eq (h : c.Drawn) (hlone : columnsWith c.wires 1 c.columns ≤ 1) :
    c.tally.gates = c.tally.generics + columnsWith c.wires 2 c.columns := by
  rw [Tally.gates, Tally.swaps, h.swapHalves_eq]
  omega

/-- After a refresh of any circuit a swap is without fault if it is one of two in its column and not on the classical
part of its wire, and the gate counter shows the generic gates and the columns with two swaps without a fault, unless
two columns are left with just one. -/
theorem swaps_refresh (c : Circuit K) :
    (∀ w ∈ c.refresh.wires, ∀ (k : Nat) (g : Gate), w.cells[k]? = some g → g.kind = .swap →
      (g.fault = none ↔ swapCount c.refresh.wires k = 2 ∧ w.bitAt k = false)) ∧
    (∀ k, soundSwaps c.refresh.wires k = 0 ∨ soundSwaps c.refresh.wires k = 2 ∨
      soundSwaps c.refresh.wires k = 1 ∧ swapCount c.refresh.wires k = 2 ∧ classicalSwaps c.refresh.wires k = 1) ∧
    (columnsWith c.refresh.wires 1 c.refresh.columns ≤ 1 → c.refresh.widgets.gates =
      (c.refresh.wires.flatMap Wire.cells).countP (fun g => g.kind.isCounted) +
        columnsWith c.refresh.wires 2 c.refresh.columns) := by
  have h := drawn_refresh c
  generalize c.refresh = d at h ⊢
  refine ⟨fun w hw k g hg hkind => h.fault_swap_iff hw hg (by rw [hkind]; rfl), h.soundSwaps_cases, fun hlone => ?_⟩
  rw [h.widgets]
  exact h.gates_eq hlone

/-- Two wires with these gates, before a refresh. -/
def twoWires (top bottom : List GateKind) : Circuit Rat :=
  ((ofSettings {}).addWire.placeRow 0 0 (top.map some)).placeRow 1 0 (bottom.map some)

/-- A pair, and a second one of which the upper swap comes after a measurement. -/
def mixedPairs : Circuit Rat := twoWires [.swap, .measurement .off, .swap] [.swap, .inertia, .swap]

theorem swaps_refresh_mixed : columnsWith mixedPairs.refresh.wires 1 mixedPairs.refresh.columns ≤ 1 ∧
    mixedPairs.refresh.widgets.gates = 1 ∧
    ∃ w ∈ mixedPairs.refresh.wires, ∃ g : Gate, w.cells[0]? = some g ∧ g.kind = .swap ∧ g.fault = none := by
  obtain ⟨hfault, -, hgates⟩ := swaps_refresh mixedPairs
  have hlone : columnsWith mixedPairs.refresh.wires 1 mixedPairs.refresh.columns ≤ 1 := by decide +kernel
  have hcount : (mixedPairs.refresh.wires.flatMap Wire.cells).countP (fun g => g.kind.isCounted) +
      columnsWith mixedPairs.refresh.wires 2 mixedPairs.refresh.columns = 1 := by decide +kernel
  have hcell : mixedPairs.refresh.wires.any fun w => (w.cells[0]?).any fun g => g.kind == .swap && !w.bitAt 0 := by
    decide +kernel
  obtain ⟨w, hw, hany⟩ := List.any_eq_true.mp hcell
  obtain ⟨g, hg, hand⟩ := (Option.any_eq_true _ _).mp hany
  obtain ⟨hkind, hbit⟩ := (Bool.and_eq_true _ _).mp hand
  have hkind : g.kind = .swap := beq_iff_eq.mp hkind
  exact ⟨hlone, (hgates hlone).trans hcount, w, hw, g, hg, hkind,
    (hfault w hw 0 g hg hkind).mpr ⟨by decide +kernel, by simpa using hbit⟩⟩

/-- Two pairs on wires of which the upper one is classical. -/
def leftoverSwaps : Circuit Rat := twoWires [.measurement .off, .swap, .swap] [.inertia, .swap, .swap]

/-- Each pair has one swap left without a fault, and the two of them are counted as a pair. -/
theorem not_paired_leftoverSwaps :
    ¬(soundSwaps leftoverSwaps.refresh.wires 1 = 0 ∨ soundSwaps leftoverSwaps.refresh.wires 1 = 2) ∧
    leftoverSwaps.refresh.widgets.gates ≠
      (leftoverSwaps.refresh.wires.flatMap Wire.cells).countP (fun g => g.kind.isCounted) +
        columnsWith leftoverSwaps.refresh.wires 2 leftoverSwaps.refresh.columns := by
  decide +kernel

end CircuitDesigner
