import CircuitDesigner.Proofs.Refresh.Swaps
import Mathlib.Data.List.DropRight

/-! # Clean circuits

A circuit is clean if it holds no fault and no measurement. That is a matter of the kinds on its wires, and idle wires
at the bottom have no part in it (`Clean.of_kinds`). They come and go as a refresh keeps to the least number of wires,
which leaves the others alone if no column is idle (`map_kinds_trimmed_refresh`). -/

namespace CircuitDesigner

open Circuit

variable {K : Type}

/-- The wires but for the idle ones at the bottom. -/
def trimmed (ws : List (Wire K)) : List (Wire K) := ws.rdropWhile Wire.isIdle

/-- The stamps of the cells. -/
def Wire.stamps (w : Wire K) : List String := w.cells.map fun g => g.kind.stamp

/-! ### Kinds -/

section Kinds

variable {vs ws : List (Wire K)} {w : Wire K}

theorem Wire.isIdle_eq (w : Wire K) : w.isIdle = w.kinds.all GateKind.isInertia := by
  simp only [Wire.isIdle, Wire.kinds, List.all_map, Function.comp_def, GateKind.isInertia_plain]
  rfl

theorem Wire.hasSwap_eq (w : Wire K) (k : Nat) : w.hasSwap k = (w.kinds[k]?).any GateKind.isSwap := by
  simp [Wire.hasSwap, Wire.kinds, Option.any_map]

theorem Wire.isVacant_eq (w : Wire K) (k : Nat) : w.isVacant k = (w.kinds[k]?).all GateKind.isInertia := by
  simp only [Wire.isVacant, Wire.kinds, List.getElem?_map, Option.all_map, GateKind.isInertia_plain]
  rfl

theorem Busy.of_kinds (h : Busy ws) (hkinds : vs.map Wire.kinds = ws.map Wire.kinds) : Busy vs := by
  have hcolumns : columnsOf vs = columnsOf ws := by
    refine columnsOf_congr ?_
    simpa [Wire.kinds, Function.comp_def] using congrArg (List.map List.length) hkinds
  have hidle : ∀ (ws : List (Wire K)) k,
      isIdleColumn ws k = (ws.map Wire.kinds).all fun kinds => (kinds[k]?).all GateKind.isInertia := fun ws k => by
    simp only [isIdleColumn, List.all_map, Function.comp_def, Wire.isVacant_eq]
  intro k hk
  rw [hidle, hkinds, ← hidle]
  exact h k (hcolumns ▸ hk)

theorem Wire.kinds_core (w : Wire K) : w.core.kinds = w.kinds := by
  simp [Wire.kinds, Wire.core, Gate.core]

theorem map_kinds_of_core (h : vs.map Wire.core = ws.map Wire.core) : vs.map Wire.kinds = ws.map Wire.kinds := by
  have := congrArg (List.map Wire.kinds) h
  simpa [Function.comp_def, Wire.kinds_core] using this

theorem map_kinds_trimmed (ws : List (Wire K)) :
    (trimmed ws).map Wire.kinds = (ws.map Wire.kinds).rdropWhile fun kinds => kinds.all GateKind.isInertia := by
  have hidle : Wire.isIdle = (fun kinds : List GateKind => kinds.all GateKind.isInertia) ∘ (Wire.kinds : Wire K → _) :=
    funext Wire.isIdle_eq
  rw [trimmed, hidle, List.rdropWhile, List.rdropWhile, ← List.map_reverse, List.dropWhile_map, List.map_reverse]

theorem map_kinds_trimmed_congr (h : vs.map Wire.kinds = ws.map Wire.kinds) :
    (trimmed vs).map Wire.kinds = (trimmed ws).map Wire.kinds := by
  rw [map_kinds_trimmed, h, map_kinds_trimmed]

theorem mem_trimmed_or_isIdle (hw : w ∈ ws) : w ∈ trimmed ws ∨ w.isIdle = true := by
  rw [← List.rdropWhile_append_rtakeWhile (p := Wire.isIdle) (l := ws)] at hw
  exact (List.mem_append.mp hw).imp_right List.mem_rtakeWhile_imp

theorem trimmed_subset : trimmed ws ⊆ ws := (List.rdropWhile_prefix Wire.isIdle ws).subset

theorem map_stamps_of_kinds (h : vs.map Wire.kinds = ws.map Wire.kinds) : vs.map Wire.stamps = ws.map Wire.stamps := by
  have hstamps : (Wire.stamps : Wire K → _) = List.map GateKind.stamp ∘ Wire.kinds := by
    funext w
    simp only [Wire.stamps, Wire.kinds, Function.comp_apply, List.map_map, Function.comp_def, GateKind.stamp_plain]
  rw [hstamps, ← List.map_map, h, List.map_map]

theorem kind_of_isIdle (hw : w.isIdle = true) {g : Gate} (hg : g ∈ w.cells) : g.kind = .inertia :=
  GateKind.isInertia_iff.mp (List.all_eq_true.mp hw g hg)

/-- An idle wire holds no swap. -/
theorem swapCount_trimmed (ws : List (Wire K)) (k : Nat) : swapCount (trimmed ws) k = swapCount ws k := by
  have hnone : (ws.rtakeWhile Wire.isIdle).countP (fun w => w.hasSwap k) = 0 := by
    refine List.countP_eq_zero.mpr fun w hw hswap => ?_
    obtain ⟨g, hg, hkind⟩ := (Option.any_eq_true _ _).mp hswap
    rw [kind_of_isIdle (List.mem_rtakeWhile_imp hw) (List.mem_of_getElem? hg)] at hkind
    cases hkind
  calc swapCount (trimmed ws) k = (trimmed ws ++ ws.rtakeWhile Wire.isIdle).countP (fun w => w.hasSwap k) := by
        rw [List.countP_append, hnone, Nat.add_zero, swapCount]
    _ = swapCount ws k := by rw [trimmed, List.rdropWhile_append_rtakeWhile, swapCount]

theorem swapCount_of_kinds (h : (trimmed vs).map Wire.kinds = (trimmed ws).map Wire.kinds) (k : Nat) :
    swapCount vs k = swapCount ws k := by
  have hkinds : ∀ ws : List (Wire K), swapCount ws k =
      (ws.map Wire.kinds).countP fun kinds => (kinds[k]?).any GateKind.isSwap :=
    fun ws => by
      rw [List.countP_map]
      exact List.countP_congr fun w _ => by rw [Function.comp_apply, Wire.hasSwap_eq]
  rw [← swapCount_trimmed vs, ← swapCount_trimmed ws, hkinds, hkinds, h]

/-- A gate is an inertia, or it stands in the other wires too. -/
theorem exists_of_kinds (h : (trimmed vs).map Wire.kinds = (trimmed ws).map Wire.kinds) {v : Wire K} (hv : v ∈ vs)
    {k : Nat} {g : Gate} (hg : v.cells[k]? = some g) :
    g.kind = .inertia ∨ ∃ w ∈ ws, ∃ o : Gate, w.cells[k]? = some o ∧ o.kind.plain = g.kind.plain := by
  rcases mem_trimmed_or_isIdle hv with hmem | hidle
  · right
    obtain ⟨w, hw, hkinds⟩ := List.mem_map.mp (h ▸ List.mem_map_of_mem hmem : v.kinds ∈ (trimmed ws).map Wire.kinds)
    have hcell : w.kinds[k]? = some g.kind.plain := by
      rw [hkinds, Wire.kinds, List.getElem?_map, hg, Option.map_some]
    rw [Wire.kinds, List.getElem?_map] at hcell
    obtain ⟨o, ho, hplain⟩ := Option.map_eq_some_iff.mp hcell
    exact ⟨w, trimmed_subset hw, o, ho, hplain⟩
  · exact .inl (kind_of_isIdle hidle (List.mem_of_getElem? hg))

end Kinds

/-! ### A refresh -/

section Refresh

variable [Coordinate K] {c : Circuit K}

theorem isIdle_freshWire (c : Circuit K) : c.freshWire.1.isIdle = true := Wire.isIdle_iff.mpr c.mark?_freshWire

theorem trimmed_addWires (c : Circuit K) (count : Nat) : trimmed (c.addWires count).wires = trimmed c.wires := by
  induction count generalizing c with
  | zero => rfl
  | succ count ih =>
    rw [addWires, ih, addWire_wires, trimmed, List.rdropWhile_concat_pos _ _ _ (isIdle_freshWire c), trimmed]

omit [Coordinate K] in
theorem trimmed_popIdleWires (c : Circuit K) (count : Nat) :
    trimmed (c.popIdleWires count).wires = trimmed c.wires := by
  induction count generalizing c with
  | zero => rfl
  | succ count ih =>
    rw [popIdleWires]
    split
    · rename_i hidle
      have hne : c.wires ≠ [] := fun hnil => by simp [hnil] at hidle
      rw [List.getLast?_eq_some_getLast hne, Option.any_some] at hidle
      rw [ih]
      show trimmed c.wires.dropLast = _
      conv_rhs => rw [trimmed, ← List.dropLast_append_getLast hne, List.rdropWhile_concat_pos _ _ _ hidle]
      rfl
    · rfl

theorem trimmed_minimize (h : Busy c.wires) : trimmed c.minimize.wires = trimmed c.wires := by
  have hdrop : dropIdleColumns c.columns 0 c.wires = c.wires :=
    dropIdleColumns_eq_self fun k _ hk => h k (by rwa [Nat.zero_add] at hk)
  unfold minimize
  dsimp only
  rw [trimmed_popIdleWires, trimmed_addWires, hdrop]

/-- Where no column is idle a refresh takes and adds idle wires at most. -/
theorem map_kinds_trimmed_refresh (h : Busy c.wires) :
    (trimmed c.refresh.wires).map Wire.kinds = (trimmed c.wires).map Wire.kinds := by
  rw [refresh_eq, map_kinds_trimmed_congr (map_kinds_of_core (map_core_redraw c.minimize)), trimmed_minimize h]

end Refresh

/-! ### Faults -/

section Faults

variable [Coordinate K] {c d : Circuit K}

/-- The circuit holds no fault and no measurement. -/
structure Circuit.Clean (c : Circuit K) : Prop where
  faultless : ∀ w ∈ c.wires, ∀ g ∈ w.cells, g.fault = none
  unmeasured : ∀ w ∈ c.wires, ∀ g ∈ w.cells, g.kind.isMeasurement = false

omit [Coordinate K] in
theorem Circuit.Clean.congr (h : c.Clean) (hw : d.wires = c.wires) : d.Clean where
  faultless := by
    rw [hw]
    exact h.faultless
  unmeasured := by
    rw [hw]
    exact h.unmeasured

theorem Wire.bitAt_of_unmeasured {w : Wire K} (hw : w.Collapsed) (h : ∀ g ∈ w.cells, g.kind.isMeasurement = false)
    (k : Nat) : w.bitAt k = false := by
  have hpivot : w.pivot = none := by
    rw [hw, List.findIdx?_eq_none_iff.mpr h, Option.map_none]
  rw [bitAt, bit, hpivot, Option.any_none]

/-- On the quantum part of its wire a gate has the fault of its kind, or is a swap that is not one of two. -/
theorem Circuit.Drawn.fault_eq_none_iff (h : c.Drawn) {w : Wire K} (hw : w ∈ c.wires) {k : Nat} {g : Gate}
    (hg : w.cells[k]? = some g) (hbit : w.bitAt k = false) :
    g.fault = none ↔ g.kind.inspect false = none ∧ (g.kind.isSwap = true → swapCount c.wires k = 2) := by
  by_cases hswap : g.kind.isSwap = true
  · have hinspect : g.kind.inspect false = none := by
      rw [GateKind.isSwap_iff.mp hswap]
      rfl
    rw [h.fault_swap_iff hw hg hswap]
    simp [hbit, hinspect, hswap]
  · rw [h.fault_eq hw hg, hbit, if_neg hswap]
    simp [hswap]

/-- Drawn circuits with the same kinds are clean alike. -/
theorem Circuit.Clean.of_kinds (hclean : c.Clean) (hc : c.Drawn) (hd : d.Drawn) (hcw : ∀ w ∈ c.wires, w.Collapsed)
    (hdw : ∀ w ∈ d.wires, w.Collapsed) (h : (trimmed d.wires).map Wire.kinds = (trimmed c.wires).map Wire.kinds) :
    d.Clean := by
  have hunmeasured : ∀ v ∈ d.wires, ∀ g ∈ v.cells, g.kind.isMeasurement = false := by
    intro v hv g hg
    obtain ⟨k, hk⟩ := List.getElem?_of_mem hg
    rcases exists_of_kinds h hv hk with hinertia | ⟨w, hw, o, ho, hplain⟩
    · rw [hinertia]
      rfl
    · rw [← GateKind.isMeasurement_plain, ← hplain, GateKind.isMeasurement_plain]
      exact hclean.unmeasured w hw o (List.mem_of_getElem? ho)
  refine ⟨fun v hv g hg => ?_, hunmeasured⟩
  obtain ⟨k, hk⟩ := List.getElem?_of_mem hg
  rw [hd.fault_eq_none_iff hv hk (Wire.bitAt_of_unmeasured (hdw v hv) (hunmeasured v hv) k)]
  rcases exists_of_kinds h hv hk with hinertia | ⟨w, hw, o, ho, hplain⟩
  · rw [hinertia]
    exact ⟨rfl, nofun⟩
  · have hfault := hclean.faultless w hw o (List.mem_of_getElem? ho)
    have hbit := Wire.bitAt_of_unmeasured (hcw w hw) (hclean.unmeasured w hw) k
    rw [hc.fault_eq_none_iff hw ho hbit] at hfault
    rwa [swapCount_of_kinds h, ← GateKind.inspect_plain, ← GateKind.isSwap_plain, ← hplain, GateKind.inspect_plain,
      GateKind.isSwap_plain]

end Faults

end CircuitDesigner
