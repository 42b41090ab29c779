import CircuitDesigner.Proofs.Refresh.Redraw

/-! Minimal size on wires of any lengths.

    Minimizing drops idle columns until no column is idle, adds wires until there are enough, and drops idle wires at
    the bottom until the last one is not idle or no more may go (`Circuit.Compact`): the bounds on its loops are never
    what ends them. A spare wire under a circuit that is minimal is all that goes (`Compact.minimize_spare`). The wires
    need not have one length, so that none of this is said in terms of a grid. -/

namespace CircuitDesigner

open Circuit

variable {K : Type} [Coordinate K]

/-- No column is idle. -/
def Busy (ws : List (Wire K)) : Prop := ∀ k < columnsOf ws, isIdleColumn ws k = false

/-- Minimizing finds nothing to drop and nothing to add. -/
structure Circuit.Compact (c : Circuit K) : Prop where
  columns : Busy c.wires
  wires : c.settings.minQubits ≤ c.wires.length
  bottom : c.settings.minQubits < c.wires.length → (c.wires.getLast?).any Wire.isIdle = false

/-! ### Columns -/

section Columns

variable {w : Wire K} {ws : List (Wire K)} {column k : Nat}

omit [Coordinate K] in
theorem isIdleColumn_eq_false_iff : isIdleColumn ws k = false ↔ ∃ w ∈ ws, w.isVacant k = false := by
  simp [isIdleColumn]

omit [Coordinate K] in
theorem Wire.isVacant_of_isIdle (h : w.isIdle = true) (k : Nat) : w.isVacant k = true := by
  simp only [Wire.isIdle, List.all_eq_true] at h
  simp only [Wire.isVacant, Option.all_eq_true]
  intro g hg
  exact h g (List.mem_of_getElem? hg)

/-- A cell that is there and vacant holds an inertia, which is dropped. -/
theorem Wire.length_dropInertia (h : w.isVacant column = true) :
    (w.dropInertia column).cells.length = if column < w.cells.length then w.cells.length - 1 else w.cells.length := by
  unfold Wire.dropInertia
  by_cases hlt : column < w.cells.length
  · simp only [Wire.isVacant, List.getElem?_eq_getElem hlt, Option.all_some] at h
    simp [h, Wire.rescan, hlt, List.length_eraseIdx]
  · simp [hlt]

theorem Wire.isVacant_dropInertia (hlt : k < column) : (w.dropInertia column).isVacant k = w.isVacant k := by
  unfold Wire.dropInertia
  split
  · simp [Wire.isVacant, Wire.rescan, List.getElem?_eraseIdx_of_lt hlt]
  · rfl

/-- An idle column goes, on the wires that reach it. -/
theorem columnsOf_map_dropInertia (h : isIdleColumn ws column = true) (hlt : column < columnsOf ws) :
    columnsOf (ws.map fun w => w.dropInertia column) = columnsOf ws - 1 := by
  have hvacant : ∀ w ∈ ws, w.isVacant column = true := by simpa [isIdleColumn] using h
  apply Nat.le_antisymm
  · apply columnsOf_le
    intro v hv
    obtain ⟨w, hw, rfl⟩ := List.mem_map.mp hv
    have hle := length_le_columnsOf hw
    rw [Wire.length_dropInertia (hvacant w hw)]
    split <;> omega
  · -- If all wires got shorter than that, the longest one was too short before.
    by_contra hshort
    have hle : columnsOf ws ≤ columnsOf ws - 1 := by
      apply columnsOf_le
      intro w hw
      have hdrop := length_le_columnsOf (List.mem_map_of_mem (f := fun w : Wire K => w.dropInertia column) hw)
      rw [Wire.length_dropInertia (hvacant w hw)] at hdrop
      split at hdrop <;> omega
    omega

theorem busy_dropIdleColumns (count : Nat) (hcount : column + count = columnsOf ws)
    (hbusy : ∀ k < column, isIdleColumn ws k = false) : Busy (dropIdleColumns count column ws) := by
  induction count generalizing column ws with
  | zero =>
    intro k hk
    exact hbusy k (by rw [dropIdleColumns] at hk; omega)
  | succ count ih =>
    rw [dropIdleColumns]
    split
    · rename_i hidle
      apply ih
      · rw [columnsOf_map_dropInertia hidle (by omega)]
        omega
      · intro k hk
        obtain ⟨w, hw, hcell⟩ := isIdleColumn_eq_false_iff.mp (hbusy k hk)
        exact isIdleColumn_eq_false_iff.mpr ⟨_, List.mem_map_of_mem hw, (Wire.isVacant_dropInertia hk).trans hcell⟩
    · rename_i hidle
      apply ih
      · omega
      · intro k hk
        rcases Nat.lt_succ_iff_lt_or_eq.mp hk with hk | rfl
        · exact hbusy k hk
        · exact Bool.eq_false_iff.mpr hidle

omit [Coordinate K] in
/-- A wire that is no longer than the others makes no idle column. -/
theorem Busy.append (h : Busy ws) (hle : w.cells.length ≤ columnsOf ws) : Busy (ws ++ [w]) := by
  intro k hk
  have hcolumns : columnsOf (ws ++ [w]) ≤ columnsOf ws := by
    apply columnsOf_le
    intro v hv
    rcases List.mem_append.mp hv with hv | hv
    · exact length_le_columnsOf hv
    · exact List.mem_singleton.mp hv ▸ hle
  obtain ⟨v, hv, hcell⟩ := isIdleColumn_eq_false_iff.mp (h k (by omega))
  exact isIdleColumn_eq_false_iff.mpr ⟨v, List.mem_append_left _ hv, hcell⟩

omit [Coordinate K] in
/-- No column needs an idle wire. -/
theorem Busy.dropLast (h : Busy ws) (hidle : (ws.getLast?).any Wire.isIdle = true) : Busy ws.dropLast := by
  intro k hk
  have hcolumns : columnsOf ws.dropLast ≤ columnsOf ws :=
    columnsOf_le fun v hv => length_le_columnsOf (List.dropLast_subset _ hv)
  obtain ⟨v, hv, hcell⟩ := isIdleColumn_eq_false_iff.mp (h k (by omega))
  refine isIdleColumn_eq_false_iff.mpr ⟨v, ?_, hcell⟩
  have hne : ws ≠ [] := List.ne_nil_of_mem hv
  rw [List.getLast?_eq_some_getLast hne, Option.any_some] at hidle
  rw [← List.dropLast_append_getLast hne] at hv
  rcases List.mem_append.mp hv with hv | hv
  · exact hv
  · rw [List.mem_singleton.mp hv, Wire.isVacant_of_isIdle hidle] at hcell
    cases hcell

end Columns

/-! ### Other kinds -/

section Recast

variable {f : GateKind → GateKind} (hf : GateKind.Faithful f) {vs ws : List (Wire K)}

include hf

omit [Coordinate K] in
theorem isIdleColumn_map_recast (ws : List (Wire K)) (k : Nat) :
    isIdleColumn (ws.map (Wire.recast f)) k = isIdleColumn ws k := by
  simp only [isIdleColumn, List.all_map, Function.comp_def, hf.isVacant]

omit [Coordinate K] in
theorem getLast?_any_isIdle_recast (h : vs.map (Wire.recast f) = ws.map (Wire.recast f)) :
    (vs.getLast?).any Wire.isIdle = (ws.getLast?).any Wire.isIdle := by
  have hlast : ∀ ws : List (Wire K), ((ws.map (Wire.recast f)).getLast?).any Wire.isIdle =
      (ws.getLast?).any Wire.isIdle :=
    fun ws => by simp only [List.getLast?_map, Option.any_map, hf.isIdle]
  rw [← hlast, h, hlast]

omit [Coordinate K] in
theorem Busy.of_recast (h : Busy ws) (hw : vs.map (Wire.recast f) = ws.map (Wire.recast f)) : Busy vs := by
  intro k hk
  rw [← isIdleColumn_map_recast hf, hw, isIdleColumn_map_recast hf]
  rw [← columnsOf_map_recast f, hw, columnsOf_map_recast] at hk
  exact h k hk

omit [Coordinate K] in
/-- Minimizing notices of kinds only whether they are inertias. -/
theorem Circuit.Compact.of_recast {c d : Circuit K} (h : c.Compact)
    (hw : d.wires.map (Wire.recast f) = c.wires.map (Wire.recast f)) (hs : d.settings = c.settings) : d.Compact := by
  have hlength : d.wires.length = c.wires.length := by simpa using congrArg List.length hw
  refine ⟨h.columns.of_recast hf hw, ?_, fun hlt => ?_⟩
  · rw [hs, hlength]
    exact h.wires
  · rw [getLast?_any_isIdle_recast hf hw]
    exact h.bottom (by rwa [hs, hlength] at hlt)

end Recast

section Bare

variable {vs ws : List (Wire K)}

omit [Coordinate K] in
theorem getLast?_any_isIdle_congr (h : vs.map Wire.bare = ws.map Wire.bare) :
    (vs.getLast?).any Wire.isIdle = (ws.getLast?).any Wire.isIdle :=
  getLast?_any_isIdle_recast GateKind.faithful_plain h

omit [Coordinate K] in
theorem Busy.of_bare (h : Busy ws) (hw : vs.map Wire.bare = ws.map Wire.bare) : Busy vs :=
  h.of_recast GateKind.faithful_plain hw

omit [Coordinate K] in
theorem Circuit.Compact.of_bare {c d : Circuit K} (h : c.Compact) (hw : d.wires.map Wire.bare = c.wires.map Wire.bare)
    (hs : d.settings = c.settings) : d.Compact :=
  h.of_recast GateKind.faithful_plain hw hs

end Bare

/-! ### Circuits -/

section Circuits

variable {c d : Circuit K} {w : Wire K}

theorem Busy.addWires (h : Busy c.wires) (count : Nat) : Busy (c.addWires count).wires := by
  induction count generalizing c with
  | zero => exact h
  | succ count ih =>
    apply ih
    rw [addWire_wires]
    exact h.append (Nat.le_of_eq c.length_freshWire)

theorem length_addWires (c : Circuit K) (count : Nat) : (c.addWires count).wires.length = c.wires.length + count := by
  induction count generalizing c with
  | zero => rfl
  | succ count ih =>
    rw [Circuit.addWires, ih, addWire_wires, List.length_append, List.length_singleton]
    omega

omit [Coordinate K] in
/-- Idle wires go from the bottom, until one is not idle or no more than `least` are left. -/
theorem compact_popIdleWires (least count : Nat) (hbusy : Busy c.wires) (hcount : least + count = c.wires.length) :
    Busy (c.popIdleWires count).wires ∧ least ≤ (c.popIdleWires count).wires.length ∧
      (least < (c.popIdleWires count).wires.length →
        ((c.popIdleWires count).wires.getLast?).any Wire.isIdle = false) := by
  induction count generalizing c with
  | zero => exact ⟨hbusy, Nat.le_of_eq hcount, fun hlt => absurd hlt (by rw [popIdleWires]; omega)⟩
  | succ count ih =>
    rw [popIdleWires]
    split
    · rename_i hidle
      apply ih
      · exact hbusy.dropLast hidle
      · show least + count = c.wires.dropLast.length
        rw [List.length_dropLast]
        omega
    · rename_i hidle
      exact ⟨hbusy, by omega, fun _ => Bool.eq_false_iff.mpr hidle⟩

theorem compact_minimize (c : Circuit K) : c.minimize.Compact := by
  have hbusy : Busy (dropIdleColumns c.columns 0 c.wires) :=
    busy_dropIdleColumns c.columns (Nat.zero_add _) fun k hk => absurd hk (Nat.not_lt_zero k)
  have hsettings : c.minimize.settings = c.settings := c.kept_minimize.settings
  let d : Circuit K := { c with wires := dropIdleColumns c.columns 0 c.wires }
  let e := d.addWires (c.settings.minQubits - d.wires.length)
  have hleast : e.settings.minQubits = c.settings.minQubits := by
    rw [(d.kept_addWires (c.settings.minQubits - d.wires.length)).settings]
  have hlength : e.wires.length = d.wires.length + (c.settings.minQubits - d.wires.length) := length_addWires d _
  have hmin : c.minimize = e.popIdleWires (e.wires.length - e.settings.minQubits) := rfl
  have hbusy : Busy e.wires := Busy.addWires hbusy _
  obtain ⟨hcolumns, hwires, hbottom⟩ := compact_popIdleWires c.settings.minQubits
    (e.wires.length - e.settings.minQubits) hbusy (by omega)
  rw [← hmin] at hcolumns hwires hbottom
  exact ⟨hcolumns, hsettings ▸ hwires, hsettings ▸ hbottom⟩

theorem Circuit.Compact.minimize (h : c.Compact) : c.minimize = c := by
  have hdrop : dropIdleColumns c.columns 0 c.wires = c.wires :=
    dropIdleColumns_eq_self fun k _ hk => h.columns k (by rwa [Nat.zero_add] at hk)
  have hadd : c.settings.minQubits - c.wires.length = 0 := Nat.sub_eq_zero_of_le h.wires
  unfold Circuit.minimize
  rw [hdrop]
  dsimp only
  rw [hadd]
  exact popIdleWires_eq_self fun hpos => h.bottom (Nat.lt_of_sub_pos hpos)

omit [Coordinate K] in
theorem map_popWire {α : Type} {f : Wire K → α} (h : d.wires.map f = (c.wires ++ [w]).map f) :
    d.popWire.2.wires.map f = c.wires.map f := by
  calc d.wires.dropLast.map f
      = (d.wires.map f).dropLast := List.map_dropLast
    _ = c.wires.map f := by rw [h, ← List.map_dropLast, List.dropLast_concat]

/-- An idle wire under a compact circuit goes, and nothing else. -/
theorem Circuit.Compact.minimize_spare (h : c.Compact)
    (hw : d.wires.map Wire.bare = (c.wires ++ [w]).map Wire.bare) (hs : d.settings = c.settings)
    (hidle : w.isIdle = true) (hle : w.cells.length ≤ c.columns) : d.minimize = d.popWire.2 := by
  have hlength : d.wires.length = c.wires.length + 1 := by
    rw [length_of_map_bare hw, List.length_append, List.length_singleton]
  have hwires := h.wires
  have hdrop : dropIdleColumns d.columns 0 d.wires = d.wires := by
    refine dropIdleColumns_eq_self fun k _ hk => ?_
    exact ((h.columns.append hle).of_bare hw) k (by rwa [Nat.zero_add] at hk)
  have hadd : d.settings.minQubits - d.wires.length = 0 := by
    rw [hs, hlength]
    omega
  have hpop : d.wires.length - d.settings.minQubits = c.wires.length - c.settings.minQubits + 1 := by
    rw [hs, hlength]
    omega
  have hlast : (d.wires.getLast?).any Wire.isIdle = true := by
    rw [getLast?_any_isIdle_congr hw, List.getLast?_concat, Option.any_some, hidle]
  unfold Circuit.minimize
  rw [hdrop]
  dsimp only
  rw [hadd]
  calc d.popIdleWires (d.wires.length - d.settings.minQubits)
      = d.popWire.2.popIdleWires (c.wires.length - c.settings.minQubits) := by rw [hpop, popIdleWires, if_pos hlast]
    _ = d.popWire.2 := popIdleWires_eq_self fun hpos => by
        rw [← h.bottom (Nat.lt_of_sub_pos hpos)]
        exact getLast?_any_isIdle_congr (map_popWire hw)

end Circuits

end CircuitDesigner
