import CircuitDesigner.Proofs.Refresh.Occupied

/-! Wires of different lengths under a refresh.

    An edit may leave wires of different lengths, and supports away from their gates. A refresh moves the columns in use
    together and does nothing else to what shows (`moves_refresh`), so that it mends neither: afterwards supports are in
    place just if they were before, and the wires have one length just if those that stay reached all columns in use
    (`orderly_refresh_iff`). -/

namespace CircuitDesigner

open Circuit

variable {K : Type}

/-! ### Rows and columns in use -/

section InUse

variable {ws : List (Wire K)} {row r k n : Nat}

theorem occupied_iff_mark : Occupied ws k ↔ ∃ r, markIn ws r k ≠ none := by
  constructor
  · rintro ⟨w, hw, g, hg, hi⟩
    obtain ⟨r, hr⟩ := List.getElem?_of_mem hw
    refine ⟨r, fun hnone => ?_⟩
    rw [markIn_of_getElem? hr, Wire.mark?, hg, Option.bind_some, Gate.mark?_eq_none_iff, hi] at hnone
    cases hnone
  · rintro ⟨r, hne⟩
    obtain ⟨m, hm⟩ := Option.ne_none_iff_exists'.mp hne
    obtain ⟨w, g, hw, hg, hmark⟩ := markIn_eq_some_iff.mp hm
    exact ⟨w, List.mem_of_getElem? hw, g, hg, Gate.isInertia_of_mark? hmark⟩

theorem lt_depth_iff : row < depth ws ↔ ∃ r, row ≤ r ∧ ∃ k, markIn ws r k ≠ none := by
  rw [← Nat.not_le, depth_le_iff]
  push Not
  exact exists_congr fun r => exists_and_left

/-- The wires down to the last one in use hold all marks. -/
theorem markIn_take (h : depth ws ≤ n) (r k : Nat) : markIn (ws.take n) r k = markIn ws r k := by
  by_cases hr : r < n
  · unfold markIn
    rw [List.getElem?_take_of_lt hr]
  · have hnone := depth_le_iff.mp h r k (Nat.le_of_not_lt hr)
    rw [hnone, markIn, List.getElem?_eq_none (by rw [List.length_take]; omega)]
    rfl

theorem markIn_append_idle {vs : List (Wire K)} (h : ∀ v ∈ vs, v.isIdle = true) (r k : Nat) :
    markIn (ws ++ vs) r k = markIn ws r k := by
  induction vs using List.reverseRecOn with
  | nil => rw [List.append_nil]
  | append_singleton vs v ih =>
    rw [← List.append_assoc, markIn_append (Wire.isIdle_iff.mp (h v (by simp))),
      ih fun u hu => h u (List.mem_append_left _ hu)]

/-- Where a column in use goes. -/
def settled (ws : List (Wire K)) (k : Nat) : Nat := (List.range k).countP fun k => Occupied ws k

theorem settled_succ (ws : List (Wire K)) (k : Nat) :
    settled ws (k + 1) = settled ws k + if Occupied ws k then 1 else 0 := by
  simp [settled, List.range_succ, List.countP_append, List.countP_singleton]

theorem settled_mono (ws : List (Wire K)) : Monotone (settled ws) :=
  monotone_nat_of_le_succ fun k => by
    rw [settled_succ]
    exact Nat.le_add_right _ _

theorem settled_lt (h : Occupied ws k) (hlt : k < n) : settled ws k < settled ws n := by
  have hnext := settled_succ ws k
  rw [if_pos h] at hnext
  have hle := settled_mono ws hlt
  rw [Nat.succ_eq_add_one] at hle
  omega

theorem settled_eq (hle : k ≤ n) (h : ∀ l, Occupied ws l → l < n → l < k) : settled ws k = settled ws n := by
  induction n, hle using Nat.le_induction with
  | base => rfl
  | succ n hle ih =>
    have hidle : ¬Occupied ws n := fun hn => by
      have := h n hn (Nat.lt_succ_self n)
      omega
    rw [settled_succ, if_neg hidle, ih fun l hl hlt => h l hl (Nat.lt_succ_of_lt hlt), Nat.add_zero]

theorem settled_inj {l : Nat} (hk : Occupied ws k) (hl : Occupied ws l) (h : settled ws k = settled ws l) : k = l := by
  rcases Nat.lt_trichotomy k l with hlt | heq | hlt
  · have := settled_lt hk hlt
    omega
  · exact heq
  · have := settled_lt hl hlt
    omega

end InUse

variable [Coordinate K] {c : Circuit K}

/-! ### Refreshing -/

/-- The wires have one length, and the supports are in place. -/
structure Circuit.Orderly (c : Circuit K) : Prop where
  aligned : ∀ v ∈ c.wires, ∀ w ∈ c.wires, v.cells.length = w.cells.length
  supported : c.Supported

omit [Coordinate K] in
theorem Circuit.Orderly.eq_of_lengths (h : c.Orderly) {m : Nat} {ns : List Nat}
    (hlengths : (c.wires.map fun w => w.cells.length) = m :: n :: ns) : m = n := by
  obtain ⟨v, vs, hwires, rfl, hvs⟩ := List.map_eq_cons_iff.mp hlengths
  obtain ⟨w, ws, rfl, rfl, -⟩ := List.map_eq_cons_iff.mp hvs
  exact h.aligned v (by rw [hwires]; simp) w (by rw [hwires]; simp)

theorem Circuit.Consistent.orderly (h : c.Consistent) : c.Orderly := ⟨h.aligned, h.supported⟩

theorem Circuit.WellFormed.orderly (h : c.WellFormed) : c.Orderly := h.toConsistent.orderly

/-- An orderly circuit is well formed if the rest of it is in order as well. -/
theorem Circuit.Orderly.wellFormed (h : c.Orderly) (hl : Labelled c.wires c.nextGate) (ho : ∀ w ∈ c.wires, w.Owned)
    (hc : ∀ w ∈ c.wires, w.Collapsed) : c.WellFormed where
  aligned := h.aligned
  distinct := (Labelled.iff_nodup.mp hl).1
  supports := h.supported.supports
  parents := h.supported.parents
  collapsed := hc
  counted _ hw _ hg := hl.index_lt hw hg
  owned := ho

theorem Wire.mark?_condensed_iff {ws : List (Wire K)} {w : Wire K} (hw : w ∈ ws) {k' : Nat} {m : Mark} :
    (w.condensed ws).mark? k' = some m ↔ ∃ k, settled ws k = k' ∧ w.mark? k = some m := by
  unfold Wire.mark?
  simp only [Option.bind_eq_some_iff, Wire.cells_condensed, getElem?_entriesAt_iff, decide_eq_true_iff]
  constructor
  · rintro ⟨g, ⟨k, hk, -, hplace⟩, hm⟩
    exact ⟨k, hplace, g, hk, hm⟩
  · rintro ⟨k, hplace, g, hk, hm⟩
    exact ⟨g, ⟨k, hk, ⟨w, hw, g, hk, Gate.isInertia_of_mark? hm⟩, hplace⟩, hm⟩

theorem moves_minimize (c : Circuit K) : Grid.Moves (settled c.wires) (gridOf c.wires) (gridOf c.minimize.wires) := by
  obtain ⟨-, added, hwires, -, -, hadded⟩ := minimize_eq_condensed c
  refine ⟨fun {r k' m} => ?_, fun {r q k l m n} hk hl => settled_inj ?_ ?_⟩
  · have hmark : markIn c.minimize.wires r k' =
        ((c.wires.take (max c.settings.minQubits (depth c.wires)))[r]?).bind fun w =>
          (w.condensed c.wires).mark? k' := by
      rw [hwires, markIn_append_idle fun w hw => (hadded w hw).1, markIn, List.getElem?_map]
      cases (c.wires.take (max c.settings.minQubits (depth c.wires)))[r]? <;> rfl
    show markIn c.minimize.wires r k' = some m ↔ ∃ k, settled c.wires k = k' ∧ markIn c.wires r k = some m
    simp only [hmark, ← markIn_take (Nat.le_max_right c.settings.minQubits (depth c.wires))]
    cases hw : (c.wires.take (max c.settings.minQubits (depth c.wires)))[r]? with
    | none => simp [markIn, hw]
    | some w =>
      simp only [Option.bind_some, markIn_of_getElem? hw]
      exact Wire.mark?_condensed_iff (List.mem_of_mem_take (List.mem_of_getElem? hw))
  · exact occupied_iff_mark.mpr ⟨r, Option.ne_none_iff_exists'.mpr ⟨m, hk⟩⟩
  · exact occupied_iff_mark.mpr ⟨q, Option.ne_none_iff_exists'.mpr ⟨n, hl⟩⟩

/-- Every mark stays in its row, and marks of different columns stay in different ones. -/
theorem moves_refresh (c : Circuit K) : Grid.Moves (settled c.wires) (gridOf c.wires) (gridOf c.refresh.wires) := by
  rw [refresh_eq, gridOf_of_core (map_core_redraw c.minimize)]
  exact moves_minimize c

theorem aligned_minimize_iff (c : Circuit K) :
    (∀ v ∈ c.minimize.wires, ∀ w ∈ c.minimize.wires, v.cells.length = w.cells.length) ↔
      ∀ w ∈ c.wires.take (max c.settings.minQubits (depth c.wires)), ∀ k, Occupied c.wires k → k < w.cells.length := by
  obtain ⟨-, added, hwires, -, hcolumns, hadded⟩ := minimize_eq_condensed c
  have hcolumns : c.minimize.columns = settled c.wires c.columns := hcolumns
  have hlength : ∀ w : Wire K, (w.condensed c.wires).cells.length = settled c.wires w.cells.length :=
    Wire.length_condensed c.wires
  have hbound : ∀ {k}, Occupied c.wires k → k < c.columns := fun ⟨w, hw, g, hg, _⟩ =>
    Nat.lt_of_lt_of_le (List.getElem?_eq_some_iff.mp hg).1 (length_le_columnsOf hw)
  constructor
  · intro haligned w hw k hk
    -- The wire would lack the columns in use from its end on.
    have hmem : w.condensed c.wires ∈ c.minimize.wires := by
      rw [hwires]
      exact List.mem_append_left _ (List.mem_map_of_mem hw)
    have hsame : c.minimize.columns = (w.condensed c.wires).cells.length :=
      columnsOf_eq (fun v hv => haligned v hv _ hmem) (List.ne_nil_of_mem hmem)
    by_contra hge
    have hle := settled_mono c.wires (Nat.le_of_not_lt hge)
    have hlt := settled_lt hk (hbound hk)
    rw [hcolumns, hlength] at hsame
    omega
  · intro hreach
    have hall : ∀ v ∈ c.minimize.wires, v.cells.length = c.minimize.columns := fun v hv => by
      rw [hwires] at hv
      rcases List.mem_append.mp hv with hv | hv
      · obtain ⟨w, hw, rfl⟩ := List.mem_map.mp hv
        rw [hlength, hcolumns]
        exact settled_eq (length_le_columnsOf (List.mem_of_mem_take hw)) fun l hl _ => hreach w hw l hl
      · exact (hadded v hv).2
    exact fun v hv w hw => (hall v hv).trans (hall w hw).symm

theorem labelled_refresh (hl : Labelled c.wires c.nextGate) : Labelled c.refresh.wires c.refresh.nextGate := by
  refine hl.mono (fun i => ?_) ?_
  · rw [refresh_eq, usesIn_of_core (map_core_redraw c.minimize), nextGate_redraw]
    exact c.usesIn_minimize_le i
  · rw [refresh_eq, nextGate_redraw]
    exact c.kept_minimize.next

/-- A refresh leaves wires of one length just if those that stay reach all columns in use, and supports in place just if
    they were. -/
theorem orderly_refresh_iff (hl : Labelled c.wires c.nextGate) : c.refresh.Orderly ↔
    (∀ w ∈ c.wires.take (max c.settings.minQubits (depth c.wires)), ∀ k, Occupied c.wires k → k < w.cells.length) ∧
      (gridOf c.wires).Spanned := by
  have hcore := map_core_redraw c.minimize
  have hlengths : c.refresh.wires.map (·.cells.length) = c.minimize.wires.map (·.cells.length) := by
    have := congrArg (List.map fun w : Wire K => w.cells.length) hcore
    rw [refresh_eq]
    simpa [Wire.core, Function.comp_def] using this
  have haligned : (∀ v ∈ c.refresh.wires, ∀ w ∈ c.refresh.wires, v.cells.length = w.cells.length) ↔
      ∀ v ∈ c.minimize.wires, ∀ w ∈ c.minimize.wires, v.cells.length = w.cells.length := by
    have hmap : ∀ ws : List (Wire K), (∀ v ∈ ws, ∀ w ∈ ws, v.cells.length = w.cells.length) ↔
        ∀ m ∈ ws.map (·.cells.length), ∀ n ∈ ws.map (·.cells.length), m = n := fun ws => by simp
    rw [hmap, hmap, hlengths]
  have hsupported : c.refresh.Supported ↔ (gridOf c.wires).Spanned :=
    ⟨fun h => (moves_refresh c).spanned_iff.mp h.spanned,
      fun h => supported_of_spanned ((moves_refresh c).spanned_iff.mpr h) (labelled_refresh hl)⟩
  rw [← aligned_minimize_iff, ← haligned, ← hsupported]
  exact ⟨fun h => ⟨h.aligned, h.supported⟩, fun h => ⟨h.1, h.2⟩⟩

/-- A refreshed circuit lacks no more than that to be well formed. -/
theorem wellFormed_refresh (h : c.refresh.Orderly) (hl : Labelled c.wires c.nextGate) (ho : ∀ w ∈ c.wires, w.Owned)
    (hc : ∀ w ∈ c.wires, w.Collapsed) : c.refresh.WellFormed :=
  h.wellFormed (labelled_refresh hl)
    (owned_of_core (map_core_redraw c.minimize) (c.kept_minimize.closed Wire.closed_owned ho)) (collapsed_refresh hc)

/-- The cells of the wires are all that decides it. -/
theorem orderly_refresh_congr {d : Circuit K} (hl : Labelled c.wires c.nextGate)
    (hcells : d.wires.map Wire.cells = c.wires.map Wire.cells) (hsettings : d.settings = c.settings)
    (hnext : d.nextGate = c.nextGate) : d.refresh.Orderly ↔ c.refresh.Orderly := by
  have hgrid := gridOf_congr hcells
  have hmark : ∀ r k, markIn d.wires r k = markIn c.wires r k :=
    fun r k => congrFun (congrFun (congrArg Grid.mark hgrid) r) k
  have hoccupied : ∀ k, Occupied d.wires k ↔ Occupied c.wires k := fun k => by
    simp only [occupied_iff_mark, hmark]
  have hdepth : depth d.wires = depth c.wires := depth_congr fun r k => by rw [hmark]
  have hl' : Labelled d.wires d.nextGate := fun i => by
    have hids : d.wires.map (fun w => w.cells.map Gate.id) = c.wires.map fun w => w.cells.map Gate.id := by
      have := congrArg (List.map (List.map Gate.id)) hcells
      rwa [List.map_map, List.map_map] at this
    rw [usesIn_congr hids, hnext]
    exact hl i
  have hreach : ∀ (ws : List (Wire K)) n, (∀ w ∈ ws.take n, ∀ k, Occupied c.wires k → k < w.cells.length) ↔
      ∀ cells ∈ (ws.map Wire.cells).take n, ∀ k, Occupied c.wires k → k < cells.length := fun ws n => by
    simp [← List.map_take]
  rw [orderly_refresh_iff hl, orderly_refresh_iff hl', hgrid, hdepth, hsettings]
  simp only [hoccupied, hreach, hcells]

end CircuitDesigner
