import CircuitDesigner.Proofs.Editing.Preview
import CircuitDesigner.Proofs.Editing.Scan

/-! Which wires a hover shows as classical.

    While a measurement is dragged, each wire is classical from its first other measurement on, and the wire below the
    pointer from there or from the placement on, whichever comes first. A drop opens a column, puts the measurement and
    drops what is idle; then each wire is classical from its first measurement on. Columns move, but no two gates change
    sides, and the placement is before a gate if and only if the measurement lands before it. So a gate is on the
    classical part of its wire during the hover if and only if it is after the drop (`onBit_hover_iff_drop`). -/

namespace CircuitDesigner

open Circuit

theorem GateKind.isPlaceholder_of_isMeasurement {kind : GateKind} (h : kind.isMeasurement = true) :
    kind.isPlaceholder = false := by
  cases kind with
  | measurement => rfl
  | _ => cases h

theorem GateKind.span_of_isMeasurement {kind : GateKind} (h : kind.isMeasurement = true) : kind.span = 1 := by
  cases kind with
  | measurement => rfl
  | _ => cases h

/-! ### Grids -/

namespace Grid

variable {P : GateId → Prop} {f : Nat → Nat} {G H : Grid} {row k : Nat} {g : Gate}

/-- A measurement with `P` shows in the row before the column. -/
def Measured (G : Grid) (P : GateId → Prop) (row column : Nat) : Prop :=
  ∃ k < column, ∃ i kind, P i ∧ kind.isMeasurement = true ∧ G.mark row k = some (.gate i kind)

theorem Carries.measured_iff (h : Carries P f G H) (hk : k ∈ G.holding P) :
    H.Measured P row (f k) ↔ G.Measured P row k := by
  constructor
  · rintro ⟨_, hlt, i, kind, hi, hkind, hm⟩
    obtain ⟨j, rfl, hj⟩ := (h.mark_iff hi).mp hm
    exact ⟨j, (h.order.lt_iff_lt ⟨row, i, kind, hi, hj⟩ hk).mp hlt, i, kind, hi, hkind, hj⟩
  · rintro ⟨j, hlt, i, kind, hi, hkind, hj⟩
    exact ⟨f j, h.order ⟨row, i, kind, hi, hj⟩ hk hlt, i, kind, hi, hkind, (h.mark_iff hi).mpr ⟨j, rfl, hj⟩⟩

/-- A measurement that is put into a free cell comes before those behind it, beside the others. -/
theorem measured_put {r column : Nat} (hfree : G.Free r column g.span) (hG : G.Lacks g.id)
    (hg : g.kind.isMeasurement = true) :
    (G.put g r column).Measured (fun _ => True) row k ↔ G.Measured (· ≠ g.id) row k ∨ r = row ∧ column < k := by
  have hput : (G.put g r column).mark r column = some (.gate g.id g.kind) := by
    simp only [put, if_true]
    exact Gate.mark?_eq_gate_iff.mpr ⟨rfl, rfl, GateKind.isPlaceholder_of_isMeasurement hg⟩
  have hothers := carries_put hfree
  constructor
  · rintro ⟨j, hlt, i, kind, -, hkind, hm⟩
    by_cases hi : i = g.id
    · subst hi
      simp only [put] at hm
      split at hm
      · split at hm
        · exact .inr ⟨by omega, by omega⟩
        · split at hm
          · cases hm
          · exact absurd hm (hG row j kind)
      · exact absurd hm (hG row j kind)
    · obtain ⟨j', rfl, hm'⟩ := (hothers.mark_iff hi).mp hm
      exact .inl ⟨j', hlt, i, kind, hi, hkind, hm'⟩
  · rintro (⟨j, hlt, i, kind, hi, hkind, hm⟩ | ⟨rfl, hlt⟩)
    · exact ⟨j, hlt, i, kind, trivial, hkind, (hothers.mark_iff hi).mpr ⟨j, rfl, hm⟩⟩
    · exact ⟨column, hlt, g.id, g.kind, trivial, hg, hput⟩

end Grid

/-- A column is at or behind the one where a gate lands if it is at or behind the position. -/
theorem Coordinate.column_le_iff {p : Rat} {n k : Nat} (hk : k < n) : Coordinate.column p n ≤ k ↔ p ≤ k := by
  unfold Coordinate.column
  split
  · rename_i h
    have hle : (n : Rat) ≤ p := by simpa [Coordinate.le, Coordinate.ofNat] using h
    have hlt : (k : Rat) < n := by exact_mod_cast hk
    exact ⟨fun h => absurd h (by omega), fun h => absurd (hle.trans h) (not_le.mpr hlt)⟩
  · show p.ceil.toNat ≤ k ↔ p ≤ k
    rw [Int.toNat_le]
    exact Rat.ceil_le_iff

/-- The column where a gate lands comes before another one if the position does. -/
theorem Grid.column_lt_opened_iff {G : Grid} {p : Rat} {k : Nat} (hk : k < G.columns)
    (hp : Coordinate.isWhole p = false ∨ ∃ n : Nat, p = n) :
    Coordinate.column p G.columns <
      G.opened (!Coordinate.isWhole p) (Coordinate.column p G.columns) k ↔ p < k := by
  have hle := Coordinate.column_le_iff (p := p) hk
  unfold Grid.opened
  rcases hp with hp | ⟨n, rfl⟩
  · have hne : p ≠ k := by
      rintro rfl
      rw [Coordinate.isWhole_natCast] at hp
      cases hp
    rw [hp, Bool.not_false, Bool.true_or, if_pos rfl, lt_iff_le_and_ne (a := p), and_iff_left hne, ← hle]
    split <;> omega
  · rw [Coordinate.isWhole_natCast, Coordinate.column_natCast, Nat.cast_lt]
    split <;> rename_i hopen
    · have hlast : min n G.columns = G.columns := by simpa using hopen
      rw [hlast, if_pos hk]
      omega
    · omega

/-- The grid in which a gate is put at a placement, if there is one. -/
def Grid.LandsAt (G : Grid) (g : Gate) (placement : Option (Placement Rat)) (H : Grid) : Prop :=
  match placement with
  | none => H = G
  | some target => G.Lands g target H

/-- A measurement lands before another gate if its placement is before it. All other gates are carried along, so that
    each of them comes behind a measurement if it did before, or if it is behind the placement. -/
theorem Grid.LandsAt.exists_carries {G H : Grid} {g : Gate} {placement : Option (Placement Rat)}
    (h : G.LandsAt g placement H) (hG : G.Lacks g.id) (hg : g.kind.isMeasurement = true)
    (hcolumns : ∀ {r k m}, G.mark r k = some m → k < G.columns) :
    ∃ f, Grid.Carries (· ≠ g.id) f G H ∧ ∀ {row k}, k ∈ G.holding (· ≠ g.id) →
      (H.Measured (fun _ => True) row (f k) ↔ G.Measured (· ≠ g.id) row k ∨
        ∃ target, placement = some target ∧ target.row = row ∧ target.position < k) := by
  cases placement with
  | none =>
    obtain rfl : H = G := h
    refine ⟨_, .refl H, fun {row k} _ => ?_⟩
    simp only [reduceCtorEq, false_and, exists_false, or_false, id_eq]
    refine exists_congr fun j => and_congr_right fun _ => exists_congr fun i => exists_congr fun kind => ?_
    refine ⟨fun ⟨_, hkind, hm⟩ => ⟨?_, hkind, hm⟩, fun ⟨_, hkind, hm⟩ => ⟨trivial, hkind, hm⟩⟩
    rintro rfl
    exact hG row j kind hm
  | some target =>
    obtain ⟨hposition, hfree, rfl⟩ : G.Lands g target H := h
    have hopen := fun P => G.carries_openColumn (P := P) (!Coordinate.isWhole target.position)
      (Coordinate.column target.position G.columns)
    refine ⟨_, (hopen _).trans (Grid.carries_put hfree), fun {row k} hk => ?_⟩
    have hlacks : (G.openColumn (!Coordinate.isWhole target.position)
        (Coordinate.column target.position G.columns)).Lacks g.id := fun r k kind hm => by
      obtain ⟨j, -, hj⟩ := ((hopen fun _ => True).mark_iff trivial).mp hm
      exact hG r j kind hj
    have hlt : k < G.columns := by
      obtain ⟨r, i, kind, -, hm⟩ := hk
      exact hcolumns hm
    rw [Function.comp_apply, id_eq, Grid.measured_put hfree hlacks hg, (hopen _).measured_iff hk,
      Grid.column_lt_opened_iff hlt hposition]
    simp

/-! ### Circuits -/

section Circuits

variable {K : Type} [Coordinate K] {ignored : Option GateId}

/-- The wire is classical in the column. -/
def Circuit.isBit (c : Circuit K) (row column : Nat) : Bool := (c.wires[row]?).any fun w => w.bitAt column

/-- The gate shows on the classical part of its wire. -/
def Circuit.OnBit (c : Circuit K) (id : GateId) : Prop :=
  ∃ kind row column, c.Places id kind row column ∧ c.isBit row column = true

omit [Coordinate K] in
theorem measured_iff_grid {ws : List (Wire K)} {w : Wire K} {row column : Nat} (hw : ws[row]? = some w) :
    w.Measured ignored column ↔ (gridOf ws).Measured (fun i => some i ≠ ignored) row column := by
  have hmark : ∀ k, (gridOf ws).mark row k = w.mark? k := fun k => markIn_of_getElem? hw
  unfold Wire.Measured Grid.Measured
  refine exists_congr fun k => and_congr_right fun _ => ?_
  rw [hmark]
  constructor
  · rintro ⟨g, hg, hmeasurement, hgate⟩
    refine ⟨g.id, g.kind, ?_, hmeasurement, ?_⟩
    · simpa [Gate.isGate] using hgate
    · unfold Wire.mark?
      rw [hg]
      exact Gate.mark?_eq_gate_iff.mpr ⟨rfl, rfl, GateKind.isPlaceholder_of_isMeasurement hmeasurement⟩
  · rintro ⟨i, kind, hi, hmeasurement, hm⟩
    obtain ⟨g, hg, hm⟩ := Option.bind_eq_some_iff.mp hm
    obtain ⟨rfl, rfl, -⟩ := Gate.mark?_eq_gate_iff.mp hm
    exact ⟨g, hg, hmeasurement, by simpa [Gate.isGate] using hi⟩

theorem rescan_of_mem_drawn (d : Drag K) (c : Circuit K) :
    ∀ w ∈ (d.drawn c).wires, w.rescan (some d.id) = w := by
  have hcore : (d.drawn c).wires.map Wire.core = (c.wires.map fun w => w.rescan (some d.id)).map Wire.core :=
    map_core_drawConnectors (some d.id) (c.rescan (some d.id))
  intro w hw
  obtain ⟨_, hv, heq⟩ := List.mem_map.mp (hcore ▸ List.mem_map_of_mem hw :
    w.core ∈ (c.wires.map fun w => w.rescan (some d.id)).map Wire.core)
  obtain ⟨v, -, rfl⟩ := List.mem_map.mp hv
  have hcells : w.cells.map Gate.core = v.cells.map Gate.core := congrArg Wire.cells heq.symm
  have hpivot : w.pivot = (Wire.firstMeasurement v.cells (some d.id)).map Coordinate.ofNat :=
    congrArg Wire.pivot heq.symm
  unfold Wire.rescan
  rw [← firstMeasurement_map_core, hcells, firstMeasurement_map_core, ← hpivot]

end Circuits

section Bits

variable {P : GateKind → Prop} {ignored : Option GateId} {d : Drag Rat} {c m : Circuit Rat} {g : Gate} {row k : Nat}

theorem isBit_iff_of_rescan (h : ∀ w ∈ c.wires, w.rescan ignored = w) :
    c.isBit row k = true ↔ (gridOf c.wires).Measured (fun i => some i ≠ ignored) row k := by
  unfold Circuit.isBit
  cases hw : c.wires[row]? with
  | none =>
    have hnone : ∀ k, (gridOf c.wires).mark row k = none := fun k => by
      show markIn c.wires row k = none
      unfold markIn
      rw [hw]
      rfl
    simp [Grid.Measured, hnone]
  | some w =>
    rw [Option.any_some, ← measured_iff_grid hw, ← Wire.bitAt_rescan, h w (List.mem_of_getElem? hw)]

/-- While a measurement is dragged, a wire is classical behind its first other measurement, or behind the placement. -/
theorem isBit_hover_iff (hgate : d.gate? (d.drawn m) = some g) (hg : g.kind.isMeasurement = true) (p : Pointer Rat)
    (row k : Nat) :
    (d.hover m p).2.2.isBit row k = true ↔ (gridOf m.wires).Measured (· ≠ d.id) row k ∨
      ∃ t, (d.hover m p).1 = some t ∧ t.row = row ∧ t.position < k := by
  have hgrid : gridOf (d.drawn m).wires = gridOf m.wires := gridOf_of_trunk (Underway.drawn d m).trunks
  have hdrawn : (d.drawn m).isBit row k = true ↔ (gridOf m.wires).Measured (· ≠ d.id) row k := by
    rw [isBit_iff_of_rescan (rescan_of_mem_drawn d m), hgrid]
    simp
  rw [Drag.placement_hover, hgate, Option.bind_some]
  unfold Drag.hover
  rw [← Drag.drawn]
  dsimp only
  rw [hgate]
  dsimp only
  cases hlocal : Drag.localize (d.drawn m) p g with
  | none => simpa using hdrawn
  | some t =>
    dsimp only
    rw [if_pos hg, ← hdrawn]
    have hrow : t.row < (d.drawn m).wires.length := (exists_of_localize hlocal).1
    simp only [Option.some.injEq, exists_eq_left']
    unfold Circuit.isBit modifyWire
    dsimp only
    rw [List.getElem?_modify]
    by_cases heq : t.row = row
    · subst heq
      rw [List.getElem?_eq_getElem hrow]
      simp only [Option.map_eq_map, Option.map_some, if_true, Option.any_some, true_and]
      rw [Wire.bitAt_preview, ← Wire.bitAt_rescan, rescan_of_mem_drawn d m _ (List.getElem_mem hrow)]
    · simp [heq]

/-- Over a wire, a dragged measurement collapses it where a scan in half steps up to the placement ends. -/
theorem hover_eq_scan (hgate : d.gate? (d.drawn m) = some g) (hg : g.kind.isMeasurement = true) {p : Pointer Rat}
    {target : Placement Rat} (hp : (d.hover m p).1 = some target) :
    (d.hover m p).2.2 = (d.drawn m).modifyWire target.row fun w =>
      w.scan (some d.id) (-Coordinate.half) Coordinate.half (some target.position) := by
  have hlocal : Drag.localize (d.drawn m) p g = some target := by
    rw [← hp, Drag.placement_hover, hgate, Option.bind_some]
  simp only [scan_eq_preview hlocal]
  unfold Drag.hover
  rw [← Drag.drawn]
  dsimp only
  rw [hgate]
  dsimp only
  rw [hlocal]
  dsimp only
  rw [if_pos hg]

/-- What a drop makes of the cells before it refreshes them: the gate in hand is put at the placement, if there is one.
    The wires keep names, kets and colors. -/
theorem Drag.exists_landed (htake : d.take m = (some g, c)) (h : c.Sound P [g.id]) (hP : P g.kind)
    (hne : ∀ p, g.kind ≠ .support p) (p : Pointer Rat) :
    ∃ e : Circuit Rat, (d.drop m p).2 = ((e.saveState? m.current).getD e).refresh ∧ e.Intact P [] ∧ Rest c e ∧
      (gridOf c.wires).LandsAt g (d.drop m p).1 (gridOf e.wires) ∧
      (e.wires.length = c.wires.length → e.wires.map Wire.face = c.wires.map Wire.face) := by
  have hcourse := fun e : Circuit Rat => Underway.rescan none e
  unfold Drag.drop
  rw [htake]
  dsimp only
  rcases release_cases h hP hne p with hnone | ⟨target, e, he, hrest, hsound, hlands⟩
  · rw [hnone]
    exact ⟨c.rescan none, rfl, h.rescan.discard, (hcourse c).rest, gridOf_of_trunk (hcourse c).trunks, fun _ =>
      map_face_of_trunk (hcourse c).trunks⟩
  · rw [he]
    refine ⟨e.rescan none, rfl, hsound.rescan, hrest.trans (hcourse e).rest, ?_, fun hlength => ?_⟩
    · rw [gridOf_of_trunk (hcourse e).trunks]
      exact hlands
    · have hrows : max c.wires.length (target.row + g.span) = e.wires.length := by
        have hrows := congrArg Grid.rows hlands.eq
        rw [Grid.put, Grid.rows_openColumn] at hrows
        exact hrows.symm
      have hlength : e.wires.length = c.wires.length := by simpa [Circuit.rescan] using hlength
      exact (map_face_of_trunk (hcourse e).trunks).trans (map_face_of_release he (by omega))

/-- A collapsed wire is classical behind its first measurement. -/
theorem isBit_iff_of_collapsed (h : ∀ w ∈ c.wires, w.Collapsed) :
    c.isBit row k = true ↔ (gridOf c.wires).Measured (fun _ => True) row k := by
  rw [isBit_iff_of_rescan fun w hw => Wire.rescan_of_collapsed (h w hw)]
  simp only [ne_eq, reduceCtorEq, not_false_eq_true]

/-- After a measurement is dropped, the other gates are carried along, and those come to a classical part that stand
    behind another measurement of their wire, or behind the placement. -/
theorem Drag.Holds.exists_carries_drop (h : d.Holds (fun _ => True) g m) (hid : d.id = g.id)
    (hmeasurement : g.kind.isMeasurement = true) (p : Pointer Rat) :
    ∃ f, Grid.Carries (· ≠ g.id) f (gridOf m.wires) (gridOf (d.drop m p).2.wires) ∧
      ∀ {row k}, k ∈ (gridOf m.wires).holding (· ≠ g.id) →
        ((d.drop m p).2.isBit row (f k) = true ↔ (gridOf m.wires).Measured (· ≠ g.id) row k ∨
          ∃ t, (d.drop m p).1 = some t ∧ t.row = row ∧ t.position < k) := by
  -- The gate leaves its cell, lands at the placement, and what is idle is dropped.
  obtain ⟨o, c, htake, hoid, hkind, -, hsound, hgrid⟩ := h.exists_take hid
  have hleaves : Grid.Carries (· ≠ g.id) (fun k => k) (gridOf m.wires) (gridOf c.wires) := by
    obtain ⟨hand, hm⟩ := h.exists_sound
    rcases hgrid with heq | ⟨row, column, hmark, heq⟩ <;> rw [heq]
    · exact .refl _
    · exact hm.spanned.carries_clear hmark
  have hne : ∀ p, o.kind ≠ .support p :=
    hkind ▸ GateKind.ne_support (GateKind.isPlaceholder_of_isMeasurement hmeasurement)
  obtain ⟨e, he, hintact, -, hlands, -⟩ := Drag.exists_landed htake (hoid ▸ hsound) trivial hne p
  obtain ⟨f, hf, hcut⟩ := hlands.exists_carries (hoid ▸ hsound.shows.lacks hsound.usesIn_hand) (hkind ▸ hmeasurement)
    fun hm => (hsound.shows.lt_of_mark hm).2
  rw [hoid] at hf hcut
  obtain ⟨hwires, hnext⟩ := wires_saved e m.current
  have hshows : Shows ((e.saveState? m.current).getD e).wires (gridOf e.wires) := hwires ▸ hintact.shows
  obtain ⟨f', hf'⟩ := exists_carries_refresh hshows fun _ => True
  have hdropped : (d.drop m p).2.Intact (fun _ => True) [] := he ▸ (hintact.congr hwires hnext).refresh
  rw [← he] at hf'
  refine ⟨_, (hleaves.trans hf).trans (hf'.mono fun _ _ => trivial), fun {row k} hk => ?_⟩
  have hk' := hleaves.mapsTo hk
  obtain ⟨r, i, kind, hi, hm⟩ := hf.mapsTo hk'
  rw [isBit_iff_of_collapsed hdropped.collapsed]
  show (gridOf _).Measured _ row (f' (f k)) ↔ _
  rw [hf'.measured_iff ⟨r, i, kind, trivial, hm⟩, hcut hk', hleaves.measured_iff hk]

/-- Over whatever points a measurement is dragged, be it new or one of the circuit: every other gate stays on its wire
    when the measurement is dropped, and it is on the classical part of it after the drop if and only if the last hover,
    over the same point, showed it there. -/
theorem onBit_hover_iff_drop (hc : c.WellFormed) {source : Drag.Source} (hg : source.gate? c = some g)
    (hmeasurement : g.kind.isMeasurement = true) {s : Drag Rat × Circuit Rat} (hs : source.start? c = some s)
    (hovers : List (Pointer Rat)) (p : Pointer Rat) {hovered placement : Option (Placement Rat)} {o o' : Drag Rat}
    {m m' d : Circuit Rat} (hm : s.1.hovers s.2 hovers = (o, m)) (hm' : o.hover m p = (hovered, o', m'))
    (hd : o'.drop m' p = (placement, d)) {i : GateId} (hi : i ≠ g.id) :
    (∀ kind row, (∃ k, m'.Places i kind row k) ↔ ∃ k, d.Places i kind row k) ∧ (m'.OnBit i ↔ d.OnBit i) := by
  have hintact : c.Intact (fun _ => True) [] := hc.intact fun _ _ _ _ _ => trivial
  have hvisible := GateKind.isPlaceholder_of_isMeasurement hmeasurement
  obtain ⟨h, hid, -⟩ := Drag.Source.holds_of_hovers hintact hg hvisible hs hm
  obtain ⟨hlast, hid', hfloating⟩ := Underway.hover o m p
  rw [hm'] at hlast hid' hfloating
  have hplacement : hovered = placement := by
    obtain ⟨-, hlift⟩ := h.placements hid (hid'.trans hid) hfloating hlast p
    rw [hm', hd] at hlift
    by_contra hne
    obtain ⟨row, k, -, r, hlt, hlt', -⟩ := hlift hne
    have hspan : g.span = 1 := GateKind.span_of_isMeasurement hmeasurement
    omega
  obtain ⟨g₁, hg₁, -, hkind₁⟩ := (h.underway (Underway.drawn o m) rfl).exists_gate? hid
  have hhover := isBit_hover_iff hg₁ (hkind₁ ▸ hmeasurement) p
  obtain ⟨f, hf, hdrop⟩ := (h.underway hlast hfloating).exists_carries_drop (hid'.trans hid) hmeasurement p
  rw [hm', hid, hplacement, ← gridOf_of_trunk hlast.trunks] at hhover
  rw [hd] at hf hdrop
  have hbits : ∀ {kind row k}, (gridOf m'.wires).mark row k = some (.gate i kind) →
      (m'.isBit row k = true ↔ d.isBit row (f k) = true) := fun {kind row k} hmark =>
    (hhover row k).trans (hdrop ⟨row, i, kind, hi, hmark⟩).symm
  unfold OnBit
  simp only [places_iff]
  refine ⟨fun kind row => (hf.exists_iff hi).symm, ?_, ?_⟩
  · rintro ⟨kind, row, k, hmark, hbit⟩
    exact ⟨kind, row, f k, (hf.mark_iff hi).mpr ⟨k, rfl, hmark⟩, (hbits hmark).mp hbit⟩
  · rintro ⟨kind, row, _, hmark, hbit⟩
    obtain ⟨k, rfl, hmark'⟩ := (hf.mark_iff hi).mp hmark
    exact ⟨kind, row, k, hmark', (hbits hmark').mpr hbit⟩

/-- A new measurement goes before the only gate, on its wire. -/
theorem onBit_hover_iff_drop_single :
    ∃ s o' m' d, (Drag.Source.toolbox (.measurement .off)).start? (single {} (.standard .h) 0).refresh = some s ∧
      s.1.hover s.2 ⟨100, 150⟩ = (some ⟨0, -1 / 2⟩, o', m') ∧ o'.drop m' ⟨100, 150⟩ = (some ⟨0, -1 / 2⟩, d) ∧
      m'.OnBit ⟨0⟩ ∧ d.OnBit ⟨0⟩ := by
  have hintact : (single {} (.standard .h) 0).Intact (GateKind.Known {}) [] := intact_single (by rfl) (by decide)
  have hdrag : ((Drag.Source.toolbox (.measurement .off)).start? (single {} (.standard .h) 0).refresh).any fun s =>
      (s.1.hover s.2 ⟨100, 150⟩).1 == some ⟨0, -1 / 2⟩ &&
        ((s.1.hover s.2 ⟨100, 150⟩).2.1.drop (s.1.hover s.2 ⟨100, 150⟩).2.2 ⟨100, 150⟩).1 == some ⟨0, -1 / 2⟩ &&
        (s.1.hover s.2 ⟨100, 150⟩).2.2.isBit 0 0 &&
        ((s.1.hover s.2 ⟨100, 150⟩).2.2.cell? 0 0).any fun g => g.id == ⟨0⟩ && g.kind == .standard .h := by
    decide +kernel
  obtain ⟨s, hs, hall⟩ := (Option.any_eq_true _ _).mp hdrag
  rcases hm' : s.1.hover s.2 ⟨100, 150⟩ with ⟨hovered, o', m'⟩
  rw [hm'] at hall
  rcases hd : o'.drop m' ⟨100, 150⟩ with ⟨placement, d⟩
  rw [hd] at hall
  simp only [Bool.and_eq_true, beq_iff_eq, Option.any_eq_true] at hall
  obtain ⟨⟨⟨rfl, rfl⟩, hbit⟩, g, hg, hid, hkind⟩ := hall
  have honBit : m'.OnBit ⟨0⟩ := ⟨.standard .h, 0, 0, ⟨g, hg, hid, hkind, by rw [hkind]; rfl⟩, hbit⟩
  have hiff := (onBit_hover_iff_drop hintact.refresh.wellFormed rfl rfl hs [] ⟨100, 150⟩ rfl hm' hd
    (i := ⟨0⟩) (by decide)).2
  exact ⟨s, o', m', d, hs, hm', hd, honBit, hiff.mp honBit⟩

end Bits

end CircuitDesigner
