import CircuitDesigner.Proofs.Refresh.Occupied
import CircuitDesigner.Proofs.Restore.Rebuild

/-! What a template tells of the cells.

    A template records a stamp for each cell. Circuits with the same settings have one template if their wires are
    named alike and their grids show the same stamps (`current_eq_iff_stamp`). The stamp of an inertia is told from
    those of gates, unless a custom gate has it for its id (`GateKind.Told`), so that a template tells which cells are
    idle, and with that what a refresh removes. -/

namespace CircuitDesigner

open Circuit

variable {K : Type}

/-! ### Stamps of cells -/

/-- A template tells the kind from an inertia. -/
def GateKind.Told (kind : GateKind) : Prop := kind.stamp = GateKind.inertia.stamp → kind = .inertia

theorem GateKind.Known.told {catalog : Catalog} {kind : GateKind} (h : kind.Known catalog) : kind.Told :=
  fun hstamp => by
  unfold Known at h
  rw [hstamp, known_inertia catalog] at h
  exact (Except.ok.inj h).symm

theorem GateKind.told_support (p : GateId) : (GateKind.support p).Told := fun hstamp => by
  have hstamp : "supp" = "inertia" := hstamp
  exact absurd hstamp (by decide)

theorem Resolves.told {catalog : Catalog} {ws : List (Wire K)} (h : Resolves catalog ws) :
    ∀ w ∈ ws, ∀ g ∈ w.cells, g.kind.Told := by
  intro w hw g hg
  by_cases hsupport : ∃ p, g.kind = .support p
  · obtain ⟨p, hp⟩ := hsupport
    exact hp ▸ GateKind.told_support p
  · exact (h w hw g hg (not_exists.mp hsupport)).told

/-- The stamp of a cell with the mark, or with none. -/
def Mark.stamp (m : Option Mark) : String := ((m.map Mark.kind).getD .inertia).stamp

/-- The stamp of a cell. -/
def Grid.stamp (G : Grid) (r k : Nat) : String := Mark.stamp (G.mark r k)

section Stamps

variable {ws : List (Wire K)} {w : Wire K} {G : Grid} {r k : Nat}

theorem Shows.stamp_of_cell (h : Shows ws G) (hw : ws[r]? = some w) {g : Gate} (hg : w.cells[k]? = some g) :
    G.stamp r k = g.kind.stamp := by
  have hmark : G.mark r k = g.mark? := by
    rw [← h.marks, markIn_of_getElem? hw]
    unfold Wire.mark?
    rw [hg, Option.bind_some]
  rw [Grid.stamp, Mark.stamp, hmark, ← Gate.kind_plain, GateKind.stamp_plain]

theorem Shows.stamps_eq (h : Shows ws G) (hw : ws[r]? = some w) :
    (w.cells.map fun g => g.kind.stamp) = (List.range G.columns).map (G.stamp r) := by
  have hlength := h.aligned w (List.mem_of_getElem? hw)
  refine List.ext_getElem (by simp [hlength]) fun k hk _ => ?_
  rw [List.length_map] at hk
  simpa using (h.stamp_of_cell hw (List.getElem?_eq_getElem hk)).symm

theorem Shows.stamp_of_le (h : Shows ws G) (hle : G.rows ≤ r ∨ G.columns ≤ k) :
    G.stamp r k = GateKind.inertia.stamp := by
  have hnone : G.mark r k = none := hle.elim (fun hr => h.mark_of_rows_le hr k) (h.mark_of_columns_le r)
  rw [Grid.stamp, hnone]
  rfl

/-- A cell has the stamp of an inertia if it shows nothing. -/
theorem Shows.stamp_eq_iff (h : Shows ws G) (hk : G.Each GateKind.Told) :
    G.stamp r k = GateKind.inertia.stamp ↔ G.mark r k = none := by
  unfold Grid.stamp
  cases hm : G.mark r k with
  | none => exact iff_of_true rfl rfl
  | some m =>
    refine iff_of_false (fun hstamp => ?_) (Option.some_ne_none m)
    cases m with
    | gate id kind =>
      obtain rfl := hk r k id kind hm hstamp
      rw [← h.marks] at hm
      obtain ⟨-, g, -, -, hmark⟩ := markIn_eq_some_iff.mp hm
      obtain ⟨-, hkind, hplaceholder⟩ := Gate.mark?_eq_gate_iff.mp hmark
      rw [hkind] at hplaceholder
      cases hplaceholder
    | cover p => exact GateKind.noConfusion (GateKind.told_support p hstamp)

end Stamps

/-! ### Templates -/

section Templates

variable {c d : Circuit K} {v w : Wire K} {G H : Grid}

theorem Circuit.current_eq_iff (h : d.settings = c.settings) :
    d.current = c.current ↔ d.current.wires = c.current.wires := by
  refine ⟨congrArg Template.wires, fun hwires => ?_⟩
  unfold current capture at hwires ⊢
  dsimp only at hwires
  rw [hwires, h]
  rfl

theorem Circuit.length_of_current (h : d.current = c.current) : d.wires.length = c.wires.length := by
  simpa [current, capture] using congrArg (fun t => t.wires.length) h

theorem Circuit.columns_of_current (h : d.current = c.current) : d.columns = c.columns := by
  refine columnsOf_congr ?_
  have hlengths := congrArg (fun t => t.wires.map (·.stamps.length)) h
  simpa [current, capture, Wire.record, Function.comp_def] using hlengths

theorem Wire.record_eq_iff (hface : v.face = w.face) (parts : Parts) :
    v.record parts = w.record parts ↔ v.cells.map (fun g => g.kind.stamp) = w.cells.map fun g => g.kind.stamp := by
  obtain ⟨hname, hket, hcolor⟩ : v.name = w.name ∧ v.ket = w.ket ∧ v.color = w.color := by simpa [face] using hface
  unfold record
  rw [hname, hket, hcolor]
  simp

/-- An idle wire is recorded as inertias. -/
theorem Wire.stamps_of_isIdle (h : w.isIdle = true) :
    (w.cells.map fun g => g.kind.stamp) = List.replicate w.cells.length GateKind.inertia.stamp := by
  refine List.eq_replicate_iff.mpr ⟨List.length_map _, fun stamp hstamp => ?_⟩
  obtain ⟨g, hg, rfl⟩ := List.mem_map.mp hstamp
  rw [GateKind.isInertia_iff.mp (List.all_eq_true.mp h g hg)]

/-- Two circuits whose wires look alike have one template if they show the same stamps. -/
theorem Circuit.current_eq_iff_stamp (hd : Shows d.wires H) (hc : Shows c.wires G) (hsettings : d.settings = c.settings)
    (hface : d.wires.map Wire.face = c.wires.map Wire.face) (hcolumns : H.columns = G.columns) :
    d.current = c.current ↔ ∀ r k, H.stamp r k = G.stamp r k := by
  have hlength : d.wires.length = c.wires.length := by simpa using congrArg List.length hface
  have hrow : ∀ r (hr : r < d.wires.length) (hr' : r < c.wires.length),
      d.wires[r].record .timeless = c.wires[r].record .timeless ↔ ∀ k < G.columns, H.stamp r k = G.stamp r k := by
    intro r hr hr'
    have hfaces : d.wires[r].face = c.wires[r].face := by simpa [hr, hr'] using congrArg (fun faces => faces[r]?) hface
    rw [Wire.record_eq_iff hfaces, hd.stamps_eq (List.getElem?_eq_getElem hr),
      hc.stamps_eq (List.getElem?_eq_getElem hr'), hcolumns]
    simp
  rw [current_eq_iff hsettings]
  show d.wires.map _ = c.wires.map _ ↔ _
  constructor
  · intro heq r k
    by_cases hin : r < c.wires.length ∧ k < G.columns
    · have hrecord : d.wires[r].record .timeless = c.wires[r].record .timeless := by
        simpa [hlength, hin.1] using congrArg (fun records => records[r]?) heq
      exact (hrow r (by omega) hin.1).mp hrecord k hin.2
    · have hrows := hc.rows
      have hrows' := hd.rows
      rw [hd.stamp_of_le (by omega), hc.stamp_of_le (by omega)]
  · intro hstamps
    refine List.ext_getElem (by simpa using hlength) fun r hr hr' => ?_
    rw [List.length_map] at hr hr'
    rw [List.getElem_map, List.getElem_map]
    exact (hrow r hr hr').mpr fun k _ => hstamps r k

end Templates

/-! ### Minimal size -/

section Minimize

variable [Coordinate K] {c : Circuit K} {k : Nat}

theorem current_refresh (c : Circuit K) : c.refresh.current = c.minimize.current := by
  rw [refresh_eq, current_redraw]

/-- A circuit without idle columns keeps its first wires. -/
theorem wires_minimize_of_busy (h : Busy c.wires) (hle : c.settings.minQubits ≤ c.wires.length) :
    c.minimize.wires = c.wires.take (max c.settings.minQubits (depth c.wires)) := by
  obtain ⟨-, added, hwires, hlength, -, -⟩ := minimize_eq_condensed c
  have hself : ∀ w ∈ c.wires.take (max c.settings.minQubits (depth c.wires)), w.condensed c.wires = w := fun w hw =>
    Wire.condensed_of_busy h (List.mem_of_mem_take hw)
  rw [List.map_congr_left hself, List.map_id'] at hwires
  have hdepth := depth_le c.wires
  have hnone : added.length = 0 := by
    have hlength' := congrArg List.length hwires
    rw [hlength, List.length_append, List.length_take] at hlength'
    omega
  rw [hwires, List.length_eq_zero_iff.mp hnone, List.append_nil]

/-- No column goes exactly if none is idle. -/
theorem columns_minimize_iff : c.minimize.columns = c.columns ↔ Busy c.wires := by
  obtain ⟨-, -, -, -, hcount, -⟩ := minimize_eq_condensed c
  have hall := List.countP_eq_length (p := fun k => decide (Occupied c.wires k)) (l := List.range c.columns)
  rw [List.length_range] at hall
  rw [hcount, hall]
  simp [Busy, occupied_iff, columns]

omit [Coordinate K] in
/-- A compact circuit has as many wires as it needs. -/
theorem Circuit.Compact.length_eq (h : c.Compact) : max c.settings.minQubits (depth c.wires) = c.wires.length := by
  have hdepth := depth_le c.wires
  have hwires := h.wires
  by_cases hlt : c.settings.minQubits < c.wires.length
  · have := depth_of_not_idle (Bool.eq_false_iff.mp (h.bottom hlt))
    omega
  · omega

/-- To drop an idle column first makes no difference. -/
theorem minimize_dropInertia (h : isIdleColumn c.wires k = true) :
    ({ c with wires := c.wires.map fun w => w.dropInertia k } : Circuit K).minimize = c.minimize := by
  have hvacant : ∀ w ∈ c.wires, w.isVacant k = true := List.all_eq_true.mp h
  have hnone : ∀ ws : List (Wire K), ∀ j < 0, isIdleColumn ws j = false := fun _ j hj => absurd hj (Nat.not_lt_zero j)
  have hdrop : dropIdleColumns (columnsOf (c.wires.map fun w => w.dropInertia k)) 0
      (c.wires.map fun w => w.dropInertia k) =
      dropIdleColumns (columnsOf c.wires) 0 c.wires := by
    rw [dropIdleColumns_eq_condensed (Nat.zero_add _) (hnone _),
      dropIdleColumns_eq_condensed (Nat.zero_add _) (hnone _), List.map_map]
    exact List.map_congr_left fun w hw => Wire.condensed_dropInertia hvacant hw
  unfold minimize columns
  dsimp only
  rw [hdrop]

end Minimize

end CircuitDesigner
