import CircuitDesigner.Proofs.Except
import CircuitDesigner.Proofs.Restore.RoundTrip

/-! Loading templates.

    A template need not be one of a circuit: its rows may have any lengths, and its stamps are read one by one. When
    supports stand in the cells that gates cover and in no others (`Template.Tiled`), every gate finds its cells free
    and the circuit that is loaded is well-formed (`exists_restore_tiled`). A gate in a cell that another one covers
    takes the place of the support there, which moves to the next column on its own wire (`restore_shadowed`). -/

namespace CircuitDesigner

open Circuit

/-! ### Rows of kinds -/

/-- What stands at a row and column: a kind, or none for a support. -/
def cellAt (rows : List (List (Option GateKind))) (row column : Nat) : Option (Option GateKind) :=
  (rows[row]?).bind fun kinds => kinds[column]?

/-- No gate stands where another one reaches, and no support where none does. -/
structure Laid (rows : List (List (Option GateKind))) : Prop where
  apart : ∀ {q r k kind kind'}, cellAt rows q k = some (some kind) → cellAt rows r k = some (some kind') → q < r →
    q + kind.span ≤ r
  reached : ∀ {r k}, cellAt rows r k = some none →
    ∃ q kind, cellAt rows q k = some (some kind) ∧ q < r ∧ r < q + kind.span

namespace Template

/-- The stamp at a row and column. -/
def stamp? (t : Template) (row column : Nat) : Option String := (t.wires[row]?).bind fun r => r.stamps[column]?

/-- A gate that stands above in the column reaches down to the cell. -/
def Covers (t : Template) (catalog : Catalog) (row column : Nat) : Prop :=
  ∃ q stamp kind, t.stamp? q column = some stamp ∧ GateKind.ofStamp catalog stamp = .ok kind ∧
    q < row ∧ row < q + kind.span

/-- Supports stand where gates reach, and nowhere else. -/
def Tiled (t : Template) (catalog : Catalog) : Prop :=
  ∀ row column stamp, t.stamp? row column = some stamp → (Stamp.isSupport stamp = true ↔ t.Covers catalog row column)

variable {t : Template} {catalog : Catalog} {row column : Nat}

instance : Decidable (t.Covers catalog row column) :=
  decidable_of_iff (∃ q < row, ∃ stamp ∈ t.stamp? q column, ∃ kind ∈ (GateKind.ofStamp catalog stamp).toOption,
      row < q + kind.span) <| by
    constructor
    · rintro ⟨q, hlt, stamp, hstamp, kind, hkind, hle⟩
      refine ⟨q, stamp, kind, hstamp, ?_, hlt, hle⟩
      cases hof : GateKind.ofStamp catalog stamp <;> rw [hof] at hkind <;> cases hkind
      rfl
    · rintro ⟨q, stamp, kind, hstamp, hkind, hlt, hle⟩
      exact ⟨q, hlt, stamp, hstamp, kind, by rw [hkind]; rfl, hle⟩

instance : Decidable (t.Tiled catalog) :=
  decidable_of_iff (∀ row < t.wires.length, ∀ column < (t.wires[row]?).elim 0 fun r => r.stamps.length,
      ∀ stamp ∈ t.stamp? row column, (Stamp.isSupport stamp = true ↔ t.Covers catalog row column)) <| by
    refine ⟨fun h row column stamp hstamp => ?_, fun h row _ column _ stamp hstamp => h row column stamp hstamp⟩
    obtain ⟨r, hr, hcell⟩ := Option.bind_eq_some_iff.mp hstamp
    refine h row (List.getElem?_eq_some_iff.mp hr).1 column ?_ stamp hstamp
    rw [hr]
    exact (List.getElem?_eq_some_iff.mp hcell).1

end Template

section Resolve

variable {catalog : Catalog} {t : Template} {rows : List (List (Option GateKind))}

/-- What a stamp puts into its cell. -/
def GateKind.ofCell (catalog : Catalog) (stamp : String) : Except CircuitError (Option GateKind) :=
  if Stamp.isSupport stamp then .ok none else (GateKind.ofStamp catalog stamp).map some

theorem cellAt_of_resolve (h : t.resolve catalog = .ok rows) (row column : Nat) :
    (t.stamp? row column).map (GateKind.ofCell catalog) = (cellAt rows row column).map .ok := by
  have hrow := getElem?_of_mapM h row
  unfold Template.stamp? cellAt
  cases hr : t.wires[row]? with
  | none =>
    rw [hr, Option.map_none, eq_comm, Option.map_eq_none_iff] at hrow
    rw [hrow]
    rfl
  | some r =>
    rw [hr, Option.map_some, eq_comm, Option.map_eq_some_iff] at hrow
    obtain ⟨kinds, hkinds, hresolve⟩ := hrow
    rw [hkinds]
    exact getElem?_of_mapM hresolve.symm column

theorem cellAt_eq_gate_iff (h : t.resolve catalog = .ok rows) {row column : Nat} {kind : GateKind} :
    cellAt rows row column = some (some kind) ↔
      ∃ stamp, t.stamp? row column = some stamp ∧ GateKind.ofStamp catalog stamp = .ok kind := by
  have hcell := cellAt_of_resolve h row column
  constructor
  · intro hgate
    rw [hgate, Option.map_some, Option.map_eq_some_iff] at hcell
    obtain ⟨stamp, hstamp, hkind⟩ := hcell
    refine ⟨stamp, hstamp, ?_⟩
    unfold GateKind.ofCell at hkind
    split at hkind
    · cases hkind
    · cases hof : GateKind.ofStamp catalog stamp with
      | error e =>
        rw [hof] at hkind
        cases hkind
      | ok kind' =>
        rw [hof] at hkind
        cases hkind
        rfl
  · rintro ⟨stamp, hstamp, hkind⟩
    rw [hstamp, Option.map_some, GateKind.ofCell, GateKind.isSupport_of_ofStamp hkind, hkind, eq_comm,
      Option.map_eq_some_iff] at hcell
    obtain ⟨cell, hcell, heq⟩ := hcell
    rw [hcell]
    cases heq
    rfl

theorem cellAt_eq_support_iff (h : t.resolve catalog = .ok rows) {row column : Nat} :
    cellAt rows row column = some none ↔ ∃ stamp, t.stamp? row column = some stamp ∧ Stamp.isSupport stamp = true := by
  have hcell := cellAt_of_resolve h row column
  constructor
  · intro hnone
    rw [hnone, Option.map_some, Option.map_eq_some_iff] at hcell
    obtain ⟨stamp, hstamp, hkind⟩ := hcell
    refine ⟨stamp, hstamp, ?_⟩
    by_contra hsupport
    rw [GateKind.ofCell, if_neg hsupport] at hkind
    cases hof : GateKind.ofStamp catalog stamp <;> rw [hof] at hkind <;> cases hkind
  · rintro ⟨stamp, hstamp, hsupport⟩
    rw [hstamp, Option.map_some, GateKind.ofCell, if_pos hsupport, eq_comm, Option.map_eq_some_iff] at hcell
    obtain ⟨cell, hcell, heq⟩ := hcell
    rw [hcell]
    cases heq
    rfl

theorem Template.Tiled.laid (ht : t.Tiled catalog) (h : t.resolve catalog = .ok rows) : Laid rows where
  apart {q r k kind kind'} hq hr hlt := by
    obtain ⟨above, habove, hkind⟩ := (cellAt_eq_gate_iff h).mp hq
    obtain ⟨stamp, hstamp, hkind'⟩ := (cellAt_eq_gate_iff h).mp hr
    by_contra hcover
    have hsupport := (ht r k stamp hstamp).mpr ⟨q, above, kind, habove, hkind, hlt, by omega⟩
    rw [GateKind.isSupport_of_ofStamp hkind'] at hsupport
    cases hsupport
  reached {r k} hnone := by
    obtain ⟨stamp, hstamp, hsupport⟩ := (cellAt_eq_support_iff h).mp hnone
    obtain ⟨q, above, kind, habove, hkind, hlt, hle⟩ := (ht r k stamp hstamp).mp hsupport
    exact ⟨q, kind, (cellAt_eq_gate_iff h).mpr ⟨above, habove, hkind⟩, hlt, hle⟩

end Resolve

/-! ### Placing the rows -/

section Placing

open Grid (Before)

variable {K : Type} [Coordinate K] {P : GateKind → Prop} {rows : List (List (Option GateKind))} {e : Circuit K}
  {i j : Nat}

/-- A circuit into which the gates before row `i` and column `j` were put, each of them in its own column. -/
structure Filled (P : GateKind → Prop) (rows : List (List (Option GateKind))) (e : Circuit K) (i j : Nat) : Prop where
  intact : e.Intact P []
  length : rows.length ≤ (gridOf e.wires).rows
  columns : j ≤ (gridOf e.wires).columns
  reach : ∀ {q k kind}, cellAt rows q k = some (some kind) → Before i j q k → k < (gridOf e.wires).columns
  /-- A cell that is not yet done shows nothing, unless one of these gates covers it. -/
  free : ∀ {r k}, ¬Before i j r k →
    (∀ q kind, cellAt rows q k = some (some kind) → Before i j q k → q + kind.span ≤ r) →
    (gridOf e.wires).mark r k = none

theorem lt_length_of_cellAt {cell : Option GateKind} (h : cellAt rows i j = some cell) : i < rows.length := by
  obtain ⟨kinds, hkinds, -⟩ := Option.bind_eq_some_iff.mp h
  exact (List.getElem?_eq_some_iff.mp hkinds).1

namespace Filled

/-- The gate of the cell in turn finds its cells free. -/
theorem place (h : Filled P rows e i j) (hl : Laid rows) {kind : GateKind} (hcell : cellAt rows i j = some (some kind))
    (hP : P kind) (hkind : ∀ p, kind ≠ .support p) :
    Filled P rows ((e.newGate kind).2.attachAt (e.newGate kind).1 i j) i (j + 1) := by
  have hrow : i < (gridOf e.wires).rows := Nat.lt_of_lt_of_le (lt_length_of_cellAt hcell) h.length
  have hmark := Grid.mark_openColumn (fun r k hk => h.intact.shows.mark_of_columns_le r hk) j
  have hbefore : ∀ {r k}, Before i (j + 1) r k ↔ Before i j r k ∨ r = i ∧ k = j := Grid.Traced.before_succ
  have hfree : ((gridOf e.wires).openColumn false j).Free i j kind.span := by
    intro r hle hlt
    rw [hmark]
    refine h.free ?_ fun q kind' hq hb => ?_
    · rintro (hlt | ⟨rfl, hlt⟩) <;> omega
    · have hqi : q < i := by
        rcases hb with hb | ⟨-, hb⟩ <;> omega
      exact Nat.le_trans (hl.apart hq hcell hqi) hle
  have hshow :=
    (shows_attachAt (c := (e.newGate kind).2) h.intact.shows (e.newGate kind).1 hrow h.columns hfree).eq_gridOf
  have hcolumns : (gridOf e.wires).columns ≤ ((gridOf e.wires).openColumn false j).columns ∧
      j < ((gridOf e.wires).openColumn false j).columns := by
    have := h.columns
    unfold Grid.openColumn
    split
    · exact ⟨Nat.le_succ _, Nat.lt_succ_of_le this⟩
    · rename_i hopen
      simp only [Bool.false_or, beq_iff_eq] at hopen
      exact ⟨Nat.le_refl _, by omega⟩
  refine ⟨(h.intact.newGate kind).attachAt hP hkind hrow h.columns hfree, ?_, ?_, ?_, ?_⟩
  · rw [hshow]
    exact Nat.le_trans h.length (Nat.le_trans (Nat.le_of_eq (Grid.rows_openColumn ..).symm) (Nat.le_max_left _ _))
  · rw [hshow]
    exact hcolumns.2
  · intro q k kind' hq hb
    rw [hshow]
    rcases hbefore.mp hb with hb | ⟨rfl, rfl⟩
    · exact Nat.lt_of_lt_of_le (h.reach hq hb) hcolumns.1
    · exact hcolumns.2
  · intro r k hb hdone
    have hb : ¬(Before i j r k ∨ r = i ∧ k = j) := fun hb' => hb (hbefore.mpr hb')
    rw [not_or] at hb
    have hpast := h.free hb.1 fun q kind' hq hbq => hdone q kind' hq (hbefore.mpr (.inl hbq))
    rw [hshow]
    simp only [Grid.put, hmark, hpast]
    split
    · rename_i hk
      subst hk
      have hspan := hdone i kind hcell (hbefore.mpr (.inr ⟨rfl, rfl⟩))
      rw [if_neg fun hr => hb.2 ⟨hr, rfl⟩, if_neg]
      rintro ⟨-, hlt⟩
      exact absurd hlt (Nat.not_lt.mpr hspan)
    · rfl

/-- A support is passed over. It has its column, by the gate that it belongs to. -/
theorem skip (h : Filled P rows e i j) (hl : Laid rows) (hcell : cellAt rows i j = some none) :
    Filled P rows e i (j + 1) := by
  have hsame : ∀ {q k kind}, cellAt rows q k = some (some kind) → Before i (j + 1) q k → Before i j q k := by
    intro q k kind hq hb
    rcases Grid.Traced.before_succ.mp hb with hb | ⟨rfl, rfl⟩
    · exact hb
    · rw [hcell] at hq
      cases hq
  obtain ⟨q, kind, hq, hlt, -⟩ := hl.reached hcell
  refine ⟨h.intact, h.length, h.reach hq (.inl hlt), fun hq hb => h.reach hq (hsame hq hb), fun hb hdone => ?_⟩
  exact h.free (fun hb' => hb (Grid.Traced.before_succ.mpr (.inl hb'))) fun q kind hq hbq =>
    hdone q kind hq (Grid.Traced.before_succ.mpr (.inl hbq))

/-- The rest of a row is placed. -/
theorem placeRow (h : Filled P rows e i j) (hl : Laid rows) (kinds : List (Option GateKind))
    (hcells : ∀ t, kinds[t]? = cellAt rows i (j + t))
    (hP : ∀ kind, some kind ∈ kinds → P kind ∧ ∀ p, kind ≠ .support p) :
    Filled P rows (e.placeRow i j kinds) i (j + kinds.length) := by
  induction kinds generalizing e j with
  | nil => exact h
  | cons cell kinds ih =>
    have hcell : cellAt rows i j = some cell := (hcells 0).symm
    have hcells' : ∀ t, kinds[t]? = cellAt rows i (j + 1 + t) := by
      intro t
      rw [show j + 1 + t = j + (t + 1) by omega, ← hcells (t + 1), List.getElem?_cons_succ]
    have hP' : ∀ kind, some kind ∈ kinds → P kind ∧ ∀ p, kind ≠ .support p :=
      fun kind hk => hP kind (List.mem_cons_of_mem _ hk)
    rw [List.length_cons, show j + (kinds.length + 1) = j + 1 + kinds.length by omega]
    cases cell with
    | none => exact ih (h.skip hl hcell) hcells' hP'
    | some kind =>
      obtain ⟨hp, hkind⟩ := hP kind List.mem_cons_self
      exact ih (h.place hl hcell hp hkind) hcells' hP'

/-- A row is done when its last cell is. -/
theorem next_row {kinds : List (Option GateKind)} (h : Filled P rows e i kinds.length) (hrow : rows[i]? = some kinds) :
    Filled P rows e (i + 1) 0 := by
  have hsame : ∀ {q k kind}, cellAt rows q k = some (some kind) → Before (i + 1) 0 q k → Before i kinds.length q k := by
    intro q k kind hq hb
    rcases hb with hb | ⟨-, hb⟩
    · rcases Nat.lt_succ_iff_lt_or_eq.mp hb with hb | rfl
      · exact .inl hb
      · rw [cellAt, hrow, Option.bind_some] at hq
        exact .inr ⟨rfl, (List.getElem?_eq_some_iff.mp hq).1⟩
    · exact absurd hb (Nat.not_lt_zero k)
  refine ⟨h.intact, h.length, Nat.zero_le _, fun hq hb => h.reach hq (hsame hq hb), fun {r k} hb hdone => ?_⟩
  refine h.free (fun hb' => hb (.inl ?_)) fun q kind hq hbq => hdone q kind hq (.inl ?_)
  · rcases hb' with hlt | ⟨rfl, -⟩ <;> omega
  · rcases hbq with hlt | ⟨rfl, -⟩ <;> omega

theorem placeRows (preserved : Parts) (hl : Laid rows)
    (hP : ∀ {r k kind}, cellAt rows r k = some (some kind) → P kind ∧ ∀ p, kind ≠ .support p)
    (todo : List (WireRecord × List (Option GateKind))) (h : Filled P rows e i 0)
    (htodo : ∀ t, (todo[t]?).map Prod.snd = rows[i + t]?) :
    Filled P rows (placeRows preserved e i todo) (i + todo.length) 0 := by
  induction todo generalizing e i with
  | nil => exact h
  | cons row todo ih =>
    obtain ⟨r, kinds⟩ := row
    have hrow : rows[i]? = some kinds := (htodo 0).symm
    have hmodify := h.intact.modifyWire (f := fun w => w.dressed r preserved) (fun _ => rfl) (fun _ => rfl)
      (fun _ => rfl) i
    have hgrid : gridOf (e.modifyWire i fun w => w.dressed r preserved).wires = gridOf e.wires :=
      gridOf_congr (map_modify_of_eq (g := fun w => w.dressed r preserved) (fun _ => rfl) e.wires i)
    have hdressed : Filled P rows (e.modifyWire i fun w => w.dressed r preserved) i 0 :=
      ⟨hmodify, hgrid ▸ h.length, Nat.zero_le _, hgrid ▸ h.reach, hgrid ▸ h.free⟩
    have hplaced := hdressed.placeRow hl kinds (fun t => ?_) fun kind hk => ?_
    · rw [Nat.zero_add] at hplaced
      rw [List.length_cons, show i + (todo.length + 1) = i + 1 + todo.length by omega]
      refine ih (hplaced.next_row hrow) fun t => ?_
      rw [show i + 1 + t = i + (t + 1) by omega, ← htodo (t + 1), List.getElem?_cons_succ]
    · rw [Nat.zero_add, cellAt, hrow, Option.bind_some]
    · obtain ⟨t, ht⟩ := List.getElem?_of_mem hk
      exact hP (r := i) (k := t) (by rw [cellAt, hrow, Option.bind_some, ht])

end Filled

end Placing

/-! ### Loading -/

section Loading

variable {K : Type} [Coordinate K] {d : Circuit K} {t : Template}

/-- A template is loaded if its stamps mean something. -/
theorem exists_restore_of_validate (h : t.validate d.catalog = .ok ()) (preserved : Parts) :
    ∃ e, d.restore t preserved = .ok e ∧ d.Restored t preserved e := by
  obtain ⟨rows, hrows, -⟩ := exists_of_map h
  exact ⟨_, restore_eq hrows preserved, restored_of_restore (restore_eq hrows preserved)⟩

/-- A template whose supports are where its gates reach is loaded into a well-formed circuit. -/
theorem exists_restore_tiled (h : t.validate d.catalog = .ok ()) (ht : t.Tiled d.catalog) (preserved : Parts) :
    ∃ e : Circuit K, d.restore t preserved = .ok e.refresh ∧ e.Intact (GateKind.Known d.catalog) [] ∧
      e.catalog = d.catalog ∧ e.settings = d.settings.dressed t preserved ∧
      e.undos = (if preserved.history then d.undos else t.undos.getD d.undos) ∧
      e.redos = (if preserved.history then d.redos else t.redos.getD d.redos) := by
  obtain ⟨rows, hrows, -⟩ := exists_of_map h
  have hlength : t.wires.length = rows.length := length_of_mapM hrows
  have hknown : ∀ {r k kind}, cellAt rows r k = some (some kind) →
      kind.Known d.catalog ∧ ∀ p, kind ≠ .support p := by
    intro r k kind hcell
    obtain ⟨stamp, -, hkind⟩ := (cellAt_eq_gate_iff hrows).mp hcell
    have hknown := GateKind.known_of_ofStamp hkind
    refine ⟨hknown, ?_⟩
    rintro p rfl
    exact GateKind.not_known_support _ p hknown
  -- Empty wires hold no gate.
  obtain ⟨hempty, hrest, -⟩ := replay_empty (GateKind.Known d.catalog) d ⟨rows.length, 0, fun _ _ => none⟩
  have hstart : Filled (GateKind.Known d.catalog) rows (d.stripped.addWires rows.length) 0 0 := by
    refine ⟨⟨hempty.sound, hempty.collapsed⟩, Nat.le_of_eq hempty.traced.rows.symm, Nat.zero_le _, fun _ hb => ?_,
      fun {r k} hb _ => hempty.traced.rest hb fun hq _ _ _ => ?_⟩
    · rcases hb with hb | ⟨-, hb⟩ <;> exact absurd hb (Nat.not_lt_zero _)
    · cases hq
  have htodo : ∀ i, ((t.wires.zip rows)[i]?).map Prod.snd = rows[0 + i]? := by
    intro i
    rw [Nat.zero_add, ← List.getElem?_map, List.map_snd_zip (Nat.le_of_eq hlength.symm)]
  have hdone := hstart.placeRows preserved (ht.laid hrows) hknown _ htodo
  have hall := hrest.trans (rest_placeRows preserved (d.stripped.addWires rows.length) 0 (t.wires.zip rows))
  generalize hb : Circuit.placeRows preserved (d.stripped.addWires rows.length) 0 (t.wires.zip rows) = b at hdone hall
  refine ⟨b.completed t preserved, ?_, hdone.intact.congr rfl rfl, hall.catalog, ?_, ?_, ?_⟩
  · rw [restore_eq hrows, hlength, hb]
  · show b.settings.dressed t preserved = _
    rw [hall.settings]
  · show (if preserved.history then b.undos else _) = _
    rw [hall.undos]
  · show (if preserved.history then b.redos else _) = _
    rw [hall.redos]

omit [Coordinate K] in
theorem Circuit.stamp?_capture (c : Circuit K) (parts : Parts) (row column : Nat) :
    (c.capture parts).stamp? row column = (c.cell? row column).map fun g => g.kind.stamp := by
  unfold Template.stamp? capture cell?
  simp only [List.getElem?_map]
  cases c.wires[row]? with
  | none => rfl
  | some w => simp [Wire.record]

/-- Supports stand in the templates of a consistent circuit where its gates reach. -/
theorem Circuit.Consistent.tiled_capture {c : Circuit K} {catalog : Catalog} (hc : c.Consistent)
    (hk : Resolves catalog c.wires) (parts : Parts) : (c.capture parts).Tiled catalog := by
  have hknown : ∀ {r k g}, c.cell? r k = some g → (∀ p, g.kind ≠ .support p) → g.kind.Known catalog := by
    intro r k g hg hne
    obtain ⟨w, hw, hcell⟩ := Option.bind_eq_some_iff.mp hg
    exact hk w (List.mem_of_getElem? hw) g (List.mem_of_getElem? hcell) hne
  intro row column stamp hstamp
  rw [stamp?_capture, Option.map_eq_some_iff] at hstamp
  obtain ⟨s, hs, rfl⟩ := hstamp
  constructor
  · intro hsupport
    by_cases hkind : ∃ p, s.kind = .support p
    · obtain ⟨p, hp⟩ := hkind
      obtain ⟨q, k, g, hg, rfl⟩ := hc.parents hs hp
      obtain ⟨rfl, hlt, hreach⟩ := (hc.supports hg row column).mp ⟨s, hs, hp⟩
      have hne : ∀ p, g.kind ≠ .support p := fun p hp => by
        unfold Gate.span at hreach
        rw [hp] at hreach
        exact absurd hreach (Nat.not_lt.mpr hlt)
      exact ⟨q, g.kind.stamp, g.kind, by rw [stamp?_capture, hg]; rfl, hknown hg hne, hlt, hreach⟩
    · have hfree := (hknown hs fun p hp => hkind ⟨p, hp⟩).isSupport_stamp
      rw [hfree] at hsupport
      cases hsupport
  · rintro ⟨q, above, kind, habove, hmeans, hlt, hreach⟩
    rw [stamp?_capture, Option.map_eq_some_iff] at habove
    obtain ⟨g, hg, rfl⟩ := habove
    have hne : ∀ p, g.kind ≠ .support p := fun p hp => by
      have hstart := GateKind.isSupport_of_ofStamp hmeans
      rw [hp, GateKind.isSupport_stamp_support] at hstart
      cases hstart
    obtain rfl : g.kind = kind := Except.ok.inj ((hknown hg hne).symm.trans hmeans)
    obtain ⟨s', hs', hp⟩ := (hc.supports hg row column).mpr ⟨rfl, hlt, hreach⟩
    obtain rfl := Option.some.inj (hs.symm.trans hs')
    rw [hp]
    exact GateKind.isSupport_stamp_support g.id

/-- In the circuit that is loaded all wires have the same length, and a support stands in a cell if and only if a gate
    above it in its column reaches there. -/
theorem consistent_restore (h : t.validate d.catalog = .ok ()) (ht : t.Tiled d.catalog) (preserved : Parts) :
    ∃ e : Circuit K, d.restore t preserved = .ok e ∧ (∀ v ∈ e.wires, ∀ w ∈ e.wires, v.cells.length = w.cells.length) ∧
      ∀ r k p, (∃ s, e.cell? r k = some s ∧ s.kind = .support p) ↔
        ∃ q g, e.cell? q k = some g ∧ g.id = p ∧ q < r ∧ r < q + g.span := by
  obtain ⟨e, he, hintact, -⟩ := exists_restore_tiled h ht preserved
  have hc := hintact.refresh.wellFormed.toConsistent
  refine ⟨e.refresh, he, hc.aligned, fun r k p => ⟨?_, ?_⟩⟩
  · rintro ⟨s, hs, hkind⟩
    obtain ⟨q, k', g, hg, rfl⟩ := hc.parents hs hkind
    obtain ⟨rfl, hlt, hle⟩ := (hc.supports hg r k).mp ⟨s, hs, hkind⟩
    exact ⟨q, g, hg, rfl, hlt, hle⟩
  · rintro ⟨q, g, hg, rfl, hlt, hle⟩
    exact (hc.supports hg r k).mpr ⟨rfl, hlt, hle⟩

end Loading

/-- A gate on two wires between rows of other lengths. -/
def raggedTemplate : Template where
  wires := [{ stamps := ["h"] }, { stamps := ["cg1", "inertia", "x"] }, { stamps := ["supp", "swap"] },
    { stamps := [] }]

theorem consistent_restore_ragged :
    ∃ e, tripleStart.restore raggedTemplate .none = .ok e ∧
      (∀ v ∈ e.wires, ∀ w ∈ e.wires, v.cells.length = w.cells.length) ∧
      ∀ r k p, (∃ s, e.cell? r k = some s ∧ s.kind = .support p) ↔
        ∃ q g, e.cell? q k = some g ∧ g.id = p ∧ q < r ∧ r < q + g.span :=
  consistent_restore rfl (by decide) .none

/-- A gate that another one covers. -/
def shadowedTemplate : Template where
  wires := [{ stamps := ["cg1"] }, { stamps := ["h"] }]

/-- The gate takes the place of the support, which is no longer in the column of its parent, and its wire is longer than
    the other one. -/
theorem restore_shadowed :
    shadowedTemplate.validate pairCatalog = .ok () ∧
      ∃ e, ({ ofSettings {} with catalog := pairCatalog } : Circuit Rat).restore shadowedTemplate .none = .ok e ∧
        (e.wires.map fun w => w.cells.map fun g => (g.id, g.kind)) =
          [[(⟨0⟩, .custom "cg1" 2)], [(⟨4⟩, .standard .h), (⟨3⟩, .support ⟨0⟩)]] :=
  ⟨rfl, _, rfl, by decide⟩

end CircuitDesigner
