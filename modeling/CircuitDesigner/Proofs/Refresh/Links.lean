import CircuitDesigner.Layout
import Mathlib.Data.List.Sort
import Mathlib.Order.Bounds.Basic

/-! The links of a column.

    A control is linked to the first and to the last generic gate of its column, as far as they are on its two sides.
    That is less than a link to each generic gate, but the links of all controls overlap: together they cover the rows
    from the topmost control or generic gate down to the bottommost one, and no others (`covered_iff`). Two swaps are
    linked, any other number is not. -/

namespace CircuitDesigner

/-! ### Ascending lists -/

section Ascending

variable {l : List Nat} {a b : Nat}

theorem head?_eq_some_iff_isLeast (h : l.Pairwise (· < ·)) : l.head? = some a ↔ IsLeast {r | r ∈ l} a := by
  cases l with
  | nil => simp [IsLeast]
  | cons b l =>
    have hleast : IsLeast {r | r ∈ b :: l} b := ⟨List.mem_cons_self, fun r hr => by
      rcases List.mem_cons.mp hr with rfl | hr
      · exact le_rfl
      · exact (List.rel_of_pairwise_cons h hr).le⟩
    rw [List.head?_cons, Option.some_inj]
    exact ⟨fun heq => heq ▸ hleast, hleast.unique⟩

theorem getLast?_eq_some_iff_isGreatest (h : l.Pairwise (· < ·)) :
    l.getLast? = some a ↔ IsGreatest {r | r ∈ l} a := by
  rcases List.eq_nil_or_concat' l with rfl | ⟨l, b, rfl⟩
  · simp [IsGreatest]
  · have hgreatest : IsGreatest {r | r ∈ l ++ [b]} b := ⟨List.mem_concat_self, fun r hr => by
      rcases List.mem_append.mp hr with hr | hr
      · exact ((List.pairwise_append.mp h).2.2 r hr b (List.mem_singleton_self b)).le
      · exact (List.mem_singleton.mp hr).le⟩
    rw [List.getLast?_concat, Option.some_inj]
    exact ⟨fun heq => heq ▸ hgreatest, hgreatest.unique⟩

/-- An ascending list with two entries. -/
theorem eq_pair_iff (h : l.Pairwise (· < ·)) : l = [a, b] ↔ a < b ∧ ∀ r, r ∈ l ↔ r = a ∨ r = b := by
  constructor
  · rintro rfl
    exact ⟨List.rel_of_pairwise_cons h List.mem_cons_self, fun r => by simp⟩
  · rintro ⟨hlt, hmem⟩
    exact h.eq_of_mem_iff (by simpa using hlt) fun r => by simp [hmem r]

end Ascending

namespace Layout

variable {K : Type} {ws : List (Wire K)} {column row first last : Nat} {ignored : Option GateId} {p : GateKind → Bool}
  {k : Connector}

/-- The cell of the row holds a gate of a sort, which is not the ignored one. -/
def Stands (p : GateKind → Bool) (ws : List (Wire K)) (column : Nat) (ignored : Option GateId) (row : Nat) : Prop :=
  ∃ w g, ws[row]? = some w ∧ w.cells[column]? = some g ∧ ignored ≠ some g.id ∧ p g.kind = true

theorem mem_rowsWith_iff : row ∈ rowsWith p ws column ignored ↔ Stands p ws column ignored row := by
  have hcell : ∀ (w : Wire K) g, cell? w column ignored = some g ↔ w.cells[column]? = some g ∧ ignored ≠ some g.id := by
    intro w g
    rw [cell?, Option.filter_eq_some_iff]
    simp [Gate.isGate, eq_comm (a := ignored)]
  simp only [rowsWith, List.mem_filter, List.mem_range, Option.any_eq_true, hcell, Stands]
  constructor
  · rintro ⟨-, w, hw, g, ⟨hg, hignored⟩, hp⟩
    exact ⟨w, g, hw, hg, hignored, hp⟩
  · rintro ⟨w, g, hw, hg, hignored, hp⟩
    exact ⟨(List.getElem?_eq_some_iff.mp hw).1, w, hw, g, ⟨hg, hignored⟩, hp⟩

instance (p : GateKind → Bool) (ws : List (Wire K)) (column : Nat) (ignored : Option GateId) (row : Nat) :
    Decidable (Stands p ws column ignored row) := decidable_of_iff _ mem_rowsWith_iff

theorem pairwise_rowsWith (p : GateKind → Bool) (ws : List (Wire K)) (column : Nat) (ignored : Option GateId) :
    (rowsWith p ws column ignored).Pairwise (· < ·) := List.pairwise_lt_range.filter _

theorem setOf_mem_rowsWith : {r | r ∈ rowsWith p ws column ignored} = {r | Stands p ws column ignored r} :=
  Set.ext fun _ => mem_rowsWith_iff

theorem head?_rowsWith_eq_some_iff :
    (rowsWith p ws column ignored).head? = some row ↔ IsLeast {r | Stands p ws column ignored r} row := by
  rw [head?_eq_some_iff_isLeast (pairwise_rowsWith p ws column ignored), setOf_mem_rowsWith]

theorem getLast?_rowsWith_eq_some_iff :
    (rowsWith p ws column ignored).getLast? = some row ↔ IsGreatest {r | Stands p ws column ignored r} row := by
  rw [getLast?_eq_some_iff_isGreatest (pairwise_rowsWith p ws column ignored), setOf_mem_rowsWith]

/-- A column with a generic gate has a first and a last one. -/
theorem exists_ends (h : Stands p ws column ignored row) : ∃ first last,
    IsLeast {r | Stands p ws column ignored r} first ∧ IsGreatest {r | Stands p ws column ignored r} last := by
  have hne : rowsWith p ws column ignored ≠ [] := List.ne_nil_of_mem (mem_rowsWith_iff.mpr h)
  exact ⟨_, _, head?_rowsWith_eq_some_iff.mp (List.head?_eq_some_head hne),
    getLast?_rowsWith_eq_some_iff.mp (List.getLast?_eq_some_getLast hne)⟩

/-- A generic gate is no control. -/
theorem Stands.ne {r s : Nat} (hr : Stands GateKind.isControl ws column ignored r)
    (hs : Stands GateKind.isGeneric ws column ignored s) : r ≠ s := by
  rintro rfl
  obtain ⟨w, g, hw, hg, -, hcontrol⟩ := hr
  obtain ⟨v, o, hv, ho, -, hgeneric⟩ := hs
  obtain rfl := Option.some.inj (hw.symm.trans hv)
  obtain rfl := Option.some.inj (hg.symm.trans ho)
  cases hkind : g.kind <;> simp [hkind, GateKind.isControl, GateKind.isGeneric] at hcontrol hgeneric

variable [Coordinate K]

/-- The connector joins the control of a row to the first generic gate of the column, which is above it, or to the last
    one, which is below it. It is classical if the wire of the control is classical there. -/
structure JoinsAt (ws : List (Wire K)) (column : Nat) (ignored : Option GateId) (k : Connector) (row : Nat) : Prop where
  control : Stands GateKind.isControl ws column ignored row
  order : k.start < k.stop
  ends : IsLeast {r | Stands GateKind.isGeneric ws column ignored r} k.start ∧ k.stop = row ∨
    k.start = row ∧ IsGreatest {r | Stands GateKind.isGeneric ws column ignored r} k.stop
  style : k.style ≠ .swap
  classical : k.style = .classical ↔ ∃ w, ws[row]? = some w ∧ w.bitAt column = true
  place : k.column = column

/-- The end that is no control is generic. -/
theorem JoinsAt.exists_generic (h : JoinsAt ws column ignored k row) :
    ∃ r, Stands GateKind.isGeneric ws column ignored r := by
  rcases h.ends with ⟨hstart, -⟩ | ⟨-, hstop⟩
  · exact ⟨_, hstart.1⟩
  · exact ⟨_, hstop.1⟩

theorem controlStyle_eq_iff {style : ConnectorStyle} : style = controlStyle ws column row ↔
    style ≠ .swap ∧ (style = .classical ↔ ∃ w, ws[row]? = some w ∧ w.bitAt column = true) := by
  rw [← Option.any_eq_true, controlStyle]
  cases style <;> split <;> simp [*]

theorem mem_controlConnectors_iff : k ∈ controlConnectors ws column first last row ↔
    k.column = column ∧ k.style = controlStyle ws column row ∧
      (k.start = first ∧ k.stop = row ∧ first < row ∨ k.start = row ∧ k.stop = last ∧ row < last) := by
  obtain ⟨column', start, stop, style⟩ := k
  simp only [controlConnectors, List.mem_append, List.mem_ite_nil_right, List.mem_singleton, Connector.mk.injEq]
  grind

theorem mem_controlConnectors_iff_joinsAt (hfirst : IsLeast {r | Stands GateKind.isGeneric ws column ignored r} first)
    (hlast : IsGreatest {r | Stands GateKind.isGeneric ws column ignored r} last)
    (hcontrol : Stands GateKind.isControl ws column ignored row) :
    k ∈ controlConnectors ws column first last row ↔ JoinsAt ws column ignored k row := by
  rw [mem_controlConnectors_iff, controlStyle_eq_iff]
  constructor
  · rintro ⟨hcolumn, ⟨hstyle, hclassical⟩, ⟨rfl, rfl, hlt⟩ | ⟨rfl, rfl, hlt⟩⟩
    · exact ⟨hcontrol, hlt, .inl ⟨hfirst, rfl⟩, hstyle, hclassical, hcolumn⟩
    · exact ⟨hcontrol, hlt, .inr ⟨rfl, hlast⟩, hstyle, hclassical, hcolumn⟩
  · rintro ⟨-, hlt, ⟨hstart, rfl⟩ | ⟨rfl, hstop⟩, hstyle, hclassical, hcolumn⟩
    · exact ⟨hcolumn, ⟨hstyle, hclassical⟩, .inl ⟨hstart.unique hfirst, rfl, hstart.unique hfirst ▸ hlt⟩⟩
    · exact ⟨hcolumn, ⟨hstyle, hclassical⟩, .inr ⟨rfl, hstop.unique hlast, hstop.unique hlast ▸ hlt⟩⟩

/-- The connectors of a column are those of its controls and those of its swaps. -/
theorem mem_connectors_iff : k ∈ (columnLinks ws column ignored).connectors ↔
    (∃ row, JoinsAt ws column ignored k row) ∨
      ∃ top bottom, top < bottom ∧ (∀ r, Stands GateKind.isSwap ws column ignored r ↔ r = top ∨ r = bottom) ∧
        k = ⟨column, top, bottom, .swap⟩ := by
  have hswaps : ∀ top bottom, rowsWith GateKind.isSwap ws column ignored = [top, bottom] ↔
      top < bottom ∧ ∀ r, Stands GateKind.isSwap ws column ignored r ↔ r = top ∨ r = bottom := fun top bottom => by
    simp only [eq_pair_iff (pairwise_rowsWith GateKind.isSwap ws column ignored), mem_rowsWith_iff]
  unfold columnLinks
  simp only [List.mem_append, ← and_assoc, ← hswaps]
  refine or_congr ?_ ?_
  · split
    · rename_i first last hfirst hlast
      rw [head?_rowsWith_eq_some_iff] at hfirst
      rw [getLast?_rowsWith_eq_some_iff] at hlast
      simp only [List.mem_flatMap, mem_rowsWith_iff]
      constructor
      · rintro ⟨row, hcontrol, hk⟩
        exact ⟨row, (mem_controlConnectors_iff_joinsAt hfirst hlast hcontrol).mp hk⟩
      · rintro ⟨row, hk⟩
        exact ⟨row, hk.control, (mem_controlConnectors_iff_joinsAt hfirst hlast hk.control).mpr hk⟩
    · rename_i hnone
      refine iff_of_false List.not_mem_nil fun ⟨row, hk⟩ => ?_
      obtain ⟨r, hr⟩ := hk.exists_generic
      obtain ⟨first, last, hfirst, hlast⟩ := exists_ends hr
      exact hnone first last (head?_rowsWith_eq_some_iff.mpr hfirst) (getLast?_rowsWith_eq_some_iff.mpr hlast)
  · split
    · rename_i top bottom heq
      simp [heq]
    · rename_i hpair
      exact iff_of_false List.not_mem_nil fun ⟨top, bottom, heq, _⟩ => hpair top bottom heq

/-! ### Rows that are covered -/

/-- Controls and generic gates. -/
def isJoined (kind : GateKind) : Bool := kind.isControl || kind.isGeneric

omit [Coordinate K] in
theorem stands_isJoined_iff : Stands isJoined ws column ignored row ↔
    Stands GateKind.isControl ws column ignored row ∨ Stands GateKind.isGeneric ws column ignored row := by
  simp only [Stands, isJoined, Bool.or_eq_true]
  constructor
  · rintro ⟨w, g, hw, hg, hignored, hkind | hkind⟩
    · exact .inl ⟨w, g, hw, hg, hignored, hkind⟩
    · exact .inr ⟨w, g, hw, hg, hignored, hkind⟩
  · rintro (⟨w, g, hw, hg, hignored, hkind⟩ | ⟨w, g, hw, hg, hignored, hkind⟩)
    · exact ⟨w, g, hw, hg, hignored, .inl hkind⟩
    · exact ⟨w, g, hw, hg, hignored, .inr hkind⟩

/-- Both ends are controls or generic gates. -/
theorem JoinsAt.stands_ends (h : JoinsAt ws column ignored k row) :
    Stands isJoined ws column ignored k.start ∧ Stands isJoined ws column ignored k.stop := by
  simp only [stands_isJoined_iff]
  rcases h.ends with ⟨hstart, hstop⟩ | ⟨hstart, hstop⟩
  · exact ⟨.inr hstart.1, .inl (hstop ▸ h.control)⟩
  · exact ⟨.inl (hstart ▸ h.control), .inr hstop.1⟩

/-- A control is linked to the first generic gate if that is above it, and to the last one if that is below it. -/
theorem exists_joinsAt (hcontrol : Stands GateKind.isControl ws column ignored row)
    (hfirst : IsLeast {r | Stands GateKind.isGeneric ws column ignored r} first)
    (hlast : IsGreatest {r | Stands GateKind.isGeneric ws column ignored r} last) :
    (first < row → ∃ k, JoinsAt ws column ignored k row ∧ k.start = first ∧ k.stop = row) ∧
      (row < last → ∃ k, JoinsAt ws column ignored k row ∧ k.start = row ∧ k.stop = last) := by
  have hjoins := fun k => mem_controlConnectors_iff_joinsAt (k := k) hfirst hlast hcontrol
  constructor
  · intro hlt
    exact ⟨⟨column, first, row, controlStyle ws column row⟩,
      (hjoins _).mp (mem_controlConnectors_iff.mpr ⟨rfl, rfl, .inl ⟨rfl, rfl, hlt⟩⟩), rfl, rfl⟩
  · intro hlt
    exact ⟨⟨column, row, last, controlStyle ws column row⟩,
      (hjoins _).mp (mem_controlConnectors_iff.mpr ⟨rfl, rfl, .inr ⟨rfl, rfl, hlt⟩⟩), rfl, rfl⟩

/-- The links of the controls leave no gap. -/
theorem covered_iff {top bottom control : Nat} (hcontrol : Stands GateKind.isControl ws column ignored control)
    (hfirst : IsLeast {r | Stands GateKind.isGeneric ws column ignored r} first)
    (hlast : IsGreatest {r | Stands GateKind.isGeneric ws column ignored r} last)
    (htop : IsLeast {r | Stands isJoined ws column ignored r} top)
    (hbottom : IsGreatest {r | Stands isJoined ws column ignored r} bottom) :
    (∃ k r, JoinsAt ws column ignored k r ∧ k.start ≤ row ∧ row ≤ k.stop) ↔ top ≤ row ∧ row ≤ bottom := by
  have hle : first ≤ last := hfirst.2 hlast.1
  constructor
  · rintro ⟨k, r, hk, hstart, hstop⟩
    exact ⟨(htop.2 hk.stands_ends.1).trans hstart, hstop.trans (hbottom.2 hk.stands_ends.2)⟩
  · rintro ⟨habove, hbelow⟩
    rcases Nat.lt_or_ge row first with hlt | hge
    · -- Above the generic gates the topmost control is linked to the last of them.
      have hcontrol := (stands_isJoined_iff.mp htop.1).resolve_right fun hgeneric => by
        have := hfirst.2 hgeneric
        omega
      obtain ⟨k, hk, hstart, hstop⟩ := (exists_joinsAt hcontrol hfirst hlast).2 (by omega)
      exact ⟨k, top, hk, by omega, by omega⟩
    rcases Nat.lt_or_ge last row with hgt | hle'
    · have hcontrol := (stands_isJoined_iff.mp hbottom.1).resolve_right fun hgeneric => by
        have := hlast.2 hgeneric
        omega
      obtain ⟨k, hk, hstart, hstop⟩ := (exists_joinsAt hcontrol hfirst hlast).1 (by omega)
      exact ⟨k, bottom, hk, by omega, by omega⟩
    -- Between the generic gates any control will do: it is linked over the row to the end on the other side.
    rcases Nat.lt_or_ge row control with hcontrol_gt | hcontrol_le
    · obtain ⟨k, hk, hstart, hstop⟩ := (exists_joinsAt hcontrol hfirst hlast).1 (by omega)
      exact ⟨k, control, hk, by omega, by omega⟩
    · have hne := hcontrol.ne hlast.1
      obtain ⟨k, hk, hstart, hstop⟩ := (exists_joinsAt hcontrol hfirst hlast).2 (by omega)
      exact ⟨k, control, hk, by omega, by omega⟩

/-- The connectors of a column that are none of swaps join a control each to the first or the last generic gate, and
    they are all that do. If the column has a control and a generic gate, they cover the rows from the topmost to the
    bottommost of these gates; else there are none. A connector of swaps joins two swaps that are the only ones of the
    column. -/
theorem columnLinks_covers (ws : List (Wire K)) (column : Nat) (ignored : Option GateId) :
    (∀ k, k ∈ (columnLinks ws column ignored).connectors ∧ k.style ≠ .swap ↔ ∃ row, JoinsAt ws column ignored k row) ∧
    ((∃ r, Stands GateKind.isControl ws column ignored r) ∧ (∃ r, Stands GateKind.isGeneric ws column ignored r) →
      ∃ top bottom, IsLeast {r | Stands isJoined ws column ignored r} top ∧
        IsGreatest {r | Stands isJoined ws column ignored r} bottom ∧
        ∀ row, (∃ k ∈ (columnLinks ws column ignored).connectors, k.style ≠ .swap ∧ k.start ≤ row ∧ row ≤ k.stop) ↔
          top ≤ row ∧ row ≤ bottom) ∧
    (¬((∃ r, Stands GateKind.isControl ws column ignored r) ∧ ∃ r, Stands GateKind.isGeneric ws column ignored r) →
      ∀ k ∈ (columnLinks ws column ignored).connectors, k.style = .swap) ∧
    ∀ k, k ∈ (columnLinks ws column ignored).connectors ∧ k.style = .swap ↔
      ∃ top bottom, top < bottom ∧ (∀ r, Stands GateKind.isSwap ws column ignored r ↔ r = top ∨ r = bottom) ∧
        k = ⟨column, top, bottom, .swap⟩ := by
  have hplain : ∀ k, k ∈ (columnLinks ws column ignored).connectors ∧ k.style ≠ .swap ↔
      ∃ row, JoinsAt ws column ignored k row := by
    intro k
    rw [mem_connectors_iff]
    constructor
    · rintro ⟨hk | ⟨top, bottom, -, -, rfl⟩, hstyle⟩
      · exact hk
      · exact absurd rfl hstyle
    · rintro ⟨row, hk⟩
      exact ⟨.inl ⟨row, hk⟩, hk.style⟩
  refine ⟨hplain, ?_, fun hnone k hk => ?_, fun k => ?_⟩
  · rintro ⟨⟨control, hcontrol⟩, generic, hgeneric⟩
    obtain ⟨first, last, hfirst, hlast⟩ := exists_ends hgeneric
    obtain ⟨top, bottom, htop, hbottom⟩ := exists_ends (stands_isJoined_iff.mpr (.inl hcontrol))
    refine ⟨top, bottom, htop, hbottom, fun row => ?_⟩
    rw [← covered_iff hcontrol hfirst hlast htop hbottom]
    simp only [← and_assoc, hplain, exists_and_right]
  · by_contra hstyle
    obtain ⟨row, hjoins⟩ := (hplain k).mp ⟨hk, hstyle⟩
    exact hnone ⟨⟨row, hjoins.control⟩, hjoins.exists_generic⟩
  · rw [mem_connectors_iff]
    constructor
    · rintro ⟨⟨row, hk⟩ | hk, hstyle⟩
      · exact absurd hstyle hk.style
      · exact hk
    · rintro ⟨top, bottom, hlt, hswaps, rfl⟩
      exact ⟨.inr ⟨top, bottom, hlt, hswaps, rfl⟩, rfl⟩

/-- Five wires with a second column of two swaps, a gate and two controls, of which the upper one is on a bit. -/
def linkedWires : List (Wire Rat) :=
  [{ id := ⟨0⟩, cells := [.inertia 0, { id := ⟨1⟩, kind := .swap }] },
    { id := ⟨1⟩, cells := [{ id := ⟨2⟩, kind := .measurement .off }, { id := ⟨3⟩, kind := .control .active }],
      pivot := some 0 },
    { id := ⟨2⟩, cells := [.inertia 4, { id := ⟨5⟩, kind := .standard .h }] },
    { id := ⟨3⟩, cells := [.inertia 6, { id := ⟨7⟩, kind := .swap }] },
    { id := ⟨4⟩, cells := [.inertia 8, { id := ⟨9⟩, kind := .control .anti }] }]

/-- The links of the controls cover all five rows, and the swaps are linked beside them. -/
theorem columnLinks_covers_linkedWires :
    (∀ row, (∃ k ∈ (columnLinks linkedWires 1 none).connectors, k.style ≠ .swap ∧ k.start ≤ row ∧ row ≤ k.stop) ↔
      row ≤ 4) ∧
    ⟨1, 0, 3, .swap⟩ ∈ (columnLinks linkedWires 1 none).connectors := by
  obtain ⟨-, hcovers, -, hswaps⟩ := columnLinks_covers linkedWires 1 none
  have hends : Stands GateKind.isControl linkedWires 1 none 4 ∧ Stands GateKind.isGeneric linkedWires 1 none 0 := by
    decide +kernel
  obtain ⟨top, bottom, htop, hbottom, hrows⟩ := hcovers ⟨⟨4, hends.1⟩, 0, hends.2⟩
  have htop : top ≤ 0 := htop.2 (stands_isJoined_iff.mpr (.inr hends.2))
  have hbottom' : 4 ≤ bottom := hbottom.2 (stands_isJoined_iff.mpr (.inl hends.1))
  obtain ⟨w, -, hw, -⟩ := hbottom.1
  have hlength : bottom < 5 := (List.getElem?_eq_some_iff.mp hw).1
  have hpair : ∀ r, Stands GateKind.isSwap linkedWires 1 none r ↔ r = 0 ∨ r = 3 := by
    have hrows : rowsWith GateKind.isSwap linkedWires 1 none = [0, 3] := by decide +kernel
    intro r
    rw [← mem_rowsWith_iff, hrows]
    simp
  refine ⟨fun row => ?_, ((hswaps _).mpr ⟨0, 3, by decide, hpair, rfl⟩).1⟩
  rw [hrows]
  omega

end Layout

end CircuitDesigner
