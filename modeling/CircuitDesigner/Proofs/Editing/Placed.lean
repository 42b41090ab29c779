import CircuitDesigner.Proofs.Editing.Attach
import Mathlib.Algebra.Order.Floor.Ring
import Mathlib.Data.Rat.Floor

/-! All that placing a gate does to the cells, in room that is free or that is made for it.

    A new column is opened on all wires at once, so that each old cell keeps its row and its gate, and moves by one
    column if it was not before the new one (`moved`). The cells that the gate and its supports then take hold inertias.
    What is on the wires made on the way comes from the marks that the grid shows (`shows_put`); what is on the old ones
    is followed cell by cell, for an inertia or a support shows no number there. -/

namespace CircuitDesigner

open Circuit

/-! ### Positions -/

namespace Coordinate

theorem column_eq_ceil (position : Rat) (n : Nat) : column position n = ⌈min position n⌉.toNat := by
  unfold column
  split
  · rename_i h
    have hle : (n : Rat) ≤ position := by simpa [le, ofNat] using h
    rw [min_eq_right hle, Int.ceil_natCast, Int.toNat_natCast]
  · rename_i h
    have hlt : position < (n : Rat) := by simpa [le, ofNat] using h
    have hceil : position.ceil = ⌈position⌉ := eq_of_forall_ge_iff fun z => Rat.ceil_le_iff.trans Int.ceil_le.symm
    rw [min_eq_left hlt.le, ← hceil]
    rfl

theorem isWhole_iff {position : Rat} : isWhole position = true ↔ Int.fract position = 0 := by
  have hwhole : isWhole position = true ↔ position.den = 1 := decide_eq_true_iff
  rw [hwhole, Int.fract_eq_iff, Rat.den_eq_one_iff]
  constructor
  · exact fun h => ⟨le_rfl, zero_lt_one, position.num, by rw [h, sub_zero]⟩
  · rintro ⟨-, -, z, hz⟩
    rw [sub_zero] at hz
    rw [hz, Rat.num_intCast]

end Coordinate

/-! ### Grids -/

namespace Grid

variable {G : Grid}

theorem columns_openColumn (G : Grid) (squeeze : Bool) (column : Nat) :
    (G.openColumn squeeze column).columns = G.columns + (squeeze || column == G.columns).toNat := by
  unfold openColumn
  split
  · rename_i hopens
    rw [hopens]
    rfl
  · rename_i hcloses
    rw [Bool.eq_false_iff.mpr hcloses]
    rfl

theorem mark_openColumn_of_row {r : Nat} (h : ∀ k, G.mark r k = none) (squeeze : Bool) (column k : Nat) :
    (G.openColumn squeeze column).mark r k = none := by
  unfold openColumn insertColumn
  split
  · dsimp only
    rw [h, h, ite_self, ite_self]
  · exact h k

end Grid

variable {K : Type} [Coordinate K]

/-! ### Wires -/

section Wires

variable {w : Wire K} {ws : List (Wire K)} {column r k n : Nat}

/-- The wires differ in their cells and pivots only. -/
def Wire.SameBut (v w : Wire K) : Prop := { v with cells := w.cells, pivot := w.pivot } = w

theorem Wire.sameBut_place (w : Wire K) (g : Gate) (column : Nat) (overwrite : Bool) (next : Nat) :
    (w.place g column overwrite next).1.SameBut w := by
  unfold Wire.place
  dsimp only
  split <;> rfl

omit [Coordinate K] in
theorem Wire.SameBut.trans {u v w : Wire K} (h : u.SameBut v) (h' : v.SameBut w) : u.SameBut w := by
  unfold SameBut at *
  rw [← h', ← h]

omit [Coordinate K] in
theorem Wire.SameBut.id {v w : Wire K} (h : v.SameBut w) : v.id = w.id := by
  unfold SameBut at h
  rw [← h]

/-- A gate that goes before a cell moves it on, with all that is behind it. -/
theorem Wire.getElem?_place_false (h : column ≤ w.cells.length) (g : Gate) (next k : Nat) :
    (w.place g column false next).1.cells[moved true column k]? = w.cells[k]? := by
  rw [Wire.place_false, Nat.sub_eq_zero_of_le h]
  show ((w.cells ++ []).insertIdx column (g.ownedBy w.id))[moved true column k]? = _
  rw [List.append_nil]
  unfold moved
  by_cases hk : column ≤ k
  · rw [if_pos ⟨rfl, hk⟩, List.getElem?_insertIdx_of_gt (Nat.lt_succ_of_le hk)]
    rfl
  · rw [if_neg fun h => hk h.2, List.getElem?_insertIdx_of_lt (Nat.lt_of_not_le hk)]

/-- A gate that takes the place of an inertia leaves the other cells. -/
theorem Wire.getElem?_accepted_of_ne (h : column < w.cells.length) (hfree : w.mark? column = none) (hk : k ≠ column)
    (g : Gate) (next : Nat) : (w.accepted g column next).cells[k]? = w.cells[k]? := by
  unfold Wire.accepted
  rw [(Wire.any_isInertia_iff h).mpr hfree, Wire.place_true g next h]
  exact List.getElem?_set_ne hk.symm

theorem exists_openColumn (squeeze : Bool) (hw : ws[r]? = some w) (hlength : w.cells.length = n) (hcolumn : column ≤ n)
    (next : Nat) : ∃ v, (openColumn squeeze column ws next).1[r]? = some v ∧ v.SameBut w ∧
      ∀ k, v.cells[moved (squeeze || column == n) column k]? = w.cells[k]? := by
  obtain ⟨i, hv⟩ := getElem?_openColumn squeeze column ws next r
  rw [hw, Option.map_some, hlength, show decide (n ≤ column) = (column == n) by grind] at hv
  refine ⟨_, hv, ?_⟩
  cases squeeze || column == n with
  | true => exact ⟨w.sameBut_place _ _ _ _, w.getElem?_place_false (hlength ▸ hcolumn) _ _⟩
  | false => exact ⟨rfl, fun k => congrArg (w.cells[·]?) (moved_false column k)⟩

end Wires

/-! ### Circuits -/

namespace Circuit

variable {c d : Circuit K} {w : Wire K} {g : Gate} {row column r : Nat}

/-- The circuit `d` is `c` with a gate placed at a column, which is a new one of all wires if `opens`. -/
structure Placed (c d : Circuit K) (g : Gate) (row column : Nat) (opens : Bool) : Prop where
  /-- Wires are added at the bottom, as many as the gate needs. -/
  rows : d.wires.length = max c.wires.length (row + g.span)
  wires : ∀ {r : Nat} {w : Wire K}, c.wires[r]? = some w → ∃ v, d.wires[r]? = some v ∧ v.SameBut w
  aligned : ∀ w ∈ d.wires, w.cells.length = c.columns + opens.toNat
  gate : ∃ w, d.wires[row]? = some w ∧ w.cells[column]? = some (g.ownedBy w.id)
  supports : ∀ r, row < r → r < row + g.span → ∃ s, d.cell? r column = some s ∧ s.kind = .support g.id
  /-- An old cell that the gate does not take holds what it held. -/
  kept : ∀ {r k o}, c.cell? r k = some o → ¬(moved opens column k = column ∧ row ≤ r ∧ r < row + g.span) →
    d.cell? r (moved opens column k) = some o
  /-- A new cell that the gate does not take holds an inertia. -/
  fresh : ∀ {r k o}, d.cell? r k = some o → c.wires.length ≤ r ∨ opens = true ∧ k = column →
    ¬(k = column ∧ row ≤ r ∧ r < row + g.span) → o.isInertia = true

/-- What a gate that is put into free cells leaves of an old wire. -/
theorem exists_put {squeeze : Bool} (h : Shows c.wires (gridOf c.wires)) (hrow : row < c.wires.length)
    (hcolumn : column ≤ c.columns) (hfree : ((gridOf c.wires).openColumn squeeze column).Free row column g.span)
    (hw : c.wires[r]? = some w) :
    ∃ v, (c.put g row column squeeze).wires[r]? = some v ∧ v.SameBut w ∧
      (r = row → v.cells[column]? = some (g.ownedBy v.id)) ∧
      ∀ k, ¬(moved (squeeze || column == c.columns) column k = column ∧ row ≤ r ∧ r < row + g.span) →
        v.cells[moved (squeeze || column == c.columns) column k]? = w.cells[k]? := by
  have hrows : 0 < (gridOf c.wires).rows := Nat.lt_of_le_of_lt (Nat.zero_le row) hrow
  have hspan : 0 < g.span := g.kind.span_pos
  obtain ⟨hreaches, heq⟩ := put_openColumn h hrows hcolumn g row squeeze
  have hopen := h.openColumn squeeze hcolumn hrows c.nextGate
  obtain ⟨u, hu, hsame, hcells⟩ :=
    exists_openColumn squeeze hw (h.aligned w (List.mem_of_getElem? hw)) hcolumn c.nextGate
  have hlt : column < u.cells.length := hreaches u (List.mem_of_getElem? hu)
  obtain ⟨o, i, ho, hv⟩ := hreaches.getElem?_put hu g row
  rw [heq]
  refine ⟨_, hv, ?_⟩
  by_cases hin : row ≤ r ∧ r < row + g.span
  · rw [if_pos hin]
    have hvacant : u.mark? column = none := by
      rw [← markIn_of_getElem? hu, hopen.marks]
      exact hfree r hin.1 hin.2
    refine ⟨(u.sameBut_place _ _ _ _).trans hsame, fun hr => ?_, fun k hk => ?_⟩
    · rw [if_pos hr] at ho
      rw [ho, Wire.getElem?_accepted hlt, show (u.accepted g column i).id = u.id from (u.sameBut_place _ _ _ _).id]
    · rw [Wire.getElem?_accepted_of_ne hlt hvacant fun heq => hk ⟨heq, hin⟩]
      exact hcells k
  · rw [if_neg hin]
    exact ⟨hsame, fun hr => absurd ⟨hr.ge, by omega⟩ hin, fun k _ => hcells k⟩

theorem placed_put {squeeze : Bool} (h : Shows c.wires (gridOf c.wires)) (hrow : row < c.wires.length)
    (hcolumn : column ≤ c.columns) (hfree : ((gridOf c.wires).openColumn squeeze column).Free row column g.span) :
    c.Placed (c.put g row column squeeze) g row column (squeeze || column == c.columns) := by
  have hold := fun {r w} => exists_put (r := r) (w := w) h hrow hcolumn hfree
  have hput := shows_put h g squeeze hrow hcolumn hfree
  have hgrid := hput.eq_gridOf
  constructor
  case rows =>
    rw [hput.rows]
    show max ((gridOf c.wires).openColumn squeeze column).rows _ = _
    rw [Grid.rows_openColumn]
    rfl
  case wires =>
    intro r w hw
    obtain ⟨v, hv, hsame, -⟩ := hold hw
    exact ⟨v, hv, hsame⟩
  case aligned =>
    intro w hw
    rw [hput.aligned w hw]
    exact Grid.columns_openColumn _ squeeze column
  case gate =>
    obtain ⟨v, hv, -, hcell, -⟩ := hold (List.getElem?_eq_getElem hrow)
    exact ⟨v, hv, hcell rfl⟩
  case supports =>
    intro r hlt hlt'
    have hm : (gridOf (c.put g row column squeeze).wires).mark r column = some (.cover g.id) := by
      rw [hgrid]
      show (if column = column then _ else _) = _
      rw [if_pos rfl, if_neg hlt.ne', if_pos ⟨hlt, hlt'⟩]
    obtain ⟨s, hs, hmark⟩ := exists_cell?_of_mark hm
    exact ⟨s, hs, Gate.mark?_eq_cover_iff.mp hmark⟩
  case kept =>
    intro r k o ho hnot
    rw [cell?_eq_bind] at ho
    obtain ⟨w, hw, ho⟩ := Option.bind_eq_some_iff.mp ho
    obtain ⟨v, hv, -, -, hcells⟩ := hold hw
    rw [cell?_eq_bind, hv]
    exact (hcells k hnot).trans ho
  case fresh =>
    intro r k o ho hnew hnot
    rw [← Gate.mark?_eq_none_iff, ← mark_of_cell? ho, hgrid, Grid.mark_put_of_not hnot]
    rcases hnew with hr | ⟨hopens, rfl⟩
    · exact Grid.mark_openColumn_of_row (fun k => h.mark_of_rows_le hr k) squeeze column k
    · rw [Bool.or_eq_true, beq_iff_eq] at hopens
      exact Grid.free_openColumn (n := 1) hopens r le_rfl (Nat.lt_succ_self r)

end Circuit

/-- A gate finds room in a new column, before another one or at the end, and otherwise if the cells that it needs hold
    inertias as far as they are there. Then it is placed, and this is all that is done: each other cell of the circuit
    holds what it held, and each new one an inertia. -/
theorem attach_placed {c : Circuit Rat} {n : Nat} (hlength : ∀ w ∈ c.wires, w.cells.length = n) {g : Gate} {row : Nat}
    (hrow : row < c.wires.length) (position : Rat) {column : Nat} (hcolumn : column = ⌈min position n⌉.toNat)
    (hroom : Int.fract position ≠ 0 ∨ column = n ∨
      ∀ r o, row ≤ r → r < row + g.span → c.cell? r column = some o → o.isInertia = true) :
    ∃ d, c.attach? g row position = some d ∧
      c.Placed d g row column (decide (Int.fract position ≠ 0 ∨ column = n)) := by
  have hn : c.columns = n := columnsOf_eq hlength (List.ne_nil_of_length_pos (by omega))
  have hshows : Shows c.wires (gridOf c.wires) := shows_gridOf_iff.mpr fun w hw => (hlength w hw).trans hn.symm
  subst hn
  rw [← Coordinate.column_eq_ceil] at hcolumn
  subst hcolumn
  have hle := Coordinate.column_le position c.columns
  have hopens : decide (Int.fract position ≠ 0 ∨ Coordinate.column position c.columns = c.columns) =
      (!Coordinate.isWhole position || Coordinate.column position c.columns == c.columns) := by
    rw [Bool.eq_iff_iff, decide_eq_true_iff, ne_eq, ← Coordinate.isWhole_iff]
    simp
  rw [hopens]
  refine ⟨_, if_pos (by simpa [Coordinate.isNumber] using hrow), placed_put hshows hrow hle ?_⟩
  by_cases hnew : Int.fract position ≠ 0 ∨ Coordinate.column position c.columns = c.columns
  · rw [ne_eq, ← Coordinate.isWhole_iff, Bool.not_eq_true] at hnew
    exact Grid.free_openColumn (hnew.imp_left fun hwhole => by rw [hwhole]; rfl)
  · -- No column is opened, and what the cells hold is no more than inertias.
    push Not at hnew
    rw [Coordinate.isWhole_iff.mpr hnew.1, Bool.not_true, openColumn_grid_eq_self (Nat.lt_of_le_of_ne hle hnew.2)]
    intro r hr hr'
    by_contra hm
    obtain ⟨m, hm⟩ := Option.ne_none_iff_exists'.mp hm
    obtain ⟨o, ho, hmark⟩ := exists_cell?_of_mark hm
    have hinertia := (hroom.resolve_left (absurd hnew.1)).resolve_left hnew.2 r o hr hr' ho
    exact Bool.eq_false_iff.mp (Gate.isInertia_of_mark? hmark) hinertia

/-- A gate on two wires. -/
def doubleGate : Gate := { id := ⟨9⟩, kind := .custom "cg1" 2 }

/-- It goes into a new column on the last wire and a wire below it, or into a free column on the two wires there. -/
theorem attach_placed_double :
    (∃ d, singleDraft.attach? doubleGate 2 (-1 / 2) = some d ∧ singleDraft.Placed d doubleGate 2 0 true) ∧
      ∃ d, singleDraft.attach? doubleGate 1 0 = some d ∧ singleDraft.Placed d doubleGate 1 0 false := by
  have hlength : ∀ w ∈ singleDraft.wires, w.cells.length = 1 := by decide +kernel
  have hrow : 1 < singleDraft.wires.length ∧ 2 < singleDraft.wires.length := by decide +kernel
  have hcolumn : 0 = ⌈min (-1 / 2 : Rat) (1 : Nat)⌉.toNat ∧ 0 = ⌈min (0 : Rat) (1 : Nat)⌉.toNat := by decide +kernel
  have hopens : decide (Int.fract (-1 / 2 : Rat) ≠ 0 ∨ 0 = 1) = true ∧
      decide (Int.fract (0 : Rat) ≠ 0 ∨ 0 = 1) = false := by
    decide +kernel
  have hfree : ∀ r < 3, 1 ≤ r → ∀ o, singleDraft.cell? r 0 = some o → o.isInertia = true := by decide +kernel
  rw [← hopens.1, ← hopens.2]
  exact ⟨attach_placed hlength hrow.2 (-1 / 2) hcolumn.1 (.inl (of_decide_eq_true hopens.1 |>.resolve_right nofun)),
    attach_placed hlength hrow.1 0 hcolumn.2 (.inr (.inr fun r o hr hr' => hfree r hr' hr o))⟩

end CircuitDesigner
