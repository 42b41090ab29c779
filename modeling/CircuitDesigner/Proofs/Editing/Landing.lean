import CircuitDesigner.Drag
import CircuitDesigner.Proofs.Editing.Basic
import Mathlib.Algebra.Order.Floor.Ring
import Mathlib.Data.Rat.Floor
import Mathlib.Tactic.Linarith

/-! Where gates land.

    Coordinates are exact rationals here. A pointer leads to a whole position only if the cells that the gate would
    cover are free, and to one between two columns otherwise; there a new column is made. Localizing looks at the cell
    itself and at the gates that show below it, not at covered cells: these are free because the gate that covers them
    would show (`free_of_localize`). -/

namespace CircuitDesigner

/-! ### Positions -/

namespace Coordinate

theorem column_le (p : Rat) (n : Nat) : column p n ≤ n := by
  unfold column
  split
  · exact Nat.le_refl n
  · rename_i h
    have hlt : p < (n : Rat) := by simpa [le, ofNat] using h
    have hceil : p.ceil ≤ (n : Int) := Rat.ceil_le_iff.mpr (by exact_mod_cast hlt.le)
    show p.ceil.toNat ≤ n
    omega

theorem column_natCast (k n : Nat) : column (k : Rat) n = min k n := by
  have hceil : ((k : Nat) : Rat).ceil = k := Rat.ceil_intCast k
  unfold column
  split
  · rename_i h
    have hle : (n : Rat) ≤ k := by simpa [le, ofNat] using h
    have : n ≤ k := by exact_mod_cast hle
    omega
  · rename_i h
    have hlt : (k : Rat) < n := by simpa [le, ofNat] using h
    have hlt : k < n := by exact_mod_cast hlt
    show ((k : Nat) : Rat).ceil.toNat = _
    rw [hceil]
    omega

theorem isWhole_natCast (k : Nat) : isWhole (k : Rat) = true := decide_eq_true (Rat.den_natCast k)

theorem isWhole_intCast_add_half (z : Int) : isWhole ((z : Rat) + 1 / 2) = false := by
  refine decide_eq_false fun hden => ?_
  have hnum := Rat.coe_int_num_of_den_eq_one hden
  have htwice : (2 * ((z : Rat) + 1 / 2).num : Rat) = 2 * z + 1 := by rw [hnum]; ring
  have htwice : 2 * ((z : Rat) + 1 / 2).num = 2 * z + 1 := by exact_mod_cast htwice
  omega

end Coordinate

/-! ### Free cells -/

section Free

variable {G : Grid} {row k n : Nat}

theorem Grid.free_openColumn {squeeze : Bool} {column : Nat} (h : squeeze = true ∨ column = G.columns) :
    (G.openColumn squeeze column).Free row column n := by
  intro r _ _
  rw [openColumn, if_pos (by simpa using h)]
  show (if column < column then _ else _) = none
  rw [if_neg (Nat.lt_irrefl column), if_pos rfl]

/-- The cells that a gate needs are free if its own is and no gate starts in the others. -/
theorem Grid.Spanned.free (h : G.Spanned) (hrow : G.mark row k = none)
    (hbelow : ∀ r, row < r → r < row + n → ∀ id kind, G.mark r k ≠ some (.gate id kind)) : G.Free row k n := by
  intro r hle hlt
  rcases Nat.eq_or_lt_of_le hle with rfl | hle
  · exact hrow
  · cases hm : G.mark r k with
    | none => rfl
    | some m => cases m with
      | gate id kind => exact absurd hm (hbelow r hle hlt id kind)
      | cover id =>
        obtain ⟨q, kind, hq, hqr, hmq⟩ := h.parent hm
        -- The gate that covers the cell starts above the row, so that it covers the free cell too.
        have hqrow : q < row := by
          by_contra hge
          rcases Nat.eq_or_lt_of_le (Nat.le_of_not_lt hge) with heq | hgt
          · rw [← heq, hrow] at hmq
            cases hmq
          · exact hbelow q hgt (by omega) id kind hmq
        rw [h.cover_of_lt hmq hqrow (by omega)] at hrow
        cases hrow

end Free

/-! ### Pointers -/

section Localize

variable {geometry : Geometry Rat} {wires : List (Wire Rat)} {g : Gate} {p : Pointer Rat} {target : Placement Rat}

theorem row?_lt {rows row : Nat} (h : p.row? geometry rows = some row) : row < rows := by
  unfold Pointer.row? at h
  split at h
  · rw [Pointer.findRow?_eq] at h
    have := List.mem_of_find?_eq_some h
    simp only [List.mem_range'_1] at this
    omega
  · cases h

/-- A positive offset is in a column. -/
theorem exists_floor_eq {offset step : Rat} (h : ¬(Coordinate.le offset (Coordinate.ofNat 0) = true ∨
    Coordinate.le step (Coordinate.ofNat 0) = true)) :
    ∃ k : Nat, (Coordinate.floor (offset / step) : Rat) = k ∧ Coordinate.toNat (k : Rat) = k := by
  have hpos : 0 < offset ∧ 0 < step := by simpa [Coordinate.le, Coordinate.ofNat] using h
  have hfloor : 0 ≤ (offset / step).floor := Rat.le_floor_iff.mpr (div_pos hpos.1 hpos.2).le
  obtain ⟨k, hk⟩ := Int.eq_ofNat_of_zero_le hfloor
  refine ⟨k, ?_, ?_⟩
  · show (((offset / step).floor : Int) : Rat) = k
    rw [hk]
    rfl
  · show ((k : Nat) : Rat).floor.toNat = k
    rw [show ((k : Nat) : Rat).floor = k from Rat.floor_intCast k]
    rfl

theorem isWhole_sub_half (k : Nat) : Coordinate.isWhole ((k : Rat) - Coordinate.half) = false := by
  have heq : (k : Rat) - Coordinate.half = ((k - 1 : Int) : Rat) + 1 / 2 := by
    show (k : Rat) - 1 / 2 = _
    push_cast
    ring
  rw [heq]
  exact Coordinate.isWhole_intCast_add_half _

/-- What a pointer leads to: a column in which the cells below it hold no other gate that shows, or a position beside a
    column. -/
theorem exists_of_localize (h : p.localize geometry wires g = some target) :
    target.row < wires.length ∧ ∃ k : Nat, Coordinate.isWhole target.position = false ∨
      target.position = k ∧ (∀ w, wires[target.row]? = some w → Pointer.isTaken g w k = false) ∧
        ∀ r w, target.row < r → r < target.row + g.span → wires[r]? = some w → Pointer.isShown w k = false := by
  unfold Pointer.localize at h
  obtain ⟨row, hrow, h⟩ := Option.bind_eq_some_iff.mp h
  dsimp only at h
  split at h
  · cases h
  · rename_i hpos
    generalize p.x - (geometry.left + geometry.wireOffset) = offset at h hpos
    obtain ⟨k, hindex, hcolumn⟩ := exists_floor_eq (by simpa only [Bool.or_eq_true] using hpos)
    rw [hindex, hcolumn] at h
    obtain rfl := Option.some.inj h
    refine ⟨row?_lt hrow, k, ?_⟩
    dsimp only
    split
    · exact .inl (isWhole_sub_half k)
    · rename_i hfree
      simp only [Bool.or_eq_true, not_or, Bool.not_eq_true] at hfree
      obtain ⟨⟨-, hshadow⟩, htaken⟩ := hfree
      refine .inr ⟨rfl, fun w hw => ?_, fun r w hr hr' hw => ?_⟩
      · rw [hw] at htaken
        exact htaken
      · refine Bool.eq_false_iff.mpr fun hshown => ?_
        rw [List.any_eq_false] at hshadow
        refine hshadow w ?_ hshown
        refine List.mem_of_getElem? (i := r - (row + 1)) ?_
        rw [List.getElem?_take, if_pos (by omega), List.getElem?_drop, ← hw]
        congr 1
        omega

variable {G : Grid} {r k : Nat}

/-- A cell that is not taken is free for a gate that is on no wire and covers no cell. -/
theorem mark?_of_isTaken {w : Wire Rat} (habsent : usesIn wires g.id = 0) (hw : wires[r]? = some w)
    (hcover : w.mark? k ≠ some (.cover g.id)) (htaken : Pointer.isTaken g w k = false) : w.mark? k = none := by
  unfold Wire.mark? at hcover ⊢
  cases ho : w.cells[k]? with
  | none => rfl
  | some o =>
    rw [ho, Option.bind_some] at hcover
    unfold Pointer.isTaken at htaken
    rw [ho, Option.any_some, Bool.not_eq_false', Bool.or_eq_true, Bool.or_eq_true] at htaken
    rw [Option.bind_some, Gate.mark?_eq_none_iff]
    rcases htaken with (hi | hsupport) | hid
    · exact hi
    · exact absurd (Gate.mark?_eq_cover_iff.mpr (beq_iff_eq.mp hsupport)) hcover
    · have h1 := Wire.uses_pos (List.mem_of_getElem? ho)
      have h2 := uses_le_usesIn (List.mem_of_getElem? hw) o.id
      rw [beq_iff_eq.mp hid] at h1 h2
      omega

theorem Shows.mark_of_isTaken (hG : Shows wires G) (hs : G.Spanned) (habsent : usesIn wires g.id = 0)
    (htaken : ∀ w, wires[r]? = some w → Pointer.isTaken g w k = false) : G.mark r k = none := by
  rw [← hG.marks]
  unfold markIn
  cases hw : wires[r]? with
  | none => rfl
  | some w =>
    refine mark?_of_isTaken habsent hw (fun hm => ?_) (htaken w hw)
    rw [← markIn_of_getElem? hw, hG.marks] at hm
    obtain ⟨q, kind, -, -, hq⟩ := hs.parent hm
    exact hG.lacks habsent q k kind hq

theorem Shows.not_gate_of_isShown (hG : Shows wires G) (hshown : ∀ w, wires[r]? = some w → Pointer.isShown w k = false)
    (id : GateId) (kind : GateKind) : G.mark r k ≠ some (.gate id kind) := by
  intro hm
  rw [← hG.marks] at hm
  obtain ⟨w, o, hw, ho, hmark⟩ := markIn_eq_some_iff.mp hm
  have hfree := hshown w hw
  unfold Pointer.isShown at hfree
  rw [ho, Option.any_some, (Gate.mark?_eq_gate_iff.mp hmark).2.2] at hfree
  cases hfree

/-- A gate that is on no wire lands in free cells. -/
theorem free_of_localize (hG : Shows wires G) (hs : G.Spanned) (habsent : usesIn wires g.id = 0)
    (h : p.localize geometry wires g = some target) :
    (G.openColumn (!Coordinate.isWhole target.position) (Coordinate.column target.position G.columns)).Free target.row
      (Coordinate.column target.position G.columns) g.span := by
  obtain ⟨-, k, hsqueeze | ⟨hk, htaken, hshown⟩⟩ := exists_of_localize h
  · exact Grid.free_openColumn (.inl (by rw [hsqueeze]; rfl))
  · rw [hk, Coordinate.column_natCast, Coordinate.isWhole_natCast]
    rcases Nat.lt_or_ge k G.columns with hlt | hge
    · rw [Nat.min_eq_left hlt.le, Bool.not_true, Circuit.openColumn_grid_eq_self hlt]
      refine hs.free (hG.mark_of_isTaken hs habsent htaken) fun r hr hr' => ?_
      exact hG.not_gate_of_isShown fun w hw => hshown r w hr hr' hw
    · rw [Nat.min_eq_right hge]
      exact Grid.free_openColumn (.inr rfl)

end Localize

/-! ### Placing -/

namespace Circuit

variable {P : GateKind → Prop} {hand : List GateId} {c : Circuit Rat} {g : Gate} {row : Nat}

theorem Sound.usesIn_hand {K : Type} {c : Circuit K} (h : c.Sound P (g.id :: hand)) : usesIn c.wires g.id = 0 := by
  have hcount : usesIn c.wires g.id + itself g.id g.id ≤ made 0 c.nextGate g.id := by
    have := h.numbered g.id
    rw [List.count_cons_self] at this
    rw [itself_self]
    omega
  exact usesIn_eq_zero hcount

/-- A gate in hand is placed at a position whose cells are free. -/
theorem Sound.exists_attach? (h : c.Sound P (g.id :: hand)) (hP : P g.kind) (hg : ∀ p, g.kind ≠ .support p)
    (hrow : row < c.wires.length) (position : Rat)
    (hfree : ((gridOf c.wires).openColumn (!Coordinate.isWhole position)
      (Coordinate.column position (gridOf c.wires).columns)).Free row
        (Coordinate.column position (gridOf c.wires).columns) g.span) :
    ∃ d, c.attach? g row position = some d ∧ Kept c d ∧ d.Sound P hand ∧
      gridOf d.wires = ((gridOf c.wires).openColumn (!Coordinate.isWhole position)
        (Coordinate.column position (gridOf c.wires).columns)).put g row
          (Coordinate.column position (gridOf c.wires).columns) := by
  have hk := c.kept_put g row (Coordinate.column position c.columns) (!Coordinate.isWhole position)
  refine ⟨_, ?_, hk, h.put hP hg hrow (Coordinate.column_le _ _) hfree,
    (shows_put h.shows g _ hrow (Coordinate.column_le _ _) hfree).eq_gridOf⟩
  unfold attach?
  rw [if_pos (by simpa [Coordinate.isNumber] using hrow)]

end Circuit

end CircuitDesigner
