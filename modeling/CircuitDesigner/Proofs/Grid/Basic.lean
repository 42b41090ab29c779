import CircuitDesigner.Circuit.Basic
import Mathlib.Tactic.ByContra
import Mathlib.Tactic.SplitIfs

/-! The grid that the cells of a circuit show.

    A cell shows a gate, or that a gate above covers it, or nothing. The numbers of inertias and supports do not
    show, so that the effect of an operation on the grid is an equation between two grids. The wires of a circuit
    show a grid when they have one length (`Shows`), and its supports are where they belong when the grid is
    `Spanned`: below each gate, as far down as it reaches, and nowhere else. -/

namespace CircuitDesigner

/-- What a cell shows. -/
inductive Mark where
  | gate (id : GateId) (kind : GateKind)
  /-- The cell is covered by that gate, which starts on a wire above. -/
  | cover (parent : GateId)
  deriving DecidableEq

/-- The gate that shows in the cell or covers it. -/
def Mark.owner : Mark → GateId
  | gate id _ => id
  | cover parent => parent

/-- The mark of a gate in its cell. An inertia leaves none. -/
def Gate.mark? (g : Gate) : Option Mark :=
  match g.kind with
  | .inertia => none
  | .support parent => some (.cover parent)
  | kind => some (.gate g.id kind)

theorem GateKind.isInertia_iff {kind : GateKind} : kind.isInertia = true ↔ kind = .inertia := by
  cases kind <;> simp [isInertia]

theorem Gate.mark?_eq_none_iff {g : Gate} : g.mark? = none ↔ g.isInertia = true := by
  unfold Gate.mark? Gate.isInertia GateKind.isInertia
  cases g.kind <;> simp

theorem Gate.isInertia_of_mark? {g : Gate} {m : Mark} (h : g.mark? = some m) : g.isInertia = false := by
  refine Bool.eq_false_iff.mpr fun hi => ?_
  rw [mark?_eq_none_iff.mpr hi] at h
  cases h

theorem Gate.mark?_eq_cover_iff {g : Gate} {p : GateId} : g.mark? = some (.cover p) ↔ g.kind = .support p := by
  unfold Gate.mark?
  cases g.kind <;> simp

theorem Gate.mark?_eq_gate_iff {g : Gate} {id : GateId} {kind : GateKind} :
    g.mark? = some (.gate id kind) ↔ g.id = id ∧ g.kind = kind ∧ g.kind.isPlaceholder = false := by
  unfold Gate.mark? GateKind.isPlaceholder
  cases hk : g.kind <;> simp

theorem Gate.mark?_congr {g h : Gate} (hid : g.id = h.id) (hkind : g.kind = h.kind) : g.mark? = h.mark? := by
  unfold Gate.mark?
  rw [hid, hkind]

theorem Gate.mark?_inertia (i : Nat) : (Gate.inertia i).mark? = none := rfl

theorem Gate.mark?_ownedBy (g : Gate) (w : WireId) : (g.ownedBy w).mark? = g.mark? := rfl

theorem GateKind.span_eq_one_of_isPlaceholder {kind : GateKind} (h : kind.isPlaceholder = true) : kind.span = 1 := by
  cases kind <;> simp [isPlaceholder] at h <;> rfl

theorem GateKind.ne_support {kind : GateKind} (h : kind.isPlaceholder = false) (p : GateId) : kind ≠ .support p := by
  rintro rfl
  cases h

/-! ### Grids -/

/-- Marks in rows and columns. -/
@[ext] structure Grid where
  rows : Nat
  columns : Nat
  mark : Nat → Nat → Option Mark

namespace Grid

variable {G : Grid}

/-- The cells that a gate of span `span` needs, from `row` down, show nothing. -/
def Free (G : Grid) (row column span : Nat) : Prop := ∀ r, row ≤ r → r < row + span → G.mark r column = none

/-- Every gate covers the cells below it as far as it reaches, and no other cell is covered. -/
structure Spanned (G : Grid) : Prop where
  covered : ∀ {r k d id kind}, G.mark r k = some (.gate id kind) → 0 < d → d < kind.span →
    G.mark (r + d) k = some (.cover id)
  parent : ∀ {r k id}, G.mark r k = some (.cover id) →
    ∃ q kind, q < r ∧ r < q + kind.span ∧ G.mark q k = some (.gate id kind)

/-- No two cells show the same gate. -/
def Unique (G : Grid) : Prop := ∀ {r k r' k' id kind kind'}, G.mark r k = some (.gate id kind) →
  G.mark r' k' = some (.gate id kind') → r = r' ∧ k = k'

/-- The kinds of all gates that show satisfy `P`. -/
def Each (G : Grid) (P : GateKind → Prop) : Prop := ∀ r k id kind, G.mark r k = some (.gate id kind) → P kind

/-- No cell shows the gate. -/
def Lacks (G : Grid) (i : GateId) : Prop := ∀ r k kind, G.mark r k ≠ some (.gate i kind)

/-- `H` is `G` without some of its marks. -/
structure Sub (H G : Grid) : Prop where
  rows : H.rows = G.rows
  columns : H.columns = G.columns
  marks : ∀ {r k m}, H.mark r k = some m → G.mark r k = some m

/-- A grid with `count` more rows at the bottom. -/
def addRows (G : Grid) (count : Nat) : Grid := { G with rows := G.rows + count }

/-- A grid with an empty column before `column`. -/
def insertColumn (G : Grid) (column : Nat) : Grid where
  rows := G.rows
  columns := G.columns + 1
  mark r k := if k < column then G.mark r k else if k = column then none else G.mark r (k - 1)

/-- A new column when one is asked for, or when `column` is the one after the last. -/
def openColumn (G : Grid) (squeeze : Bool) (column : Nat) : Grid :=
  if squeeze || column == G.columns then G.insertColumn column else G

/-- The column at `column` taken out. -/
def removeColumn (G : Grid) (column : Nat) : Grid where
  rows := G.rows
  columns := G.columns - 1
  mark r k := G.mark r (if k < column then k else k + 1)

/-- The row at `row` taken out. A grid without rows has no columns. -/
def removeRow (G : Grid) (row : Nat) : Grid where
  rows := G.rows - 1
  columns := if G.rows ≤ 1 then 0 else G.columns
  mark r k := G.mark (if r < row then r else r + 1) k

/-- The mark `m` at `row`, and marks of cells covered by `id` down to `span` rows. -/
def put (G : Grid) (g : Gate) (row column : Nat) : Grid where
  rows := max G.rows (row + g.span)
  columns := G.columns
  mark r k :=
    if k = column then
      if r = row then g.mark?
      else if row < r ∧ r < row + g.span then some (.cover g.id)
      else G.mark r k
    else G.mark r k

/-- The mark `m` in a cell. -/
def set (G : Grid) (row column : Nat) (m : Option Mark) : Grid :=
  { G with mark := fun r k => if r = row ∧ k = column then m else G.mark r k }

/-- The cells of `count` rows from `row` on covered by a gate, in new rows where there are none. -/
def cover (G : Grid) (parent : GateId) (column row count : Nat) : Grid where
  rows := if count = 0 then G.rows else max G.rows (row + count)
  columns := G.columns
  mark r k := if k = column ∧ row ≤ r ∧ r < row + count then some (.cover parent) else G.mark r k

/-- Nothing in the cells of a column that a gate covers. -/
def uncover (G : Grid) (parent : GateId) (column : Nat) : Grid :=
  { G with mark := fun r k => if k = column ∧ G.mark r k = some (.cover parent) then none else G.mark r k }

/-- Nothing in the cells of a gate of span `span` at `row` and `column`. -/
def clear (G : Grid) (row column span : Nat) : Grid :=
  { G with mark := fun r k => if k = column ∧ row ≤ r ∧ r < row + span then none else G.mark r k }

theorem rows_openColumn (G : Grid) (squeeze : Bool) (column : Nat) : (G.openColumn squeeze column).rows = G.rows := by
  unfold openColumn
  split <;> rfl

/-- Opening a column moves nothing, unless it goes before another one. -/
theorem mark_openColumn (hbound : ∀ r k, G.columns ≤ k → G.mark r k = none) (column r k : Nat) :
    (G.openColumn false column).mark r k = G.mark r k := by
  unfold openColumn
  split
  · rename_i hopen
    obtain rfl : column = G.columns := by simpa using hopen
    show (if k < G.columns then G.mark r k else if k = G.columns then none else G.mark r (k - 1)) = G.mark r k
    split
    · rfl
    · rw [hbound r k (by omega)]
      split
      · rfl
      · exact hbound r (k - 1) (by omega)
  · rfl

theorem addRows_addRows (G : Grid) (m n : Nat) : (G.addRows m).addRows n = G.addRows (m + n) := by
  unfold addRows
  rw [Nat.add_assoc]

theorem cover_zero (G : Grid) (parent : GateId) (column row : Nat) : G.cover parent column row 0 = G := by
  unfold cover
  ext1
  · rfl
  · rfl
  · dsimp only
    funext r k
    rw [if_neg (by omega)]

theorem cover_succ (G : Grid) (parent : GateId) (column row count : Nat) :
    (((G.addRows (row + 1 - G.rows)).set row column (some (.cover parent))).cover parent column (row + 1) count) =
      G.cover parent column row (count + 1) := by
  unfold cover set addRows
  ext1
  · dsimp only
    split <;> split <;> omega
  · rfl
  · dsimp only
    funext r k
    split_ifs <;> first | rfl | omega

/-- A gate is put by a mark and the cells it covers. -/
theorem cover_set (G : Grid) (g : Gate) {row column : Nat} (h : row < G.rows) :
    (G.set row column g.mark?).cover g.id column (row + 1) (g.span - 1) = G.put g row column := by
  have := GateKind.span_pos g.kind
  have hspan : 0 < g.span := this
  unfold cover set put
  ext1
  · dsimp only
    split <;> omega
  · rfl
  · dsimp only
    funext r k
    split_ifs <;> first | rfl | omega

theorem clear_one (G : Grid) (row column : Nat) : G.clear row column 1 = G.set row column none := by
  unfold clear set
  ext1
  · rfl
  · rfl
  · dsimp only
    funext r k
    split_ifs <;> first | rfl | omega

/-! ### Operations keep spans -/

theorem Spanned.disjoint (h : G.Spanned) {q r k : Nat} {i j : GateId} {kind kind' : GateKind}
    (hq : G.mark q k = some (.gate i kind)) (hr : G.mark r k = some (.gate j kind')) (hlt : q < r) :
    q + kind.span ≤ r := by
  by_contra hcover
  have := h.covered (d := r - q) hq (by omega) (by omega)
  rw [show q + (r - q) = r by omega, hr] at this
  cases this

theorem Spanned.addRows (h : G.Spanned) (count : Nat) : (G.addRows count).Spanned := ⟨h.covered, h.parent⟩

theorem Spanned.insertColumn (h : G.Spanned) (column : Nat) : (G.insertColumn column).Spanned where
  covered {r k d id kind} hm h0 hd := by
    simp only [Grid.insertColumn] at hm ⊢
    by_cases hlt : k < column
    · rw [if_pos hlt] at hm ⊢
      exact h.covered hm h0 hd
    · by_cases heq : k = column
      · rw [if_neg hlt, if_pos heq] at hm
        cases hm
      · rw [if_neg hlt, if_neg heq] at hm ⊢
        exact h.covered hm h0 hd
  parent {r k id} hm := by
    simp only [Grid.insertColumn] at hm ⊢
    by_cases hlt : k < column
    · simp only [if_pos hlt] at hm ⊢
      exact h.parent hm
    · by_cases heq : k = column
      · rw [if_neg hlt, if_pos heq] at hm
        cases hm
      · simp only [if_neg hlt, if_neg heq] at hm ⊢
        exact h.parent hm

theorem Spanned.openColumn (h : G.Spanned) (squeeze : Bool) (column : Nat) : (G.openColumn squeeze column).Spanned := by
  unfold Grid.openColumn
  split
  · exact h.insertColumn column
  · exact h

theorem Spanned.removeColumn (h : G.Spanned) (column : Nat) : (G.removeColumn column).Spanned :=
  ⟨fun hm h0 hd => h.covered hm h0 hd, fun hm => h.parent hm⟩

/-- A row that no gate crosses can be taken out. -/
theorem Spanned.removeRow (h : G.Spanned) {row : Nat} (hcover : ∀ k id, G.mark row k ≠ some (.cover id))
    (hspan : ∀ k id kind, G.mark row k = some (.gate id kind) → kind.span ≤ 1) : (G.removeRow row).Spanned where
  covered {r k d id kind} hm h0 hd := by
    simp only [Grid.removeRow] at hm ⊢
    have hbelow := h.covered hm h0 hd
    by_cases hr : r < row
    · rw [if_pos hr] at hm hbelow
      -- A gate that starts above the row and reaches it would cover a cell of it.
      have hd' : r + d < row := by
        by_contra hge
        have := h.covered (d := row - r) hm (by omega) (by omega)
        rw [show r + (row - r) = row by omega] at this
        exact hcover k id this
      rw [if_pos hd']
      exact hbelow
    · rw [if_neg hr] at hm hbelow
      rw [if_neg (by omega), show r + d + 1 = r + 1 + d by omega]
      exact hbelow
  parent {r k id} hm := by
    simp only [Grid.removeRow] at hm ⊢
    obtain ⟨q, kind, hq, hqr, hmq⟩ := h.parent hm
    by_cases hr : r < row
    · rw [if_pos hr] at hq hqr
      exact ⟨q, kind, hq, hqr, by rwa [if_pos (by omega)]⟩
    · rw [if_neg hr] at hq hqr
      by_cases hqrow : q < row
      · have := h.covered (d := row - q) hmq (by omega) (by omega)
        rw [show q + (row - q) = row by omega] at this
        exact absurd this (hcover k id)
      · by_cases heq : q = row
        · subst heq
          have := hspan k id kind hmq
          omega
        · refine ⟨q - 1, kind, by omega, by omega, ?_⟩
          rw [if_neg (by omega), show q - 1 + 1 = q by omega]
          exact hmq

/-- A gate put into free cells covers exactly its own. -/
theorem Spanned.put (h : G.Spanned) {g : Gate} {row column : Nat} (hfree : G.Free row column g.span)
    (hg : ∀ p, g.kind ≠ .support p) : (G.put g row column).Spanned where
  covered {r k d id kind} hm h0 hd := by
    simp only [Grid.put] at hm ⊢
    by_cases hk : k = column
    · subst hk
      simp only [if_true] at hm ⊢
      by_cases hr : r = row
      · subst hr
        simp only [if_true] at hm
        obtain ⟨rfl, rfl, -⟩ := Gate.mark?_eq_gate_iff.mp hm
        rw [if_neg (by omega), if_pos ⟨by omega, by unfold Gate.span; omega⟩]
      · rw [if_neg hr] at hm
        split at hm
        · cases hm
        · have hbelow := h.covered hm h0 hd
          have hout : ¬(row ≤ r + d ∧ r + d < row + g.span) := fun hin => by
            rw [hfree _ hin.1 hin.2] at hbelow
            cases hbelow
          rw [if_neg (by intro heq; have := GateKind.span_pos g.kind; unfold Gate.span at hout; omega),
            if_neg (by omega)]
          exact hbelow
    · rw [if_neg hk] at hm ⊢
      exact h.covered hm h0 hd
  parent {r k id} hm := by
    simp only [Grid.put] at hm ⊢
    by_cases hk : k = column
    · subst hk
      simp only [if_true] at hm ⊢
      by_cases hr : r = row
      · rw [if_pos hr] at hm
        exact absurd (Gate.mark?_eq_cover_iff.mp hm) (hg id)
      · rw [if_neg hr] at hm
        split at hm
        · rename_i hin
          cases hm
          refine ⟨row, g.kind, hin.1, hin.2, ?_⟩
          rw [if_pos rfl, Gate.mark?_eq_gate_iff]
          refine ⟨rfl, rfl, ?_⟩
          by_contra hplaceholder
          have := GateKind.span_eq_one_of_isPlaceholder (by simpa using hplaceholder)
          unfold Gate.span at hin
          omega
        · obtain ⟨q, kind, hq, hqr, hmq⟩ := h.parent hm
          refine ⟨q, kind, hq, hqr, ?_⟩
          have hout : ¬(row ≤ q ∧ q < row + g.span) := fun hin => by
            rw [hfree _ hin.1 hin.2] at hmq
            cases hmq
          rw [if_neg (by intro heq; have := GateKind.span_pos g.kind; unfold Gate.span at hout; omega),
            if_neg (by omega)]
          exact hmq
    · simp only [if_neg hk] at hm ⊢
      exact h.parent hm

theorem Spanned.cover_of_lt (h : G.Spanned) {row column r : Nat} {id : GateId} {kind : GateKind}
    (hm : G.mark row column = some (.gate id kind)) (hlt : row < r) (hle : r < row + kind.span) :
    G.mark r column = some (.cover id) := by
  have := h.covered (d := r - row) hm (by omega) (by omega)
  rwa [show row + (r - row) = r by omega] at this

theorem Spanned.uncover_set (h : G.Spanned) (hu : G.Unique) {row column : Nat} {id : GateId} {kind : GateKind}
    (hm : G.mark row column = some (.gate id kind)) :
    (G.set row column none).uncover id column = G.clear row column kind.span := by
  have hspan := kind.span_pos
  unfold uncover set clear
  ext1
  · rfl
  · rfl
  · dsimp only
    funext r k
    by_cases hcell : r = row ∧ k = column
    · obtain ⟨rfl, rfl⟩ := hcell
      have hlt : r < r + kind.span := by omega
      simp [hlt]
    · simp only [if_neg hcell]
      by_cases hcover : k = column ∧ G.mark r k = some (.cover id)
      · rw [if_pos hcover]
        obtain ⟨rfl, hcover⟩ := hcover
        obtain ⟨q, kind', hq, hqr, hmq⟩ := h.parent hcover
        obtain ⟨rfl, -⟩ := hu hm hmq
        rw [hm] at hmq
        cases hmq
        rw [if_pos ⟨rfl, by omega, hqr⟩]
      · rw [if_neg hcover, if_neg]
        rintro ⟨rfl, hle, hlt⟩
        exact hcover ⟨rfl, h.cover_of_lt hm (by omega) hlt⟩

/-- A gate leaves with the cells that it covers. -/
theorem Spanned.clear (h : G.Spanned) {row column : Nat} {id : GateId} {kind : GateKind}
    (hm : G.mark row column = some (.gate id kind)) : (G.clear row column kind.span).Spanned := by
  refine ⟨fun {r k d id' kind'} hm' h0 hd => ?_, fun {r k id'} hm' => ?_⟩
  · simp only [Grid.clear] at hm' ⊢
    split at hm'
    · cases hm'
    · rename_i hout
      have hbelow := h.covered hm' h0 hd
      rw [if_neg]
      · exact hbelow
      · rintro ⟨rfl, hlo, hhi⟩
        by_cases hrow : r < row
        · have := h.disjoint hm' hm hrow
          omega
        · exact hout ⟨rfl, by omega, by omega⟩
  · simp only [Grid.clear] at hm' ⊢
    split at hm'
    · cases hm'
    · rename_i hout
      obtain ⟨q, kind', hq, hqr, hmq⟩ := h.parent hm'
      refine ⟨q, kind', hq, hqr, ?_⟩
      rw [if_neg]
      · exact hmq
      · rintro ⟨rfl, hlo, hhi⟩
        by_cases hrow : q = row
        · subst hrow
          rw [hm] at hmq
          cases hmq
          exact hout ⟨rfl, by omega, by omega⟩
        · rw [h.cover_of_lt hm (by omega) hhi] at hmq
          cases hmq

/-! ### Fewer marks -/

section Sub

variable {H : Grid} {i : GateId}

theorem Sub.refl (G : Grid) : Sub G G := ⟨rfl, rfl, id⟩

theorem Sub.trans {F : Grid} (h : Sub F G) (h' : Sub G H) : Sub F H :=
  ⟨h.rows.trans h'.rows, h.columns.trans h'.columns, fun hm => h'.marks (h.marks hm)⟩

theorem Lacks.sub (h : G.Lacks i) (hH : H.Sub G) : H.Lacks i := fun r k kind hm => h r k kind (hH.marks hm)

theorem sub_clear (G : Grid) (row column span : Nat) : (G.clear row column span).Sub G where
  rows := rfl
  columns := rfl
  marks {r k m} hm := by
    simp only [clear] at hm
    split at hm
    · cases hm
    · exact hm

variable {row column : Nat} {id : GateId} {kind : GateKind}

theorem lacks_clear (hu : G.Unique) (hm : G.mark row column = some (.gate id kind)) :
    (G.clear row column kind.span).Lacks id := by
  intro r k kind' hm'
  obtain ⟨rfl, rfl⟩ := hu hm ((sub_clear G row column kind.span).marks hm')
  have hspan := kind.span_pos
  unfold clear at hm'
  dsimp only at hm'
  rw [if_pos ⟨rfl, Nat.le_refl row, by omega⟩] at hm'
  cases hm'

/-- A gate takes only its own marks with it. -/
theorem Spanned.mark_clear (h : G.Spanned) (hm : G.mark row column = some (.gate id kind)) {r k : Nat} {m : Mark}
    (hm' : G.mark r k = some m) (hne : m.owner ≠ id) : (G.clear row column kind.span).mark r k = some m := by
  simp only [Grid.clear]
  rw [if_neg]
  · exact hm'
  · rintro ⟨rfl, hle, hlt⟩
    rcases Nat.eq_or_lt_of_le hle with rfl | hbelow
    · rw [hm] at hm'
      cases hm'
      exact hne rfl
    · rw [h.cover_of_lt hm hbelow hlt] at hm'
      cases hm'
      exact hne rfl

end Sub

/-! ### Operations keep kinds -/

section Each

variable {P : GateKind → Prop}

theorem Each.openColumn (h : G.Each P) (squeeze : Bool) (column : Nat) : (G.openColumn squeeze column).Each P := by
  unfold Grid.openColumn
  split
  · intro r k id kind hm
    simp only [Grid.insertColumn] at hm
    split at hm
    · exact h _ _ _ _ hm
    · split at hm
      · cases hm
      · exact h _ _ _ _ hm
  · exact h

theorem Each.put (h : G.Each P) {g : Gate} (hg : P g.kind) (row column : Nat) : (G.put g row column).Each P := by
  intro r k id kind hm
  simp only [Grid.put] at hm
  split at hm
  · split at hm
    · obtain ⟨-, rfl, -⟩ := Gate.mark?_eq_gate_iff.mp hm
      exact hg
    · split at hm
      · cases hm
      · exact h _ _ _ _ hm
  · exact h _ _ _ _ hm

theorem Each.sub (h : G.Each P) {H : Grid} (hH : H.Sub G) : H.Each P :=
  fun r k id kind hm => h r k id kind (hH.marks hm)

end Each

end Grid

end CircuitDesigner
