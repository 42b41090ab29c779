import CircuitDesigner.Proofs.Grid.Sound

/-! Building a grid cell by cell.

    A grid is traced by another when the gates of the other are put into it in reading order. The traced grid shows
    what the other one shows in the cells that are done, and besides the supports of gates that are done. Numbers
    differ between the two, so that marks are compared by their kinds. -/

namespace CircuitDesigner

/-- What a mark shows but for numbers. -/
def Mark.kind : Mark → GateKind
  | gate _ kind => kind
  | cover _ => .support ⟨0⟩

namespace Grid

/-- The cell at row `r` and column `k` comes before the one at row `i` and column `j`. -/
def Before (i j r k : Nat) : Prop := r < i ∨ r = i ∧ k < j

/-- `G` shows the gates of `S` that come before row `i` and column `j`. -/
structure Traced (S G : Grid) (i j : Nat) : Prop where
  rows : G.rows = S.rows
  columns : G.columns = if i = 0 then j else S.columns
  /-- A cell that is done shows the same. -/
  done : ∀ {r k}, Before i j r k → (G.mark r k).map Mark.kind = (S.mark r k).map Mark.kind
  /-- A gate that is done covers its cells. -/
  covered : ∀ {q k r id kind}, S.mark q k = some (.gate id kind) → Before i j q k → q < r → r < q + kind.span →
    (G.mark r k).map Mark.kind = some (.support ⟨0⟩)
  /-- Nothing else shows. -/
  rest : ∀ {r k}, ¬Before i j r k → (∀ {q id kind}, S.mark q k = some (.gate id kind) → Before i j q k → q < r →
    ¬r < q + kind.span) → G.mark r k = none

namespace Traced

variable {S G : Grid} {i j : Nat}

/-- The cell in turn and those below it are free for the gate that comes there. -/
theorem free (h : Traced S G i j) (hs : S.Spanned) {id : GateId} {kind : GateKind}
    (hm : S.mark i j = some (.gate id kind)) : G.Free i j kind.span := by
  intro r hr hr'
  refine h.rest (fun hb => ?_) fun {q id' kind'} hq hb hqr hrq => ?_
  · rcases hb with hb | hb <;> omega
  · have hqi : q < i := by
      rcases hb with hb | hb <;> omega
    have := hs.disjoint hq hm hqi
    omega

theorem free_of_none (h : Traced S G i j) (hs : S.Spanned) (hm : S.mark i j = none) : G.mark i j = none := by
  refine h.rest (fun hb => ?_) fun {q id kind} hq hb hqr hrq => ?_
  · rcases hb with hb | hb <;> omega
  · rw [hs.cover_of_lt hq hqr hrq] at hm
    cases hm

theorem columns_openColumn (h : Traced S G i j) (hj : j < S.columns) :
    (G.openColumn false j).columns = if i = 0 then j + 1 else S.columns := by
  have hcolumns := h.columns
  by_cases hi : i = 0
  · rw [if_pos hi] at hcolumns ⊢
    unfold openColumn
    rw [if_pos (by simpa using hcolumns.symm), ← hcolumns]
    rfl
  · rw [if_neg hi] at hcolumns ⊢
    unfold openColumn
    rw [if_neg (by simp only [Bool.false_or, beq_iff_eq]; omega)]
    exact hcolumns

theorem before_succ {r k : Nat} : Before i (j + 1) r k ↔ Before i j r k ∨ r = i ∧ k = j := by
  unfold Before
  omega

/-- The gate of the cell in turn is put there. -/
theorem put (h : Traced S G i j) (hs : S.Spanned) (hbound : ∀ r k, G.columns ≤ k → G.mark r k = none)
    (hj : j < S.columns) {id : GateId} {kind : GateKind} (hm : S.mark i j = some (.gate id kind))
    (hrows : i + kind.span ≤ S.rows) {g : Gate} (hg : g.kind = kind) (hvisible : kind.isPlaceholder = false) :
    Traced S ((G.openColumn false j).put g i j) i (j + 1) := by
  have hopen := mark_openColumn hbound j
  have hspan : g.span = kind.span := by
    unfold Gate.span
    rw [hg]
  have hpos := kind.span_pos
  have hself : g.mark? = some (.gate g.id kind) := Gate.mark?_eq_gate_iff.mpr ⟨rfl, hg, hg ▸ hvisible⟩
  have hmark : ∀ r k, ((G.openColumn false j).put g i j).mark r k =
      if k = j ∧ r = i then some (.gate g.id kind)
      else if k = j ∧ i < r ∧ r < i + kind.span then some (.cover g.id) else G.mark r k := by
    intro r k
    simp only [Grid.put, hopen, hspan, hself]
    split_ifs <;> first | rfl | omega
  refine ⟨?_, h.columns_openColumn hj, fun {r k} hb => ?_, fun {q k r id' kind'} hq hb hqr hrq => ?_,
    fun {r k} hb hfree => ?_⟩
  · show max (G.openColumn false j).rows (i + g.span) = S.rows
    rw [rows_openColumn, h.rows]
    omega
  · rw [hmark]
    rcases before_succ.mp hb with hb | ⟨rfl, rfl⟩
    · have hout : ¬(k = j ∧ r = i) ∧ ¬(k = j ∧ i < r ∧ r < i + kind.span) := by
        unfold Before at hb
        omega
      rw [if_neg hout.1, if_neg hout.2]
      exact h.done hb
    · rw [if_pos ⟨rfl, rfl⟩, hm]
      rfl
  · rw [hmark]
    rcases before_succ.mp hb with hb | ⟨rfl, rfl⟩
    · have hcover := h.covered hq hb hqr hrq
      split
      · rename_i heq
        obtain ⟨rfl, rfl⟩ := heq
        rw [hs.cover_of_lt hq hqr hrq] at hm
        cases hm
      · split
        · rfl
        · exact hcover
    · rw [hm] at hq
      cases hq
      rw [if_neg (by omega), if_pos ⟨rfl, hqr, hrq⟩]
      rfl
  · rw [before_succ, not_or] at hb
    rw [hmark, if_neg (by omega), if_neg]
    · exact h.rest hb.1 fun hq hbq => hfree hq (before_succ.mpr (.inl hbq))
    · rintro ⟨rfl, hlt, hle⟩
      exact hfree hm (before_succ.mpr (.inr ⟨rfl, rfl⟩)) hlt hle

/-- A cell in turn without a gate is done when it shows the same. -/
theorem advance (h : Traced S G i j) (hm : ∀ id kind, S.mark i j ≠ some (.gate id kind))
    (hsame : (G.mark i j).map Mark.kind = (S.mark i j).map Mark.kind) {H : Grid} (hrows : H.rows = S.rows)
    (hcolumns : H.columns = if i = 0 then j + 1 else S.columns) (hmark : ∀ r k, H.mark r k = G.mark r k) :
    Traced S H i (j + 1) where
  rows := hrows
  columns := hcolumns
  done {r k} hb := by
    rw [hmark]
    rcases before_succ.mp hb with hb | ⟨rfl, rfl⟩
    · exact h.done hb
    · exact hsame
  covered {q k r id kind} hq hb hqr hrq := by
    rw [hmark]
    rcases before_succ.mp hb with hb | ⟨rfl, rfl⟩
    · exact h.covered hq hb hqr hrq
    · exact absurd hq (hm id kind)
  rest {r k} hb hfree := by
    rw [hmark]
    rw [before_succ, not_or] at hb
    exact h.rest hb.1 fun hq hbq => hfree hq (before_succ.mpr (.inl hbq))

theorem skip (h : Traced S G i j) (hs : S.Spanned) {id : GateId} (hm : S.mark i j = some (.cover id)) :
    Traced S G i (j + 1) := by
  obtain ⟨q, kind, hqi, hiq, hq⟩ := hs.parent hm
  have hi : i ≠ 0 := by omega
  refine h.advance (fun id kind heq => ?_) ?_ h.rows ?_ fun _ _ => rfl
  · rw [hm] at heq
    cases heq
  · rw [h.covered hq (.inl hqi) hqi hiq, hm]
    rfl
  · rw [h.columns, if_neg hi, if_neg hi]

theorem put_inertia (h : Traced S G i j) (hs : S.Spanned) (hbound : ∀ r k, G.columns ≤ k → G.mark r k = none)
    (hi : i < S.rows) (hj : j < S.columns) (hm : S.mark i j = none) {g : Gate} (hg : g.kind = .inertia) :
    Traced S ((G.openColumn false j).put g i j) i (j + 1) := by
  have hopen := mark_openColumn hbound j
  have hfree := h.free_of_none hs hm
  have hself : g.mark? = none := by
    unfold Gate.mark?
    rw [hg]
  have hspan : g.span = 1 := by
    unfold Gate.span
    rw [hg]
    rfl
  refine h.advance (fun id kind heq => ?_) (by rw [hfree, hm]) ?_ (h.columns_openColumn hj) fun r k => ?_
  · rw [hm] at heq
    cases heq
  · show max (G.openColumn false j).rows (i + g.span) = S.rows
    rw [rows_openColumn, h.rows]
    omega
  · simp only [Grid.put, hopen, hself, hspan]
    split
    · rename_i hk
      subst hk
      split
      · rename_i hr
        rw [hr, hfree]
      · rw [if_neg (by omega)]
    · rfl

/-- A row is done when its last cell is. -/
theorem next_row (h : Traced S G i S.columns) (hbound : ∀ r k, S.columns ≤ k → S.mark r k = none)
    (hbound' : ∀ r k, G.columns ≤ k → G.mark r k = none) : Traced S G (i + 1) 0 := by
  have hcolumns : G.columns = S.columns := by
    rw [h.columns]
    split <;> rfl
  have hbefore : ∀ {r k}, k < S.columns → (Before (i + 1) 0 r k ↔ Before i S.columns r k) := by
    unfold Before
    intro r k hk
    omega
  refine ⟨h.rows, by rw [if_neg (by omega), hcolumns], fun {r k} hb => ?_, fun {q k r id kind} hq hb hqr hrq => ?_,
    fun {r k} hb hfree => ?_⟩
  · rcases Nat.lt_or_ge k S.columns with hk | hk
    · exact h.done ((hbefore hk).mp hb)
    · rw [hbound r k hk, hbound' r k (by omega)]
  · rcases Nat.lt_or_ge k S.columns with hk | hk
    · exact h.covered hq ((hbefore hk).mp hb) hqr hrq
    · rw [hbound q k hk] at hq
      cases hq
  · rcases Nat.lt_or_ge k S.columns with hk | hk
    · exact h.rest (fun hb' => hb ((hbefore hk).mpr hb')) fun hq hbq => hfree hq ((hbefore hk).mpr hbq)
    · exact hbound' r k (by omega)

theorem empty (S : Grid) : Traced S ⟨S.rows, 0, fun _ _ => none⟩ 0 0 where
  rows := rfl
  columns := rfl
  done hb := by
    unfold Before at hb
    omega
  covered _ hb := by
    unfold Before at hb
    omega
  rest _ _ := rfl

theorem kinds_eq (h : Traced S G S.rows 0) (hbound : ∀ r k, S.rows ≤ r → S.mark r k = none)
    (hbound' : ∀ r k, G.rows ≤ r → G.mark r k = none) (r k : Nat) :
    (G.mark r k).map Mark.kind = (S.mark r k).map Mark.kind := by
  rcases Nat.lt_or_ge r S.rows with hr | hr
  · exact h.done (.inl hr)
  · rw [hbound r k hr, hbound' r k (by rw [h.rows]; exact hr)]

end Traced

end Grid

end CircuitDesigner
