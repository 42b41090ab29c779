import CircuitDesigner.Proofs.Grid.Basic
import Mathlib.Data.Set.Monotone
import Mathlib.Order.Compare

/-! Gates that are carried along.

    Columns come and go, and the gates move with their columns. `Grid.Carries P f G H` says that the gates with `P` that
    show in `H` are those that show in `G`, each in its row, and that `f` moves their columns without changing the order
    of any two. Every operation that leaves a gate alone carries it. Where all marks move with their columns, supports
    included (`Grid.Moves`), no gate loses a support or gets one back. -/

namespace CircuitDesigner.Grid

variable {P Q : GateId → Prop} {f f' : Nat → Nat} {F G H : Grid}

/-- The columns in which a gate with `P` shows. -/
def holding (G : Grid) (P : GateId → Prop) : Set Nat := {k | ∃ r id kind, P id ∧ G.mark r k = some (.gate id kind)}

structure Carries (P : GateId → Prop) (f : Nat → Nat) (G H : Grid) : Prop where
  mark_iff : ∀ {r k' id kind}, P id →
    (H.mark r k' = some (.gate id kind) ↔ ∃ k, f k = k' ∧ G.mark r k = some (.gate id kind))
  order : StrictMonoOn f (G.holding P)

namespace Carries

theorem mapsTo (h : Carries P f G H) : Set.MapsTo f (G.holding P) (H.holding P) := by
  rintro k ⟨r, id, kind, hP, hm⟩
  exact ⟨r, id, kind, hP, (h.mark_iff hP).mpr ⟨k, rfl, hm⟩⟩

theorem of_marks (h : ∀ r k, H.mark r k = G.mark r k) : Carries P id G H where
  mark_iff := by simp [h]
  order := fun _ _ _ _ hlt => hlt

theorem refl (G : Grid) : Carries P id G G := of_marks fun _ _ => rfl

theorem trans (h : Carries P f F G) (h' : Carries P f' G H) : Carries P (f' ∘ f) F H where
  mark_iff {r k' id kind} hP := by
    rw [h'.mark_iff hP]
    constructor
    · rintro ⟨l, rfl, hl⟩
      obtain ⟨k, rfl, hk⟩ := (h.mark_iff hP).mp hl
      exact ⟨k, rfl, hk⟩
    · rintro ⟨k, rfl, hm⟩
      exact ⟨f k, rfl, (h.mark_iff hP).mpr ⟨k, rfl, hm⟩⟩
  order := h'.order.comp h.order h.mapsTo

theorem mono (h : Carries P f G H) (hPQ : ∀ i, Q i → P i) : Carries Q f G H where
  mark_iff hQ := h.mark_iff (hPQ _ hQ)
  order := h.order.mono fun _ ⟨r, i, kind, hQ, hm⟩ => ⟨r, i, kind, hPQ i hQ, hm⟩

variable {r s k l k' l' : Nat} {i j : GateId} {kind kind' : GateKind}

theorem exists_iff (h : Carries P f G H) (hP : P i) :
    (∃ k, H.mark r k = some (.gate i kind)) ↔ ∃ k, G.mark r k = some (.gate i kind) := by
  constructor
  · rintro ⟨k', hm⟩
    obtain ⟨k, -, hm⟩ := (h.mark_iff hP).mp hm
    exact ⟨k, hm⟩
  · rintro ⟨k, hm⟩
    exact ⟨f k, (h.mark_iff hP).mpr ⟨k, rfl, hm⟩⟩

/-- Two gates stand to each other as they did. -/
theorem compare_eq (h : Carries P f G H) (hG : G.Unique) (hi : P i) (hj : P j)
    (hik : G.mark r k = some (.gate i kind)) (hjl : G.mark s l = some (.gate j kind'))
    (hik' : H.mark r k' = some (.gate i kind)) (hjl' : H.mark s l' = some (.gate j kind')) :
    compare k' l' = compare k l := by
  obtain ⟨p, rfl, hp⟩ := (h.mark_iff hi).mp hik'
  obtain ⟨q, rfl, hq⟩ := (h.mark_iff hj).mp hjl'
  obtain rfl := (hG hp hik).2
  obtain rfl := (hG hq hjl).2
  rw [← cmp_eq_compare, ← cmp_eq_compare]
  exact h.order.cmp_map_eq ⟨r, i, kind, hi, hp⟩ ⟨s, j, kind', hj, hq⟩

end Carries

/-! ### All marks -/

/-- The marks of `H` are those of `G`, each in its row, and `f` gives their columns. -/
structure Moves (f : Nat → Nat) (G H : Grid) : Prop where
  mark_iff : ∀ {r k' m}, H.mark r k' = some m ↔ ∃ k, f k = k' ∧ G.mark r k = some m
  inj : ∀ {r q k l m n}, G.mark r k = some m → G.mark q l = some n → f k = f l → k = l

namespace Moves

theorem of_marks (h : ∀ r k, H.mark r k = G.mark r k) : Moves id G H := ⟨by simp [h], fun _ _ hkl => hkl⟩

theorem trans (h : Moves f F G) (h' : Moves f' G H) : Moves (f' ∘ f) F H where
  mark_iff {r k' m} := by
    rw [h'.mark_iff]
    constructor
    · rintro ⟨l, rfl, hl⟩
      obtain ⟨k, rfl, hk⟩ := h.mark_iff.mp hl
      exact ⟨k, rfl, hk⟩
    · rintro ⟨k, rfl, hk⟩
      exact ⟨f k, rfl, h.mark_iff.mpr ⟨k, rfl, hk⟩⟩
  inj hk hl hkl := h.inj hk hl (h'.inj (h.mark_iff.mpr ⟨_, rfl, hk⟩) (h.mark_iff.mpr ⟨_, rfl, hl⟩) hkl)

theorem mark_ne_none_iff (h : Moves f G H) {r : Nat} : (∃ k, H.mark r k ≠ none) ↔ ∃ k, G.mark r k ≠ none := by
  simp only [Option.ne_none_iff_exists', h.mark_iff]
  constructor
  · rintro ⟨-, m, k, -, hm⟩
    exact ⟨k, m, hm⟩
  · rintro ⟨k, m, hm⟩
    exact ⟨f k, m, k, rfl, hm⟩

/-- A gate and its supports move together, and so do a gate and the supports that it lacks. -/
theorem spanned_iff (h : Moves f G H) : H.Spanned ↔ G.Spanned := by
  constructor
  · intro hH
    refine ⟨fun {r k d id kind} hm h0 hd => ?_, fun {r k id} hm => ?_⟩
    · obtain ⟨l, hl, hcover⟩ := h.mark_iff.mp (hH.covered (h.mark_iff.mpr ⟨k, rfl, hm⟩) h0 hd)
      obtain rfl := h.inj hcover hm hl
      exact hcover
    · obtain ⟨q, kind, hlt, hle, hq⟩ := hH.parent (h.mark_iff.mpr ⟨k, rfl, hm⟩)
      obtain ⟨l, hl, hgate⟩ := h.mark_iff.mp hq
      obtain rfl := h.inj hgate hm hl
      exact ⟨q, kind, hlt, hle, hgate⟩
  · intro hG
    refine ⟨fun {r k' d id kind} hm h0 hd => ?_, fun {r k' id} hm => ?_⟩
    · obtain ⟨k, rfl, hk⟩ := h.mark_iff.mp hm
      exact h.mark_iff.mpr ⟨k, rfl, hG.covered hk h0 hd⟩
    · obtain ⟨k, rfl, hk⟩ := h.mark_iff.mp hm
      obtain ⟨q, kind, hlt, hle, hq⟩ := hG.parent hk
      exact ⟨q, kind, hlt, hle, h.mark_iff.mpr ⟨k, rfl, hq⟩⟩

/-- Gates are carried along with all that moves, if no two columns change sides. -/
theorem carries (h : Moves f G H) (hf : StrictMono f) : Carries P f G H := ⟨fun _ => h.mark_iff, hf.strictMonoOn _⟩

end Moves

/-! ### Columns -/

theorem moves_insertColumn (G : Grid) (column : Nat) :
    Moves (fun k => if k < column then k else k + 1) G (G.insertColumn column) where
  mark_iff {r k' m} := by
    show (if k' < column then G.mark r k' else if k' = column then none else G.mark r (k' - 1)) = some m ↔ _
    constructor
    · intro hm
      split_ifs at hm with hlt heq
      · exact ⟨k', if_pos hlt, hm⟩
      · exact ⟨k' - 1, by rw [if_neg (by omega)]; omega, hm⟩
    · rintro ⟨k, rfl, hm⟩
      by_cases hlt : k < column
      · simpa [hlt] using hm
      · rw [if_neg hlt, if_neg (by omega), if_neg (by omega), Nat.add_sub_cancel]
        exact hm
  inj {r q k l m n} _ _ hkl := by
    have hkl : (if k < column then k else k + 1) = if l < column then l else l + 1 := hkl
    split_ifs at hkl <;> omega

theorem carries_insertColumn (G : Grid) (column : Nat) :
    Carries P (fun k => if k < column then k else k + 1) G (G.insertColumn column) :=
  (moves_insertColumn G column).carries fun k l hlt => by
    dsimp only
    split <;> split <;> omega

/-- Where a column goes when another one is opened. -/
def opened (G : Grid) (squeeze : Bool) (column k : Nat) : Nat :=
  if squeeze || column == G.columns then if k < column then k else k + 1 else k

theorem carries_openColumn (G : Grid) (squeeze : Bool) (column : Nat) :
    Carries P (G.opened squeeze column) G (G.openColumn squeeze column) := by
  unfold openColumn opened
  split
  · exact carries_insertColumn G column
  · exact .refl G

theorem carries_removeColumn {column : Nat} (hidle : ∀ r, G.mark r column = none) :
    Carries P (fun k => if k < column then k else k - 1) G (G.removeColumn column) := by
  have hne : ∀ {k}, k ∈ G.holding P → k ≠ column := by
    rintro k ⟨r, id, kind, -, hm⟩ rfl
    rw [hidle] at hm
    cases hm
  constructor
  · intro r k' id kind hP
    unfold removeColumn
    dsimp only
    constructor
    · intro hm
      exact ⟨_, by split_ifs <;> omega, hm⟩
    · rintro ⟨k, rfl, hm⟩
      have hk := hne ⟨r, id, kind, hP, hm⟩
      by_cases hlt : k < column
      · simpa [hlt] using hm
      · rw [if_neg hlt, if_neg (by omega), Nat.sub_add_cancel (by omega)]
        exact hm
  · intro k hk l hl hlt
    have := hne hk
    have := hne hl
    dsimp only
    split <;> split <;> omega

/-! ### Rows -/

theorem carries_addRows (G : Grid) (count : Nat) : Carries P id G (G.addRows count) := .of_marks fun _ _ => rfl

theorem carries_removeRow (hbound : ∀ {r k m}, G.mark r k = some m → r < G.rows)
    (hidle : ∀ k, G.mark (G.rows - 1) k = none) : Carries P id G (G.removeRow (G.rows - 1)) := by
  refine .of_marks fun r k => ?_
  have hnone : ∀ {r}, G.rows - 1 ≤ r → G.mark r k = none := fun {r} hle => by
    rcases Nat.eq_or_lt_of_le hle with rfl | hlt
    · exact hidle k
    · by_contra hne
      obtain ⟨m, hm⟩ := Option.ne_none_iff_exists'.mp hne
      have := hbound hm
      omega
  unfold removeRow
  dsimp only
  split
  · rfl
  · rw [hnone (by omega), hnone (by omega)]

/-! ### Gates that come and go -/

theorem carries_put {g : Gate} {row column : Nat} (hfree : G.Free row column g.span) :
    Carries (· ≠ g.id) id G (G.put g row column) where
  mark_iff {r k' i kind} hne := by
    have hspan : 0 < g.span := g.kind.span_pos
    simp only [id_eq, exists_eq_left, put]
    by_cases hin : k' = column ∧ row ≤ r ∧ r < row + g.span
    · -- The cell is one of those that the new gate takes, so that nothing showed there.
      obtain ⟨rfl, hle, hlt⟩ := hin
      rw [hfree r hle hlt, if_pos rfl]
      split
      · simp only [Gate.mark?_eq_gate_iff, reduceCtorEq, iff_false]
        exact fun h => hne h.1.symm
      · rw [if_pos ⟨by omega, hlt⟩]
        simp
    · split
      · rw [if_neg (by omega), if_neg (by omega)]
      · rfl
  order := fun _ _ _ _ hlt => hlt

theorem Spanned.carries_clear (h : G.Spanned) {row column : Nat} {i : GateId} {kind : GateKind}
    (hm : G.mark row column = some (.gate i kind)) : Carries (· ≠ i) id G (G.clear row column kind.span) where
  mark_iff {r k' j kind'} hne := by
    simp only [id_eq, exists_eq_left]
    exact ⟨(sub_clear G row column kind.span).marks, fun hm' => h.mark_clear hm hm' hne⟩
  order := fun _ _ _ _ hlt => hlt

end CircuitDesigner.Grid
