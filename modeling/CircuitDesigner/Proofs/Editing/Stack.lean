import CircuitDesigner.Proofs.Editing.Drop
import CircuitDesigner.Proofs.Editing.Duplicate
import CircuitDesigner.Proofs.Refresh.Occupied

/-! What a copy below its gate does to the stack of gates there.

    Each gate that starts below goes down as far as the copy reaches, and nothing else moves
    (`exists_duplicateDown?`). The refresh that follows could still close a column. It does not where no column was idle
    before: no column loses a gate, so that none is idle then, and such a circuit is refreshed in place
    (`mark_refresh`). -/

namespace CircuitDesigner

open Circuit

variable {K : Type}

/-! ### Busy columns -/

section Busy

variable {ws : List (Wire K)} {c : Circuit K}

/-- Idle wires show nothing. -/
theorem markIn_trimmed (ws : List (Wire K)) (r k : Nat) : markIn (trimmed ws) r k = markIn ws r k := by
  induction ws using List.reverseRecOn with
  | nil => rfl
  | append_singleton ws w ih =>
    unfold trimmed
    by_cases hidle : w.isIdle = true
    · rw [List.rdropWhile_concat_pos _ _ _ hidle, markIn_append (Wire.isIdle_iff.mp hidle)]
      exact ih
    · rw [List.rdropWhile_concat_neg _ _ _ hidle]

/-- A column that shows something has a gate. -/
theorem Grid.Spanned.exists_gate {G : Grid} (h : G.Spanned) {r k : Nat} {m : Mark} (hm : G.mark r k = some m) :
    ∃ q id kind, G.mark q k = some (.gate id kind) := by
  cases m with
  | gate id kind => exact ⟨r, id, kind, hm⟩
  | cover id =>
    obtain ⟨q, kind, -, -, hq⟩ := h.parent hm
    exact ⟨q, id, kind, hq⟩

/-- Where each cover belongs to a gate, no column is idle just if each has a gate. -/
theorem busy_iff (h : (gridOf ws).Spanned) :
    Busy ws ↔ ∀ k < columnsOf ws, ∃ r id kind, (gridOf ws).mark r k = some (.gate id kind) := by
  refine forall_congr' fun k => imp_congr_right fun _ => ?_
  rw [← occupied_iff]
  constructor
  · rintro ⟨w, hw, g, hg, hi⟩
    obtain ⟨r, hr⟩ := List.getElem?_of_mem hw
    have hm : (gridOf ws).mark r k = g.mark? := by
      show markIn ws r k = _
      rw [markIn_eq_bind_cell, hr, Option.bind_some, hg, Option.bind_some]
    cases hmark : g.mark? with
    | none =>
      rw [Gate.mark?_eq_none_iff.mp hmark] at hi
      cases hi
    | some m => exact h.exists_gate (hm.trans hmark)
  · rintro ⟨r, id, kind, hm⟩
    obtain ⟨w, g, hw, hg, hmark⟩ := markIn_eq_some_iff.mp hm
    exact ⟨w, List.mem_of_getElem? hw, g, hg, Gate.isInertia_of_mark? hmark⟩

variable [Coordinate K]

/-- A refresh moves nothing where no column is idle. -/
theorem mark_refresh (h : Busy c.wires) (r k : Nat) :
    (gridOf c.refresh.wires).mark r k = (gridOf c.wires).mark r k := by
  rw [refresh_eq, gridOf_of_core (map_core_redraw c.minimize)]
  show markIn c.minimize.wires r k = markIn c.wires r k
  rw [← markIn_trimmed, trimmed_minimize h, markIn_trimmed]

end Busy

/-! ### The stack -/

variable [Coordinate K]

/-- A copy of a gate that shows is placed right below it, in a circuit that is up to date. The gates in its column that
    start there or further down go down as far as the copy reaches, each with its supports, and all others stay. -/
theorem duplicateDown_places {c : Circuit K} (hc : c.WellFormed) (hstill : c.Still) {row column : Nat} {g : Gate}
    (hg : c.cell? row column = some g) (hvisible : g.kind.isPlaceholder = false) :
    ∃ d, c.duplicateDown? g.id = some d ∧ d.WellFormed ∧ d.Still ∧ ∀ i kind r k, d.Places i kind r k ↔
      (i = ⟨c.nextGate⟩ ∧ kind = g.kind ∧ r = row + g.span ∧ k = column) ∨
        ∃ q, c.Places i kind q k ∧ r = if k = column ∧ row + g.span ≤ q then q + g.span else q := by
  have hintact : c.Intact (fun _ => True) [] := hc.intact fun _ _ _ _ _ => trivial
  obtain ⟨e, he, hformed, -, hcolumns, hgates⟩ := exists_duplicateDown? hintact hg hvisible
  -- Every column keeps its gates, though some of them are in other rows.
  have hbusy : Busy e.wires := by
    refine (busy_iff hformed.spanned).mpr fun k hk => ?_
    obtain ⟨q, i, kind, hm⟩ := (busy_iff hintact.spanned).mp (still_iff.mp hstill).1.columns k
      (Nat.lt_of_lt_of_eq hk hcolumns)
    exact ⟨_, i, kind, (hgates _ k i kind).mpr (.inr ⟨q, hm, rfl⟩)⟩
  refine ⟨e.refresh, he, hformed.refresh.wellFormed, still_refresh e, fun i kind r k => ?_⟩
  simp only [places_iff]
  rw [mark_refresh hbusy, hgates]

/-- The gate on two wires is copied twice, so that the first copy makes room for the second one. -/
theorem duplicateDown_places_pair : ∃ d e, pairCircuit.duplicateDown? ⟨0⟩ = some d ∧ d.duplicateDown? ⟨0⟩ = some e ∧
    e.WellFormed ∧ e.Places ⟨d.nextGate⟩ (.custom "cg1" 2) 3 0 ∧
    e.Places ⟨pairCircuit.nextGate⟩ (.custom "cg1" 2) 5 0 := by
  have hgate : (pairCircuit.cell? 1 0).any fun g => g.id == ⟨0⟩ && g.kind == .custom "cg1" 2 := by decide +kernel
  obtain ⟨g, hg, hfound⟩ := (Option.any_eq_true _ _).mp hgate
  simp only [Bool.and_eq_true, beq_iff_eq] at hfound
  obtain ⟨hid, hkind⟩ := hfound
  have hspan : ∀ {o : Gate}, o.kind = .custom "cg1" 2 → o.span = 2 := fun h => by
    unfold Gate.span
    rw [h]
    rfl
  have hvisible : ∀ {o : Gate}, o.kind = .custom "cg1" 2 → o.kind.isPlaceholder = false := fun h => by
    rw [h]
    rfl
  obtain ⟨d, hd, hformed, hstill, hplaces⟩ :=
    duplicateDown_places intact_pairDraft.refresh.wellFormed (still_refresh pairDraft) hg (hvisible hkind)
  -- The gate itself stays, and its copy is right below it.
  obtain ⟨o, ho, hoid, hokind, -⟩ : d.Places ⟨0⟩ (.custom "cg1" 2) 1 0 :=
    (hplaces _ _ _ _).mpr (.inr ⟨1, ⟨g, hg, hid, hkind, hvisible hkind⟩, by rw [hspan hkind]; rfl⟩)
  have hcopy : d.Places ⟨pairCircuit.nextGate⟩ (.custom "cg1" 2) 3 0 :=
    (hplaces _ _ _ _).mpr (.inl ⟨rfl, hkind.symm, by rw [hspan hkind], rfl⟩)
  obtain ⟨e, he, hformed', -, hplaces'⟩ := duplicateDown_places hformed hstill ho (hvisible hokind)
  exact ⟨d, e, hid ▸ hd, hoid ▸ he, hformed',
    (hplaces' _ _ _ _).mpr (.inl ⟨rfl, hokind.symm, by rw [hspan hokind], rfl⟩),
    (hplaces' _ _ _ _).mpr (.inr ⟨3, hcopy, by rw [hspan hokind]; rfl⟩)⟩

end CircuitDesigner
