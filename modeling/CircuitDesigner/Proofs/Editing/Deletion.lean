import CircuitDesigner.Proofs.Editing.Badges
import CircuitDesigner.Proofs.Editing.Wires

/-! Deleted wires.

    A wire that is deleted takes the gates with it that cover a cell of it, on however many wires they are. Columns and
    wires at the bottom that hold no gate any more go as well. All other gates stay on their wires, and no two of them
    change sides (`deleteWire?_deletes`). -/

namespace CircuitDesigner

open Circuit

variable {K : Type}

namespace Circuit

/-- Where a row comes when the one at `row` is gone. -/
def rowWithout (row r : Nat) : Nat := if r < row then r else r - 1

/-- A gate that covers `n` cells from row `r` on covers none of the one at `row`. -/
def Clears (row r n : Nat) : Prop := r + n ≤ row ∨ row < r

variable [Coordinate K]

/-- What a wire leaves behind when it is deleted. -/
structure Deletes (c : Circuit K) (row : Nat) (d : Circuit K) : Prop where
  wellFormed : d.WellFormed
  compact : d.Compact
  settings : d.settings = c.settings
  /-- The gates that show are those that covered no cell of the row, each on its wire. -/
  gates : ∀ {i kind r'}, (∃ k', d.Places i kind r' k') ↔
    ∃ r k, c.Places i kind r k ∧ Clears row r kind.span ∧ rowWithout row r = r'
  /-- Of any two gates that stay the columns compare as they did. -/
  order : ∀ {i j kind kind' r s k l r' s' k' l'}, c.Places i kind r k → c.Places j kind' s l → d.Places i kind r' k' →
    d.Places j kind' s' l' → compare k' l' = compare k l
  /-- The wires are the others of before and new ones below them, but for some at the bottom. -/
  wires : d.badges <+: c.badges.eraseIdx row ++ c.nextBadges (c.settings.minQubits - (c.wires.length - 1))
  /-- A gate that stays is on the wire on which it was. -/
  home : ∀ {i kind r k r' k'}, c.Places i kind r k → d.Places i kind r' k' → d.badges[r']? = c.badges[r]?

end Circuit

variable [Coordinate K] {P : GateKind → Prop} {c d e : Circuit K} {row r r' k k' : Nat} {i : GateId} {kind : GateKind}

/-! ### Gates -/

omit [Coordinate K] in
theorem Circuit.Places.row_lt (h : c.Places i kind r k) : r < c.wires.length := by
  obtain ⟨g, hg, -⟩ := h
  exact (lt_of_cell? hg).1

namespace Circuit.WithoutRow

variable (h : c.WithoutRow row e) (hc : (gridOf c.wires).Unique) {f : Nat → Nat}
  (hf : Grid.Carries (fun _ => True) f (gridOf e.wires) (gridOf d.wires))

include h hf

theorem gates : (∃ k', d.Places i kind r' k') ↔
    ∃ r k, c.Places i kind r k ∧ Clears row r kind.span ∧ rowWithout row r = r' := by
  calc (∃ k', d.Places i kind r' k')
      ↔ ∃ k, e.Places i kind r' k := by
        simp only [places_iff]
        exact hf.exists_iff trivial
    _ ↔ ∃ k r, rowWithout row r = r' ∧ Clears row r kind.span ∧ c.Places i kind r k :=
        exists_congr fun k => h.keeps i kind r' k
    _ ↔ ∃ r k, c.Places i kind r k ∧ Clears row r kind.span ∧ rowWithout row r = r' := by
        rw [exists_comm]
        exact exists_congr fun r => exists_congr fun k => by tauto

include hc

/-- A gate that is there before and after stays between, in its old column and its new row. -/
theorem places (hplaced : c.Places i kind r k) (hplaced' : d.Places i kind r' k') :
    e.Places i kind r' k ∧ Clears row r kind.span ∧ rowWithout row r = r' := by
  obtain ⟨l, -, hl⟩ := (hf.mark_iff trivial).mp (places_iff.mp hplaced')
  obtain ⟨q, hq, hclear, hold⟩ := (h.keeps i kind r' l).mp (places_iff.mpr hl)
  obtain ⟨rfl, rfl⟩ := hc (places_iff.mp hold) (places_iff.mp hplaced)
  exact ⟨places_iff.mpr hl, hclear, hq⟩

end Circuit.WithoutRow

/-! ### Wires -/

theorem getElem?_eraseIdx_rowWithout {α : Type} (l : List α) (h : r ≠ row) :
    (l.eraseIdx row)[rowWithout row r]? = l[r]? := by
  unfold rowWithout
  split
  · rename_i hlt
    exact List.getElem?_eraseIdx_of_lt hlt
  · rw [List.getElem?_eraseIdx_of_ge (by omega), Nat.sub_add_cancel (by omega)]

/-- The wires of a circuit that has lost one and is refreshed. -/
theorem badges_refresh_removeWireAt? (he : c.removeWireAt? row = some e) (hrow : row < c.wires.length)
    (hsettings : e.settings = c.settings) : e.refresh.badges <+:
      c.badges.eraseIdx row ++ c.nextBadges (c.settings.minQubits - (c.wires.length - 1)) := by
  obtain ⟨hbadges, hnext⟩ := badges_removeWireAt? he
  have hlength : e.wires.length = c.wires.length - 1 := by
    rw [← length_badges, hbadges, List.length_eraseIdx_of_lt (by rwa [length_badges]), length_badges]
  have hrefresh := badges_refresh e
  unfold nextBadges at hrefresh
  rwa [hbadges, hnext, hsettings, hlength] at hrefresh

omit [Coordinate K] in
/-- An old wire that is still there is found in its new row. -/
theorem getElem?_badges {l : List (WireId × String × Ket × RegisterColor)} (h : d.badges <+: c.badges.eraseIdx row ++ l)
    (hrow : row < c.wires.length) (hr : r < c.wires.length) (hne : r ≠ row) (hr' : rowWithout row r < d.wires.length) :
    d.badges[rowWithout row r]? = c.badges[r]? := by
  obtain ⟨rest, hrest⟩ := h
  have hlt : rowWithout row r < c.wires.length - 1 := by
    unfold rowWithout
    split <;> omega
  calc d.badges[rowWithout row r]?
      = (d.badges ++ rest)[rowWithout row r]? := by rw [List.getElem?_append_left (by rwa [length_badges])]
    _ = (c.badges.eraseIdx row)[rowWithout row r]? := by
        rw [hrest, List.getElem?_append_left]
        rwa [List.length_eraseIdx_of_lt (by rwa [length_badges]), length_badges]
    _ = c.badges[r]? := getElem?_eraseIdx_rowWithout c.badges hne

/-! ### Both -/

theorem deletes_removeWireAt? (hc : c.Intact P []) (hrow : row < c.wires.length) :
    ∃ e, c.removeWireAt? row = some e ∧ c.Deletes row e.refresh := by
  have hunique : (gridOf c.wires).Unique := hc.labelled.unique_marks hc.shows
  obtain ⟨e, he, hwithout⟩ := exists_removeWireAt? hc hrow
  obtain ⟨hintact, hrest⟩ := hc.removeWireAt? he
  obtain ⟨f, hf⟩ := exists_carries_refresh hintact.shows fun _ => True
  have hwires := badges_refresh_removeWireAt? he hrow hrest.settings
  refine ⟨e, he, hintact.refresh.wellFormed, compact_refresh e, ?_, hwithout.gates hf, ?_, hwires, ?_⟩
  · exact (rest_refresh e).settings.trans hrest.settings
  · intro i j kind kind' r s k l r' s' k' l' hi hj hi' hj'
    obtain ⟨hie, -⟩ := hwithout.places hunique hf hi hi'
    obtain ⟨hje, -⟩ := hwithout.places hunique hf hj hj'
    simp only [places_iff] at hie hje hi' hj'
    exact hf.compare_eq (hintact.labelled.unique_marks hintact.shows) trivial trivial hie hje hi' hj'
  · intro i kind r k r' k' hi hi'
    obtain ⟨-, hclear, rfl⟩ := hwithout.places hunique hf hi hi'
    have hspan := kind.span_pos
    have hne : r ≠ row := by
      unfold Clears at hclear
      omega
    exact getElem?_badges hwires hrow hi.row_lt hne hi'.row_lt

/-- A wire that is deleted takes those gates with it that cover a cell of it. The others keep their wires and the
    order of their columns, and the wires keep all that tells them apart. -/
theorem deleteWire?_deletes (hc : c.WellFormed) (hrow : row < c.wires.length) :
    ∃ d, c.deleteWire? row = some d ∧ c.Deletes row d := by
  have hintact : c.Intact (fun _ => True) [] := hc.intact fun _ _ _ _ _ => trivial
  obtain ⟨e, he, hdeletes⟩ := deletes_removeWireAt? hintact.save hrow
  refine ⟨e.refresh, ?_, { hdeletes with }⟩
  unfold deleteWire?
  rw [he]
  rfl

/-- Of three wires, the lower two of which have a gate, the first one goes without it and the last one with it. -/
theorem deleteWire?_deletes_pair :
    (∃ d, pairCircuit.deleteWire? 0 = some d ∧ pairCircuit.Deletes 0 d ∧ ∃ k, d.Places ⟨0⟩ (.custom "cg1" 2) 0 k) ∧
      ∃ d, pairCircuit.deleteWire? 2 = some d ∧ pairCircuit.Deletes 2 d ∧
        ∀ r k, ¬d.Places ⟨0⟩ (.custom "cg1" 2) r k := by
  have hintact : pairCircuit.Intact (GateKind.Known pairCatalog) [] := intact_pairDraft.refresh
  have hrows : 0 < pairCircuit.wires.length ∧ 2 < pairCircuit.wires.length := by decide +kernel
  have hplaced : pairCircuit.Places ⟨0⟩ (.custom "cg1" 2) 1 0 := ⟨_, rfl, rfl, rfl, rfl⟩
  obtain ⟨d, hd, hdeletes⟩ := deleteWire?_deletes hintact.wellFormed hrows.1
  obtain ⟨e, he, hdeletes'⟩ := deleteWire?_deletes hintact.wellFormed hrows.2
  have hmoved := hdeletes.gates.mpr ⟨1, 0, hplaced, .inr (by decide), rfl⟩
  refine ⟨⟨d, hd, hdeletes, hmoved⟩, e, he, hdeletes', fun r k hm => ?_⟩
  obtain ⟨q, l, hq, hclear, -⟩ := hdeletes'.gates.mp ⟨k, hm⟩
  obtain ⟨rfl, -⟩ := hintact.labelled.unique_marks hintact.shows (places_iff.mp hq) (places_iff.mp hplaced)
  exact absurd hclear (by unfold Clears; decide)

end CircuitDesigner
