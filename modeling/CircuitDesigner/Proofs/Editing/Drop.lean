import CircuitDesigner.Proofs.Editing.Drag

/-! What a drop leaves alone.

    A drop may squeeze a new column in, take the gate out of another one and leave columns and wires idle, which go
    with the refresh. All other gates stay on their wires, and no two of them change sides (`drop_undisturbed`): each
    of these operations carries them along. The gate itself is on the wire to which the pointer led, or it is gone. -/

namespace CircuitDesigner

open Circuit

variable {K : Type}

/-! ### Places -/

namespace Circuit

/-- The cell holds a gate that shows, with that id and of that kind. -/
def Places (c : Circuit K) (id : GateId) (kind : GateKind) (row column : Nat) : Prop :=
  ∃ g, c.cell? row column = some g ∧ g.id = id ∧ g.kind = kind ∧ g.kind.isPlaceholder = false

/-- No cell holds the gate or is covered by it. -/
def Lacks (c : Circuit K) (id : GateId) : Prop :=
  ∀ row column g, c.cell? row column = some g → g.id ≠ id ∧ g.kind ≠ .support id

/-- The gates that show in `d` are those of `c`, one left out of account: each is on its wire, and of any two the
    columns compare as they did. -/
structure Undisturbed (id : GateId) (c d : Circuit K) : Prop where
  placed : ∀ {i kind row}, i ≠ id → ((∃ k, d.Places i kind row k) ↔ ∃ k, c.Places i kind row k)
  order : ∀ {i j kind kind' row row' k l k' l'}, i ≠ id → j ≠ id → c.Places i kind row k → c.Places j kind' row' l →
    d.Places i kind row k' → d.Places j kind' row' l' → compare k' l' = compare k l

variable {c d : Circuit K} {id : GateId} {kind : GateKind} {row column : Nat}

theorem places_iff : c.Places id kind row column ↔ (gridOf c.wires).mark row column = some (.gate id kind) := by
  constructor
  · rintro ⟨g, hg, rfl, rfl, hp⟩
    exact gate_of_cell? hg hp
  · intro hm
    obtain ⟨g, hg, hmark⟩ := exists_cell?_of_mark hm
    exact ⟨g, hg, Gate.mark?_eq_gate_iff.mp hmark⟩

theorem undisturbed_of_carries {f : Nat → Nat} (hc : (gridOf c.wires).Unique)
    (h : Grid.Carries (· ≠ id) f (gridOf c.wires) (gridOf d.wires)) : Undisturbed id c d := by
  constructor
  · intro i kind row hi
    simp only [places_iff]
    exact h.exists_iff hi
  · intro i j kind kind' row row' k l k' l' hi hj
    simp only [places_iff]
    exact h.compare_eq hc hi hj

/-- A gate in hand is in no cell. -/
theorem Sound.lacks {P : GateKind → Prop} {g : Gate} {hand : List GateId} (h : c.Sound P (g.id :: hand)) :
    c.Lacks g.id := by
  have huses := h.usesIn_hand
  intro row column o ho
  constructor
  · intro hid
    obtain ⟨w, hw, ho⟩ := Option.bind_eq_some_iff.mp (cell?_eq_bind c row column ▸ ho)
    have hpos := Wire.uses_pos (List.mem_of_getElem? ho)
    have hle := uses_le_usesIn (List.mem_of_getElem? hw) o.id
    rw [hid] at hpos hle
    omega
  · intro hkind
    obtain ⟨q, kind, -, -, hq⟩ := h.spanned.parent (cover_of_cell? ho hkind)
    exact h.shows.lacks huses q column kind hq

end Circuit

/-! ### Drops -/

section Drops

variable {c b e : Circuit Rat} {w : Wire Rat} {g : Gate} {placement : Option (Placement Rat)}

theorem Spared.carries (h : Spared c b w) (P : GateId → Prop) :
    Grid.Carries P id (gridOf c.wires) (gridOf b.wires) := .of_marks h.mark_eq

/-- Saving a state changes no cell. -/
theorem wires_saved (e : Circuit Rat) (t : Template) :
    ((e.saveState? t).getD e).wires = e.wires ∧ ((e.saveState? t).getD e).nextGate = e.nextGate := by
  rcases saved_cases e t with heq | heq <;> rw [heq] <;> exact ⟨rfl, rfl⟩

/-- What a drop leaves is still there once a state is saved, if any, and the circuit refreshed. -/
theorem Drag.Dropped.undisturbed {P : GateKind → Prop} (h : Drag.Dropped P g b e placement) (hc : c.Intact P [])
    (hspared : Spared c b w) (hvisible : g.kind.isPlaceholder = false) (t : Template) :
    Undisturbed g.id c ((e.saveState? t).getD e).refresh ∧
      (∀ target, placement = some target → ∃ k, ((e.saveState? t).getD e).refresh.Places g.id g.kind target.row k) ∧
      (placement = none → ((e.saveState? t).getD e).refresh.Lacks g.id) := by
  obtain ⟨hwires, hnext⟩ := wires_saved e t
  generalize (e.saveState? t).getD e = d at hwires hnext ⊢
  have hshows : Shows d.wires (gridOf e.wires) := hwires ▸ h.intact.shows
  obtain ⟨f, hf⟩ := h.carries
  obtain ⟨f', hf'⟩ := exists_carries_refresh hshows fun _ => True
  refine ⟨?_, ?_, ?_⟩
  · have hcarries := ((hspared.carries _).trans hf).trans (hf'.mono fun _ _ => trivial)
    exact undisturbed_of_carries (hc.labelled.unique_marks hc.shows) hcarries
  · intro target htarget
    obtain ⟨k, hk⟩ := h.landed target htarget
    rw [Gate.mark?_eq_gate_iff.mpr ⟨rfl, rfl, hvisible⟩] at hk
    simp only [places_iff]
    exact (hf'.exists_iff trivial).mpr ⟨k, hk⟩
  · intro hnone
    exact ((h.gone hnone).congr hwires hnext).refresh.lacks

/-- A drag of a gate that shows, a new one or one of the circuit, leaves all other gates as they stand to each other,
    over whatever points it goes. Where the drop reports a placement, the gate is on the wire of that placement; where
    it reports none, the gate is in no cell. -/
theorem drop_undisturbed (hc : c.WellFormed) {source : Drag.Source} (hg : source.gate? c = some g)
    (hvisible : g.kind.isPlaceholder = false) {s : Drag Rat × Circuit Rat} (hs : source.start? c = some s)
    (hovers : List (Pointer Rat)) (p : Pointer Rat) {d : Circuit Rat}
    (hd : (s.1.hovers s.2 hovers).1.drop (s.1.hovers s.2 hovers).2 p = (placement, d)) :
    Undisturbed g.id c d ∧ (∀ target, placement = some target → ∃ k, d.Places g.id g.kind target.row k) ∧
      (placement = none → d.Lacks g.id) := by
  have hintact : c.Intact (fun _ => True) [] := hc.intact fun _ _ _ _ _ => trivial
  have hproper : source.Proper (fun _ => True) c := by
    cases source with
    | toolbox kind =>
      cases hg
      exact ⟨trivial, GateKind.ne_support hvisible⟩
    | cell id =>
      have hgate : c.gate? id = some g := hg
      show c.isShown id = true
      unfold isShown
      rw [hgate, Option.any_some, hvisible]
      rfl
  obtain ⟨b, hand, w, e, o, g', -, hspared, he, ho, hid, hkind, hdropped⟩ :=
    Drag.Source.exists_dropped hintact hs hproper hovers p
  obtain rfl : o = g := Option.some.inj (ho.symm.trans hg)
  rw [hd] at he hdropped
  dsimp only at he hdropped
  rw [he, ← hid, ← hkind]
  exact hdropped.undisturbed hintact hspared (hkind ▸ hvisible) b.current

/-- A new gate is dropped on the left half of the gate on two wires, so that it goes before it, and that gate is
    picked up and dropped beside the wires. -/
theorem drop_undisturbed_pair :
    (∃ s target d, (Drag.Source.toolbox (.standard .h)).start? pairCircuit = some s ∧
      (s.1.hovers s.2 [⟨150, 130⟩]).1.drop (s.1.hovers s.2 [⟨150, 130⟩]).2 ⟨100, 200⟩ = (some target, d) ∧
      Undisturbed ⟨pairCircuit.nextGate⟩ pairCircuit d ∧
      ∃ k, d.Places ⟨pairCircuit.nextGate⟩ (.standard .h) target.row k) ∧
    ∃ s d, (Drag.Source.cell ⟨0⟩).start? pairCircuit = some s ∧
      (s.1.hovers s.2 []).1.drop (s.1.hovers s.2 []).2 ⟨0, 0⟩ = (none, d) ∧ d.Lacks ⟨0⟩ := by
  have hformed : pairCircuit.WellFormed := intact_pairDraft.refresh.wellFormed
  constructor
  · have hdrop : ((Drag.Source.toolbox (.standard .h)).start? pairCircuit).any fun s =>
        ((s.1.hovers s.2 [⟨150, 130⟩]).1.drop (s.1.hovers s.2 [⟨150, 130⟩]).2 ⟨100, 200⟩).1.isSome := by decide +kernel
    obtain ⟨s, hs, hsome⟩ := (Option.any_eq_true _ _).mp hdrop
    cases hd : (s.1.hovers s.2 [⟨150, 130⟩]).1.drop (s.1.hovers s.2 [⟨150, 130⟩]).2 ⟨100, 200⟩ with
    | mk placement d =>
      rw [hd] at hsome
      obtain ⟨target, rfl⟩ := Option.isSome_iff_exists.mp hsome
      obtain ⟨hothers, hlanded, -⟩ := drop_undisturbed hformed rfl rfl hs [⟨150, 130⟩] ⟨100, 200⟩ hd
      exact ⟨s, target, d, hs, hd, hothers, hlanded target rfl⟩
  · have hgate : (pairCircuit.gate? ⟨0⟩).any fun g => g.id == ⟨0⟩ && !g.kind.isPlaceholder := by decide +kernel
    obtain ⟨g, hg, hshows⟩ := (Option.any_eq_true _ _).mp hgate
    simp only [Bool.and_eq_true, beq_iff_eq, Bool.not_eq_true'] at hshows
    obtain ⟨hid, hvisible⟩ := hshows
    have hdrop : ((Drag.Source.cell ⟨0⟩).start? pairCircuit).any fun s =>
        ((s.1.hovers s.2 []).1.drop (s.1.hovers s.2 []).2 ⟨0, 0⟩).1.isNone := by decide +kernel
    obtain ⟨s, hs, hnone⟩ := (Option.any_eq_true _ _).mp hdrop
    cases hd : (s.1.hovers s.2 []).1.drop (s.1.hovers s.2 []).2 ⟨0, 0⟩ with
    | mk placement d =>
      rw [hd] at hnone
      obtain rfl := Option.isNone_iff_eq_none.mp hnone
      have hsource : (Drag.Source.cell ⟨0⟩).gate? pairCircuit = some g := hg
      obtain ⟨-, -, hgone⟩ := drop_undisturbed hformed hsource hvisible hs [] ⟨0, 0⟩ hd
      exact ⟨s, d, hs, hd, hid ▸ hgone rfl⟩

end Drops

end CircuitDesigner
