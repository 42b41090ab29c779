import CircuitDesigner.Proofs.Stamp
import CircuitDesigner.Proofs.Text.Digits
import Mathlib.Tactic.SplitIfs

/-! Catalogs that grow.

    A declaration numbers its gate above all numbers in the catalog, so that its id is new. It fails when no number of
    64 bits is left. A new definition changes the meaning of no stamp. -/

namespace CircuitDesigner

namespace Catalog

variable {c c' : Catalog} {d : Definition} {number : UInt64} {span : Nat} {caption : Caption} {circuit : Template}

/-- The numbers of the definitions are counted. -/
def Numbered (c : Catalog) : Prop := ∀ d ∈ c.definitions, ∀ n, d.ordinal? = some n → n ≤ c.created

theorem numbered_empty : Numbered {} := fun _ hd => by cases hd

theorem toList_label (n : Nat) : ("cg" ++ toString n).toList = 'c' :: 'g' :: Nat.toDigits 10 n := by
  rw [String.toList_append, Nat.toString_eq_repr, Nat.toList_repr]
  rfl

theorem ordinal?_congr {e : Definition} (h : d.id = e.id) : d.ordinal? = e.ordinal? := by
  unfold Definition.ordinal?
  rw [h]

/-- The number is read back from the id. -/
theorem ordinal?_of_id {n : Nat} (hid : d.id = "cg" ++ toString n) (hn : n < Text.word) :
    d.ordinal? = some n.toUInt64 := by
  unfold Definition.ordinal?
  simp [hid, Text.unsignedChars?_toDigits hn]

theorem ordinal?_declared (number : UInt64) (span : Nat) (caption : Caption) (circuit : Template) :
    (declared number span caption circuit).ordinal? = some number := by
  rw [ordinal?_of_id (n := number.toNat) rfl (UInt64.toNat_lt _), Nat.toUInt64_eq, UInt64.ofNat_toNat]

theorem mem_put {ds : List Definition} {e : Definition} (h : e ∈ put d ds) : e = d ∨ e ∈ ds := by
  induction ds with
  | nil => exact .inl (List.mem_singleton.mp h)
  | cons b ds ih =>
    rw [put] at h
    split at h
    · rcases List.mem_cons.mp h with rfl | h
      · exact .inl rfl
      · exact .inr (List.mem_cons_of_mem b h)
    · rcases List.mem_cons.mp h with rfl | h
      · exact .inr List.mem_cons_self
      · rcases ih h with rfl | h
        · exact .inl rfl
        · exact .inr (List.mem_cons_of_mem b h)

/-- The count goes up by one and never starts over. -/
theorem next?_eq_some_iff : c.next? = some number ↔ number.toNat = c.created.toNat + 1 := by
  unfold next?
  constructor
  · intro h
    split at h
    · rename_i hlt
      cases h
      rw [UInt64.toNat_add]
      exact Nat.mod_eq_of_lt hlt
    · cases h
  · intro h
    have hlt : c.created.toNat + 1 < Text.word := h ▸ UInt64.toNat_lt number
    rw [if_pos hlt, Option.some.injEq, ← UInt64.toNat_inj, h, UInt64.toNat_add]
    exact Nat.mod_eq_of_lt hlt

/-- All that a declaration does. -/
theorem exists_of_declare? (h : c.declare? span caption circuit = some (d, c')) : ∃ number, c.next? = some number ∧
    d = declared number span caption circuit ∧ c' = { definitions := put d c.definitions, created := number } := by
  obtain ⟨number, hnumber, heq⟩ := Option.map_eq_some_iff.mp h
  obtain ⟨rfl, rfl⟩ := Prod.mk.inj heq
  exact ⟨number, hnumber, rfl, rfl⟩

theorem Numbered.declared (h : c.Numbered) (hnumber : c.next? = some number) (span : Nat) (caption : Caption)
    (circuit : Template) :
    Numbered
      { definitions := put (Catalog.declared number span caption circuit) c.definitions, created := number } := by
  have hcount := next?_eq_some_iff.mp hnumber
  intro e he n hn
  rcases mem_put he with rfl | he
  · rw [ordinal?_declared, Option.some.injEq] at hn
    exact hn ▸ UInt64.le_refl _
  · have hle := UInt64.le_iff_toNat_le.mp (h e he n hn)
    exact UInt64.le_iff_toNat_le.mpr (hcount ▸ Nat.le_succ_of_le hle)

theorem Numbered.define (h : c.Numbered) (d : Definition) : (c.define d).Numbered := by
  intro e he n hn
  have hle : c.created ≤ (c.define d).created ∧ ∀ m, d.ordinal? = some m → m ≤ (c.define d).created := by
    unfold Catalog.define
    dsimp only
    cases d.ordinal? with
    | none => exact ⟨UInt64.le_refl _, fun _ hm => by cases hm⟩
    | some m =>
      show c.created ≤ (if c.created ≤ m then m else c.created) ∧
        ∀ k, some m = some k → k ≤ if c.created ≤ m then m else c.created
      split
      · rename_i hle
        exact ⟨hle, fun k hk => by cases hk; exact UInt64.le_refl _⟩
      · rename_i hle
        refine ⟨UInt64.le_refl _, fun k hk => ?_⟩
        cases hk
        exact (UInt64.le_total c.created m).resolve_left hle
  rcases mem_put he with rfl | he
  · exact hle.2 n hn
  · exact UInt64.le_trans (h e he n hn) hle.1

theorem id_of_get? {id : String} {e : Definition} (h : c.get? id = some e) : e.id = id :=
  beq_iff_eq.mp (List.find?_some (p := fun e : Definition => e.id == id) h)

/-- The gate that is declared is new. -/
theorem Numbered.not_contains (h : c.Numbered) (hnumber : c.next? = some number) (span : Nat) (caption : Caption)
    (circuit : Template) : c.contains (Catalog.declared number span caption circuit).id = false := by
  refine Bool.eq_false_iff.mpr fun hcontains => ?_
  obtain ⟨e, he⟩ := Option.isSome_iff_exists.mp hcontains
  have hordinal : e.ordinal? = some number :=
    (ordinal?_congr (id_of_get? he)).trans (ordinal?_declared number span caption circuit)
  have hle := UInt64.le_iff_toNat_le.mp (h e (List.mem_of_find?_eq_some he) _ hordinal)
  rw [next?_eq_some_iff.mp hnumber] at hle
  exact absurd hle (Nat.not_succ_le_self _)

theorem put_of_new {ds : List Definition} (h : ds.find? (fun e => e.id == d.id) = none) : put d ds = ds ++ [d] := by
  induction ds with
  | nil => rfl
  | cons b ds ih =>
    rw [List.find?_cons] at h
    split at h
    · cases h
    · rename_i hb
      rw [put, if_neg (by simpa using hb), ih h]
      rfl

theorem contains_eq_false_iff {id : String} : c.contains id = false ↔ c.get? id = none :=
  Option.isSome_eq_false_iff.trans Option.isNone_iff_eq_none

/-- A new definition hides none. -/
theorem get?_put {id : String} {e : Definition} (hnew : c.contains d.id = false) (h : c.get? id = some e)
    (created : UInt64) : Catalog.get? { definitions := put d c.definitions, created } id = some e := by
  have hnone : c.definitions.find? (fun e => e.id == d.id) = none := contains_eq_false_iff.mp hnew
  unfold get? at h ⊢
  dsimp only
  rw [put_of_new hnone, List.find?_append, h]
  rfl

/-- A new definition is found. -/
theorem get?_put_self (hnew : c.contains d.id = false) (created : UInt64) :
    Catalog.get? { definitions := put d c.definitions, created } d.id = some d := by
  have hnone : c.definitions.find? (fun e => e.id == d.id) = none := contains_eq_false_iff.mp hnew
  unfold get?
  dsimp only
  rw [put_of_new hnone, List.find?_append, hnone]
  simp

/-- The number of wires that the gate with the id covers. -/
def span? (c : Catalog) (id : String) : Option Nat := (c.get? id).map Definition.span

theorem span?_eq_some_iff {id : String} {n : Nat} : c.span? id = some n ↔ ∃ e, c.get? id = some e ∧ e.span = n :=
  Option.map_eq_some_iff

/-- If the first catalog has a gate with the id, the second one has it with the same span. -/
def Keeps (c d : Catalog) (id : String) : Prop := ∀ n, c.span? id = some n → d.span? id = some n

/-- Every gate of the first catalog is in the second one, with its span. -/
def Within (c d : Catalog) : Prop := ∀ id, c.Keeps d id

/-- Every gate of the first catalog is in the second one, with its span and circuit. -/
def Recalls (c d : Catalog) : Prop :=
  ∀ id e, c.get? id = some e → ∃ f, d.get? id = some f ∧ f.span = e.span ∧ f.circuit = e.circuit

namespace Recalls

theorem refl (c : Catalog) : c.Recalls c := fun _ e he => ⟨e, he, rfl, rfl⟩

theorem of_eq {d : Catalog} (h : d = c) : c.Recalls d := h ▸ refl c

theorem trans {b d : Catalog} (h : b.Recalls c) (h' : c.Recalls d) : b.Recalls d := by
  intro id e he
  obtain ⟨f, hf, hspan, hcircuit⟩ := h id e he
  obtain ⟨g, hg, hspan', hcircuit'⟩ := h' id f hf
  exact ⟨g, hg, hspan'.trans hspan, hcircuit'.trans hcircuit⟩

theorem within {d : Catalog} (h : c.Recalls d) : c.Within d := by
  intro id n hn
  obtain ⟨e, he, rfl⟩ := span?_eq_some_iff.mp hn
  obtain ⟨f, hf, hspan, -⟩ := h id e he
  exact span?_eq_some_iff.mpr ⟨f, hf, hspan⟩

theorem put (hnew : c.contains d.id = false) (created : UInt64) :
    c.Recalls { definitions := Catalog.put d c.definitions, created } :=
  fun _ e he => ⟨e, get?_put hnew he created, rfl, rfl⟩

end Recalls

theorem Within.put (hnew : c.contains d.id = false) (created : UInt64) :
    c.Within { definitions := Catalog.put d c.definitions, created } := (Recalls.put hnew created).within

/-- One more gate of the second catalog. -/
theorem Within.concat {ds : List Definition} (h : Within { definitions := ds } c) (hd : c.span? d.id = some d.span) :
    Within { definitions := ds ++ [d] } c := by
  intro id n hn
  obtain ⟨e, he, rfl⟩ := span?_eq_some_iff.mp hn
  have he : (ds ++ [d]).find? (fun e => e.id == id) = some e := he
  rw [List.find?_append, Option.or_eq_some_iff] at he
  rcases he with he | ⟨-, he⟩
  · exact h id e.span (congrArg (Option.map Definition.span) he)
  · rw [List.find?_singleton] at he
    split at he
    · rename_i hid
      cases he
      rwa [← beq_iff_eq.mp hid]
    · cases he

/-! ### Hiding -/

/-- A hidden definition is found as before. -/
theorem get?_hide (c : Catalog) (id id' : String) :
    (c.hide id').get? id = (c.get? id).map fun d => if d.id = id' then { d with hidden := true } else d := by
  have hsame : ((fun d : Definition => d.id == id) ∘ fun d => if d.id = id' then { d with hidden := true } else d) =
      fun d => d.id == id := by
    funext d
    simp only [Function.comp_apply]
    split <;> rfl
  unfold get? hide
  rw [List.find?_map, hsame]

theorem Recalls.hide (c : Catalog) (id : String) : c.Recalls (c.hide id) := by
  intro id' e he
  refine ⟨_, by rw [get?_hide, he]; rfl, ?_⟩
  dsimp only
  split <;> exact ⟨rfl, rfl⟩

theorem Within.hide (c : Catalog) (id : String) : c.Within (c.hide id) := (Recalls.hide c id).within

theorem exists_of_mem_hide {id : String} (h : d ∈ (c.hide id).definitions) :
    ∃ e ∈ c.definitions, d.id = e.id ∧ d.circuit = e.circuit := by
  obtain ⟨e, he, rfl⟩ := List.mem_map.mp h
  refine ⟨e, he, ?_⟩
  split <;> exact ⟨rfl, rfl⟩

theorem Numbered.hide (h : c.Numbered) (id : String) : (c.hide id).Numbered := by
  intro d hd n hn
  obtain ⟨e, he, hid, -⟩ := exists_of_mem_hide hd
  exact h e he n (ordinal?_congr hid ▸ hn)

end Catalog

/-- A stamp means the same in a catalog that has its custom gate with the same span. -/
theorem GateKind.ofStamp_mono {c d : Catalog} {stamp : String} {kind : GateKind} (h : ofStamp c stamp = .ok kind)
    (hkeeps : c.Keeps d (Stamp.typeId stamp)) : ofStamp d stamp = .ok kind := by
  unfold Stamp.typeId at hkeeps
  unfold ofStamp at h ⊢
  generalize Stamp.split stamp = p at h hkeeps ⊢
  obtain ⟨id, extra⟩ := p
  dsimp only at h hkeeps ⊢
  split at h
  · exact h
  · split at h
    · exact h
    · split_ifs at h ⊢ <;> try exact h
      -- Only here the catalog is asked.
      split at h
      · rename_i e he
        cases h
        have hspan := hkeeps e.span (Catalog.span?_eq_some_iff.mpr ⟨e, he, rfl⟩)
        obtain ⟨e', he', hspan'⟩ := Catalog.span?_eq_some_iff.mp hspan
        rw [he']
        dsimp only
        rw [Catalog.id_of_get? he, Catalog.id_of_get? he', hspan']
      · cases h

/-- A known kind stays known in a catalog that has all gates of the first one. -/
theorem GateKind.Known.within {c d : Catalog} {kind : GateKind} (h : kind.Known c) (hwithin : c.Within d) :
    kind.Known d :=
  ofStamp_mono h (hwithin _)

/-- A stamp with the number of a custom gate as its type id is not taken for a gate of another kind. -/
theorem GateKind.ofStamp_custom {c : Catalog} {stamp : String} {n : Nat} {d : Definition}
    (hid : Stamp.typeId stamp = "cg" ++ toString n) (hd : c.get? (Stamp.typeId stamp) = some d) :
    ofStamp c stamp = .ok (.custom d.id d.span) := by
  have hchars : (Stamp.typeId stamp).toList = 'c' :: 'g' :: Nat.toDigits 10 n := hid ▸ Catalog.toList_label n
  refine ofStamp_of_typeId (fun hbuiltin => ?_) ?_ hd
  · have hstart : ∀ id ∈ builtinIds, id.toList.take 2 ≠ ['c', 'g'] := by decide
    exact hstart _ hbuiltin (by rw [hchars]; rfl)
  · unfold Stamp.isSupport
    rw [hchars]
    rfl

/-- The type id of a stamp that means a custom gate is the id of that gate. -/
theorem GateKind.exists_of_ofStamp_custom {c : Catalog} {stamp id : String} {span : Nat}
    (h : ofStamp c stamp = .ok (.custom id span)) :
    ∃ d, c.get? (Stamp.typeId stamp) = some d ∧ d.id = id ∧ d.span = span := by
  unfold Stamp.typeId
  unfold ofStamp at h
  generalize Stamp.split stamp = p at h ⊢
  obtain ⟨type, extra⟩ := p
  dsimp only at h ⊢
  split at h
  · cases h
  · split at h
    · cases h
    · split_ifs at h
      · cases hmode : Stamp.mode type ControlMode.active ControlMode.ofCode? extra <;> rw [hmode] at h <;> cases h
      · cases hmode : Stamp.mode type PostSelection.off PostSelection.ofCode? extra <;> rw [hmode] at h <;> cases h
      · cases h
      · cases h
      · split at h
        · rename_i d hd
          cases h
          exact ⟨d, hd, rfl, rfl⟩
        · cases h

theorem GateKind.known_custom {c : Catalog} {id : String} {n span : Nat} (hid : id = "cg" ++ toString n)
    (h : c.span? id = some span) : (GateKind.custom id span).Known c := by
  obtain ⟨d, hd, rfl⟩ := Catalog.span?_eq_some_iff.mp h
  have htype : Stamp.typeId id = id := by
    unfold Stamp.typeId
    rw [Stamp.split_of_not_mem fun hmem => ?_]
    rw [hid, Catalog.toList_label, List.mem_cons, List.mem_cons] at hmem
    rcases hmem with hmem | hmem | hmem
    · cases hmem
    · cases hmem
    · cases Nat.isDigit_of_mem_toDigits (by decide) (by decide) hmem
  have hmeans := ofStamp_custom (htype.trans hid) (htype.symm ▸ hd)
  rwa [Catalog.id_of_get? hd] at hmeans

end CircuitDesigner
