import CircuitDesigner.Proofs.Catalog

/-! Declarations that overwrite nothing.

    Definitions may come with any ids. The count of declarations is the greatest number among these, so that a
    declaration appends a gate with a new id. It fails only when a definition has the last number already
    (`declare_appends_iff`, `declare_after_last`). -/

namespace CircuitDesigner.Catalog

/-! ### Changes -/

/-- A change of a catalog. -/
inductive Change where
  | declare (span : Nat) (caption : Caption) (circuit : Template)
  | define (d : Definition)
  | hide (id : String)

/-- The catalog after a change. A declaration that fails leaves none. -/
def change? (c : Catalog) : Change → Option Catalog
  | .declare span caption circuit => (c.declare? span caption circuit).map Prod.snd
  | .define d => some (c.define d)
  | .hide id => some (c.hide id)

/-- The catalog that changes make of the empty one. -/
def ofChanges? (changes : List Change) : Option Catalog := changes.foldlM change? {}

/-- The last number of 64 bits. -/
def lastNumber : UInt64 := .ofNat (Text.word - 1)

/-- A definition has the last number. -/
def Exhausted (c : Catalog) : Prop := ∃ d ∈ c.definitions, d.ordinal? = some lastNumber

instance (c : Catalog) : Decidable c.Exhausted := inferInstanceAs (Decidable (∃ d ∈ c.definitions, _))

/-- One definition comes to the end, with an id of its own. All others keep their ids and their places. -/
structure Appends (c : Catalog) (d : Definition) (c' : Catalog) : Prop where
  new : c.contains d.id = false
  last : c'.definitions = c.definitions ++ [d]
  kept : ∀ id e, c.get? id = some e → c'.get? id = some e
  placed : ∀ (i : Nat) e, c.definitions[i]? = some e → c'.definitions[i]? = some e

variable {c c' : Catalog} {d e : Definition} {ds : List Definition} {number : UInt64} {span : Nat} {caption : Caption}
  {circuit : Template} {changes : List Change}

/-! ### The count -/

theorem mem_put_self (d : Definition) (ds : List Definition) : d ∈ put d ds := by
  induction ds with
  | nil => exact List.mem_singleton_self d
  | cons b ds ih =>
    rw [put]
    split
    · exact List.mem_cons_self
    · exact List.mem_cons_of_mem b ih

/-- A definition gives way only to one with the same id. -/
theorem exists_mem_put (h : e ∈ ds) (d : Definition) : ∃ f ∈ put d ds, f.id = e.id := by
  induction ds with
  | nil => cases h
  | cons b ds ih =>
    rw [put]
    rcases List.mem_cons.mp h with rfl | h
    · split
      · rename_i hid
        exact ⟨d, List.mem_cons_self, hid.symm⟩
      · exact ⟨e, List.mem_cons_self, rfl⟩
    · split
      · exact ⟨e, List.mem_cons_of_mem d h, rfl⟩
      · obtain ⟨f, hf, hid⟩ := ih h
        exact ⟨f, List.mem_cons_of_mem b hf, hid⟩

/-- The count is the greatest number of a definition, or nothing has been counted. -/
structure Counted (c : Catalog) : Prop where
  numbered : c.Numbered
  attained : c.created = 0 ∨ ∃ d ∈ c.definitions, d.ordinal? = some c.created

namespace Counted

theorem empty : Counted {} := ⟨numbered_empty, .inl rfl⟩

theorem declare (h : c.Counted) (hdeclare : c.declare? span caption circuit = some (d, c')) : c'.Counted := by
  obtain ⟨number, hnumber, rfl, rfl⟩ := exists_of_declare? hdeclare
  exact ⟨h.numbered.declared hnumber span caption circuit, .inr ⟨_, mem_put_self _ _, ordinal?_declared number _ _ _⟩⟩

theorem define (h : c.Counted) (d : Definition) : (c.define d).Counted := by
  refine ⟨h.numbered.define d, ?_⟩
  have hcreated : (c.define d).created = c.created ∨ d.ordinal? = some (c.define d).created := by
    unfold Catalog.define
    dsimp only
    cases d.ordinal? with
    | none => exact .inl rfl
    | some n =>
      show (if c.created ≤ n then n else c.created) = c.created ∨ some n = some (if c.created ≤ n then n else c.created)
      split
      · exact .inr rfl
      · exact .inl rfl
  rcases hcreated with hcreated | hnumber
  · rw [hcreated]
    refine h.attained.imp_right fun ⟨e, he, hnumber⟩ => ?_
    obtain ⟨f, hf, hid⟩ := exists_mem_put he d
    exact ⟨f, hf, (ordinal?_congr hid).trans hnumber⟩
  · exact .inr ⟨d, mem_put_self d _, hnumber⟩

theorem hide (h : c.Counted) (id : String) : (c.hide id).Counted := by
  refine ⟨h.numbered.hide id, h.attained.imp_right fun ⟨e, he, hnumber⟩ => ?_⟩
  refine ⟨_, List.mem_map_of_mem he, Eq.trans (ordinal?_congr ?_) hnumber⟩
  split <;> rfl

/-- A step of a run. -/
theorem change (h : c.Counted) {a : Change} (ha : c.change? a = some c') : c'.Counted := by
  cases a with
  | declare span caption circuit =>
    obtain ⟨made, hmade, rfl⟩ := Option.map_eq_some_iff.mp ha
    exact h.declare hmade
  | define d =>
    cases ha
    exact h.define d
  | hide id =>
    cases ha
    exact h.hide id

theorem run (h : c.Counted) (hchanges : changes.foldlM change? c = some c') : c'.Counted := by
  induction changes generalizing c with
  | nil =>
    cases hchanges
    exact h
  | cons a as ih =>
    obtain ⟨b, hb, hrest⟩ := Option.bind_eq_some_iff.mp hchanges
    exact ih (h.change hb) hrest

/-- The next number is missing just if a definition has the last one. -/
theorem next?_eq_none_iff (h : c.Counted) : c.next? = none ↔ c.Exhausted := by
  have hword : lastNumber.toNat + 1 = Text.word := rfl
  have hlt : c.created.toNat < Text.word := UInt64.toNat_lt c.created
  have hlast : c.next? = none ↔ c.created.toNat + 1 = Text.word := by
    unfold next?
    rw [ite_eq_right_iff]
    simp only [reduceCtorEq, imp_false]
    omega
  rw [hlast]
  constructor
  · intro hcreated
    have heq : c.created = lastNumber := UInt64.toNat_inj.mp (by omega)
    rcases h.attained with hzero | hnumber
    · rw [hzero] at heq
      cases heq
    · rwa [heq] at hnumber
  · rintro ⟨d, hd, hnumber⟩
    have hle := UInt64.le_iff_toNat_le.mp (h.numbered d hd lastNumber hnumber)
    omega

end Counted

/-! ### The gate that is declared -/

theorem Numbered.appends (h : c.Numbered) (hdeclare : c.declare? span caption circuit = some (d, c')) :
    c.Appends d c' := by
  obtain ⟨number, hnumber, rfl, rfl⟩ := exists_of_declare? hdeclare
  have hnew := h.not_contains hnumber span caption circuit
  have hput := put_of_new (contains_eq_false_iff.mp hnew)
  refine ⟨hnew, hput, fun id e he => get?_put hnew he _, fun i e he => ?_⟩
  show (put _ c.definitions)[i]? = some e
  rw [hput, List.getElem?_append_left (List.getElem?_eq_some_iff.mp he).1, he]

/-- After all changes a declaration appends a gate with a new id and leaves all others in their places, unless a
    definition has the last number. Then it fails. -/
theorem declare_appends_iff (changes : List Change) (hchanges : ofChanges? changes = some c) (span : Nat)
    (caption : Caption) (circuit : Template) :
    ((∃ d c', c.declare? span caption circuit = some (d, c') ∧ c.Appends d c') ↔ ¬c.Exhausted) ∧
    (c.declare? span caption circuit = none ↔ c.Exhausted) := by
  have hcounted := Counted.empty.run hchanges
  have hfails : c.declare? span caption circuit = none ↔ c.Exhausted :=
    Option.map_eq_none_iff.trans hcounted.next?_eq_none_iff
  refine ⟨?_, hfails⟩
  rw [← hfails]
  constructor
  · rintro ⟨d, c', hdeclare, -⟩ hnone
    rw [hdeclare] at hnone
    cases hnone
  · intro hsome
    obtain ⟨⟨d, c'⟩, hdeclare⟩ := Option.ne_none_iff_exists'.mp hsome
    exact ⟨d, c', hdeclare, hcounted.numbered.appends hdeclare⟩

/-- A gate without contents. -/
def hollowGate (id : String) : Definition := { id, span := 1, symbol := "G", title := "Gate", circuit := .empty }

/-- Numbers with zeros and a sign before them, and one that has too many digits to count. -/
def oddNumbers : List Change :=
  [.define (hollowGate "cg007"), .declare 2 {} .empty, .define (hollowGate "cg+12"), .hide "cg8",
    .define (hollowGate "cg99999999999999999999")]

/-- A gate with the first number and one with the last. -/
def endNumbers : List Change := [.define (hollowGate "cg0"), .define (hollowGate "cg18446744073709551615")]

theorem declare_appends_iff_odd :
    (∃ c, ofChanges? oddNumbers = some c ∧ ∃ d c', c.declare? 1 {} .empty = some (d, c') ∧ c.Appends d c') ∧
    ∃ c, ofChanges? endNumbers = some c ∧ c.declare? 1 {} .empty = none := by
  refine ⟨⟨_, rfl, ?_⟩, ⟨_, rfl, ?_⟩⟩
  · exact (declare_appends_iff oddNumbers rfl 1 {} .empty).1.mpr (by decide)
  · exact (declare_appends_iff endNumbers rfl 1 {} .empty).2.mpr (by decide)

/-- After a gate with the last number nothing is appended, though few numbers are in use. -/
theorem declare_after_last : ¬∀ changes c, ofChanges? changes = some c →
    ∃ d c', c.declare? 2 {} .empty = some (d, c') ∧ c.Appends d c' := by
  intro hall
  obtain ⟨c, hc, hfails⟩ : ∃ c, ofChanges? endNumbers = some c ∧ c.declare? 2 {} .empty = none := ⟨_, rfl, rfl⟩
  obtain ⟨d, c', hdeclare, -⟩ := hall endNumbers c hc
  rw [hfails] at hdeclare
  cases hdeclare

end CircuitDesigner.Catalog
