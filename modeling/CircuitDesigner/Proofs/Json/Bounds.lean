import CircuitDesigner.Proofs.Json.Decoding

/-! What is read and decoded.

    The natural numbers that are read of a text have 64 bits (`sized_read`), and what each field of a record keeps is
    kept by the whole record (`decodeRecord_invariant`). -/

namespace CircuitDesigner.Json

/-! ### Numbers -/

/-- The numbers of a draft that are natural are numbers of 64 bits. -/
inductive Draft.Sized : Draft → Prop where
  | null : Sized .null
  | bool (b : Bool) : Sized (.bool b)
  | number {n : Number} (h : ∀ k, n = .natural k → k < Text.word) : Sized (.number n)
  | excess : Sized .excess
  | string (s : String) : Sized (.string s)
  | halved : Sized .halved
  | array {items : List Draft} (h : ∀ d ∈ items, Sized d) (closed : Bool) : Sized (.array items closed)
  | object {members : List (Option String × Draft)} (h : ∀ m ∈ members, Sized m.2) (closed : Bool) :
      Sized (.object members closed)
  | broken : Sized .broken

theorem gather_lt {m : Nat} (h : m < Text.word) (ds : List Nat) : (gather m ds).1 < Text.word := by
  induction ds generalizing m with
  | nil => exact h
  | cons d ds ih =>
    rw [gather]
    split
    · rename_i hlt
      exact ih hlt
    · exact h

theorem Parts.double_ne (p : Parts) (significand : Nat) (before : Int) (n : Nat) :
    p.double significand before ≠ .number (.natural n) := by
  intro h
  unfold Parts.double at h
  dsimp only at h
  split at h
  · split at h <;> cases h
  · split at h
    · split at h <;> cases h
    · split at h <;> cases h

theorem Parts.value_lt {p : Parts} {n : Nat} (h : p.value = .number (.natural n)) : n < Text.word := by
  have hgather := gather_lt (by decide : 0 < Text.word) p.whole
  unfold Parts.value at h
  generalize gather 0 p.whole = g at h hgather
  obtain ⟨m, left⟩ := g
  dsimp only at h hgather
  split at h
  · exact absurd h (p.double_ne _ _ n)
  · split at h
    · exact absurd h (p.double_ne _ _ n)
    · split at h
      · cases h
        exact hgather
      · split at h <;> cases h

theorem exists_parts_of_takeLiteral {cs rest : List Char} {l : Literal} (h : takeLiteral cs = some (l, rest)) :
    ∃ p : Parts, l = p.value := by
  unfold takeLiteral at h
  split at h
  rename_i negative cs' hstart
  dsimp only at h
  generalize spanDigits cs' = span at h
  obtain ⟨whole, tail⟩ := span
  dsimp only at h
  split at h
  · cases h
  · split at h
    · rename_i tail' _
      generalize spanDigits tail' = span at h
      obtain ⟨fraction, tail''⟩ := span
      dsimp only at h
      split at h
      · cases h
      · obtain ⟨⟨exponent, end'⟩, -, h⟩ := Option.bind_eq_some_iff.mp h
        cases h
        exact ⟨_, rfl⟩
    · obtain ⟨⟨exponent, end'⟩, -, h⟩ := Option.bind_eq_some_iff.mp h
      cases h
      exact ⟨_, rfl⟩

theorem takeLiteral_lt {cs rest : List Char} {n : Nat} (h : takeLiteral cs = some (.number (.natural n), rest)) :
    n < Text.word := by
  obtain ⟨p, hp⟩ := exists_parts_of_takeLiteral h
  exact Parts.value_lt hp.symm

/-- What is read of a text is sized. -/
theorem sized_read (fuel : Nat) : (∀ cs, (readValue fuel cs).1.Sized) ∧ (∀ cs, ∀ d ∈ (readItems fuel cs).1, d.Sized) ∧
    ∀ cs, ∀ m ∈ (readMembers fuel cs).1, m.2.Sized := by
  induction fuel with
  | zero =>
    refine ⟨fun _ => .broken, fun cs d hd => ?_, fun cs m hm => by cases hm⟩
    obtain rfl := List.mem_singleton.mp hd
    exact .broken
  | succ fuel ih =>
    obtain ⟨hvalue, hitems, hmembers⟩ := ih
    refine ⟨fun cs => ?_, fun cs => ?_, fun cs => ?_⟩
    · rw [readValue]
      split
      · exact .null
      · exact .bool true
      · exact .bool false
      · split
        · exact .string _
        · exact .halved
        · exact .broken
      · split
        · exact .array (by simp) true
        · exact .array (hitems _) _
      · split
        · exact .object (by simp) true
        · exact .object (hmembers _) _
      · split
        · rename_i hliteral
          exact .number fun k hk => takeLiteral_lt (hk ▸ hliteral)
        · exact .excess
        · exact .broken
    · have hitem := hvalue cs
      rw [readItems]
      split
      · rename_i heq
        rw [heq] at hitem
        simpa using hitem
      · rename_i heq
        rw [heq] at hitem
        split
        · rw [List.forall_mem_cons]
          exact ⟨hitem, hitems _⟩
        · simpa using hitem
        · simpa using hitem
    · rw [readMembers]
      split
      · split
        · simp
        · split
          · rename_i rest _
            have hitem := hvalue rest
            split
            · rename_i heq
              rw [heq] at hitem
              simpa using hitem
            · rename_i heq
              rw [heq] at hitem
              split
              · rw [List.forall_mem_cons]
                exact ⟨hitem, hmembers _⟩
              · simpa using hitem
              · simpa using hitem
          · simpa using Draft.Sized.broken
      · simp

theorem Draft.sized_read (text : String) : (Draft.read text).1.Sized := by
  have hvalue := (Json.sized_read (2 * text.toList.length + 2)).1 text.toList
  unfold Draft.read
  dsimp only
  split
  · rename_i heq
    rw [heq] at hvalue
    exact hvalue
  · rename_i heq
    rw [heq] at hvalue
    exact hvalue

/-! ### What decoding keeps -/

section Keeps

variable {α σ : Type} {o : Origin} {depth : Nat} {d : Draft}

theorem ok_of_decodeText {decode : Decoder α} {text : String} {a : α} (h : decodeText decode text = .ok a) :
    decode .text maxDepth (Draft.read text).1 = .ok a := by
  unfold decodeText at h
  generalize Draft.read text = r at h ⊢
  obtain ⟨draft, ended⟩ := r
  obtain ⟨b, hb, h⟩ := exists_of_bind h
  cases ended <;> cases h
  exact hb

theorem lt_of_decodeNat {expected : String} {n : Nat} (h : decodeNat expected o depth d = .ok n) (hd : d.Sized) :
    n < Text.word := by
  unfold decodeNat at h
  split at h
  · cases h
    cases hd with
    | number hn => exact hn n rfl
  · cases h
  · cases h

theorem decodeOption_cases {decode : Decoder α} {part : Option α} (h : decodeOption decode o depth d = .ok part) :
    part = none ∨ ∃ a, part = some a ∧ decode o depth d = .ok a := by
  unfold decodeOption at h
  split at h
  · cases h
    exact .inl rfl
  · cases hdecode : decode o depth d with
    | error e =>
      rw [hdecode] at h
      cases h
    | ok a =>
      rw [hdecode] at h
      cases h
      exact .inr ⟨a, rfl, rfl⟩

theorem exists_of_decodeItems {decode : Draft → Except DecodeError α} {closed : Bool} {items : List Draft} {as : List α}
    (h : decodeItems decode closed items = .ok as) : ∀ a ∈ as, ∃ d ∈ items, decode d = .ok a := by
  induction items generalizing as with
  | nil =>
    rw [decodeItems] at h
    split at h
    · cases h
      exact fun a ha => absurd ha List.not_mem_nil
    · cases h
  | cons d items ih =>
    obtain ⟨a, ha, h⟩ := exists_of_bind h
    obtain ⟨as, has, h⟩ := exists_of_bind h
    cases h
    intro b hb
    rcases List.mem_cons.mp hb with rfl | hb
    · exact ⟨d, List.mem_cons_self, ha⟩
    · obtain ⟨d', hd', hdecode⟩ := ih has b hb
      exact ⟨d', List.mem_cons_of_mem d hd', hdecode⟩

/-- Whatever each field keeps is kept by all members. -/
theorem decodeMembers_invariant {P : List String → σ → Prop} {Q : Draft → Prop} {fields : List (Field σ)}
    {other : Other σ} {closed : Bool}
    (hstore : ∀ field ∈ fields, ∀ seen s d s', P seen s → Q d → field.store s o depth d = .ok s' →
      P (field.name :: seen) s')
    (hother : ∀ key seen s d s', P seen s → Q d → other key s d = .ok s' → P seen s')
    {seen seen' : List String} {s s' : σ} {members : List (Option String × Draft)} (hs : P seen s)
    (hmembers : ∀ m ∈ members, Q m.2)
    (h : decodeMembers fields other o depth closed seen s members = .ok (seen', s')) : P seen' s' := by
  induction members generalizing seen s with
  | nil =>
    rw [decodeMembers] at h
    split at h
    · cases h
      exact hs
    · cases h
  | cons m members ih =>
    obtain ⟨key, d⟩ := m
    rw [List.forall_mem_cons] at hmembers
    cases key with
    | none => cases h
    | some key =>
      rw [decodeMembers] at h
      split at h
      · rename_i field hfind
        obtain rfl : field.name = key := beq_iff_eq.mp (List.find?_some (p := fun f : Field σ => f.name == key) hfind)
        split at h
        · cases h
        obtain ⟨s₁, hs₁, h⟩ := exists_of_bind h
        exact ih (hstore field (List.mem_of_find?_eq_some hfind) seen s d s₁ hs hmembers.1 hs₁) hmembers.2 h
      · obtain ⟨s₁, hs₁, h⟩ := exists_of_bind h
        exact ih (hother key seen s d s₁ hs hmembers.1 hs₁) hmembers.2 h

theorem decodeFields_invariant {P : σ → Prop} {Q : Draft → Prop} {expected : String} {count total : Nat}
    {closed : Bool} {i : Nat} {fields : List (Field σ)}
    (hstore : ∀ field ∈ fields, ∀ s d s', P s → Q d → field.store s o depth d = .ok s' → P s')
    {s s' : σ} {items : List Draft} (hs : P s) (hitems : ∀ d ∈ items, Q d)
    (h : decodeFields expected count total o depth closed i fields s items = .ok s') : P s' := by
  induction fields generalizing i s items with
  | nil =>
    cases items with
    | nil =>
      rw [decodeFields] at h
      split at h <;> cases h
      exact hs
    | cons d items => cases o <;> cases h
  | cons field fields ih =>
    rw [List.forall_mem_cons] at hstore
    cases items with
    | nil =>
      rw [decodeFields] at h
      split at h
      · cases h
      · split at h
        · cases h
        · exact ih hstore.2 hs hitems h
    | cons d items =>
      rw [List.forall_mem_cons] at hitems
      obtain ⟨s₁, hs₁, h⟩ := exists_of_bind h
      exact ih hstore.2 (hstore.1 s d s₁ hs hitems.1 hs₁) hitems.2 h

/-- Whatever each field keeps is kept by a record of them. -/
theorem decodeRecord_invariant {P : σ → Prop} {expected : String} {fields : List (Field σ)} {start : σ}
    (hstore : ∀ field ∈ fields, ∀ s d s', P s → d.Sized → field.store s o depth d = .ok s' → P s')
    (hstart : P start) (hd : d.Sized) {s : σ}
    (h : decodeRecord expected fields start o (depth + 1) d = .ok s) : P s := by
  cases hd with
  | object hmembers closed =>
    obtain ⟨⟨seen, s₁⟩, hs₁, h⟩ := exists_of_bind h
    dsimp only at h
    split at h <;> cases h
    exact decodeMembers_invariant (P := fun _ s => P s) (fun field hf _ => hstore field hf)
      (fun _ _ _ _ _ hs _ h => by cases h; exact hs) hstart hmembers hs₁
  | array hitems closed => exact decodeFields_invariant hstore hstart hitems h
  | _ => cases h

end Keeps

end CircuitDesigner.Json
