import CircuitDesigner.Json.Decode
import CircuitDesigner.Proofs.Except
import CircuitDesigner.Proofs.Json.Reading

/-! Decoding what was written.

    A decoder goes through the members of an object one by one: a field that was not met before is stored, and a
    part that was left out changes nothing. -/

namespace CircuitDesigner.Json

variable {α σ : Type} {o : Origin} {depth : Nat}

/-! ### Drafts of lists -/

theorem memberDrafts_eq_map (members : List (String × Json)) :
    memberDrafts members = members.map fun m => (some m.1, draft m.2) := by
  induction members with
  | nil => rfl
  | cons m members ih => rw [memberDrafts, ih, List.map_cons]

/-! ### Values that fit -/

theorem Fits.items {depth : Nat} {items : List Json} (h : Fits depth (.array items)) :
    ∃ n, depth = n + 1 ∧ ∀ item ∈ items, Fits n item := by
  cases h with
  | array h => exact ⟨_, rfl, h⟩

theorem Fits.members {depth : Nat} {members : List (String × Json)} (h : Fits depth (.object members)) :
    ∃ n, depth = n + 1 ∧ ∀ m ∈ members, Fits n m.2 := by
  cases h with
  | object h => exact ⟨_, rfl, h⟩

/-! ### Arrays -/

theorem decodeItems_drafts {decode : Draft → Except DecodeError α} {toJson : α → Json} {as : List α}
    (h : ∀ a ∈ as, decode (draft (toJson a)) = .ok a) :
    decodeItems decode true (drafts (as.map toJson)) = .ok as := by
  induction as with
  | nil => rfl
  | cons a as ih =>
    rw [List.map_cons, drafts, decodeItems, h a List.mem_cons_self, ih fun b hb => h b (List.mem_cons_of_mem a hb)]
    rfl

/-- An array of values that are decoded. -/
theorem decodeList_draft {decode : Decoder α} {toJson : α → Json} {as : List α}
    (h : ∀ a ∈ as, decode o depth (draft (toJson a)) = .ok a) :
    decodeList decode o (depth + 1) (draft (.array (as.map toJson))) = .ok as :=
  decodeItems_drafts h

theorem decodeList_strings (o : Origin) (depth : Nat) (texts : List String) :
    decodeList decodeString o (depth + 1) (draft (.array (texts.map .string))) = .ok texts :=
  decodeList_draft fun _ _ => rfl

/-! ### Names and absent values -/

theorem decodeLabel_draft {noun : String} {ofLabel? : String → Option α} {label : String} {a : α}
    (h : ofLabel? label = some a) : decodeLabel noun ofLabel? o depth (draft (.string label)) = .ok a := by
  have hstring : decodeString o depth (draft (.string label)) = .ok label := rfl
  unfold decodeLabel
  rw [bind_of_ok hstring, h]

theorem decodeOption_some {decode : Decoder α} {d : Draft} {a : α} (h : decode o depth d = .ok a)
    (hnull : d ≠ .null) : decodeOption decode o depth d = .ok (some a) := by
  unfold decodeOption
  split
  · exact absurd rfl hnull
  · rw [h]
    rfl

/-! ### Objects -/

section Members

variable {fields : List (Field σ)} {other : Other σ} {closed : Bool} {seen : List String} {s s' : σ} {key : String}
  {members : List (Option String × Draft)}

theorem decodeMembers_field {field : Field σ} (hfind : fields.find? (fun f => f.name == key) = some field)
    (hseen : key ∉ seen) {d : Draft} (hstore : field.store s o depth d = .ok s') :
    decodeMembers fields other o depth closed seen s ((some key, d) :: members) =
      decodeMembers fields other o depth closed (key :: seen) s' members := by
  have hcontains : seen.contains key = false := by simpa using hseen
  rw [decodeMembers]
  simp only [hfind, hcontains, hstore]
  rfl

theorem decodeMembers_other (hfind : fields.find? (fun f => f.name == key) = none) {d : Draft}
    (hother : other key s d = .ok s') :
    decodeMembers fields other o depth closed seen s ((some key, d) :: members) =
      decodeMembers fields other o depth closed seen s' members := by
  rw [decodeMembers]
  simp only [hfind, hother]
  rfl

/-- A part that is left out when it is absent. -/
theorem decodeMembers_optional {field : Field σ} (hfind : fields.find? (fun f => f.name == key) = some field)
    (hseen : key ∉ seen) (part : Option α) {toJson : α → Json} (rest : List (String × Json)) (next : σ)
    (hnone : part = none → next = s)
    (hsome : ∀ a, part = some a → field.store s o depth (draft (toJson a)) = .ok next) :
    decodeMembers fields other o depth closed seen s
        (memberDrafts ((part.map fun a => (key, toJson a)).toList ++ rest)) =
      decodeMembers fields other o depth closed (part.toList.map (fun _ => key) ++ seen) next (memberDrafts rest) := by
  cases part with
  | none =>
    rw [hnone rfl]
    rfl
  | some a => exact decodeMembers_field hfind hseen (hsome a rfl)

end Members

/-! ### Values kept aside -/

theorem settle_strings (depth : Nat) (texts : List String) :
    settle (depth + 1) (draft (.array (texts.map .string))) = .ok (.array (texts.map .string)) := by
  have hitems : settleItems depth (drafts (texts.map .string)) = .ok (texts.map .string) := by
    induction texts with
    | nil => rfl
    | cons text texts ih =>
      rw [List.map_cons, drafts, settleItems, ih]
      cases depth <;> rfl
  show (settleItems depth (drafts (texts.map .string)) >>= fun items => Except.ok (Json.array items)) = _
  rw [hitems]
  rfl

theorem settleMembers_cons {d : Draft} {value : Json} (h : settle depth d = .ok value) (key : String)
    (sorted : List (String × Json)) (members : List (Option String × Draft)) :
    settleMembers depth sorted ((some key, d) :: members) =
      settleMembers depth (insertMember key value sorted) members := by
  rw [settleMembers, h]
  rfl

end CircuitDesigner.Json
