import CircuitDesigner.Proofs.Json.Bounds
import CircuitDesigner.Proofs.Template.Codec

/-! Templates and definitions that are read.

    Whatever is read of a text nests no deeper than the text and holds numbers of 64 bits only, so that it is read back
    once it is written (`Template.fits_of_parse`, `Definition.fits_of_parse`). -/

namespace CircuitDesigner

open Json

variable {o : Origin} {depth : Nat}

/-! ### What fits -/

theorem WireRecord.fits_toJson (r : WireRecord) (h : 2 ≤ depth) : Fits depth r.toJson := by
  obtain ⟨depth, rfl⟩ := Nat.exists_eq_add_of_le' h
  refine .object fun m hm => ?_
  simp only [List.mem_cons, List.mem_append, Option.mem_toList, Option.map_eq_some_iff] at hm
  rcases hm with rfl | (⟨_, -, rfl⟩ | ⟨_, -, rfl⟩) | ⟨_, -, rfl⟩
  · refine .array fun item hitem => ?_
    obtain ⟨text, -, rfl⟩ := List.mem_map.mp hitem
    exact .string text
  · exact .string _
  · exact .string _
  · exact .string _

namespace Template

theorem fits_of_mem_recordMembers {wires : List WireRecord} {row : Nat} (h : wires ≠ [] → 2 ≤ depth) :
    ∀ m ∈ recordMembers row wires, Fits depth m.2 := by
  induction wires generalizing row with
  | nil => nofun
  | cons r wires ih =>
    have h := h (List.cons_ne_nil r wires)
    rw [recordMembers, List.forall_mem_cons]
    exact ⟨r.fits_toJson h, ih fun _ => h⟩

/-- What holds of the value of each part, if it is recorded, and of each record holds of all members. -/
theorem forall_mem_members {t : Template} {P : Json → Prop} (hlength : P (.natural t.wires.length))
    (hstring : ∀ s, P (.string s)) (hqubits : ∀ n, t.minQubits = some n → P (.natural n))
    (hshots : ∀ n, t.shots = some n → P (.natural n))
    (hundos : ∀ ts, t.undos = some ts → P (.array (ts.map toJson)))
    (hredos : ∀ ts, t.redos = some ts → P (.array (ts.map toJson)))
    (hrecords : ∀ m ∈ recordMembers 0 t.wires, P m.2) : ∀ m ∈ t.members, P m.2 := by
  intro m hm
  simp only [members, List.mem_cons, List.mem_append, Option.mem_toList, Option.map_eq_some_iff] at hm
  rcases hm with rfl | ⟨e, -, rfl⟩ | ⟨n, hn, rfl⟩ | ⟨n, hn, rfl⟩ | ⟨ts, hts, rfl⟩ | ⟨ts, hts, rfl⟩ | hm
  · exact hlength
  · exact hstring _
  · exact hqubits n hn
  · exact hshots n hn
  · exact hundos ts hts
  · exact hredos ts hts
  · exact hrecords m hm

theorem fits_toJson {t : Template} (hlength : t.wires.length < Text.word) (hwires : t.wires ≠ [] → 2 ≤ depth)
    (hqubits : ∀ n, t.minQubits = some n → n < Text.word) (hshots : ∀ n, t.shots = some n → n < Text.word)
    (hundos : ∀ ts, t.undos = some ts → Fits depth (.array (ts.map toJson)))
    (hredos : ∀ ts, t.redos = some ts → Fits depth (.array (ts.map toJson))) : Fits (depth + 1) t.toJson := by
  rw [toJson_eq]
  exact .object (forall_mem_members (.natural hlength) .string (fun n hn => .natural (hqubits n hn))
    (fun n hn => .natural (hshots n hn)) hundos hredos (fits_of_mem_recordMembers hwires))

theorem shots_lt_of_fits {t : Template} (h : Fits depth t.toJson) {n : Nat} (hn : t.shots = some n) :
    n < Text.word := by
  rw [toJson_eq] at h
  cases h with
  | object hmembers =>
    have hmem : ("shots", Json.natural n) ∈ members t := by simp [members, hn]
    cases hmembers _ hmem with
    | natural hlt => exact hlt

end Template

theorem Definition.fits_toJson {d : Definition} (hspan : d.span < Text.word) (hcircuit : Fits depth d.circuit.toJson) :
    Fits (depth + 1) d.toJson := by
  refine .object fun m hm => ?_
  simp only [List.mem_cons, List.not_mem_nil, or_false] at hm
  rcases hm with rfl | rfl | rfl | rfl | rfl | rfl | rfl
  · exact .string _
  · exact .natural hspan
  · exact .string _
  · exact .string _
  · exact .string _
  · exact hcircuit
  · exact .bool _

/-! ### Records -/

/-- It is no array and no object. -/
def Json.Flat : Json → Prop
  | array _ | object _ => False
  | _ => True

theorem flat_of_settle {d : Draft} {value : Json} (h : settle 0 d = .ok value) : value.Flat := by
  cases d <;> cases h <;> exact trivial

theorem flat_of_settleItems {ds : List Draft} {values : List Json} (h : settleItems 0 ds = .ok values) :
    ∀ value ∈ values, value.Flat := by
  induction ds generalizing values with
  | nil =>
    cases h
    nofun
  | cons d ds ih =>
    obtain ⟨value, hvalue, h⟩ := exists_of_bind h
    obtain ⟨rest, hrest, h⟩ := exists_of_bind h
    cases h
    rw [List.forall_mem_cons]
    exact ⟨flat_of_settle hvalue, ih hrest⟩

theorem mem_insertMember {key : String} {value : Json} {members : List (String × Json)} {m : String × Json}
    (h : m ∈ insertMember key value members) : m = (key, value) ∨ m ∈ members := by
  induction members with
  | nil => exact .inl (List.mem_singleton.mp h)
  | cons n members ih =>
    obtain ⟨k, v⟩ := n
    rw [insertMember] at h
    split at h
    · rcases List.mem_cons.mp h with rfl | h
      · exact .inl rfl
      · exact .inr (List.mem_cons_of_mem _ h)
    · split at h
      · exact List.mem_cons.mp h
      · rcases List.mem_cons.mp h with rfl | h
        · exact .inr List.mem_cons_self
        · exact (ih h).imp_right (List.mem_cons_of_mem _)

theorem flat_of_settleMembers {ds : List (Option String × Draft)} {sorted members : List (String × Json)}
    (hsorted : ∀ m ∈ sorted, m.2.Flat) (h : settleMembers 0 sorted ds = .ok members) : ∀ m ∈ members, m.2.Flat := by
  induction ds generalizing sorted with
  | nil =>
    cases h
    exact hsorted
  | cons m ds ih =>
    obtain ⟨key, d⟩ := m
    cases key with
    | none => cases h
    | some key =>
      obtain ⟨value, hvalue, h⟩ := exists_of_bind h
      refine ih (fun m hm => ?_) h
      rcases mem_insertMember hm with rfl | hm
      · exact flat_of_settle hvalue
      · exact hsorted m hm

/-- No list is decoded from a flat value. -/
theorem Json.Flat.ne_ok {α : Type} {decode : Decoder α} {value : Json} (h : value.Flat) (as : List α) :
    decodeList decode o depth (draft value) ≠ .ok as := by
  cases value <;> first | exact h.elim | nofun

section Kept

variable {r : WireRecord}

theorem Json.Flat.decodeKept_ne_ok {value : Json} (h : value.Flat) : decodeKept WireRecord.decode value ≠ .ok r := by
  intro hdecode
  cases value <;> first | exact h.elim | cases hdecode

theorem decodeKept_array_ne_ok {values : List Json} (h : ∀ value ∈ values, value.Flat) :
    decodeKept WireRecord.decode (.array values) ≠ .ok r := by
  intro hdecode
  cases values with
  | nil => cases hdecode
  | cons value values =>
    obtain ⟨r', hr', -⟩ := exists_of_bind hdecode
    obtain ⟨stamps, hstamps, -⟩ := exists_of_bind hr'
    exact (h value List.mem_cons_self).ne_ok stamps hstamps

theorem decodeKept_object_ne_ok {members : List (String × Json)} (h : ∀ m ∈ members, m.2.Flat) :
    decodeKept WireRecord.decode (.object members) ≠ .ok r := by
  intro hdecode
  obtain ⟨⟨seen, s⟩, hseen, hdecode⟩ := exists_of_bind hdecode
  -- No member is taken for the stamps.
  have hgates : "gates" ∉ seen := by
    refine decodeMembers_invariant (P := fun seen _ => "gates" ∉ seen)
      (Q := fun d => ∀ texts, decodeList decodeString .value 126 d ≠ .ok texts)
      (fun field hf seen s d s' hs hd hstore => ?_) (fun _ _ _ _ _ hs _ _ => hs) List.not_mem_nil ?_ hseen
    · simp only [WireRecord.fields, List.mem_cons, List.not_mem_nil, or_false] at hf
      rcases hf with rfl | rfl | rfl | rfl
      · obtain ⟨stamps, hstamps, -⟩ := exists_of_bind hstore
        exact absurd hstamps (hd stamps)
      · simpa using hs
      · simpa using hs
      · simpa using hs
    · rw [memberDrafts_eq_map, List.forall_mem_map]
      exact fun m hm => (h m hm).ne_ok
  dsimp only at hdecode
  split at hdecode
  · cases hdecode
  · rename_i hnone
    have hrequired := List.find?_eq_none.mp hnone _ List.mem_cons_self
    simp [hgates] at hrequired

/-- A record holds an array, so that it was kept aside with room for two. -/
theorem two_le_of_kept {d : Draft} {value : Json} (hvalue : settle depth d = .ok value)
    (h : decodeKept WireRecord.decode value = .ok r) : 2 ≤ depth := by
  refine Nat.le_of_not_lt fun hlt => ?_
  obtain rfl | rfl : depth = 0 ∨ depth = 1 := by omega
  · exact (flat_of_settle hvalue).decodeKept_ne_ok h
  · cases d with
    | array items closed =>
      obtain ⟨values, hvalues, heq⟩ := exists_of_bind hvalue
      split at heq <;> cases heq
      exact decodeKept_array_ne_ok (flat_of_settleItems hvalues) h
    | object members closed =>
      obtain ⟨values, hvalues, heq⟩ := exists_of_bind hvalue
      split at heq <;> cases heq
      exact decodeKept_object_ne_ok (flat_of_settleMembers (fun _ h => absurd h List.not_mem_nil) hvalues) h
    | _ => exact Json.Flat.decodeKept_ne_ok (by cases hvalue <;> exact trivial) h

end Kept

/-! ### Templates -/

namespace Template

/-- What was read of a template fits. -/
structure Raw.Bounded (depth : Nat) (r : Raw) : Prop where
  length : ∀ n, r.length = some n → n < Text.word
  qubits : ∀ n, r.minQubits = some n → n < Text.word
  shots : ∀ n, r.shots = some n → n < Text.word
  undos : ∀ ts, r.undos = some ts → Fits depth (.array (ts.map toJson))
  redos : ∀ ts, r.redos = some ts → Fits depth (.array (ts.map toJson))
  others : ∀ m ∈ r.others, ∃ d, settle depth d = .ok m.2

theorem bounded_empty : Raw.Bounded depth {} := by
  constructor <;> nofun

theorem Raw.Bounded.store {stack : Decoder (List Template)}
    (hstack : ∀ d ts, d.Sized → stack o depth d = .ok ts → Fits depth (.array (ts.map toJson)))
    {field : Json.Field Raw} (hfield : field ∈ rawFields stack) {r r' : Raw} (hr : r.Bounded depth) {d : Draft}
    (hd : d.Sized) (h : field.store r o depth d = .ok r') : r'.Bounded depth := by
  simp only [rawFields, List.mem_cons, List.not_mem_nil, or_false] at hfield
  rcases hfield with rfl | rfl | rfl | rfl | rfl | rfl
  all_goals
    obtain ⟨part, hpart, h⟩ := exists_of_bind h
    cases h
  · exact { hr with length := fun n hn => by cases hn; exact lt_of_decodeNat hpart hd }
  · exact { hr with }
  · refine { hr with qubits := fun n hn => ?_ }
    cases hn
    rcases decodeOption_cases hpart with hpart | ⟨n, heq, hpart⟩
    · cases hpart
    · cases heq
      exact lt_of_decodeNat hpart hd
  · refine { hr with shots := fun n hn => ?_ }
    cases hn
    rcases decodeOption_cases hpart with hpart | ⟨n, heq, hpart⟩
    · cases hpart
    · cases heq
      exact lt_of_decodeNat hpart hd
  · refine { hr with undos := fun ts hts => ?_ }
    cases hts
    rcases decodeOption_cases hpart with hpart | ⟨ts, heq, hpart⟩
    · cases hpart
    · cases heq
      exact hstack d ts hd hpart
  · refine { hr with redos := fun ts hts => ?_ }
    cases hts
    rcases decodeOption_cases hpart with hpart | ⟨ts, heq, hpart⟩
    · cases hpart
    · cases heq
      exact hstack d ts hd hpart

theorem Raw.Bounded.keep {key : String} {r r' : Raw} (hr : r.Bounded depth) {d : Draft}
    (h : Template.keep depth key r d = .ok r') : r'.Bounded depth := by
  obtain ⟨value, hvalue, h⟩ := exists_of_bind h
  cases h
  refine { hr with others := ?_ }
  rw [List.forall_mem_cons]
  exact ⟨⟨d, hvalue⟩, hr.others⟩

theorem length_of_records {others : List (String × Json)} {row count : Nat} {wires : List WireRecord}
    (h : records others row count = .ok wires) : wires.length = count := by
  induction count generalizing row wires with
  | zero =>
    cases h
    rfl
  | succ count ih =>
    rw [records] at h
    split at h
    · cases h
    · split at h
      · cases h
      · obtain ⟨rest, hrest, h⟩ := exists_of_bind h
        cases h
        rw [List.length_cons, ih hrest]

theorem exists_of_records {others : List (String × Json)} {row count : Nat} {r : WireRecord} {wires : List WireRecord}
    (h : records others row count = .ok (r :: wires)) : ∃ m ∈ others, decodeKept WireRecord.decode m.2 = .ok r := by
  cases count with
  | zero => cases h
  | succ count =>
    rw [records] at h
    split at h
    · cases h
    · rename_i hfind
      split at h
      · cases h
      · rename_i hdecode
        obtain ⟨rest, hrest, h⟩ := exists_of_bind h
        cases h
        exact ⟨_, List.mem_of_find?_eq_some hfind, hdecode⟩

theorem Raw.Bounded.template {r : Raw} (hr : r.Bounded depth) {t : Template} (h : r.template = .ok t) :
    Fits (depth + 1) t.toJson := by
  unfold Raw.template at h
  split at h
  · cases h
  · rename_i length hlength
    obtain ⟨wires, hwires, h⟩ := exists_of_bind h
    cases h
    refine fits_toJson ?_ (fun hne => ?_) hr.qubits hr.shots hr.undos hr.redos
    · show wires.length < Text.word
      rw [length_of_records hwires]
      exact hr.length length hlength
    · obtain ⟨record, rest, rfl⟩ := List.exists_cons_of_ne_nil hne
      obtain ⟨m, hm, hdecode⟩ := exists_of_records hwires
      obtain ⟨d, hd⟩ := hr.others m hm
      exact two_le_of_kept hd hdecode

theorem fits_of_decodeObject {stack : Decoder (List Template)}
    (hstack : ∀ d ts, d.Sized → stack o depth d = .ok ts → Fits depth (.array (ts.map toJson))) {closed : Bool}
    {members : List (Option String × Draft)} (hmembers : ∀ m ∈ members, m.2.Sized) {t : Template}
    (h : decodeObject stack o depth closed members = .ok t) : Fits (depth + 1) t.toJson := by
  obtain ⟨⟨seen, raw⟩, hraw, h⟩ := exists_of_bind h
  refine Raw.Bounded.template (r := raw) ?_ h
  exact decodeMembers_invariant (P := fun _ r => Raw.Bounded depth r)
    (fun field hf _ _ _ _ hr hd hstore => hr.store hstack hf hd hstore)
    (fun _ _ _ _ _ hr _ hkeep => hr.keep hkeep) bounded_empty hmembers hraw

/-- A template nests no deeper than what it was decoded from. -/
theorem fits_of_decodeAt {d : Draft} (hd : d.Sized) {t : Template} (h : decode.decodeAt o depth d = .ok t) :
    Fits depth t.toJson := by
  induction depth using Nat.strongRecOn generalizing d t with
  | ind depth ih =>
    cases hd with
    | object hmembers closed =>
      rcases depth with _ | _ | depth
      · cases h
      · exact fits_of_decodeObject (fun d ts _ hts => by cases d <;> cases hts) hmembers h
      · refine fits_of_decodeObject (fun d ts hd hts => ?_) hmembers h
        cases hd with
        | array hitems closed =>
          refine .array fun item hitem => ?_
          obtain ⟨t', ht', rfl⟩ := List.mem_map.mp hitem
          obtain ⟨d', hd', hdecode⟩ := exists_of_decodeItems hts t' ht'
          exact ih depth (by omega) (hitems d' hd') hdecode
        | _ => cases hts
    | _ => rcases depth with _ | _ | depth <;> cases h

/-- A template that is read can be written and read again. -/
theorem fits_of_parse {text : String} {t : Template} (h : parse text = .ok t) : Fits maxDepth t.toJson :=
  fits_of_decodeAt (Draft.sized_read text) (ok_of_decodeText h)

end Template

/-- A definition that is read can be written and read again. -/
theorem Definition.fits_of_parse {text : String} {d : Definition} (h : parse text = .ok d) :
    Fits maxDepth d.toJson := by
  have hkeeps : d.span < Text.word ∧ Fits 126 d.circuit.toJson := by
    refine decodeRecord_invariant (P := fun d : Definition => d.span < Text.word ∧ Fits 126 d.circuit.toJson)
      (fun field hf r d r' hr hd hstore => ?_) ⟨by decide, ?_⟩ (Draft.sized_read text) (ok_of_decodeText h)
    · simp only [fields, List.mem_cons, List.not_mem_nil, or_false] at hf
      rcases hf with rfl | rfl | rfl | rfl | rfl | rfl | rfl
      all_goals
        obtain ⟨part, hpart, hstore⟩ := exists_of_bind hstore
        cases hstore
      · exact hr
      · exact ⟨lt_of_decodeNat hpart hd, hr.2⟩
      · exact hr
      · exact hr
      · exact hr
      · exact ⟨hr.1, Template.fits_of_decodeAt hd hpart⟩
      · exact hr
    · exact Template.fits_toJson (by decide) (fun h => absurd rfl h) nofun nofun nofun nofun
  exact fits_toJson hkeeps.1 hkeeps.2

end CircuitDesigner
