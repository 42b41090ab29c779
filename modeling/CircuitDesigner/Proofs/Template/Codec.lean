import CircuitDesigner.Catalog
import CircuitDesigner.Proofs.Json.Decoding

/-! Templates and definitions in JSON.

    A template is decoded from what it is written as when its history does not nest too deep (`decodeAt_toJson`). A
    record is kept aside with its members sorted until the number of wires is known, and found under its key. -/

namespace CircuitDesigner

open Json

variable {o : Origin} {depth : Nat}

/-! ### Parts -/

theorem Ket.ofLabel?_label (ket : Ket) : ofLabel? ket.label = some ket := by cases ket <;> decide +kernel

theorem RegisterColor.ofCss?_css (color : RegisterColor) : ofCss? color.css = some color := by cases color <;> rfl

theorem Endianness.decode_label (e : Endianness) : decode o depth (draft (.string e.label)) = .ok e := by
  cases e <;> cases o <;> rfl

/-! ### Records -/

/-- A record as it is kept aside: its members sorted by their keys. -/
def WireRecord.sorted (r : WireRecord) : Json :=
  .object <|
    (r.name.map fun name => ("alias", Json.string name)).toList ++
      ((r.color.map fun color => ("color", Json.string color.css)).toList ++
        ("gates", .array (r.stamps.map .string)) :: (r.ket.map fun ket => ("state", Json.string ket.label)).toList)

theorem WireRecord.settle_toJson (r : WireRecord) (depth : Nat) :
    settle (depth + 2) (draft r.toJson) = .ok r.sorted := by
  obtain ⟨stamps, ket, color, name⟩ := r
  have hgates := fun members => settleMembers_cons (settle_strings depth stamps) "gates" [] members
  rcases ket with _ | ket <;> rcases color with _ | color <;> rcases name with _ | name
  all_goals
    show (settleMembers (depth + 1) [] ((some "gates", _) :: _) >>= fun members => Except.ok (Json.object members)) = _
    rw [hgates]
    rfl

theorem WireRecord.decode_sorted (r : WireRecord) : decodeKept decode r.sorted = .ok r := by
  obtain ⟨stamps, ket, color, name⟩ := r
  have hcolor : ∀ c : RegisterColor, decodeOption (decodeLabel "register color" RegisterColor.ofCss?) .value 126
      (draft (.string c.css)) = .ok (some c) := fun c => decodeOption_some (decodeLabel_draft c.ofCss?_css) (by nofun)
  have hket : ∀ k : Ket, decodeOption (decodeLabel "ket state" Ket.ofLabel?) .value 126 (draft (.string k.label)) =
      .ok (some k) := fun k => decodeOption_some (decodeLabel_draft k.ofLabel?_label) (by nofun)
  show (decodeMembers fields (fun _ s _ => .ok s) .value 126 true [] { stamps := [] } (memberDrafts
    ((name.map fun name => ("alias", Json.string name)).toList ++
      ((color.map fun color => ("color", Json.string color.css)).toList ++
        ("gates", .array (stamps.map .string)) ::
          (ket.map fun ket => ("state", Json.string ket.label)).toList))) >>= _) = _
  rw [decodeMembers_optional rfl List.not_mem_nil name _ { stamps := [], name } (by rintro rfl; rfl)
      (by rintro a rfl; rfl),
    decodeMembers_optional rfl (by simp) color _ { stamps := [], color, name } (by rintro rfl; rfl)
      (by rintro c rfl; exact bind_of_ok (hcolor c)),
    memberDrafts, decodeMembers_field rfl (by simp) (bind_of_ok (decodeList_strings _ _ stamps)),
    ← List.append_nil (Option.map _ ket).toList,
    decodeMembers_optional rfl (by simp) ket _ { stamps, color, name, ket } (by rintro rfl; rfl)
      (by rintro k rfl; exact bind_of_ok (hket k))]
  simp [memberDrafts, decodeMembers, fields, bind, Except.bind]

namespace Template

/-! ### Keys -/

theorem toList_recordKey (row : Nat) : (recordKey row).toList = 'q' :: Nat.toDigits 10 row := by
  unfold recordKey
  rw [String.toList_append, Nat.toString_eq_repr, Nat.toList_repr]
  rfl

theorem recordKey_inj {row row' : Nat} (h : recordKey row = recordKey row') : row = row' := by
  have hlist := congrArg String.toList h
  rw [toList_recordKey, toList_recordKey] at hlist
  have hdigits := congrArg (Text.appendDigits? 0) (List.cons.inj hlist).2
  rw [Text.appendDigits?_toDigits, Text.appendDigits?_toDigits] at hdigits
  exact Option.some.inj hdigits

/-- The key of a record names no part. -/
theorem find?_recordKey (stack : Decoder (List Template)) (row : Nat) :
    (rawFields stack).find? (fun f => f.name == recordKey row) = none := by
  have hnames : ∀ name ∈ (rawFields stack).map Field.name, name.toList.head? ≠ some 'q' := by
    show ∀ name ∈ ["length", "endianness", "minQubits", "shots", "undos", "redos"], name.toList.head? ≠ some 'q'
    decide
  rw [List.find?_eq_none]
  intro f hf
  rw [beq_iff_eq]
  intro heq
  have hhead := hnames f.name (List.mem_map_of_mem hf)
  rw [heq, toList_recordKey] at hhead
  exact hhead rfl

/-! ### Reading -/

/-- What becomes of a record while a template is read. -/
def keep (depth : Nat) : Other Raw := fun key r d => do
  let value ← settle depth d
  .ok { r with others := (key, value) :: r.others }

/-- The records are kept aside, where each is found under its key. -/
theorem decodeMembers_records (stack : Decoder (List Template)) (o : Origin) (depth : Nat) (seen : List String)
    (wires : List WireRecord) (hdepth : wires ≠ [] → 2 ≤ depth) (row : Nat) (raw : Raw) :
    ∃ others, decodeMembers (rawFields stack) (keep depth) o depth true seen raw
        (memberDrafts (recordMembers row wires)) = .ok (seen, { raw with others := others }) ∧
      (∀ i r, wires[i]? = some r →
        others.find? (fun m => m.1 == recordKey (row + i)) = some (recordKey (row + i), r.sorted)) ∧
      ∀ i < row, others.find? (fun m => m.1 == recordKey i) = raw.others.find? (fun m => m.1 == recordKey i) := by
  induction wires generalizing row raw with
  | nil =>
    refine ⟨raw.others, rfl, fun i r h => ?_, fun _ _ => rfl⟩
    cases h
  | cons r wires ih =>
    have hdepth := hdepth (List.cons_ne_nil r wires)
    obtain ⟨others, hdecode, hfind, hrest⟩ := ih (fun _ => hdepth) (row + 1)
      { raw with others := (recordKey row, r.sorted) :: raw.others }
    dsimp only at hrest
    have hkeep : keep depth (recordKey row) raw (draft r.toJson) =
        .ok { raw with others := (recordKey row, r.sorted) :: raw.others } := by
      obtain ⟨depth, rfl⟩ := Nat.exists_eq_add_of_le' hdepth
      exact bind_of_ok (r.settle_toJson depth)
    refine ⟨others, ?_, fun i r' hr' => ?_, fun i hi => ?_⟩
    · rw [recordMembers, memberDrafts, decodeMembers_other (find?_recordKey stack row) hkeep, hdecode]
    · cases i with
      | zero =>
        cases hr'
        rw [Nat.add_zero, hrest row (Nat.lt_succ_self row)]
        exact List.find?_cons_of_pos (beq_self_eq_true (recordKey row))
      | succ i =>
        rw [show row + (i + 1) = row + 1 + i by omega]
        exact hfind i r' hr'
    · rw [hrest i (Nat.lt_succ_of_lt hi)]
      refine List.find?_cons_of_neg ?_
      rw [beq_iff_eq]
      intro heq
      exact absurd (recordKey_inj heq) (by omega)

theorem records_of_find {others : List (String × Json)} {wires : List WireRecord} {row : Nat}
    (h : ∀ i r, wires[i]? = some r →
      others.find? (fun m => m.1 == recordKey (row + i)) = some (recordKey (row + i), r.sorted)) :
    records others row wires.length = .ok wires := by
  induction wires generalizing row with
  | nil => rfl
  | cons r wires ih =>
    have hrest : records others (row + 1) wires.length = .ok wires := ih fun i r' hr' => by
      rw [show row + 1 + i = row + (i + 1) by omega]
      exact h (i + 1) r' hr'
    have hfind := h 0 r rfl
    rw [Nat.add_zero] at hfind
    rw [List.length_cons, records]
    simp only [hfind, r.decode_sorted, hrest]
    rfl

/-- The members of the object that a template is written as. -/
def members (t : Template) : List (String × Json) :=
  ("length", .natural t.wires.length) ::
    ((t.endianness.map fun e => ("endianness", Json.string e.label)).toList ++
      ((t.minQubits.map fun n => ("minQubits", Json.natural n)).toList ++
        ((t.shots.map fun n => ("shots", Json.natural n)).toList ++
          ((t.undos.map fun ts => ("undos", Json.array (ts.map toJson))).toList ++
            ((t.redos.map fun ts => ("redos", Json.array (ts.map toJson))).toList ++ recordMembers 0 t.wires)))))

theorem stackJson_eq_map (ts : List Template) : stackJson ts = ts.map toJson := by
  induction ts with
  | nil => rfl
  | cons t ts ih => rw [stackJson, ih, List.map_cons]

theorem stackMember_eq (key : String) (stack : Option (List Template)) :
    stackMember key stack = (stack.map fun ts => (key, Json.array (ts.map toJson))).toList := by
  cases stack with
  | none => rfl
  | some ts =>
    rw [stackMember, stackJson_eq_map]
    rfl

theorem toJson_eq (t : Template) : t.toJson = .object t.members := by
  obtain ⟨wires, endianness, minQubits, shots, undos, redos⟩ := t
  rw [toJson, stackMember_eq, stackMember_eq]
  simp only [List.append_assoc]
  rfl

theorem decodeObject_members {stack : Decoder (List Template)} {t : Template} (hwires : t.wires ≠ [] → 2 ≤ depth)
    (hundos : ∀ ts, t.undos = some ts → stack o depth (draft (.array (ts.map toJson))) = .ok ts)
    (hredos : ∀ ts, t.redos = some ts → stack o depth (draft (.array (ts.map toJson))) = .ok ts) :
    decodeObject stack o depth true (memberDrafts t.members) = .ok t := by
  obtain ⟨wires, endianness, minQubits, shots, undos, redos⟩ := t
  show (decodeMembers (rawFields stack) (keep depth) o depth true [] {} (memberDrafts (members _)) >>= _) = _
  rw [members, memberDrafts, decodeMembers_field rfl List.not_mem_nil (bind_of_ok rfl),
    decodeMembers_optional rfl (by simp) endianness _ { length := wires.length, endianness }
      (by rintro rfl; rfl) (by rintro e rfl; exact bind_of_ok (decodeOption_some e.decode_label fun h => by cases h)),
    decodeMembers_optional rfl (by simp) minQubits _ { length := wires.length, endianness, minQubits }
      (by rintro rfl; rfl) (by rintro n rfl; rfl),
    decodeMembers_optional rfl (by simp) shots _ { length := wires.length, endianness, minQubits, shots }
      (by rintro rfl; rfl) (by rintro n rfl; rfl),
    decodeMembers_optional rfl (by simp) undos _ { length := wires.length, endianness, minQubits, shots, undos }
      (by rintro rfl; rfl) (by rintro ts rfl; exact bind_of_ok (decodeOption_some (hundos ts rfl) fun h => by cases h)),
    decodeMembers_optional rfl (by simp) redos _ { length := wires.length, endianness, minQubits, shots, undos, redos }
      (by rintro rfl; rfl) (by rintro ts rfl; exact bind_of_ok (decodeOption_some (hredos ts rfl) fun h => by cases h))]
  obtain ⟨others, hdecode, hfind, -⟩ := decodeMembers_records stack o depth _ wires hwires 0
    { length := wires.length, endianness, minQubits, shots, undos, redos }
  rw [bind_of_ok hdecode]
  exact bind_of_ok (records_of_find hfind)

section Members

variable {t : Template} {ts : List Template}

theorem mem_members_undos (h : t.undos = some ts) : ("undos", Json.array (ts.map toJson)) ∈ t.members := by
  simp [members, h]

theorem mem_members_redos (h : t.redos = some ts) : ("redos", Json.array (ts.map toJson)) ∈ t.members := by
  simp [members, h]

theorem mem_members_record {r : WireRecord} {wires : List WireRecord} (h : t.wires = r :: wires) :
    (recordKey 0, r.toJson) ∈ t.members := by
  simp [members, h, recordMembers]

end Members

theorem two_le_of_fits {r : WireRecord} (h : Fits depth r.toJson) : 2 ≤ depth := by
  obtain ⟨n, rfl, hmembers⟩ := h.members
  obtain ⟨n, rfl, -⟩ := (hmembers ("gates", _) List.mem_cons_self).items
  exact Nat.le_add_left 2 n

/-- A template is decoded from what it is written as, if its history does not nest too deep. -/
theorem decodeAt_toJson (o : Origin) (depth : Nat) (t : Template) (h : Fits depth t.toJson) :
    decode.decodeAt o depth (draft t.toJson) = .ok t := by
  induction depth using Nat.strongRecOn generalizing t with
  | ind depth ih =>
    rw [toJson_eq] at h ⊢
    obtain ⟨depth, rfl, hmembers⟩ := h.members
    have hwires : t.wires ≠ [] → 2 ≤ depth := fun hne => by
      obtain ⟨r, wires, hcons⟩ := List.exists_cons_of_ne_nil hne
      exact two_le_of_fits (hmembers _ (mem_members_record hcons))
    cases depth with
    | zero =>
      refine decodeObject_members hwires (fun ts hts => ?_) fun ts hts => ?_
      · obtain ⟨n, hn, -⟩ := (hmembers _ (mem_members_undos hts)).items
        cases hn
      · obtain ⟨n, hn, -⟩ := (hmembers _ (mem_members_redos hts)).items
        cases hn
    | succ depth =>
      have hstack : ∀ ts : List Template, Fits (depth + 1) (.array (ts.map toJson)) →
          decodeList (fun _ _ d => decode.decodeAt o depth d) o (depth + 1) (draft (.array (ts.map toJson))) =
            .ok ts := by
        intro ts hfits
        obtain ⟨n, hn, hitems⟩ := hfits.items
        cases hn
        exact decodeList_draft fun t' ht' => ih depth (by omega) t' (hitems _ (List.mem_map_of_mem ht'))
      exact decodeObject_members hwires (fun ts hts => hstack ts (hmembers _ (mem_members_undos hts)))
        fun ts hts => hstack ts (hmembers _ (mem_members_redos hts))

/-- A template is read back from its text. -/
theorem parse_render {t : Template} (h : Fits maxDepth t.toJson) : parse t.render = .ok t := by
  unfold parse render decodeText
  rw [Draft.read_render h]
  exact bind_of_ok (decodeAt_toJson .text maxDepth t h)

end Template

namespace Definition

/-- A definition is read back from its text. -/
theorem parse_render {d : Definition} (h : Fits maxDepth d.toJson) : parse d.render = .ok d := by
  unfold parse render decodeText
  rw [Draft.read_render h]
  obtain ⟨n, hn, hmembers⟩ := h.members
  cases hn
  have hcircuit : Template.decode .text 126 (draft d.circuit.toJson) = .ok d.circuit :=
    Template.decodeAt_toJson .text 126 d.circuit (hmembers ("definition", _) (by simp))
  refine bind_of_ok (?_ : decode .text maxDepth (draft d.toJson) = .ok d)
  show (decodeMembers fields (fun _ s _ => .ok s) .text 126 true [] _
    (memberDrafts (_ :: _ :: _ :: _ :: _ :: _ :: [_])) >>= _) = _
  rw [memberDrafts, decodeMembers_field rfl List.not_mem_nil (bind_of_ok rfl),
    memberDrafts, decodeMembers_field rfl (by decide) (bind_of_ok rfl),
    memberDrafts, decodeMembers_field rfl (by decide) (bind_of_ok rfl),
    memberDrafts, decodeMembers_field rfl (by decide) (bind_of_ok rfl),
    memberDrafts, decodeMembers_field rfl (by decide) (bind_of_ok rfl),
    memberDrafts, decodeMembers_field rfl (by decide) (bind_of_ok hcircuit),
    memberDrafts, decodeMembers_field rfl (by decide) (bind_of_ok rfl)]
  rfl

end Definition

end CircuitDesigner
