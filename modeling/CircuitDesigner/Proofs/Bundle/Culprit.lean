import CircuitDesigner.Proofs.Bundle.Install
import CircuitDesigner.Proofs.Bundle.Layout

/-! Lines at fault.

    A bundle that is not read is refused at the line on which the culprit stands. One that is read and not installed is
    refused at the number of the culprit among the lines that are not blank, which is its line just if no blank line
    stands before it (`error_lines`, `error_line_astray`). -/

namespace CircuitDesigner

/-! ### Where the contents of a text stand -/

namespace Text

/-- The `i`-th line holds the `k`-th of the contents, as both count from zero. -/
structure Entry (lines : List String) (k i : Nat) (content : String) : Prop where
  line : (lines[i]?).map trim = some content
  nonblank : content ≠ ""
  place : (lines.take i).countP (fun line => trim line != "") = k

variable {lines : List String} {line content : String} {k i : Nat}

theorem Entry.head (h : trim line ≠ "") (lines : List String) : Entry (line :: lines) 0 0 (trim line) := ⟨rfl, h, rfl⟩

theorem Entry.blank (h : Entry lines k i content) (hline : trim line = "") :
    Entry (line :: lines) k (i + 1) content where
  line := h.line
  nonblank := h.nonblank
  place := by rw [List.take_succ_cons, List.countP_cons_of_neg (by simp [hline]), h.place]

theorem Entry.cons (h : Entry lines k i content) (hline : trim line ≠ "") :
    Entry (line :: lines) (k + 1) (i + 1) content where
  line := h.line
  nonblank := h.nonblank
  place := by rw [List.take_succ_cons, List.countP_cons_of_pos (by simp [hline]), h.place]

/-- Both numbers are the same just if no blank line stands before. -/
theorem Entry.eq_iff (h : Entry lines k i content) : k = i ↔ ∀ line ∈ lines.take i, trim line ≠ "" := by
  obtain ⟨line, hline, -⟩ := Option.map_eq_some_iff.mp h.line
  obtain ⟨hi, -⟩ := List.getElem?_eq_some_iff.mp hline
  have hlength : (lines.take i).length = i := List.length_take_of_le (Nat.le_of_lt hi)
  calc k = i
    _ ↔ (lines.take i).countP (fun line => trim line != "") = (lines.take i).length := by rw [h.place, hlength]
    _ ↔ ∀ line ∈ lines.take i, trim line ≠ "" := by
      rw [List.countP_eq_length]
      simp only [bne_iff_ne]

end Text

namespace Bundle

variable {b : Bundle} {text content : String} {catalog catalog' : Catalog} {e : BundleError} {cause : DecodeError}
  {k n line count count' : Nat}

/-- The lines that are not blank, trimmed, with their numbers from `n` on. -/
def numberedFrom (n : Nat) : List String → List (Nat × String)
  | [] => []
  | line :: lines =>
    if Text.trim line = "" then numberedFrom (n + 1) lines else (n, Text.trim line) :: numberedFrom (n + 1) lines

theorem numberedLines_eq (text : String) : numberedLines text = numberedFrom 1 (Text.lines text) := by
  unfold numberedLines
  generalize Text.lines text = lines, 1 = n
  induction lines generalizing n with
  | nil => rfl
  | cons line lines ih =>
    rw [List.zipIdx_cons, List.filterMap_cons, ih, numberedFrom]
    by_cases hblank : Text.trim line = "" <;> simp [hblank]

theorem exists_entry_of_numberedFrom {lines : List String} {start : Nat}
    (h : (numberedFrom start lines)[k]? = some (n, content)) : ∃ i, n = i + start ∧ Text.Entry lines k i content := by
  -- A blank line moves the number of the line alone, and any other moves both numbers.
  induction lines generalizing start k with
  | nil => cases h
  | cons line lines ih =>
    rw [numberedFrom] at h
    split at h
    · rename_i hblank
      obtain ⟨i, hn, hentry⟩ := ih h
      exact ⟨i + 1, by omega, hentry.blank hblank⟩
    · rename_i hline
      cases k with
      | zero =>
        cases h
        exact ⟨0, (Nat.zero_add _).symm, .head hline lines⟩
      | succ k =>
        obtain ⟨i, hn, hentry⟩ := ih h
        exact ⟨i + 1, by omega, hentry.cons hline⟩

/-- The contents of a text have the numbers of their lines. -/
theorem exists_entry (h : (numberedLines text)[k]? = some (n, content)) :
    ∃ i, n = i + 1 ∧ Text.Entry (Text.lines text) k i content :=
  exists_entry_of_numberedFrom (numberedLines_eq text ▸ h)

theorem exists_entry_of_eq {before after : List (Nat × String)}
    (h : numberedLines text = before ++ (n, content) :: after) :
    ∃ i, n = i + 1 ∧ Text.Entry (Text.lines text) before.length i content :=
  exists_entry (by rw [h, List.getElem?_append_right (Nat.le_refl _), Nat.sub_self, List.getElem?_cons_zero])

/-! ### Texts that are not read -/

/-- The contents of a text. -/
def entries (text : String) : List String := (Text.contents text.toList).map String.ofList

theorem entries_eq (text : String) : entries text = (numberedLines text).map Prod.snd :=
  (map_snd_numberedLines text).symm

/-- The `k`-th of the contents is the first that is not read: the last of them as a circuit, the others as
    definitions. -/
inductive Unread (text : String) : Nat → String → DecodeError → Prop where
  | definition {before after : List String} {content : String} {cause : DecodeError}
    (hsplit : entries text = before ++ content :: after) (hafter : after ≠ [])
    (hbefore : ∀ earlier ∈ before, ∃ d, Definition.parse earlier = .ok d)
    (h : Definition.parse content = .error cause) : Unread text before.length content cause
  | circuit {before : List String} {content : String} {cause : DecodeError}
    (hsplit : entries text = before ++ [content])
    (hbefore : ∀ earlier ∈ before, ∃ d, Definition.parse earlier = .ok d)
    (h : Template.parse content = .error cause) : Unread text before.length content cause

theorem forall_parse_of_parseDefinition {numbered : List (Nat × String)}
    (h : ∀ p ∈ numbered, ∃ d, parseDefinition p = .ok d) :
    ∀ content ∈ numbered.map Prod.snd, ∃ d, Definition.parse content = .ok d := by
  rw [List.forall_mem_map]
  intro p hp
  obtain ⟨d, hd⟩ := h p hp
  exact ⟨d, ok_of_mapError hd⟩

theorem unread_definition {before after : List (Nat × String)}
    (hsplit : numberedLines text = before ++ (n, content) :: after) (hafter : after ≠ [])
    (hbefore : ∀ p ∈ before, ∃ d, parseDefinition p = .ok d)
    (h : Definition.parse content = .error cause) : Unread text before.length content cause := by
  have hentries : entries text = before.map Prod.snd ++ content :: after.map Prod.snd := by
    rw [entries_eq, hsplit, List.map_append, List.map_cons]
  have hrest : after.map Prod.snd ≠ [] := fun hnil => hafter (List.map_eq_nil_iff.mp hnil)
  rw [← List.length_map (f := Prod.snd)]
  exact .definition hentries hrest (forall_parse_of_parseDefinition hbefore) h

theorem unread_circuit {before : List (Nat × String)} (hsplit : numberedLines text = before ++ [(n, content)])
    (hbefore : ∀ p ∈ before, ∃ d, parseDefinition p = .ok d) (h : Template.parse content = .error cause) :
    Unread text before.length content cause := by
  have hentries : entries text = before.map Prod.snd ++ [content] := by
    rw [entries_eq, hsplit, List.map_append, List.map_singleton]
  rw [← List.length_map (f := Prod.snd)]
  exact .circuit hentries (forall_parse_of_parseDefinition hbefore) h

/-- A text that is not read has no contents, or it is refused at the line of the culprit. -/
theorem cases_of_parse_error (h : parse text = .error e) :
    (entries text = [] ∧ e = .empty) ∨
      ∃ k i content cause, Text.Entry (Text.lines text) k i content ∧ Unread text k content cause ∧
        e = .json (i + 1) cause := by
  rcases List.eq_nil_or_concat (numberedLines text) with hnone | ⟨numbered, ⟨n, last⟩, hnumbered⟩
  · unfold parse at h
    rw [hnone] at h
    cases h
    exact .inl ⟨by rw [entries_eq, hnone, List.map_nil], rfl⟩
  rw [List.concat_eq_append] at hnumbered
  rw [parse_eq_of_concat hnumbered] at h
  right
  cases hdefinitions : numbered.mapM parseDefinition with
  | error e' =>
    rw [hdefinitions] at h
    cases h
    obtain ⟨before, ⟨n', content⟩, after, rfl, hbefore, hcontent⟩ := exists_of_mapM_error hdefinitions
    obtain ⟨cause, hcause, rfl⟩ := exists_of_mapError hcontent
    have hsplit : numberedLines text = before ++ (n', content) :: (after ++ [(n, last)]) := by
      rw [hnumbered, List.append_assoc, List.cons_append]
    obtain ⟨i, rfl, hentry⟩ := exists_entry_of_eq hsplit
    exact ⟨_, i, content, cause, hentry, unread_definition hsplit (by simp) hbefore hcause, rfl⟩
  | ok definitions =>
    rw [bind_of_ok hdefinitions] at h
    have hbefore := exists_mapM_iff.mp ⟨definitions, hdefinitions⟩
    cases hcause : Template.parse last with
    | ok circuit =>
      rw [hcause] at h
      cases h
    | error cause =>
      rw [hcause] at h
      cases h
      obtain ⟨i, rfl, hentry⟩ := exists_entry_of_eq hnumbered
      exact ⟨_, i, last, cause, hentry, unread_circuit hnumbered hbefore hcause, rfl⟩

/-! ### Bundles that are not installed -/

/-- The `k`-th part of the bundle is read from the content. -/
inductive Reads (b : Bundle) : Nat → String → Prop where
  | definition {k : Nat} {d : Definition} {content : String} (hd : b.definitions[k]? = some d)
    (h : Definition.parse content = .ok d) : Reads b k content
  | circuit {content : String} (h : Template.parse content = .ok b.circuit) : Reads b b.definitions.length content

/-- Every part of a bundle that is read stands on some line. -/
theorem exists_entry_of_parse (h : parse text = .ok b) (hk : k ≤ b.definitions.length) :
    ∃ i content, Text.Entry (Text.lines text) k i content ∧ b.Reads k content := by
  obtain ⟨numbered, n, last, hnumbered, hdefinitions, hcircuit⟩ := exists_of_parse h
  have hlength : numbered.length = b.definitions.length := length_of_mapM hdefinitions
  rcases Nat.lt_or_eq_of_le hk with hlt | rfl
  · have hget := getElem?_of_mapM hdefinitions k
    rw [List.getElem?_eq_getElem (hlength ▸ hlt), List.getElem?_eq_getElem hlt] at hget
    obtain ⟨i, -, hentry⟩ := exists_entry (k := k) (by
      rw [hnumbered, List.getElem?_append_left (hlength ▸ hlt), List.getElem?_eq_getElem (hlength ▸ hlt)])
    exact ⟨i, _, hentry, .definition (List.getElem?_eq_getElem hlt) (ok_of_mapError (Option.some.inj hget))⟩
  · obtain ⟨i, -, hentry⟩ := exists_entry_of_eq hnumbered
    exact ⟨i, last, hlength ▸ hentry, .circuit hcircuit⟩

/-- The definitions are added to a catalog, one after the other, but for those that it has already. -/
inductive Adds : Catalog → List Definition → Catalog → Prop where
  | nil (c : Catalog) : Adds c [] c
  | known {c c' : Catalog} {d known : Definition} {ds : List Definition} (hknown : c.get? d.id = some known)
    (hsame : known.span = d.span ∧ known.circuit = d.circuit) (h : Adds c ds c') : Adds c (d :: ds) c'
  | new {c c' : Catalog} {d : Definition} {ds : List Definition} (hnew : c.get? d.id = none)
    (hvalid : d.circuit.validate c = .ok ()) (h : Adds (c.define d) ds c') : Adds c (d :: ds) c'

theorem adds_of_installFrom {ds : List Definition} (h : installFrom line count catalog ds = .ok (count', catalog')) :
    Adds catalog ds catalog' := by
  induction ds generalizing line count catalog with
  | nil =>
    cases h
    exact .nil _
  | cons d ds ih =>
    rcases cases_of_installFrom h with ⟨known, hknown, hspan, hcircuit, h⟩ | ⟨hnew, hvalid, h⟩
    · exact .known hknown ⟨hspan, hcircuit⟩ (ih h)
    · exact .new (Catalog.contains_eq_false_iff.mp hnew) hvalid (ih h)

/-- Why a definition is not added. -/
inductive Rejects (c : Catalog) (d : Definition) (line : Nat) : BundleError → Prop where
  | conflict {known : Definition} (hknown : c.get? d.id = some known)
    (hother : ¬(known.span = d.span ∧ known.circuit = d.circuit)) : Rejects c d line (.conflict line d.id)
  | circuit {cause : CircuitError} (hnew : c.get? d.id = none) (hinvalid : d.circuit.validate c = .error cause) :
    Rejects c d line (.circuit line cause)

/-- One definition is rejected, or the next ones are looked at. -/
theorem cases_of_installFrom_error {d : Definition} {ds : List Definition}
    (h : installFrom line count catalog (d :: ds) = .error e) :
    Rejects catalog d line e ∨
      ∃ count' next, (∀ before c, Adds next before c → Adds catalog (d :: before) c) ∧
        installFrom (line + 1) count' next ds = .error e := by
  rw [installFrom] at h
  split at h
  · rename_i known hknown
    split at h
    · rename_i hsame
      exact .inr ⟨count, catalog, fun _ _ => .known hknown hsame, h⟩
    · rename_i hother
      cases h
      exact .inl (.conflict hknown hother)
  · rename_i hnew
    split at h
    · rename_i hinvalid
      cases h
      exact .inl (.circuit hnew hinvalid)
    · rename_i hvalid
      exact .inr ⟨count + 1, catalog.define d, fun _ _ => .new hnew hvalid, h⟩

theorem exists_rejects_of_installFrom {ds : List Definition} (h : installFrom line count catalog ds = .error e) :
    ∃ before d after c, ds = before ++ d :: after ∧ Adds catalog before c ∧ Rejects c d (line + before.length) e := by
  induction ds generalizing line count catalog with
  | nil => cases h
  | cons d ds ih =>
    rcases cases_of_installFrom_error h with hrejects | ⟨count', next, hadds, h⟩
    · exact ⟨[], d, ds, catalog, rfl, .nil catalog, hrejects⟩
    · obtain ⟨before, culprit, after, c, rfl, hbefore, hrejects⟩ := ih h
      refine ⟨d :: before, culprit, after, c, rfl, hadds before c hbefore, ?_⟩
      rwa [List.length_cons, Nat.add_comm before.length, ← Nat.add_assoc]

/-- The `k`-th part of the bundle is the first that is refused, after those before it are added. -/
inductive Refused (b : Bundle) (catalog : Catalog) : Nat → BundleError → Prop where
  | definition {before after : List Definition} {d : Definition} {c : Catalog} {e : BundleError}
    (hsplit : b.definitions = before ++ d :: after) (hadds : Adds catalog before c)
    (h : Rejects c d (before.length + 1) e) : Refused b catalog before.length e
  | circuit {c : Catalog} {cause : CircuitError} (hadds : Adds catalog b.definitions c)
    (h : b.circuit.validate c = .error cause) :
    Refused b catalog b.definitions.length (.circuit (b.definitions.length + 1) cause)

theorem Rejects.line?_eq {c : Catalog} {d : Definition} (h : Rejects c d line e) : e.line? = some line := by
  cases h <;> rfl

theorem Refused.line?_eq (h : Refused b catalog k e) : e.line? = some (k + 1) := by
  cases h with
  | definition hsplit hadds h => exact h.line?_eq
  | circuit hadds h => rfl

theorem Refused.le_length (h : Refused b catalog k e) : k ≤ b.definitions.length := by
  cases h with
  | definition hsplit hadds h =>
    rw [hsplit, List.length_append]
    exact Nat.le_add_right _ _
  | circuit hadds h => exact Nat.le_refl _

/-- A bundle that is not installed has a part that is refused. -/
theorem exists_refused_of_install (h : b.install catalog = .error e) : ∃ k, b.Refused catalog k e := by
  unfold install at h
  cases hinstalled : installFrom 1 0 catalog b.definitions with
  | error e' =>
    rw [hinstalled] at h
    cases h
    obtain ⟨before, d, after, c, hsplit, hadds, hrejects⟩ := exists_rejects_of_installFrom hinstalled
    rw [Nat.add_comm] at hrejects
    exact ⟨before.length, .definition hsplit hadds hrejects⟩
  | ok installed =>
    rw [bind_of_ok hinstalled] at h
    dsimp only at h
    split at h
    · rename_i hinvalid
      cases h
      exact ⟨b.definitions.length, .circuit (adds_of_installFrom hinstalled) hinvalid⟩
    · cases h

/-! ### Lines -/

/-- A text that is not read is refused at the line of the culprit. A bundle that is read but not installed is refused
    at the number of the culprit among the lines that are not blank, which is its line just if no line before it is
    blank. -/
theorem error_lines (text : String) (catalog : Catalog) :
    (∀ n cause, parse text = .error (.json n cause) →
      ∃ k i content, n = i + 1 ∧ Text.Entry (Text.lines text) k i content ∧ Unread text k content cause) ∧
    ∀ b e, parse text = .ok b → b.install catalog = .error e →
      ∃ k i content, Text.Entry (Text.lines text) k i content ∧ b.Reads k content ∧ b.Refused catalog k e ∧
        e.line? = some (k + 1) ∧ (e.line? = some (i + 1) ↔ ∀ line ∈ (Text.lines text).take i, Text.trim line ≠ "") := by
  constructor
  · intro n cause h
    rcases cases_of_parse_error h with ⟨-, heq⟩ | ⟨k, i, content, cause', hentry, hunread, heq⟩
    · cases heq
    · cases heq
      exact ⟨k, i, content, rfl, hentry, hunread⟩
  · intro b e hparse hinstall
    obtain ⟨k, hrefused⟩ := exists_refused_of_install hinstall
    obtain ⟨i, content, hentry, hreads⟩ := exists_entry_of_parse hparse hrefused.le_length
    refine ⟨k, i, content, hentry, hreads, hrefused, hrefused.line?_eq, ?_⟩
    rw [← hentry.eq_iff, hrefused.line?_eq, Option.some.injEq, Nat.add_right_cancel_iff]

/-- A text that breaks off, and a bundle of which the gate is there with another span. -/
theorem error_lines_ragged :
    (∃ k content, parse "\n\x7b" = .error (.json 2 .malformed) ∧ Text.Entry (Text.lines "\n\x7b") k 1 content ∧
      Unread "\n\x7b" k content .malformed) ∧
    ∃ catalog i content, raggedBundle.install catalog = .error (.conflict 1 ragged.id) ∧
      Text.Entry (Text.lines raggedText) 0 i content ∧ raggedBundle.Reads 0 content := by
  constructor
  · have hparse : parse "\n\x7b" = .error (.json 2 .malformed) := rfl
    obtain ⟨k, i, content, hi, hentry, hunread⟩ := (error_lines "\n\x7b" {}).1 2 _ hparse
    obtain rfl : 1 = i := Nat.succ.inj hi
    exact ⟨k, content, hparse, hentry, hunread⟩
  · have hnesting : ∀ d ∈ raggedBundle.definitions, d.toJson.nesting ≤ Json.maxDepth :=
      List.forall_mem_singleton.mpr (by decide)
    have hparse : parse raggedText = .ok raggedBundle :=
      parse_of_spread (fun d hd => (sized_raggedBundle.definitions d hd).whole.fits (hnesting d hd))
        (sized_raggedBundle.circuit.whole.fits (by decide)) spread_raggedText
    have hinstall : raggedBundle.install { definitions := [{ ragged with span := 2 }] } =
        .error (.conflict 1 ragged.id) := rfl
    obtain ⟨k, i, content, hentry, hreads, -, hline, -⟩ := (error_lines raggedText _).2 _ _ hparse hinstall
    obtain rfl : 0 = k := Nat.succ.inj (Option.some.inj hline)
    exact ⟨_, i, content, hinstall, hentry, hreads⟩

/-- A circuit of a gate that nothing defines. -/
def lateBundle : Bundle where
  definitions := []
  circuit := { wires := [{ stamps := ["cg1"] }] }

/-- The circuit stands below a blank line. -/
def lateText : String := "\n" ++ lateBundle.render

theorem fits_lateBundle : Json.Fits Json.maxDepth lateBundle.circuit.toJson := by
  have hsized : lateBundle.circuit.Sized := ⟨by decide, nofun, nofun, nofun, nofun⟩
  exact hsized.whole.fits (by decide)

theorem parse_lateText : parse lateText = .ok lateBundle := by
  refine parse_of_spread nofun fits_lateBundle ?_
  rw [lateText, String.toList_append]
  exact .blank .nil .feed (spread_render lateBundle)

/-- The blank line is blamed for the circuit. -/
theorem error_line_astray : parse lateText = .ok lateBundle ∧
    ∃ e, lateBundle.install {} = .error e ∧ lateBundle.Refused {} 0 e ∧ e.line? = some 1 ∧
      (Text.lines lateText)[0]? = some "" ∧
      ∃ content, Text.Entry (Text.lines lateText) 0 1 content ∧ lateBundle.Reads 0 content := by
  refine ⟨parse_lateText, .circuit 1 (.unknownGate "cg1"), rfl, .circuit (.nil {}) rfl, rfl, by decide, ?_⟩
  exact ⟨lateBundle.circuit.render, ⟨by decide, by decide, by decide⟩, .circuit (Template.parse_render fits_lateBundle)⟩

end Bundle

end CircuitDesigner
