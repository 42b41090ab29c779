import CircuitDesigner.Proofs.Json.Nesting
import CircuitDesigner.Proofs.Template.Bounds

/-! Templates through their text.

    A template whose numbers have 64 bits, as deep in its history as it goes, is read back from its text whenever the
    text nests no deeper than the reader follows, and in no other case (`parse_render_iff`). -/

namespace CircuitDesigner

open Json

/-- All numbers of the template have 64 bits, those of the states in its history too. -/
inductive Template.Sized : Template → Prop where
  | intro {t : Template} (length : t.wires.length < Text.word) (qubits : ∀ n, t.minQubits = some n → n < Text.word)
      (shots : ∀ n, t.shots = some n → n < Text.word) (undos : ∀ ts, t.undos = some ts → ∀ s ∈ ts, Sized s)
      (redos : ∀ ts, t.redos = some ts → ∀ s ∈ ts, Sized s) : Sized t

namespace Template

/-- The numbers in the text of a template are those of the template. -/
theorem Sized.whole {t : Template} (h : t.Sized) : t.toJson.Whole := by
  induction h with
  | @intro t hlength hqubits hshots _ _ hundos hredos =>
    have hstack : ∀ ts : List Template, (∀ s ∈ ts, s.toJson.Whole) → Whole (.array (ts.map toJson)) :=
      fun ts hts => .array (List.forall_mem_map.mpr hts)
    rw [toJson_eq]
    refine .object (forall_mem_members (.natural hlength) .string (fun n hn => .natural (hqubits n hn))
      (fun n hn => .natural (hshots n hn)) (fun ts hts => hstack ts (hundos ts hts))
      (fun ts hts => hstack ts (hredos ts hts)) fun m hm => ?_)
    exact (fits_of_mem_recordMembers (fun _ => Nat.le_refl 2) m hm).whole

/-- A template comes back from its text if and only if the text nests no deeper than the reader follows. -/
theorem parse_render_iff {t : Template} (h : t.Sized) : parse t.render = .ok t ↔ t.toJson.nesting ≤ maxDepth := by
  rw [← h.whole.fits_iff]
  exact ⟨fits_of_parse, parse_render⟩

/-- A wire with marks of all sorts in its stamps and its name, under `n` states to go back to. -/
def buried : Nat → Template
  | 0 =>
    { wires :=
        [{ stamps := ["h", "control<!@DELIMITER>1", "\u0000\u2028\"\\"], ket := some .minusI, name := some "a\nb" }]
      endianness := some .big
      shots := some (Text.word - 1) }
  | n + 1 => { minQubits := some 0, undos := some [buried n], redos := some [] }

theorem sized_buried (n : Nat) : (buried n).Sized := by
  induction n with
  | zero =>
    refine ⟨by decide, nofun, fun n hn => ?_, nofun, nofun⟩
    cases hn
    decide
  | succ n ih =>
    refine ⟨(by decide : 0 < Text.word), fun n hn => ?_, nofun, fun ts hts => ?_, fun ts hts => ?_⟩
    · cases hn
      decide
    · cases hts
      exact List.forall_mem_singleton.mpr ih
    · cases hts
      nofun

theorem nesting_buried (n : Nat) : (buried n).toJson.nesting = 2 * n + 3 := by
  induction n with
  | zero => rfl
  | succ n ih =>
    rw [toJson_eq]
    simp [members, buried, recordMembers, nesting, memberNesting, itemNesting, ih, Json.natural]
    omega

/-- The deepest of them that is read back, and the next one, which is not. -/
theorem parse_render_buried :
    parse (buried 62).render = .ok (buried 62) ∧ parse (buried 63).render ≠ .ok (buried 63) := by
  have hdepth := nesting_buried
  constructor
  · exact (parse_render_iff (sized_buried 62)).mpr (by rw [hdepth]; decide)
  · intro h
    have := (parse_render_iff (sized_buried 63)).mp h
    rw [hdepth] at this
    exact absurd this (by decide)

end Template

end CircuitDesigner
