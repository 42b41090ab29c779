import CircuitDesigner.Proofs.Bundle.Framing
import CircuitDesigner.Proofs.Template.RoundTrip

/-! Bundles in other layouts.

    Whatever characters stand in the texts of a bundle, its lines may be indented, followed by blanks, set apart by
    blank lines and ended in either way: what is read is the same bundle (`parse_spread_iff`). -/

namespace CircuitDesigner

/-- All numbers of the definition have 64 bits. -/
structure Definition.Sized (d : Definition) : Prop where
  span : d.span < Text.word
  circuit : d.circuit.Sized

theorem Definition.Sized.whole {d : Definition} (h : d.Sized) : d.toJson.Whole :=
  (fits_toJson h.span (h.circuit.whole.fits (Nat.le_refl _))).whole

namespace Bundle

/-- All numbers of the bundle have 64 bits. -/
structure Sized (b : Bundle) : Prop where
  definitions : ∀ d ∈ b.definitions, d.Sized
  circuit : b.circuit.Sized

variable {b : Bundle} {text : String}

theorem splitOn_render (hdefinitions : ∀ d ∈ b.definitions, Json.Fits Json.maxDepth d.toJson)
    (hcircuit : Json.Fits Json.maxDepth b.circuit.toJson) : b.render.toList.splitOn '\n' = b.charLines := by
  rw [toList_render]
  refine List.splitOn_intercalate '\n' (fun cs hcs => ?_) (by simp [charLines])
  exact (unbroken_charLines hdefinitions hcircuit cs hcs).feed

/-- A bundle is read from a text over which its lines are spread if and only if they nest no deeper than the reader
    follows. -/
theorem parse_spread_iff (h : b.Sized) (hspread : Text.Spread (b.render.toList.splitOn '\n') text.toList) :
    parse text = .ok b ↔
      (∀ d ∈ b.definitions, d.toJson.nesting ≤ Json.maxDepth) ∧ b.circuit.toJson.nesting ≤ Json.maxDepth := by
  constructor
  · intro hparse
    obtain ⟨hdefinitions, hcircuit⟩ := fits_of_parse hparse
    exact ⟨fun d hd => (hdefinitions d hd).nesting_le, hcircuit.nesting_le⟩
  · rintro ⟨hdefinitions, hcircuit⟩
    have hfits : ∀ d ∈ b.definitions, Json.Fits Json.maxDepth d.toJson :=
      fun d hd => (h.definitions d hd).whole.fits (hdefinitions d hd)
    have hfit : Json.Fits Json.maxDepth b.circuit.toJson := h.circuit.whole.fits hcircuit
    rw [splitOn_render hfits hfit] at hspread
    exact parse_of_spread hfits hfit hspread

/-- A gate whose texts are full of line ends and blanks. -/
def ragged : Definition where
  id := "cg1\r\n"
  span := 1
  symbol := "\n\n"
  title := "\u2028 \u0085"
  description := "\x00\"\\\u2029\x0b"
  circuit := { wires := [{ stamps := ["h"], name := some "\n" }] }

/-- A bundle of that gate, used by a circuit. -/
def raggedBundle : Bundle where
  definitions := [ragged]
  circuit := { wires := [{ stamps := ["cg1\r\n", "\r"] }], undos := some [ragged.circuit] }

/-- Its lines between blanks and blank lines, ended in both ways. -/
def raggedText : String := String.ofList <|
  [' ', '\r'] ++ ['\n'] ++ (['\u2028', '\t'] ++ ragged.render.toList ++ ['\r', '\r'] ++ ['\r', '\n'] ++
    ([] ++ ['\r', '\n'] ++ ([] ++ raggedBundle.circuit.render.toList ++ ['\u3000'] ++ ['\n'] ++ ['\r'])))

theorem sized_ragged : ragged.circuit.Sized := ⟨by decide, nofun, nofun, nofun, nofun⟩

theorem sized_raggedBundle : raggedBundle.Sized where
  definitions := List.forall_mem_singleton.mpr ⟨by decide, sized_ragged⟩
  circuit := by
    refine ⟨by decide, nofun, nofun, fun ts hts => ?_, nofun⟩
    cases hts
    exact List.forall_mem_singleton.mpr sized_ragged

theorem spread_raggedText : Text.Spread raggedBundle.charLines raggedText.toList := by
  unfold raggedText
  rw [String.toList_ofList]
  exact .blank (.of_all rfl) .feed (.line (.of_all rfl) (.of_all rfl) .carriageFeed
    (.blank .nil .carriageFeed (.line .nil (.of_all rfl) .feed (.rest (.of_all rfl)))))

theorem parse_spread_ragged : parse raggedText = .ok raggedBundle := by
  have hdefinitions : ∀ d ∈ raggedBundle.definitions, d.toJson.nesting ≤ Json.maxDepth :=
    List.forall_mem_singleton.mpr (by decide)
  have hcircuit : raggedBundle.circuit.toJson.nesting ≤ Json.maxDepth := by decide
  have hsplit : raggedBundle.render.toList.splitOn '\n' = raggedBundle.charLines :=
    splitOn_render (fun d hd => (sized_raggedBundle.definitions d hd).whole.fits (hdefinitions d hd))
      (sized_raggedBundle.circuit.whole.fits hcircuit)
  exact (parse_spread_iff sized_raggedBundle (hsplit ▸ spread_raggedText)).mpr ⟨hdefinitions, hcircuit⟩

end Bundle

end CircuitDesigner
