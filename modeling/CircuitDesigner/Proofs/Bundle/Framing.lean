import CircuitDesigner.Bundle
import CircuitDesigner.Proofs.Json.Printing
import CircuitDesigner.Proofs.Template.Bounds
import Mathlib.Data.List.Basic

/-! The lines of a bundle.

    A bundle is read back from every text over which its lines are spread (`parse_of_spread`), such as the one that is
    written (`parse_render`), and one that was read can be written again (`fits_of_parse`). -/

namespace CircuitDesigner

namespace Bundle

/-- The lines of a bundle, as lists of characters. -/
def charLines (b : Bundle) : List (List Char) :=
  (b.definitions.map Definition.render ++ [b.circuit.render]).map String.toList

variable {b : Bundle} {text : String}

/-! ### Lines with numbers -/

theorem map_snd_numberedLines (text : String) :
    (numberedLines text).map Prod.snd = (Text.contents text.toList).map String.ofList := by
  unfold numberedLines Text.lines Text.contents
  generalize Text.linesFrom [] text.toList = css, 1 = n
  induction css generalizing n with
  | nil => rfl
  | cons cs css ih =>
    rw [List.map_cons, List.map_cons, List.zipIdx_cons, List.filterMap_cons, List.filter_cons]
    by_cases hblank : Text.trimChars cs = [] <;> simpa [Text.trim, hblank] using ih (n + 1)

theorem parseDefinition_render {d : Definition} (h : Json.Fits Json.maxDepth d.toJson) (number : Nat) :
    parseDefinition (number, d.render) = .ok d := by
  unfold parseDefinition
  dsimp only
  rw [Definition.parse_render h]
  rfl

theorem mapM_parseDefinition {ds : List Definition} (h : ∀ d ∈ ds, Json.Fits Json.maxDepth d.toJson)
    {lines : List (Nat × String)} (hlines : lines.map Prod.snd = ds.map Definition.render) :
    lines.mapM parseDefinition = .ok ds := by
  induction ds generalizing lines with
  | nil =>
    rw [List.map_nil, List.map_eq_nil_iff] at hlines
    rw [hlines]
    rfl
  | cons d ds ih =>
    obtain ⟨⟨number, line⟩, rest, rfl, rfl, hrest⟩ := List.map_eq_cons_iff.mp hlines
    rw [List.forall_mem_cons] at h
    rw [List.mapM_cons, parseDefinition_render h.1, ih h.2 hrest]
    rfl

/-- The last line is read as the circuit. -/
theorem parse_eq_of_concat {numbered : List (Nat × String)} {n : Nat} {content : String}
    (h : numberedLines text = numbered ++ [(n, content)]) :
    parse text = (numbered.mapM parseDefinition >>= fun definitions =>
      (Template.parse content).mapError (.json n) >>= fun circuit => .ok ⟨definitions, circuit⟩) := by
  unfold parse
  rw [h]
  simp only [List.getLast?_concat, List.dropLast_concat]

/-- The lines of which a bundle is read. -/
theorem exists_of_parse (h : parse text = .ok b) : ∃ numbered n content,
    numberedLines text = numbered ++ [(n, content)] ∧ numbered.mapM parseDefinition = .ok b.definitions ∧
      Template.parse content = .ok b.circuit := by
  rcases List.eq_nil_or_concat (numberedLines text) with hnone | ⟨numbered, ⟨n, content⟩, hnumbered⟩
  · unfold parse at h
    rw [hnone] at h
    cases h
  · rw [List.concat_eq_append] at hnumbered
    rw [parse_eq_of_concat hnumbered] at h
    obtain ⟨definitions, hdefinitions, h⟩ := exists_of_bind h
    obtain ⟨circuit, hcircuit, h⟩ := exists_of_bind h
    cases h
    exact ⟨numbered, n, content, hnumbered, hdefinitions, ok_of_mapError hcircuit⟩

theorem parse_of_numberedLines (hdefinitions : ∀ d ∈ b.definitions, Json.Fits Json.maxDepth d.toJson)
    (hcircuit : Json.Fits Json.maxDepth b.circuit.toJson)
    (hlines : (numberedLines text).map Prod.snd = b.definitions.map Definition.render ++ [b.circuit.render]) :
    parse text = .ok b := by
  obtain ⟨init, last, hnumbered, hinit, hlast⟩ := List.map_eq_append_iff.mp hlines
  obtain ⟨⟨number, line⟩, rfl, rfl⟩ := List.map_eq_singleton_iff.mp hlast
  rw [parse_eq_of_concat hnumbered, mapM_parseDefinition hdefinitions hinit, Template.parse_render hcircuit]
  rfl

/-! ### Texts of a bundle -/

theorem unbroken_charLines (hdefinitions : ∀ d ∈ b.definitions, Json.Fits Json.maxDepth d.toJson)
    (hcircuit : Json.Fits Json.maxDepth b.circuit.toJson) : ∀ cs ∈ b.charLines, Text.Unbroken cs := by
  unfold charLines
  rw [List.forall_mem_map, List.forall_mem_append, List.forall_mem_map, List.forall_mem_singleton]
  constructor
  · intro d hd
    unfold Definition.render Json.render
    rw [String.toList_ofList]
    exact (hdefinitions d hd).unbroken
  · unfold Template.render Json.render
    rw [String.toList_ofList]
    rw [Template.toJson_eq] at hcircuit ⊢
    exact hcircuit.unbroken

/-- A bundle is read back from its lines, wherever they stand. -/
theorem parse_of_spread (hdefinitions : ∀ d ∈ b.definitions, Json.Fits Json.maxDepth d.toJson)
    (hcircuit : Json.Fits Json.maxDepth b.circuit.toJson) (hspread : Text.Spread b.charLines text.toList) :
    parse text = .ok b := by
  refine parse_of_numberedLines hdefinitions hcircuit ?_
  rw [map_snd_numberedLines, hspread.contents_eq (unbroken_charLines hdefinitions hcircuit), charLines, List.map_map]
  simp

theorem toList_render (b : Bundle) : b.render.toList = ['\n'].intercalate b.charLines := String.toList_intercalate

theorem spread_render (b : Bundle) : Text.Spread b.charLines b.render.toList := by
  obtain ⟨cs, css, hcss⟩ : ∃ cs css, b.charLines = cs :: css := List.exists_cons_of_ne_nil (by simp [charLines])
  rw [toList_render, hcss]
  exact .intercalate cs css

theorem parse_render (hdefinitions : ∀ d ∈ b.definitions, Json.Fits Json.maxDepth d.toJson)
    (hcircuit : Json.Fits Json.maxDepth b.circuit.toJson) : parse b.render = .ok b :=
  parse_of_spread hdefinitions hcircuit b.spread_render

/-- A bundle that is read can be written and read again. -/
theorem fits_of_parse (h : parse text = .ok b) :
    (∀ d ∈ b.definitions, Json.Fits Json.maxDepth d.toJson) ∧ Json.Fits Json.maxDepth b.circuit.toJson := by
  obtain ⟨numbered, n, content, -, hdefinitions, hcircuit⟩ := exists_of_parse h
  refine ⟨fun d hd => ?_, Template.fits_of_parse hcircuit⟩
  obtain ⟨line, -, hline⟩ := exists_of_mapM hdefinitions hd
  exact Definition.fits_of_parse (ok_of_mapError hline)

end Bundle

end CircuitDesigner
