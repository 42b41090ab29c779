import CircuitDesigner.Proofs.Refresh.Clean
import CircuitDesigner.Proofs.Workspace.Still

/-! # Circuits that become gates

A circuit becomes a gate if the button for it is enabled. The button is stored, and tells what a still circuit is like
(`enabled_addCustom_iff`). The gate is found ever after with that circuit, and opens as
one with the same stamps: its settings may be others, but they decide on idle wires only (`Tidy.reopens`). -/

namespace CircuitDesigner

open Circuit

/-! ### The button -/

section Button

variable {K : Type} [Coordinate K] {c : Circuit K}

/-- A circuit without faults and measurements, in which there is a gate that counts or a pair of swaps. -/
structure Circuit.Buildable (c : Circuit K) : Prop where
  clean : c.Clean
  counts : (∃ w ∈ c.wires, ∃ g ∈ w.cells, g.kind.isCounted = true) ∨ ∃ k, swapCount c.wires k = 2

omit [Coordinate K] in
theorem Circuit.clean_iff : c.Clean ↔ c.tally.errors = 0 ∧ c.tally.measurements = 0 := by
  simp only [tally, Tally.ofGates, List.countP_eq_zero, List.mem_flatMap, forall_exists_index, and_imp,
    Bool.not_eq_true, Option.isSome_eq_false_iff, Option.isNone_iff_eq_none]
  exact ⟨fun h => ⟨fun g w hw hg => h.faultless w hw g hg, fun g w hw hg => h.unmeasured w hw g hg⟩,
    fun h => ⟨fun w hw g hg => h.1 g w hw hg, fun w hw g hg => h.2 g w hw hg⟩⟩

omit [Coordinate K] in
theorem Circuit.generics_pos_iff : 0 < c.tally.generics ↔ ∃ w ∈ c.wires, ∃ g ∈ w.cells, g.kind.isCounted = true := by
  simp only [tally, Tally.ofGates, List.countP_pos_iff, List.mem_flatMap]
  constructor
  · rintro ⟨g, ⟨w, hw, hg⟩, hkind⟩
    exact ⟨w, hw, g, hg, hkind⟩
  · rintro ⟨w, hw, g, hg, hkind⟩
    exact ⟨g, ⟨w, hw, hg⟩, hkind⟩

omit [Coordinate K] in
theorem Circuit.Clean.soundSwaps_eq (h : c.Clean) (k : Nat) : soundSwaps c.wires k = swapCount c.wires k := by
  refine List.countP_congr fun w hw => ?_
  unfold Wire.hasSwap
  cases hg : w.cells[k]? with
  | none => rfl
  | some g => simp [h.faultless w hw g (List.mem_of_getElem? hg)]

/-- The counter shows a pair in a clean circuit just if there is one. -/
theorem Circuit.Drawn.swaps_pos_iff (h : c.Drawn) (hclean : c.Clean) :
    0 < c.tally.swaps ↔ ∃ k, swapCount c.wires k = 2 := by
  have hhalves := h.swapHalves_eq
  rw [Tally.swaps]
  constructor
  · intro hpos
    have hpos : 0 < c.tally.swapHalves := by omega
    obtain ⟨g, hg, hsound⟩ := List.countP_pos_iff.mp hpos
    obtain ⟨w, hw, hgw⟩ := List.mem_flatMap.mp hg
    obtain ⟨k, hk⟩ := List.getElem?_of_mem hgw
    obtain ⟨hswap, hfault⟩ := (Bool.and_eq_true _ _).mp hsound
    exact ⟨k, ((h.fault_swap_iff hw hk hswap).mp (Option.isNone_iff_eq_none.mp hfault)).1⟩
  · rintro ⟨k, hk⟩
    have hcolumn : k < c.columns := by
      obtain ⟨w, hw, hswap⟩ := List.countP_pos_iff.mp (show 0 < swapCount c.wires k by omega)
      obtain ⟨g, hg, -⟩ := (Option.any_eq_true _ _).mp hswap
      exact (List.getElem?_eq_some_iff.mp hg).1.trans_le (length_le_columnsOf hw)
    have hpair : 0 < columnsWith c.wires 2 c.columns := List.countP_pos_iff.mpr
      ⟨k, List.mem_range.mpr hcolumn, beq_iff_eq.mpr ((hclean.soundSwaps_eq k).trans hk)⟩
    omega

theorem Circuit.Drawn.enabled_addCustom_iff (h : c.Drawn) : c.toolbar.addCustom.enabled = true ↔ c.Buildable := by
  rw [h.toolbar]
  have hbutton : (Toolbar.addCustomButton c.tally).enabled = true ↔
      (c.tally.errors = 0 ∧ c.tally.measurements = 0) ∧ (0 < c.tally.generics ∨ 0 < c.tally.swaps) := by
    unfold Toolbar.addCustomButton
    split_ifs <;> simp [Button.enable, Button.disable] <;> omega
  refine hbutton.trans ?_
  rw [← clean_iff, generics_pos_iff]
  constructor
  · rintro ⟨hclean, hcounts⟩
    exact ⟨hclean, hcounts.imp_right (h.swaps_pos_iff hclean).mp⟩
  · rintro ⟨hclean, hcounts⟩
    exact ⟨hclean, hcounts.imp_right (h.swaps_pos_iff hclean).mpr⟩

end Button

namespace Workspace

variable {w v : Workspace Rat} {c : Circuit Rat} {count : Nat} {caption : Caption} {id : String}

/-! ### Making a gate -/

theorem exists_createGate_iff (h : w.circuit.Drawn) (hnumber : w.circuit.catalog.next? ≠ none) (caption : Caption) :
    (∃ made, w.createGate? caption = some (.ok made)) ↔
      w.circuit.Buildable ∧ (Text.trim caption.symbol).length ≤ 3 * w.circuit.wires.length := by
  rw [← h.enabled_addCustom_iff]
  obtain ⟨number, hnumber⟩ := Option.ne_none_iff_exists'.mp hnumber
  unfold createGate? Catalog.declare?
  cases henabled : w.circuit.toolbar.addCustom.enabled with
  | false => simp [henabled]
  | true =>
    by_cases hlong : 3 * w.circuit.wires.length < (Text.trim caption.symbol).length
    · simp [henabled, hlong]
    · simp [henabled, hlong, Nat.not_lt.mp hlong, hnumber]

/-- Only the last number stops a circuit from being refused or becoming a gate. -/
theorem createGate?_ne_none (hnumber : w.circuit.catalog.next? ≠ none) (caption : Caption) :
    w.createGate? caption ≠ none := by
  unfold createGate? Catalog.declare?
  dsimp only
  split
  · nofun
  · split
    · nofun
    · rwa [ne_eq, Option.map_eq_none_iff, Option.map_eq_none_iff]

/-- One gate comes to the end of the catalog, with a new id and over all wires. All else is as before. -/
structure Gains (w : Workspace Rat) (id : String) (v : Workspace Rat) : Prop where
  new : w.circuit.catalog.contains id = false
  definitions : ∃ d, v.circuit.catalog.definitions = w.circuit.catalog.definitions ++ [d] ∧ d.id = id ∧
    d.span = w.circuit.wires.length
  rest : v = { w with circuit.catalog := v.circuit.catalog }

theorem Live.gains (h : w.Live count) (hcreate : w.createGate? caption = some (.ok (id, v))) : w.Gains id v := by
  obtain ⟨number, hnumber, rfl, rfl⟩ := exists_of_createGate? hcreate
  have hnew := h.tidy.catalog.numbered.not_contains hnumber
    w.circuit.wires.length caption (w.circuit.capture definitionParts)
  have hrows : 1 ≤ w.circuit.wires.length :=
    h.tidy.circuit.positive.qubits.trans_le h.tidy.circuit.minimal.rows
  exact ⟨hnew, ⟨w.made number caption, Catalog.put_of_new (Catalog.contains_eq_false_iff.mp hnew), rfl,
    Nat.max_eq_left hrows⟩, rfl⟩

/-! ### Opening it -/

/-- The gate opens in a new tab, with a clean circuit that has the same stamps but for idle wires at the bottom. -/
def Reopens (w : Workspace Rat) (id : String) (c : Circuit Rat) : Prop :=
  ∃ index v, w.reconstruct id = (.ok index, v) ∧ v.active = some index ∧ v.circuit.Clean ∧
    (trimmed v.circuit.wires).map Wire.stamps = (trimmed c.wires).map Wire.stamps

/-- The gate of a clean circuit opens wherever its circuit is recorded and its kinds are known. -/
theorem Tidy.reopens (h : w.Tidy) (hc : c.Consistent) (hstill : c.Still) (hclean : c.Clean)
    (hk : Resolves w.circuit.catalog c.wires) {o : Definition} (ho : w.circuit.catalog.get? id = some o)
    (hcircuit : o.circuit = c.capture definitionParts) : w.Reopens id c := by
  obtain ⟨hcompact, hdrawn⟩ := still_iff.mp hstill
  obtain ⟨e, he, hkinds, -, hintact, -⟩ := exists_restore_kinds hc w.circuit hk definitionParts .none
  have htrimmed : (trimmed e.refresh.wires).map Wire.kinds = (trimmed c.wires).map Wire.kinds :=
    (map_kinds_trimmed_refresh (hcompact.columns.of_kinds hkinds)).trans (map_kinds_trimmed_congr hkinds)
  have hclean : e.refresh.Clean :=
    hclean.of_kinds hdrawn (drawn_refresh e) hc.collapsed hintact.refresh.collapsed htrimmed
  obtain ⟨v, hv, hactive, hcircuit'⟩ := exists_openTab h.bounded (validate_capture definitionParts hk) he o.title
  have hwires : v.circuit.wires = e.refresh.wires := by
    rw [hcircuit']
    rfl
  have hopen : w.reconstruct id = (.ok w.tabs.length, v) := by
    unfold Workspace.reconstruct
    rw [ho]
    dsimp only
    rw [hcircuit]
    exact hv
  refine ⟨_, v, hopen, hactive, hclean.congr hwires, ?_⟩
  rw [hwires]
  exact map_stamps_of_kinds htrimmed

theorem Live.reopens (h : w.Live count) (hstill : w.circuit.Still) (hclean : w.circuit.Clean)
    (hcreate : w.createGate? caption = some (.ok (id, v))) (as : List Act) : (v.run as).Reopens id w.circuit := by
  have hintact := h.tidy.circuit.editable.intact
  have hnew := (h.gains hcreate).new
  obtain ⟨hmade, hrecalls⟩ := h.perform (.createGate caption)
  have hperform : (Act.createGate caption).perform w = v := by
    simp only [Act.perform, createGateStaged_eq, hcreate]
  rw [hperform] at hmade hrecalls
  obtain ⟨hlive, hrecalls'⟩ := hmade.run_recalls as
  -- The gate is the last one now. The run keeps its circuit, though it may hide the gate.
  obtain ⟨number, -, rfl, hgrown⟩ := exists_of_createGate? hcreate
  have hfound : v.circuit.catalog.get? (w.made number caption).id = some (w.made number caption) := by
    rw [hgrown]
    exact Catalog.get?_put_self hnew _
  obtain ⟨o, ho, -, hcircuit⟩ := hrecalls' _ _ hfound
  have hresolves : Resolves (v.run as).circuit.catalog w.circuit.wires := fun u hu g hg hne =>
    (hintact.resolves u hu g hg hne).within (hrecalls.trans hrecalls').within
  exact hlive.tidy.reopens hintact.wellFormed.toConsistent hstill hclean hresolves ho hcircuit

/-- After every run a circuit becomes a gate if there is something in it to make one of, nothing against it, and room
for the symbol. A circuit that is refused leaves the workspace as it was. The gate that is made is in the catalog, and
opens after every run that follows. -/
theorem createGate_run {settings : Settings} (hsettings : settings.Positive) (as : List Act) (caption : Caption)
    (hcount : as.countP Act.declares + 1 < Text.word) (hw : (ofCircuit (ofSettings settings)).run as = w) :
    ((∃ made, w.createGate? caption = some (.ok made)) ↔
      w.circuit.Buildable ∧ (Text.trim caption.symbol).length ≤ 3 * w.circuit.wires.length) ∧
    w.createGate? caption ≠ none ∧
    (∀ e, w.createGate? caption = some (.error e) → w.createGateStaged caption = (some (.error e), w)) ∧
    ∀ id v, w.createGate? caption = some (.ok (id, v)) → w.createGateStaged caption = (some (.ok id), v) ∧
      w.Gains id v ∧ ∀ bs : List Act, (v.run bs).Reopens id w.circuit := by
  have hnew := live_ofCircuit hsettings
  have hlive := hnew.run as
  have hstill := hnew.still_run (still_ofCircuit (still_refresh _)) as
  rw [hw, Nat.zero_add] at hlive
  rw [hw] at hstill
  have hnumber : w.circuit.catalog.next? ≠ none := by
    unfold Catalog.next?
    rw [if_pos (lt_of_le_of_lt (Nat.succ_le_succ hlive.created) hcount)]
    nofun
  have hiff := exists_createGate_iff (still_iff.mp hstill).2 hnumber caption
  refine ⟨hiff, createGate?_ne_none hnumber caption, fun e he => ?_, fun id v hv => ⟨?_, hlive.gains hv, fun bs => ?_⟩⟩
  · rw [createGateStaged_eq, he]
  · rw [createGateStaged_eq, hv]
  · exact hlive.reopens hstill (hiff.mp ⟨_, hv⟩).1.clean hv bs

/-- A circuit of one gate. -/
def single : List Act := [.gesture (.edit (.drop (.toolbox "h") [] ⟨130, 150⟩)) trivial]

/-- Least number of wires and order change, the gate is hidden, and another tab becomes active. -/
def hideAndMove : List Act :=
  [.gesture (.setMinQubits 4) trivial, .gesture .toggleEndianness trivial, .hideGate "cg1", .addTab]

theorem createGate_run_single : ((ofCircuit (ofSettings {})).run single).circuit.Buildable ∧
    (∃ v, ((ofCircuit (ofSettings {})).run single).createGateStaged {} = (some (.ok "cg1"), v) ∧
      ((ofCircuit (ofSettings {})).run single).Gains "cg1" v ∧
      (v.run hideAndMove).Reopens "cg1" ((ofCircuit (ofSettings {})).run single).circuit) ∧
    ((ofCircuit (ofSettings {})).run []).createGateStaged {} =
      (some (.error (.rejected (.disabled "The circuit is empty."))), (ofCircuit (ofSettings {})).run []) := by
  have hpositive : Settings.Positive {} := ⟨by decide, by decide⟩
  obtain ⟨hiff, -, -, hmade⟩ := createGate_run hpositive single {} (by decide) rfl
  have hid : (((ofCircuit (ofSettings {})).run single).createGate? {}).bind
      (fun outcome => outcome.toOption.map Prod.fst) = some "cg1" := by decide +kernel
  obtain ⟨outcome, hcreate, hid⟩ := Option.bind_eq_some_iff.mp hid
  cases outcome with
  | error e => cases hid
  | ok made =>
    obtain ⟨id, v⟩ := made
    obtain rfl : id = "cg1" := Option.some.inj hid
    obtain ⟨hstaged, hgains, hreopens⟩ := hmade _ _ hcreate
    refine ⟨(hiff.mp ⟨_, hcreate⟩).1, ⟨v, hstaged, hgains, hreopens hideAndMove⟩, ?_⟩
    obtain ⟨-, -, hrefused, -⟩ := createGate_run hpositive [] {} (by decide) rfl
    exact hrefused _ rfl

end Workspace

end CircuitDesigner
