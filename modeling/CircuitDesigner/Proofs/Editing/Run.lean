import CircuitDesigner.Proofs.Catalog
import CircuitDesigner.Proofs.Editing.Drag
import CircuitDesigner.Proofs.Editing.Gesture
import CircuitDesigner.Proofs.History.Timeline

/-! Runs of gestures.

    A run applies gestures one after the other, in any order, to an empty circuit. Each of them finds an intact circuit
    with a history of recorded states (`Editable`) and leaves one, so that the circuit is well-formed all along
    (`wellFormed_run`). The history has to be part of the invariant because undo rebuilds the circuit from it. -/

namespace CircuitDesigner

open Circuit

/-! ### Gestures -/

/-- Where a drag takes its gate from: from the toolbox, by a stamp, or from a cell. -/
inductive Grip where
  | toolbox (stamp : String)
  | cell (id : GateId)

/-- The start of a drag. The stamp must mean something, and the cell must show the gate. -/
def Grip.start? (grip : Grip) (c : Circuit Rat) : Option (Drag Rat × Circuit Rat) :=
  match grip with
  | toolbox stamp =>
    match GateKind.ofStamp c.catalog stamp with
    | .ok kind => some (Drag.ofToolbox c kind)
    | .error _ => none
  | cell id => if c.isShown id then Drag.ofPlaced? c id else none

/-- The gestures that change what the circuit computes. -/
inductive Edit where
  | delete (id : GateId)
  | duplicateRight (id : GateId)
  | duplicateDown (id : GateId)
  | cyclePostSelection (id : GateId)
  | toggleControl (id : GateId)
  | clickWire (row : Nat) (click : WireClick)
  | renameWire (row : Nat) (name : String)
  | deleteWire (row : Nat)
  /-- A drag over some points that ends with a drop. -/
  | drop (grip : Grip) (hovers : List (Pointer Rat)) (p : Pointer Rat)

/-- The circuit after an edit. Edits of a gate apply only if the gate shows. -/
def Edit.perform? (c : Circuit Rat) : Edit → Option (Circuit Rat)
  | delete id => if c.isShown id then c.deleteGate? id else none
  | duplicateRight id => if c.isShown id then c.duplicateRight? id else none
  | duplicateDown id => if c.isShown id then c.duplicateDown? id else none
  | cyclePostSelection id => if c.isShown id then c.cyclePostSelection? id else none
  | toggleControl id => if c.isShown id then c.toggleControl? id else none
  | clickWire row click => c.clickWire? row click
  | renameWire row name => c.renameWire? row name
  | deleteWire row => c.deleteWire? row
  | drop grip hovers p => (grip.start? c).map fun (d, m) => ((d.hovers m hovers).1.drop (d.hovers m hovers).2 p).2

/-- All gestures. -/
inductive Gesture where
  | edit (e : Edit)
  | setExponent (id : GateId) (exponent : String)
  | setMinQubits (count : Nat)
  | setShots (shots : Nat)
  | toggleEndianness
  | load (way : Direction)
  /-- Declares a custom gate. -/
  | declare (span : Nat) (caption : Caption) (circuit : Template)
  /-- Adds the definition of a custom gate. -/
  | define (d : Definition)
  /-- A drag over some points that is given up. -/
  | cancel (grip : Grip) (hovers : List (Pointer Rat))

/-- The circuit after a gesture, if the gesture applies. A custom gate must be new. -/
def Gesture.perform? (c : Circuit Rat) : Gesture → Option (Circuit Rat)
  | edit e => e.perform? c
  | setExponent id exponent => if c.isShown id then c.setExponent? id exponent else none
  | setMinQubits count => (c.setMinQubits count).toOption
  | setShots shots => (c.setShots shots).toOption
  | toggleEndianness => some c.toggleEndianness
  | load way => (c.load way).toOption.join
  | declare span caption circuit =>
    (c.catalog.declare? span caption circuit).bind fun (d, catalog) =>
      if c.catalog.contains d.id then none else some { c with catalog }
  | define d => if c.catalog.contains d.id then none else some { c with catalog := c.catalog.define d }
  | cancel grip hovers => (grip.start? c).map fun (d, m) => Drag.cancel (d.hovers m hovers).2

/-- One gesture after the other. One that does not apply leaves the circuit as it is. -/
def Circuit.run (c : Circuit Rat) : List Gesture → Circuit Rat
  | [] => c
  | g :: gs => ((g.perform? c).getD c).run gs

/-! ### Drags from start to end -/

section Drags

variable {c d : Circuit Rat} {grip : Grip} {hovers : List (Pointer Rat)}

theorem Grip.exists_source {s : Drag Rat × Circuit Rat} (hs : grip.start? c = some s) :
    ∃ source : Drag.Source, source.start? c = some s ∧ source.Proper (GateKind.Known c.catalog) c := by
  cases grip with
  | toolbox stamp =>
    unfold start? at hs
    dsimp only at hs
    split at hs
    · rename_i kind hkind
      have hknown := GateKind.known_of_ofStamp hkind
      exact ⟨.toolbox kind, hs, hknown, fun p hp => GateKind.not_known_support c.catalog p (hp ▸ hknown)⟩
    · cases hs
  | cell id =>
    unfold start? at hs
    dsimp only at hs
    split at hs
    · exact ⟨.cell id, hs, ‹_›⟩
    · cases hs

/-- What a drag that ends with a drop makes of the circuit. The state that it may save is the one with the spare
    wire. -/
theorem exists_dropped {p : Pointer Rat} (h : c.Intact (GateKind.Known c.catalog) [])
    (hd : (Edit.drop grip hovers p).perform? c = some d) :
    ∃ b hand w e, b.Intact (GateKind.Known c.catalog) hand ∧ Spared c b w ∧
      e.Intact (GateKind.Known c.catalog) [] ∧ Rest c e ∧ d = ((e.saveState? b.current).getD e).refresh := by
  obtain ⟨s, hs, rfl⟩ := Option.map_eq_some_iff.mp hd
  obtain ⟨source, hsource, hproper⟩ := Grip.exists_source hs
  obtain ⟨b, hand, w, e, g, g', hb, hspared, he, -, -, -, hdropped⟩ :=
    Drag.Source.exists_dropped h hsource hproper hovers p
  exact ⟨b, hand, w, e, hb, hspared, hdropped.intact, hspared.rest.trans hdropped.rest, he⟩

theorem intact_cancel (h : c.Intact (GateKind.Known c.catalog) [])
    (hd : (Gesture.cancel grip hovers).perform? c = some d) : d.Intact (GateKind.Known c.catalog) [] ∧ Rest c d := by
  obtain ⟨s, hs, rfl⟩ := Option.map_eq_some_iff.mp hd
  obtain ⟨source, hsource, -⟩ := Grip.exists_source hs
  obtain ⟨b, hand, w, g, hb, hspared, hstart, -⟩ := Drag.Source.exists_start h hsource
  obtain ⟨hhovers, -, -⟩ := Underway.hovers s.1 s.2 hovers
  have hunder := hstart.trans hhovers
  have hscan := Underway.rescan none (s.1.hovers s.2 hovers).2
  exact ⟨(hunder.intact hb).discard.refresh,
    ((hspared.rest.trans hunder.rest).trans hscan.rest).trans (rest_refresh _)⟩

end Drags

/-! ### Steps -/

theorem Circuit.Intact.mono {K : Type} [Coordinate K] {P Q : GateKind → Prop} {hand : List GateId} {c : Circuit K}
    (h : c.Intact P hand) (hPQ : ∀ kind, P kind → Q kind) : c.Intact Q hand where
  shows := h.shows
  spanned := h.spanned
  kinds r k id kind hm := hPQ kind (h.kinds r k id kind hm)
  numbered := h.numbered
  owned := h.owned
  collapsed := h.collapsed

theorem Recorded.mono {K : Type} [Coordinate K] {catalog catalog' : Catalog} {t : Template} (h : Recorded K catalog t)
    (hgrow : ∀ kind : GateKind, kind.Known catalog → kind.Known catalog') : Recorded K catalog' t := by
  obtain ⟨c, hc, hk, rfl⟩ := h
  exact ⟨c, hc, fun w hw g hg hne => hgrow _ (hk w hw g hg hne), rfl⟩

/-- An intact circuit whose kinds its catalog knows, with a history of recorded states. -/
structure Circuit.Editable (c : Circuit Rat) : Prop where
  intact : c.Intact (GateKind.Known c.catalog) []
  states : ∀ way, ∀ t ∈ c.stack way, Recorded Rat c.catalog t

/-- What an edit makes of the circuit, but for a drop. -/
theorem Edit.cases {c d : Circuit Rat} {e : Edit} (h : c.Intact (GateKind.Known c.catalog) [])
    (hd : e.perform? c = some d) :
    Edited (GateKind.Known c.catalog) c d ∨ ∃ grip hovers p, e = .drop grip hovers p := by
  have hshown : ∀ {id : GateId} {o : Option (Circuit Rat)}, (if c.isShown id then o else none) = some d →
      c.isShown id = true ∧ o = some d := fun {id o} hif => by
    split at hif
    · exact ⟨‹_›, hif⟩
    · cases hif
  cases e with
  | delete id => exact .inl (edited_deleteGate? h (hshown hd).1 (hshown hd).2)
  | duplicateRight id => exact .inl (edited_duplicateRight? h (hshown hd).1 (hshown hd).2)
  | duplicateDown id => exact .inl (edited_duplicateDown? h (hshown hd).1 (hshown hd).2)
  | cyclePostSelection id => exact .inl (edited_cyclePostSelection? h (hshown hd).1 (hshown hd).2)
  | toggleControl id => exact .inl (edited_toggleControl? h (hshown hd).1 (hshown hd).2)
  | clickWire row click => exact .inl (edited_clickWire? h hd)
  | renameWire row name => exact .inl (edited_renameWire? h hd)
  | deleteWire row => exact .inl (edited_deleteWire? h hd)
  | drop grip hovers p => exact .inr ⟨grip, hovers, p, rfl⟩

namespace Circuit.Editable

variable {c d : Circuit Rat} {t : Template}

theorem of_rest (h : c.Editable) (hrest : Rest c d) (hd : d.Intact (GateKind.Known c.catalog) []) : d.Editable where
  intact := by
    rw [hrest.catalog]
    exact hd
  states := by
    rw [stack_congr hrest.undos hrest.redos, hrest.catalog]
    exact h.states

theorem refresh (h : c.Editable) : c.refresh.Editable := h.of_rest (rest_refresh c) h.intact.refresh

theorem remember (h : c.Editable) (ht : Recorded Rat c.catalog t) : (c.remember t).Editable where
  intact := h.intact.remember t
  states way s hs := by
    cases way with
    | previous =>
      rcases List.mem_append.mp hs with hs | hs
      · exact h.states .previous s hs
      · exact List.mem_singleton.mp hs ▸ ht
    | next =>
      have hs : s ∈ if c.undos.isEmpty then [] else c.redos := hs
      split at hs
      · cases hs
      · exact h.states .next s hs

theorem of_edited (h : c.Editable) (hd : Edited (GateKind.Known c.catalog) c d) : d.Editable :=
  (h.remember h.intact.recorded).of_rest hd.rest hd.intact

theorem edit (h : c.Editable) {e : Edit} (hd : e.perform? c = some d) : d.Editable := by
  rcases Edit.cases h.intact hd with hd | ⟨grip, hovers, p, rfl⟩
  · exact h.of_edited hd
  · obtain ⟨b, hand, w, o, hb, -, ho, hrest, rfl⟩ := exists_dropped h.intact hd
    have hedit := h.of_rest hrest ho
    rcases saved_cases o b.current with hsame | hsaved
    · rw [hsame]
      exact hedit.refresh
    · rw [hsaved]
      exact (hedit.remember (hrest.catalog ▸ hb.recorded)).refresh

/-- Undo and redo do not fail. -/
theorem exists_load (h : c.Editable) (way : Direction) : ∃ o, c.load way = .ok o ∧ ∀ d ∈ o, d.Editable := by
  by_cases hne : c.stack way = []
  · exact ⟨none, load_nil hne, fun d hd => by cases hd⟩
  · have hstack := (List.dropLast_append_getLast hne).symm
    have ht : Recorded Rat (c.stepped way).catalog ((c.stack way).getLast hne) := by
      rw [stepped_catalog]
      exact h.states way _ (List.getLast_mem hne)
    obtain ⟨e, he, hintact, hrestored, hundos, hredos⟩ := ht.exists_restore .none ⟨rfl, rfl, rfl⟩
    have hcatalog := hrestored.catalog
    refine ⟨some e, by rw [load_concat hstack, he]; rfl, fun d hd => ?_⟩
    obtain rfl := Option.some.inj hd
    -- The stacks hold what they held before, and the state that was current.
    refine ⟨hcatalog ▸ hintact, fun way' s hs => ?_⟩
    rw [hcatalog, stepped_catalog]
    rw [stack_congr hundos hredos] at hs
    rcases mem_stack_stepped hs with ⟨way, hs⟩ | rfl
    · exact h.states way s hs
    · exact h.intact.recorded

theorem within (h : c.Editable) {catalog : Catalog} (hwithin : c.catalog.Within catalog) :
    Editable { c with catalog } where
  intact := Intact.congr (h.intact.mono fun _ hk => hk.within hwithin) rfl rfl
  states way t ht := (h.states way t ht).mono fun _ hk => hk.within hwithin

theorem toggleEndianness (h : c.Editable) : c.toggleEndianness.Editable := by
  have hcore := map_core_updateOrder { c with settings.endianness := c.settings.endianness.toggled }
  refine ⟨⟨h.intact.toSound.of_core hcore rfl, collapsed_of_core hcore h.intact.collapsed⟩, h.states⟩

/-- No gesture leaves the editable circuits. -/
theorem perform (h : c.Editable) {g : Gesture} (hd : g.perform? c = some d) : d.Editable := by
  have hshow : ∀ {cond : Prop} [Decidable cond] {o : Option (Circuit Rat)}, (if cond then none else o) = some d →
      ¬cond ∧ o = some d := fun {cond _ o} hif => by
    split at hif
    · cases hif
    · exact ⟨‹_›, hif⟩
  cases g with
  | edit e => exact h.edit hd
  | setExponent id exponent =>
    unfold Gesture.perform? at hd
    dsimp only at hd
    split at hd
    · obtain ⟨hintact, hrest, -⟩ := h.intact.setExponent? ‹_› hd
      exact h.of_rest hrest hintact
    · cases hd
  | setMinQubits count =>
    unfold Gesture.perform? Circuit.setMinQubits at hd
    dsimp only at hd
    split at hd
    · cases hd
    · obtain rfl := Option.some.inj hd
      exact Editable.refresh (c := { c with settings.minQubits := count }) ⟨h.intact.congr rfl rfl, h.states⟩
  | setShots shots =>
    unfold Gesture.perform? Circuit.setShots at hd
    dsimp only at hd
    split at hd
    · cases hd
    · obtain rfl := Option.some.inj hd
      exact Editable.refresh (c := { c with settings.shots := shots }) ⟨h.intact.congr rfl rfl, h.states⟩
  | toggleEndianness =>
    cases hd
    exact h.toggleEndianness
  | load way =>
    obtain ⟨o, ho, heditable⟩ := h.exists_load way
    unfold Gesture.perform? at hd
    dsimp only at hd
    rw [ho] at hd
    exact heditable d hd
  | declare span caption circuit =>
    obtain ⟨⟨made, catalog⟩, hdeclare, hd⟩ := Option.bind_eq_some_iff.mp hd
    obtain ⟨number, -, rfl, rfl⟩ := Catalog.exists_of_declare? hdeclare
    obtain ⟨hnew, hd⟩ := hshow hd
    cases hd
    exact h.within (.put (Bool.eq_false_iff.mpr hnew) _)
  | define o =>
    obtain ⟨hnew, hd⟩ := hshow hd
    cases hd
    exact h.within (.put (Bool.eq_false_iff.mpr hnew) _)
  | cancel grip hovers =>
    obtain ⟨hintact, hrest⟩ := intact_cancel h.intact hd
    exact h.of_rest hrest hintact

theorem run (h : c.Editable) (gs : List Gesture) : (c.run gs).Editable := by
  induction gs generalizing c with
  | nil => exact h
  | cons g gs ih =>
    refine ih ?_
    cases hd : g.perform? c with
    | none => exact h
    | some d => exact h.perform hd

end Circuit.Editable

/-! ### Runs -/

theorem editable_ofSettings (settings : Settings) : (ofSettings settings : Circuit Rat).Editable where
  intact := intact_ofSettings settings
  states way t ht := by
    cases way with
    | previous => exact (List.not_mem_nil (undos_ofSettings (K := Rat) settings ▸ ht : t ∈ [])).elim
    | next => exact (List.not_mem_nil (redos_ofSettings (K := Rat) settings ▸ ht : t ∈ [])).elim

/-- After every run of gestures on an empty circuit, the circuit is well-formed. -/
theorem wellFormed_run (settings : Settings) (gs : List Gesture) :
    ((ofSettings settings : Circuit Rat).run gs).WellFormed :=
  ((editable_ofSettings settings).run gs).intact.wellFormed

/-- No undo or redo of a run fails. -/
theorem exists_load_run (settings : Settings) (gs : List Gesture) (way : Direction) :
    ∃ o, ((ofSettings settings : Circuit Rat).run gs).load way = .ok o := by
  obtain ⟨o, ho, -⟩ := ((editable_ofSettings settings).run gs).exists_load way
  exact ⟨o, ho⟩

/-- A declaration that finds a number applies. -/
theorem perform_declare {c : Circuit Rat} (h : c.catalog.Numbered) (span : Nat) (caption : Caption)
    (circuit : Template) :
    (Gesture.declare span caption circuit).perform? c =
      (c.catalog.declare? span caption circuit).map fun made => { c with catalog := made.2 } := by
  unfold Gesture.perform?
  dsimp only
  cases hdeclare : c.catalog.declare? span caption circuit with
  | none => rfl
  | some made =>
    obtain ⟨d, catalog⟩ := made
    obtain ⟨number, hnumber, rfl, rfl⟩ := Catalog.exists_of_declare? hdeclare
    show (if c.catalog.contains (Catalog.declared number span caption circuit).id then none else some _) = some _
    rw [h.not_contains hnumber]
    rfl

end CircuitDesigner
