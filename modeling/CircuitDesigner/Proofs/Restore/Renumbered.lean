import CircuitDesigner.Proofs.Refresh.Drawn
import CircuitDesigner.Proofs.Restore.Tiled

/-! # Loading and numbers

A template is loaded into empty wires, and what is placed there is numbered on from the last gate and the last wire of
the circuit before. Placing, minimizing and drawing read no number: begun with other numbers they do the same, and all
the numbers of the result, those that supports give of their gates included, lie apart by as much as those at the start
(`Circuit.Renumbered`). Each of the operations below is shown to keep that distance. -/

namespace CircuitDesigner

open Circuit

/-- How far the numbers of gates and of wires lie apart. -/
structure Offset where
  gates : Nat
  wires : Nat

/-! ### Gates and wires -/

/-- The kind, with the number of the gate that it belongs to shifted. -/
def GateKind.shifted (n : Nat) : GateKind → GateKind
  | support parent => support ⟨parent.index + n⟩
  | kind => kind

namespace GateKind

variable (n : Nat) (kind : GateKind)

@[simp] theorem plain_shifted : (kind.shifted n).plain = kind.plain := by cases kind <;> rfl

@[simp] theorem isInertia_shifted : (kind.shifted n).isInertia = kind.isInertia := by cases kind <;> rfl

@[simp] theorem isMeasurement_shifted : (kind.shifted n).isMeasurement = kind.isMeasurement := by cases kind <;> rfl

@[simp] theorem isGeneric_shifted : (kind.shifted n).isGeneric = kind.isGeneric := by cases kind <;> rfl

@[simp] theorem isSwap_shifted : (kind.shifted n).isSwap = kind.isSwap := by cases kind <;> rfl

@[simp] theorem hasTexture_shifted : (kind.shifted n).hasTexture = kind.hasTexture := by cases kind <;> rfl

@[simp] theorem span_shifted : (kind.shifted n).span = kind.span := by cases kind <;> rfl

@[simp] theorem inspect_shifted (onBit : Bool) : (kind.shifted n).inspect onBit = kind.inspect onBit := by
  cases kind <;> rfl

theorem shifted_of_ne {kind : GateKind} (h : ∀ parent, kind ≠ .support parent) : kind.shifted n = kind := by
  cases kind with
  | support parent => exact absurd rfl (h parent)
  | _ => rfl

end GateKind

/-- The gate with its numbers shifted. -/
def Gate.shifted (s : Offset) (g : Gate) : Gate where
  id := ⟨g.id.index + s.gates⟩
  kind := g.kind.shifted s.gates
  owner := g.owner.map fun wire => ⟨wire.index + s.wires⟩
  fault := g.fault
  textured := g.textured
  hasTexture_of_textured h := by
    rw [GateKind.hasTexture_shifted]
    exact g.hasTexture_of_textured h

variable {K : Type}

/-- The wire with its numbers shifted. -/
def Wire.shifted (s : Offset) (w : Wire K) : Wire K :=
  { w with id := ⟨w.id.index + s.wires⟩, cells := w.cells.map (Gate.shifted s) }

section Gates

variable (s : Offset) (g : Gate)

@[simp] theorem Gate.isInertia_shifted : (g.shifted s).isInertia = g.isInertia := GateKind.isInertia_shifted ..

theorem Gate.bare_shifted : (g.shifted s).bare = g.bare := by simp [Gate.bare, Gate.shifted]

theorem Gate.ownedBy_shifted (wire : WireId) :
    (g.shifted s).ownedBy ⟨wire.index + s.wires⟩ = (g.ownedBy wire).shifted s := rfl

theorem Gate.inertia_shifted (index : Nat) : Gate.inertia (index + s.gates) = (Gate.inertia index).shifted s := rfl

theorem Gate.withTexture_shifted (textured : Bool) :
    (g.shifted s).withTexture textured = (g.withTexture textured).shifted s := by
  have hkind : (g.shifted s).kind.hasTexture = g.kind.hasTexture := GateKind.hasTexture_shifted ..
  unfold Gate.withTexture
  by_cases h : g.kind.hasTexture = true
  · rw [dif_pos h, dif_pos (hkind.trans h)]
    rfl
  · rw [dif_neg h, dif_neg (hkind ▸ h)]

theorem Gate.dressed_shifted (controlled : Bool) :
    (g.shifted s).dressed controlled = (g.dressed controlled).shifted s := by
  have hkind : (g.shifted s).kind.isGeneric = g.kind.isGeneric := GateKind.isGeneric_shifted ..
  unfold Gate.dressed
  rw [hkind, Gate.withTexture_shifted, apply_ite (Gate.shifted s)]

theorem Gate.judged_shifted (onBit : Bool) (swaps : Nat) :
    (g.shifted s).judged onBit swaps = (g.judged onBit swaps).shifted s := by
  have hkind : (g.shifted s).kind.isSwap = g.kind.isSwap := GateKind.isSwap_shifted ..
  have hinspected : (g.shifted s).inspected onBit = (g.inspected onBit).shifted s := by
    simp [Gate.inspected, Gate.shifted]
  unfold Gate.judged
  rw [hkind, hinspected, apply_ite (Gate.shifted s)]
  rfl

theorem Wire.bare_shifted (w : Wire K) : (w.shifted s).bare = w.bare := by
  simp [Wire.bare, Wire.shifted, Gate.bare_shifted]

theorem map_bare_shifted (ws : List (Wire K)) : (ws.map (Wire.shifted s)).map Wire.bare = ws.map Wire.bare := by
  simp [Wire.bare_shifted]

theorem columnsOf_map_shifted (ws : List (Wire K)) : columnsOf (ws.map (Wire.shifted s)) = columnsOf ws := by
  rw [← columnsOf_map_bare, map_bare_shifted, columnsOf_map_bare]

end Gates

/-! ### Cells -/

section Cells

variable [Coordinate K] (s : Offset) (w : Wire K) (column : Nat)

theorem Wire.rescan_shifted : (w.shifted s).rescan none = (w.rescan none).shifted s := by
  have hfirst : firstMeasurement (w.shifted s).cells none = firstMeasurement w.cells none := by
    simp only [firstMeasurement_none, Wire.shifted, List.findIdx?_map, Function.comp_def, Gate.shifted,
      GateKind.isMeasurement_shifted]
  unfold Wire.rescan
  rw [hfirst]
  rfl

theorem Wire.place_shifted (g : Gate) (overwrite : Bool) (next : Nat) :
    (w.shifted s).place (g.shifted s) column overwrite (next + s.gates) =
      ((w.place g column overwrite next).1.shifted s, (w.place g column overwrite next).2 + s.gates) := by
  have hlength : (w.shifted s).cells.length = w.cells.length := List.length_map _
  have hpadding : (List.range (column - w.cells.length)).map
      (fun i => (Gate.inertia (next + s.gates + i)).ownedBy (w.shifted s).id) =
      ((List.range (column - w.cells.length)).map fun i => (Gate.inertia (next + i)).ownedBy w.id).map
        (Gate.shifted s) := by
    rw [List.map_map]
    refine List.map_congr_left fun i _ => ?_
    rw [Nat.add_right_comm, Gate.inertia_shifted]
    rfl
  unfold Wire.place
  dsimp only
  rw [hlength]
  split
  · rw [← Wire.rescan_shifted]
    simp [Wire.shifted, List.map_set, Gate.ownedBy_shifted]
  · rw [hpadding, ← Wire.rescan_shifted]
    simp [Wire.shifted, List.map_insertIdx, Gate.ownedBy_shifted, Nat.add_right_comm]

theorem Wire.dropInertia_shifted : (w.shifted s).dropInertia column = (w.dropInertia column).shifted s := by
  have hcell : ((w.shifted s).cells[column]?).any Gate.isInertia = (w.cells[column]?).any Gate.isInertia := by
    simp [Wire.shifted, Option.any_map]
  unfold Wire.dropInertia
  rw [hcell, apply_ite (Wire.shifted s), ← Wire.rescan_shifted]
  simp [Wire.shifted, List.eraseIdx_map]

theorem openColumn_shifted (squeeze : Bool) (ws : List (Wire K)) (next : Nat) :
    openColumn squeeze column (ws.map (Wire.shifted s)) (next + s.gates) =
      ((openColumn squeeze column ws next).1.map (Wire.shifted s),
        (openColumn squeeze column ws next).2 + s.gates) := by
  induction ws generalizing next with
  | nil => rfl
  | cons w ws ih =>
    have hlength : (w.shifted s).cells.length = w.cells.length := List.length_map _
    have hplace := Wire.place_shifted s w column (.inertia next) false (next + 1)
    rw [← Gate.inertia_shifted, Nat.add_right_comm] at hplace
    simp only [List.map_cons, openColumn, hlength, hplace, ih]
    split <;> rfl

omit [Coordinate K] in
theorem isIdleColumn_shifted (ws : List (Wire K)) :
    isIdleColumn (ws.map (Wire.shifted s)) column = isIdleColumn ws column := by
  rw [← isIdleColumn_map_recast GateKind.faithful_plain, ← isIdleColumn_map_recast GateKind.faithful_plain ws]
  exact congrArg (isIdleColumn · column) (map_bare_shifted s ws)

theorem dropIdleColumns_shifted (count : Nat) (ws : List (Wire K)) :
    dropIdleColumns count column (ws.map (Wire.shifted s)) =
      (dropIdleColumns count column ws).map (Wire.shifted s) := by
  induction count generalizing column ws with
  | zero => rfl
  | succ count ih =>
    rw [dropIdleColumns, dropIdleColumns, isIdleColumn_shifted]
    split
    · rw [← ih, List.map_map, List.map_map]
      simp only [Function.comp_def, Wire.dropInertia_shifted]
    · exact ih _ _

end Cells

/-! ### Circuits -/

/-- The wires are the same but for their numbers, and so is what comes next. -/
structure Circuit.Renumbered (s : Offset) (c d : Circuit K) : Prop where
  wires : d.wires = c.wires.map (Wire.shifted s)
  nextGate : d.nextGate = c.nextGate + s.gates
  nextWire : d.nextWire = c.nextWire + s.wires

namespace Circuit.Renumbered

variable [Coordinate K] {s : Offset} {c d : Circuit K} (h : Renumbered s c d)

include h

omit [Coordinate K] in
theorem columns : d.columns = c.columns := by
  rw [Circuit.columns, h.wires, columnsOf_map_shifted, Circuit.columns]

omit [Coordinate K] in
theorem length : d.wires.length = c.wires.length := by
  rw [h.wires, List.length_map]

theorem freshWire : d.freshWire.1 = c.freshWire.1.shifted s ∧ Renumbered s c.freshWire.2 d.freshWire.2 := by
  have hcolumns : Circuit.columns { d with nextWire := d.nextWire + 1 } =
      Circuit.columns { c with nextWire := c.nextWire + 1 } := h.columns
  have hwire : ({ id := ⟨d.nextWire⟩ } : Wire K) = Wire.shifted s { id := ⟨c.nextWire⟩ } := by
    rw [h.nextWire]
    rfl
  have hnext : d.nextWire + 1 = c.nextWire + 1 + s.wires := by
    rw [h.nextWire, Nat.add_right_comm]
  unfold Circuit.freshWire
  dsimp only
  rw [hcolumns, hwire]
  split
  · exact ⟨rfl, h.wires, h.nextGate, hnext⟩
  · rename_i last _
    have hplace := Wire.place_shifted s ({ id := ⟨c.nextWire⟩ } : Wire K) last (.inertia c.nextGate) false
      (c.nextGate + 1)
    rw [← Gate.inertia_shifted, Nat.add_right_comm, ← h.nextGate] at hplace
    rw [hplace]
    exact ⟨rfl, h.wires, rfl, hnext⟩

theorem addWire : Renumbered s c.addWire d.addWire := by
  obtain ⟨hwire, hfresh⟩ := h.freshWire
  refine ⟨?_, hfresh.nextGate, hfresh.nextWire⟩
  rw [addWire_wires, addWire_wires, hwire, h.wires, List.map_append, List.map_singleton]

theorem addWires (count : Nat) : Renumbered s (c.addWires count) (d.addWires count) := by
  induction count generalizing c d with
  | zero => exact h
  | succ count ih => exact ih h.addWire

omit [Coordinate K] in
theorem newGate {kind : GateKind} (hkind : ∀ parent, kind ≠ .support parent) :
    (d.newGate kind).1 = (c.newGate kind).1.shifted s ∧ Renumbered s (c.newGate kind).2 (d.newGate kind).2 := by
  refine ⟨?_, h.wires, ?_, h.nextWire⟩
  · simp only [Circuit.newGate, Gate.shifted, GateKind.shifted_of_ne _ hkind, h.nextGate]
    rfl
  · simp only [Circuit.newGate, h.nextGate, Nat.add_right_comm]

omit [Coordinate K] in
/-- The support of a gate is shifted with it. -/
theorem newSupport (parent : GateId) :
    (d.newGate (.support ⟨parent.index + s.gates⟩)).1 = (c.newGate (.support parent)).1.shifted s ∧
      Renumbered s (c.newGate (.support parent)).2 (d.newGate (.support ⟨parent.index + s.gates⟩)).2 := by
  refine ⟨?_, h.wires, ?_, h.nextWire⟩
  · simp only [Circuit.newGate, Gate.shifted, h.nextGate]
    rfl
  · simp only [Circuit.newGate, h.nextGate, Nat.add_right_comm]

theorem putCell (g : Gate) (row column : Nat) (squeeze : Bool) :
    Renumbered s (c.putCell g row column squeeze) (d.putCell (g.shifted s) row column squeeze) := by
  have hopen := openColumn_shifted s column squeeze c.wires c.nextGate
  rw [← h.wires, ← h.nextGate] at hopen
  have hcell : ∀ w : Wire K, ((w.shifted s).cells[column]?).any Gate.isInertia =
      (w.cells[column]?).any Gate.isInertia :=
    fun w => by simp [Wire.shifted, Option.any_map]
  rw [putCell_eq, putCell_eq, hopen]
  refine ⟨?_, ?_, h.nextWire⟩
  · refine List.ext_getElem? fun r => ?_
    simp only [List.getElem?_map, List.getElem?_modify]
    cases (openColumn squeeze column c.wires c.nextGate).1[r]? with
    | none => rfl
    | some w =>
      simp only [Option.map_some, Option.map_eq_map, hcell, Wire.place_shifted]
      split <;> rfl
  · dsimp only
    rw [List.getElem?_map]
    cases (openColumn squeeze column c.wires c.nextGate).1[row]? with
    | none => rfl
    | some w => simp only [Option.map_some, hcell, Wire.place_shifted]

theorem putSupports (parent : GateId) (column row count : Nat) :
    Renumbered s (c.putSupports parent column row count) (d.putSupports ⟨parent.index + s.gates⟩ column row count) := by
  induction count generalizing c d row with
  | zero => exact h
  | succ count ih =>
    have hwires := h.addWires (row + 1 - c.wires.length)
    obtain ⟨hsupport, hnext⟩ := hwires.newSupport parent
    have hput := hnext.putCell (c.addWires (row + 1 - c.wires.length) |>.newGate (.support parent)).1 row column false
    rw [← hsupport] at hput
    have hrest := ih hput (row + 1)
    unfold Circuit.putSupports
    rw [h.length]
    exact hrest

theorem attachAt (g : Gate) (row column : Nat) :
    Renumbered s (c.attachAt g row column) (d.attachAt (g.shifted s) row column) := by
  have hspan : (g.shifted s).span = g.span := GateKind.span_shifted ..
  unfold Circuit.attachAt
  rw [h.length, h.columns]
  split
  · unfold put
    rw [hspan]
    exact (h.putCell g row _ false).putSupports g.id _ (row + 1) (g.span - 1)
  · exact h

theorem placeRow (row column : Nat) {kinds : List (Option GateKind)}
    (hkinds : ∀ kind, some kind ∈ kinds → ∀ parent, kind ≠ .support parent) :
    Renumbered s (c.placeRow row column kinds) (d.placeRow row column kinds) := by
  induction kinds generalizing c d column with
  | nil => exact h
  | cons cell kinds ih =>
    have hkinds' : ∀ kind, some kind ∈ kinds → ∀ parent, kind ≠ .support parent :=
      fun kind hkind => hkinds kind (List.mem_cons_of_mem cell hkind)
    cases cell with
    | none => exact ih h _ hkinds'
    | some kind =>
      obtain ⟨hgate, hnext⟩ := h.newGate (hkinds kind List.mem_cons_self)
      have hattach := hnext.attachAt (c.newGate kind).1 row column
      rw [← hgate] at hattach
      exact ih hattach _ hkinds'

theorem placeRows (preserved : Parts) (row : Nat) {rows : List (WireRecord × List (Option GateKind))}
    (hkinds : ∀ r ∈ rows, ∀ kind, some kind ∈ r.2 → ∀ parent, kind ≠ .support parent) :
    Renumbered s (Circuit.placeRows preserved c row rows) (Circuit.placeRows preserved d row rows) := by
  induction rows generalizing c d row with
  | nil => exact h
  | cons r rows ih =>
    obtain ⟨r, kinds⟩ := r
    have hmodify : Renumbered s (c.modifyWire row fun w => w.dressed r preserved)
        (d.modifyWire row fun w => w.dressed r preserved) := by
      refine ⟨?_, h.nextGate, h.nextWire⟩
      refine List.ext_getElem? fun i => ?_
      simp only [modifyWire, h.wires, List.getElem?_map, List.getElem?_modify]
      cases c.wires[i]? with
      | none => rfl
      | some w =>
        simp only [Option.map_some, Option.map_eq_map]
        split <;> rfl
    have hplaced := hmodify.placeRow row 0 (hkinds _ List.mem_cons_self)
    exact ih hplaced _ fun r hr => hkinds r (List.mem_cons_of_mem _ hr)

omit [Coordinate K] in
theorem popIdleWires (count : Nat) : Renumbered s (c.popIdleWires count) (d.popIdleWires count) := by
  induction count generalizing c d with
  | zero => exact h
  | succ count ih =>
    have hlast : (d.wires.getLast?).any Wire.isIdle = (c.wires.getLast?).any Wire.isIdle := by
      refine getLast?_any_isIdle_congr ?_
      rw [h.wires, map_bare_shifted]
    have hpop : Renumbered s c.popWire.2 d.popWire.2 := by
      refine ⟨?_, h.nextGate, h.nextWire⟩
      simp only [popWire, updateWidgets, h.wires, List.map_dropLast]
    unfold Circuit.popIdleWires
    rw [hlast]
    split
    · exact ih hpop
    · exact h

/-- Wires are added up to the least number, or dropped down to it. -/
theorem resized (hs : d.settings = c.settings) :
    let grow := fun c : Circuit K => c.addWires (c.settings.minQubits - c.wires.length)
    Renumbered s ((grow c).popIdleWires ((grow c).wires.length - (grow c).settings.minQubits))
      ((grow d).popIdleWires ((grow d).wires.length - (grow d).settings.minQubits)) := by
  have hadd := h.addWires (c.settings.minQubits - c.wires.length)
  have hkept := fun (e : Circuit K) count => (e.kept_addWires count).settings
  dsimp only
  rw [hkept, hkept, hs, h.length, hadd.length]
  exact hadd.popIdleWires _

theorem minimize (hs : d.settings = c.settings) : Renumbered s c.minimize d.minimize := by
  have hdrop : Renumbered s { c with wires := dropIdleColumns c.columns 0 c.wires }
      { d with wires := dropIdleColumns d.columns 0 d.wires } := by
    refine ⟨?_, h.nextGate, h.nextWire⟩
    simp only [h.columns, h.wires, dropIdleColumns_shifted]
  exact hdrop.resized hs

/-- Drawing looks at bare wires. -/
theorem drawnWires : drawnWires d.wires = (CircuitDesigner.drawnWires c.wires).map (Wire.shifted s) := by
  have hbare : d.wires.map Wire.bare = c.wires.map Wire.bare := by rw [h.wires, map_bare_shifted]
  have hwire : ∀ w : Wire K, (w.shifted s).drawn d.wires = (w.drawn c.wires).shifted s := by
    intro w
    simp only [Wire.drawn, controlled_recast GateKind.faithful_plain hbare,
      swapCount_recast GateKind.faithful_plain hbare, Wire.shifted]
    congr 1
    refine List.ext_getElem? fun k => ?_
    simp only [List.getElem?_map, List.getElem?_mapIdx]
    cases w.cells[k]? with
    | none => rfl
    | some g => simp only [Option.map_some, Gate.dressed_shifted, Gate.judged_shifted]; rfl
  rw [CircuitDesigner.drawnWires, CircuitDesigner.drawnWires, List.map_map]
  conv_lhs => rhs; rw [h.wires]
  rw [List.map_map]
  exact List.map_congr_left fun w _ => hwire w

theorem redraw (hs : d.settings = c.settings) : Renumbered s c.redraw d.redraw := by
  rw [redraw_eq, redraw_eq]
  refine ⟨?_, h.nextGate, h.nextWire⟩
  dsimp only
  rw [h.drawnWires, hs, h.length, List.map_zipWith, List.zipWith_map_left]
  rfl

theorem refresh (hs : d.settings = c.settings) : Renumbered s c.refresh d.refresh := by
  have hsettings := fun e : Circuit K => e.kept_minimize.settings
  rw [refresh_eq, refresh_eq]
  exact (h.minimize hs).redraw (by rw [hsettings, hsettings, hs])

end Circuit.Renumbered

/-! ### Loading -/

section Loading

variable [Coordinate K] {c d : Circuit K} {t : Template}

/-- The template says everything that a circuit is made of. -/
structure Template.Whole (t : Template) : Prop where
  endianness : ∃ e, t.endianness = some e
  minQubits : ∃ n, 0 < n ∧ t.minQubits = some n
  shots : ∃ n, 0 < n ∧ t.shots = some n
  undos : ∃ states, t.undos = some states
  redos : ∃ states, t.redos = some states

theorem Template.Whole.dressed (h : t.Whole) (s s' : Settings) : s.dressed t .none = s'.dressed t .none := by
  obtain ⟨⟨e, he⟩, ⟨n, hn, hqubits⟩, ⟨m, hm, hshots⟩, -, -⟩ := h
  simp [Settings.dressed, Parts.none, he, hqubits, hshots, Option.filter, hn, hm]

/-- A template puts no support down but below its gate. -/
theorem not_support_of_resolve {catalog : Catalog} {rows : List (List (Option GateKind))}
    (h : t.resolve catalog = .ok rows) {kinds : List (Option GateKind)} {kind : GateKind} (hkinds : kinds ∈ rows)
    (hkind : some kind ∈ kinds) (parent : GateId) : kind ≠ .support parent := by
  obtain ⟨r, hr⟩ := List.getElem?_of_mem hkinds
  obtain ⟨k, hk⟩ := List.getElem?_of_mem hkind
  have hcell : cellAt rows r k = some (some kind) := by rw [cellAt, hr, Option.bind_some, hk]
  obtain ⟨stamp, -, hstamp⟩ := (cellAt_eq_gate_iff h).mp hcell
  rintro rfl
  exact GateKind.not_known_support catalog parent (GateKind.known_of_ofStamp hstamp)

/-- The circuit that a template makes of one, before the refresh. -/
def Circuit.rebuilt (c : Circuit K) (t : Template) (rows : List (List (Option GateKind))) : Circuit K :=
  (placeRows .none (c.stripped.addWires t.wires.length) 0 (t.wires.zip rows)).completed t .none

/-- The circuit with all numbers still to give away. -/
def Circuit.unnumbered (c : Circuit K) : Circuit K := { c with nextGate := 0, nextWire := 0 }

variable {catalog : Catalog} {rows : List (List (Option GateKind))}

/-- Whatever circuit it is that a template replaces, the wires are those that it makes of one without numbers. -/
theorem shifted_rebuilt (hrows : t.resolve catalog = .ok rows) (c d : Circuit K) :
    Renumbered ⟨d.nextGate, d.nextWire⟩ (c.unnumbered.rebuilt t rows) (d.rebuilt t rows) := by
  have hstart : Renumbered ⟨d.nextGate, d.nextWire⟩ c.unnumbered.stripped d.stripped :=
    ⟨rfl, (Nat.zero_add _).symm, (Nat.zero_add _).symm⟩
  have hkinds : ∀ r ∈ t.wires.zip rows, ∀ kind, some kind ∈ r.2 → ∀ parent, kind ≠ .support parent :=
    fun r hr _ hkind => not_support_of_resolve hrows (List.of_mem_zip hr).2 hkind
  have hplaced := (hstart.addWires t.wires.length).placeRows .none 0 hkinds
  exact ⟨hplaced.wires, hplaced.nextGate, hplaced.nextWire⟩

/-- Settings and history are those of the template. -/
theorem rest_rebuilt (h : t.Whole) (rows : List (List (Option GateKind))) (c d : Circuit K) :
    (d.rebuilt t rows).settings = (c.rebuilt t rows).settings ∧
    (d.rebuilt t rows).undos = (c.rebuilt t rows).undos ∧ (d.rebuilt t rows).redos = (c.rebuilt t rows).redos := by
  obtain ⟨undos, hundos⟩ := h.undos
  obtain ⟨redos, hredos⟩ := h.redos
  refine ⟨h.dressed _ _, ?_, ?_⟩
  · simp [rebuilt, completed, Parts.none, hundos]
  · simp [rebuilt, completed, Parts.none, hredos]

/-- What is loaded from a template that says everything is alike on any two circuits with the same custom gates, and its
numbers lie apart as those of the two circuits do. -/
theorem restore_independent (hcatalog : d.catalog = c.catalog) (hvalid : t.validate c.catalog = .ok ())
    (hwhole : t.Whole) :
    ∃ c' d', c.restore t .none = .ok c' ∧ d.restore t .none = .ok d' ∧ c'.capture .all = d'.capture .all ∧
      c'.connectors = d'.connectors ∧ c'.borders = d'.borders ∧ c'.registers = d'.registers ∧
      c'.wires.map (fun w => w.cells.map fun g => (g.fault, g.textured)) =
        d'.wires.map (fun w => w.cells.map fun g => (g.fault, g.textured)) ∧
      c'.wires.map Wire.pivot = d'.wires.map Wire.pivot ∧
      c'.wires.map Wire.placeholder = d'.wires.map Wire.placeholder ∧
      c'.extent = d'.extent ∧ c'.toolbar = d'.toolbar ∧ c'.widgets = d'.widgets ∧
      ∃ ws : List (Wire K), c'.wires = ws.map (Wire.shifted ⟨c.nextGate, c.nextWire⟩) ∧
        d'.wires = ws.map (Wire.shifted ⟨d.nextGate, d.nextWire⟩) := by
  obtain ⟨rows, hrows, -⟩ := exists_of_map hvalid
  have hc := restore_eq hrows .none
  have hd := restore_eq (hcatalog ▸ hrows : t.resolve d.catalog = .ok rows) .none
  obtain ⟨hwires, -, -⟩ := (shifted_rebuilt hrows c c).refresh (rest_rebuilt hwhole _ _ _).1
  obtain ⟨hwires', -, -⟩ := (shifted_rebuilt hrows c d).refresh (rest_rebuilt hwhole _ _ _).1
  obtain ⟨hs, hu, hr⟩ := rest_rebuilt hwhole rows d c
  have hrest := rest_refresh (c.rebuilt t rows)
  have hrest' := rest_refresh (d.rebuilt t rows)
  rw [← hrest.settings, ← hrest'.settings] at hs
  rw [← hrest.undos, ← hrest'.undos] at hu
  rw [← hrest.redos, ← hrest'.redos] at hr
  generalize (c.unnumbered.rebuilt t rows).refresh.wires = ws at hwires hwires'
  -- What does not look at numbers is the same on both.
  have hmap : ∀ {α : Type} {f : Wire K → α}, (∀ s w, f (w.shifted s) = f w) →
      (c.rebuilt t rows).refresh.wires.map f = (d.rebuilt t rows).refresh.wires.map f := by
    intro α f hf
    simp only [hwires, hwires', List.map_map, Function.comp_def, hf]
  have hbare := hmap Wire.bare_shifted
  have halike := (drawn_refresh (c.rebuilt t rows)).alike (drawn_refresh (d.rebuilt t rows)) hbare hs
    (congrArg List.length hu) (congrArg List.length hr)
  refine ⟨_, _, hc, hd, capture_congr hbare hs fun _ => ⟨hu, hr⟩, halike.connectors, halike.borders, halike.registers,
    hmap fun s w => ?_, hmap fun _ _ => rfl, hmap fun _ _ => rfl, halike.extent, halike.toolbar, halike.widgets, ws,
    hwires, hwires'⟩
  simp [Wire.shifted, Gate.shifted]

end Loading

/-- A template that says everything, with a gate that another one covers. -/
def overlappingTemplate : Template where
  wires := [{ stamps := ["cg1", "h"], name := some "a" }, { stamps := ["h", "measurement", "swap"] }]
  endianness := some .big
  minQubits := some 3
  shots := some 5
  undos := some []
  redos := some [raggedTemplate]

theorem restore_independent_overlapping : pairCircuit.catalog = tripleStart.catalog ∧
    overlappingTemplate.validate tripleStart.catalog = .ok () ∧ overlappingTemplate.Whole ∧
    ∃ c' d', tripleStart.restore overlappingTemplate .none = .ok c' ∧
      pairCircuit.restore overlappingTemplate .none = .ok d' ∧
      c'.capture .all = d'.capture .all ∧ c'.connectors = d'.connectors ∧ c'.toolbar = d'.toolbar ∧
      c'.widgets = d'.widgets := by
  have hcatalog : pairCircuit.catalog = tripleStart.catalog := by decide +kernel
  have hwhole : overlappingTemplate.Whole :=
    ⟨⟨_, rfl⟩, ⟨3, by decide, rfl⟩, ⟨5, by decide, rfl⟩, ⟨_, rfl⟩, ⟨_, rfl⟩⟩
  obtain ⟨c', d', hc, hd, hcapture, hconnectors, -, -, -, -, -, -, htoolbar, hwidgets, -⟩ :=
    restore_independent hcatalog rfl hwhole
  exact ⟨hcatalog, rfl, hwhole, c', d', hc, hd, hcapture, hconnectors, htoolbar, hwidgets⟩

end CircuitDesigner
