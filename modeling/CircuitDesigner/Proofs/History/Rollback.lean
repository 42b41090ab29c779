import CircuitDesigner.Proofs.Bundle.Install
import CircuitDesigner.Proofs.History.Timeline

/-! Undo and redo that fail.

    When a state is restored it has left its stack, and the current one is on the other stack already. If the state
    has a stamp that means nothing, both stacks are put back by hand. The circuit is then what it was before, history
    and all (`load_rolled_back`). -/

namespace CircuitDesigner

open Circuit

/-! ### Templates that mean nothing -/

/-- A template is refused if and only if some stamp of it means nothing and is no support. -/
theorem Template.exists_resolve_eq_error_iff {t : Template} {catalog : Catalog} :
    (∃ e, t.resolve catalog = .error e) ↔ ∃ r ∈ t.wires, ∃ stamp ∈ r.stamps,
      Stamp.isSupport stamp = false ∧ ∃ e, GateKind.ofStamp catalog stamp = .error e := by
  constructor
  · rintro ⟨e, he⟩
    by_contra hnone
    have hvalid : t.validate catalog = .ok () := by
      refine validate_eq_ok_iff.mpr fun r hr stamp hstamp hsupport => ?_
      cases hkind : GateKind.ofStamp catalog stamp with
      | error e => exact absurd ⟨r, hr, stamp, hstamp, hsupport, e, hkind⟩ hnone
      | ok kind => exact ⟨kind, rfl⟩
    obtain ⟨rows, hrows, -⟩ := exists_of_map hvalid
    rw [he] at hrows
    cases hrows
  · rintro ⟨r, hr, stamp, hstamp, hsupport, e, he⟩
    cases hrows : t.resolve catalog with
    | error e => exact ⟨e, rfl⟩
    | ok rows =>
      have hvalid : t.validate catalog = .ok () := by
        unfold validate
        rw [hrows]
        rfl
      obtain ⟨kind, hkind⟩ := validate_eq_ok_iff.mp hvalid r hr stamp hstamp hsupport
      rw [he] at hkind
      cases hkind

/-! ### Stage by stage -/

/-- The other way along the timeline. -/
def Direction.back : Direction → Direction
  | previous => next
  | next => previous

variable {K : Type}

namespace Circuit

/-- The circuit without the state at the end of a stack. -/
def popState (c : Circuit K) : Direction → Circuit K
  | .previous => { c with undos := c.undos.dropLast }
  | .next => { c with redos := c.redos.dropLast }

/-- The circuit with one more state at the end of a stack. -/
def pushState (c : Circuit K) (t : Template) : Direction → Circuit K
  | .previous => { c with undos := c.undos ++ [t] }
  | .next => { c with redos := c.redos ++ [t] }

variable [Coordinate K]

/-- A template is restored stage by stage. All stamps are read before the first wire goes. -/
def restoreStaged (c : Circuit K) (t : Template) (preserved : Parts) : Except CircuitError Unit × Circuit K :=
  match t.resolve c.catalog with
  | .error e => (.error e, c)
  | .ok rows =>
    let placed := placeRows preserved (c.stripped.addWires t.wires.length) 0 (t.wires.zip rows)
    (.ok (), (placed.completed t preserved).refresh)

/-- Undo or redo stage by stage: whether a state was found, and the circuit that the last stage leaves. -/
def loadStaged (c : Circuit K) (way : Direction) : Except CircuitError Bool × Circuit K :=
  match (c.stack way).getLast? with
  | none => (.ok false, c)
  | some t =>
    let popped := c.popState way
    match (popped.pushState popped.current way.back).restoreStaged t .none with
    | (.ok (), d) => (.ok true, d)
    | (.error e, d) => (.error e, (d.popState way.back).pushState t way)

end Circuit

variable {c d : Circuit K} {way : Direction} {t : Template} {ts : List Template}

@[simp]
theorem popState_pushState (c : Circuit K) (t : Template) (way : Direction) : (c.pushState t way).popState way = c := by
  cases way <;> simp [popState, pushState]

theorem pushState_popState (h : c.stack way = ts ++ [t]) : (c.popState way).pushState t way = c := by
  have hstack : (c.stack way).dropLast ++ [t] = c.stack way := by rw [h, List.dropLast_concat]
  cases way with
  | previous => exact congrArg (fun undos => { c with undos }) hstack
  | next => exact congrArg (fun redos => { c with redos }) hstack

/-- What a step has moved before it restores a state. -/
theorem pushState_current (c : Circuit K) (way : Direction) :
    (c.popState way).pushState (c.popState way).current way.back = c.stepped way := by
  cases way <;> rfl

variable [Coordinate K]

/-! ### Outcomes -/

/-- Nothing is changed before the stamps are read. -/
theorem restoreStaged_of_error {e : CircuitError} (h : t.resolve c.catalog = .error e) (preserved : Parts) :
    c.restore t preserved = .error e ∧ c.restoreStaged t preserved = (.error e, c) := by
  unfold restore restoreStaged
  rw [h]
  exact ⟨rfl, rfl⟩

theorem restoreStaged_of_ok {rows : List (List (Option GateKind))} (h : t.resolve c.catalog = .ok rows)
    (preserved : Parts) : ∃ d, c.restore t preserved = .ok d ∧ c.restoreStaged t preserved = (.ok (), d) := by
  refine ⟨_, restore_eq h preserved, ?_⟩
  unfold restoreStaged
  rw [h]

/-- No state is found, or the one found is refused and the stacks are put back, or it is loaded. -/
theorem cases_of_load (c : Circuit K) (way : Direction) :
    (c.stack way = [] ∧ c.load way = .ok none ∧ c.loadStaged way = (.ok false, c)) ∨
    (∃ ts t e, c.stack way = ts ++ [t] ∧ t.resolve c.catalog = .error e ∧ c.load way = .error e ∧
      c.loadStaged way = (.error e, c)) ∨
    ∃ ts t rows d, c.stack way = ts ++ [t] ∧ t.resolve c.catalog = .ok rows ∧ c.load way = .ok (some d) ∧
      c.loadStaged way = (.ok true, d) := by
  rcases List.eq_nil_or_concat (c.stack way) with hstack | ⟨ts, t, hstack⟩
  · refine .inl ⟨hstack, load_nil hstack, ?_⟩
    unfold loadStaged
    rw [hstack]
    rfl
  · rw [List.concat_eq_append] at hstack
    have hlast : (c.stack way).getLast? = some t := by rw [hstack, List.getLast?_concat]
    rw [load_concat hstack]
    unfold loadStaged
    simp only [hlast, pushState_current]
    rw [← stepped_catalog c way]
    cases hrows : t.resolve (c.stepped way).catalog with
    | error e =>
      obtain ⟨hrestore, hstaged⟩ := restoreStaged_of_error hrows .none
      refine .inr (.inl ⟨ts, t, e, hstack, hrows, ?_, ?_⟩)
      · rw [hrestore]
        rfl
      · rw [hstaged]
        dsimp only
        rw [← pushState_current, popState_pushState, pushState_popState hstack]
    | ok rows =>
      obtain ⟨d, hrestore, hstaged⟩ := restoreStaged_of_ok hrows .none
      refine .inr (.inr ⟨ts, t, rows, d, hstack, hrows, ?_, ?_⟩)
      · rw [hrestore]
        rfl
      · rw [hstaged]

theorem exists_loadStaged_eq_error_iff : (∃ e, (c.loadStaged way).1 = .error e) ↔
    ∃ ts t, c.stack way = ts ++ [t] ∧ ∃ e, t.resolve c.catalog = .error e := by
  rcases cases_of_load c way with ⟨hstack, -, hstaged⟩ | ⟨ts, t, e, hstack, hrefused, -, hstaged⟩ |
    ⟨ts, t, rows, d, hstack, hrows, -, hstaged⟩
  · rw [hstaged, hstack]
    refine iff_of_false ?_ ?_
    · rintro ⟨e, he⟩
      cases he
    · rintro ⟨ts, t, hts, -⟩
      exact List.append_ne_nil_of_right_ne_nil ts (List.cons_ne_nil t []) hts.symm
  · rw [hstaged]
    exact iff_of_true ⟨e, rfl⟩ ⟨ts, t, hstack, e, hrefused⟩
  · rw [hstaged]
    refine iff_of_false ?_ ?_
    · rintro ⟨e, he⟩
      cases he
    · rintro ⟨ts', t', hts, e, he⟩
      obtain ⟨-, htop⟩ := List.append_inj' (hstack.symm.trans hts) rfl
      rw [← List.singleton_inj.mp htop, hrows] at he
      cases he

theorem load_of_loadStaged_error {e : CircuitError} (h : (c.loadStaged way).1 = .error e) :
    (c.loadStaged way).2 = c ∧ c.load way = .error e := by
  rcases cases_of_load c way with ⟨-, -, hstaged⟩ | ⟨ts, t, e', -, -, hload, hstaged⟩ |
    ⟨ts, t, rows, d, -, -, -, hstaged⟩
  · rw [hstaged] at h
    cases h
  · rw [hstaged] at h ⊢
    cases h
    exact ⟨rfl, hload⟩
  · rw [hstaged] at h
    cases h

theorem loadStaged_of_load {o : Option (Circuit K)} (h : c.load way = .ok o) :
    c.loadStaged way = (.ok o.isSome, o.getD c) := by
  rcases cases_of_load c way with ⟨-, hload, hstaged⟩ | ⟨ts, t, e, -, -, hload, hstaged⟩ |
    ⟨ts, t, rows, d, -, -, hload, hstaged⟩
  · obtain rfl := Except.ok.inj (hload.symm.trans h)
    exact hstaged
  · rw [hload] at h
    cases h
  · obtain rfl := Except.ok.inj (hload.symm.trans h)
    exact hstaged

/-- An undo or redo fails if and only if the state that it asks for has a stamp that means nothing and is no support.
    The circuit is then what it was, with both stacks. One that does not fail takes the same stages. -/
theorem load_rolled_back (c : Circuit K) (way : Direction) :
    ((∃ e, (c.loadStaged way).1 = .error e) ↔ ∃ ts t, c.stack way = ts ++ [t] ∧ ∃ r ∈ t.wires, ∃ stamp ∈ r.stamps,
      Stamp.isSupport stamp = false ∧ ∃ e, GateKind.ofStamp c.catalog stamp = .error e) ∧
    (∀ e, (c.loadStaged way).1 = .error e → (c.loadStaged way).2 = c ∧ c.load way = .error e) ∧
    ∀ o, c.load way = .ok o → c.loadStaged way = (.ok o.isSome, o.getD c) := by
  refine ⟨?_, fun e => load_of_loadStaged_error, fun o => loadStaged_of_load⟩
  simp only [← Template.exists_resolve_eq_error_iff]
  exact exists_loadStaged_eq_error_iff

/-- A circuit between a state with an unknown gate and one whose support has a stamp of no gate. -/
def strandedCircuit : Circuit Rat :=
  { pairCircuit with
    undos := [tripleStart.current, { wires := [{ stamps := ["cg1", "h"] }, { stamps := ["supp", "cg2"] }] }]
    redos := [{ wires := [{ stamps := ["cg1"] }, { stamps := ["support of cg1"] }] }] }

theorem load_rolled_back_stranded :
    (strandedCircuit.loadStaged .previous).1 = .error (.unknownGate "cg2") ∧
      (strandedCircuit.loadStaged .previous).2 = strandedCircuit ∧
      (strandedCircuit.loadStaged .next).1 = .ok true := by
  have hfails : (strandedCircuit.loadStaged .previous).1 = .error (.unknownGate "cg2") := rfl
  obtain ⟨-, hback, -⟩ := load_rolled_back strandedCircuit .previous
  exact ⟨hfails, (hback _ hfails).1, rfl⟩

end CircuitDesigner
