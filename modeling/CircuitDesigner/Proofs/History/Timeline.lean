import CircuitDesigner.Proofs.Restore.Recorded

/-! The timeline of a circuit.

    The states to go back to, the current one and those to return to make one line. Undo and redo move along it and
    change none of its states, in whatever order they come (`timeline_loads`). -/

namespace CircuitDesigner

open Circuit

/-- The two ways along the timeline. -/
inductive Direction where
  | previous
  | next
  deriving DecidableEq, Repr

/-- The place on the timeline after one step. -/
def Direction.moved : Direction → Nat → Nat
  | previous, n => n - 1
  | next, n => n + 1

variable {K : Type}

namespace Circuit

/-- The states of a direction, the next one at the end. -/
def stack (c : Circuit K) : Direction → List Template
  | .previous => c.undos
  | .next => c.redos

/-- All states in their order. -/
def timeline (c : Circuit K) : List Template := c.undos ++ c.current :: c.redos.reverse

variable [Coordinate K]

/-- Undo or redo. -/
def load (c : Circuit K) : Direction → Except CircuitError (Option (Circuit K))
  | .previous => c.undo
  | .next => c.redo

/-- One undo or redo after the other. One that finds no state leaves the circuit as it is. -/
def loads (c : Circuit K) : List Direction → Except CircuitError (Circuit K)
  | [] => .ok c
  | way :: ways => (c.load way).bind fun c' => (c'.getD c).loads ways

/-- The circuit with the current state moved from its place to the other stack. -/
def stepped (c : Circuit K) : Direction → Circuit K
  | .previous => { c with undos := c.undos.dropLast, redos := c.redos ++ [c.current] }
  | .next => { c with redos := c.redos.dropLast, undos := c.undos ++ [c.current] }

omit [Coordinate K] in
@[simp]
theorem stepped_catalog (c : Circuit K) (way : Direction) : (c.stepped way).catalog = c.catalog := by
  cases way <;> rfl

/-- A settled circuit whose history holds settled states only. -/
structure Walkable (c : Circuit K) : Prop where
  settled : c.Settled c.catalog
  states : ∀ way, ∀ t ∈ c.stack way, Snapshot K c.catalog t

end Circuit

variable [Coordinate K] {c d : Circuit K} {way : Direction} {t : Template} {ts : List Template}

/-! ### One step -/

theorem load_nil (h : c.stack way = []) : c.load way = .ok none := by
  cases way with
  | previous =>
    have h : c.undos = [] := h
    show c.undo = _
    unfold undo
    rw [h]
    rfl
  | next =>
    have h : c.redos = [] := h
    show c.redo = _
    unfold redo
    rw [h]
    rfl

theorem load_concat (h : c.stack way = ts ++ [t]) : c.load way = ((c.stepped way).restore t .none).map some := by
  cases way with
  | previous =>
    have h : c.undos = ts ++ [t] := h
    show c.undo = _
    unfold undo
    rw [h, List.getLast?_concat, ← h]
    rfl
  | next =>
    have h : c.redos = ts ++ [t] := h
    show c.redo = _
    unfold redo
    rw [h, List.getLast?_concat, ← h]
    rfl

/-- What a step loads is restored from a state of the history. -/
theorem restored_of_load (h : c.load way = .ok (some d)) : ∃ t, (c.stepped way).Restored t .none d := by
  by_cases hne : c.stack way = []
  · rw [load_nil hne] at h
    cases h
  · rw [load_concat (List.dropLast_append_getLast hne).symm] at h
    obtain ⟨e, he, heq⟩ := exists_of_map h
    obtain rfl := Option.some.inj heq
    exact ⟨_, restored_of_restore he⟩

omit [Coordinate K] in
theorem mem_stack_stepped {way' : Direction} (ht : t ∈ (c.stepped way).stack way') :
    (∃ way, t ∈ c.stack way) ∨ t = c.current := by
  have hpush : ∀ way, t ∈ c.stack way ++ [c.current] → (∃ way, t ∈ c.stack way) ∨ t = c.current := fun way ht =>
    (List.mem_append.mp ht).imp (fun ht => ⟨way, ht⟩) List.mem_singleton.mp
  cases way <;> cases way'
  · exact .inl ⟨.previous, List.dropLast_subset _ ht⟩
  · exact hpush .next ht
  · exact hpush .previous ht
  · exact .inl ⟨.next, List.dropLast_subset _ ht⟩

omit [Coordinate K] in
theorem stack_congr (hundos : d.undos = c.undos) (hredos : d.redos = c.redos) : d.stack = c.stack := by
  funext way
  cases way with
  | previous => exact hundos
  | next => exact hredos

/-- A step goes to the state at the end of a stack and puts the current one on the other stack. -/
theorem exists_load (h : c.Walkable) (hstack : c.stack way = ts ++ [t]) :
    ∃ e, c.load way = .ok (some e) ∧ e.Walkable ∧ e.current = t ∧ e.undos = (c.stepped way).undos ∧
      e.redos = (c.stepped way).redos := by
  have ht : Snapshot K (c.stepped way).catalog t := by
    rw [stepped_catalog]
    exact h.states way t (hstack ▸ List.mem_append_right ts (List.mem_singleton_self t))
  obtain ⟨e, he, hsettled, hcurrent, hcatalog', hundos, hredos⟩ := ht.exists_restore
  refine ⟨e, ?_, ⟨hcatalog' ▸ hsettled, fun way' s hs => ?_⟩, hcurrent, hundos, hredos⟩
  · rw [load_concat hstack, he]
    rfl
  · rw [hcatalog', stepped_catalog]
    rw [stack_congr hundos hredos] at hs
    rcases mem_stack_stepped hs with ⟨way, hs⟩ | rfl
    · exact h.states way s hs
    · exact h.settled.snapshot

/-- The state saved last comes back. -/
theorem exists_load_previous (hundos : c.undos = ts ++ [t]) (ht : Snapshot K c.catalog t) :
    ∃ e, c.load .previous = .ok (some e) ∧ e.current = t := by
  have hstack : c.stack .previous = ts ++ [t] := hundos
  rw [← stepped_catalog c .previous] at ht
  obtain ⟨e, he, -, hcurrent, -⟩ := ht.exists_restore
  refine ⟨e, ?_, hcurrent⟩
  rw [load_concat hstack, he]
  rfl

/-- A step that finds a state keeps the timeline and moves one place along it. -/
theorem timeline_load (h : c.Walkable) (hne : c.stack way ≠ []) :
    ∃ e, c.load way = .ok (some e) ∧ e.Walkable ∧ e.timeline = c.timeline ∧
      e.undos.length = way.moved c.undos.length := by
  have hstack := (List.dropLast_append_getLast hne).symm
  obtain ⟨e, he, hwalk, hcurrent, hundos, hredos⟩ := exists_load h hstack
  refine ⟨e, he, hwalk, ?_⟩
  unfold timeline
  rw [hundos, hredos, hcurrent]
  cases way with
  | previous =>
    have hstack : c.undos = c.undos.dropLast ++ [c.undos.getLast hne] := hstack
    refine ⟨?_, List.length_dropLast⟩
    conv_rhs => rw [hstack]
    simp [stepped, stack]
  | next =>
    have hstack : c.redos = c.redos.dropLast ++ [c.redos.getLast hne] := hstack
    refine ⟨?_, List.length_append⟩
    conv_rhs => rw [hstack, List.reverse_append]
    simp [stepped, stack]

/-! ### Runs -/

omit [Coordinate K] in
/-- The place on the timeline says which states lie on which side. -/
theorem eq_of_timeline (h : d.timeline = c.timeline) (hlength : d.undos.length = c.undos.length) :
    d.current = c.current ∧ d.undos = c.undos ∧ d.redos = c.redos := by
  obtain ⟨hundos, hrest⟩ := List.append_inj h hlength
  obtain ⟨hcurrent, hredos⟩ := List.cons.inj hrest
  exact ⟨hcurrent, hundos, List.reverse_injective hredos⟩

omit [Coordinate K] in
theorem length_timeline (c : Circuit K) : c.timeline.length = c.undos.length + c.redos.length + 1 := by
  unfold timeline
  rw [List.length_append, List.length_cons, List.length_reverse, Nat.add_assoc]

theorem loads_append (c : Circuit K) (as bs : List Direction) :
    c.loads (as ++ bs) = (c.loads as).bind fun d => d.loads bs := by
  induction as generalizing c with
  | nil => rfl
  | cons way as ih =>
    rw [List.cons_append, loads, loads]
    cases c.load way with
    | error e => rfl
    | ok c' => exact ih _

/-- A run succeeds and keeps the timeline. -/
theorem exists_loads (h : c.Walkable) (ways : List Direction) :
    ∃ d, c.loads ways = .ok d ∧ d.Walkable ∧ d.timeline = c.timeline := by
  induction ways generalizing c with
  | nil => exact ⟨c, rfl, h, rfl⟩
  | cons way ways ih =>
    rw [loads]
    by_cases hne : c.stack way = []
    · rw [load_nil hne]
      exact ih h
    · obtain ⟨e, he, hwalk, htime, -⟩ := timeline_load h hne
      obtain ⟨d, hd, hwalk', htime'⟩ := ih hwalk
      rw [he]
      exact ⟨d, hd, hwalk', htime'.trans htime⟩

/-- `k` steps back go back `k` places, as far as there are so many. -/
theorem loads_previous (h : c.Walkable) (k : Nat) :
    ∃ d, c.loads (List.replicate k .previous) = .ok d ∧ d.Walkable ∧ d.timeline = c.timeline ∧
      d.undos.length = c.undos.length - k := by
  induction k generalizing c with
  | zero => exact ⟨c, rfl, h, rfl, rfl⟩
  | succ k ih =>
    rw [List.replicate_succ, loads]
    by_cases hne : c.stack .previous = []
    · obtain ⟨d, hd, hwalk, htime, hlength⟩ := ih h
      have hnil : c.undos = [] := hne
      rw [load_nil hne]
      refine ⟨d, hd, hwalk, htime, ?_⟩
      rw [hlength, hnil]
      simp
    · obtain ⟨e, he, hwalk, htime, hlength⟩ := timeline_load h hne
      obtain ⟨d, hd, hwalk', htime', hlength'⟩ := ih hwalk
      rw [he]
      refine ⟨d, hd, hwalk', htime'.trans htime, ?_⟩
      rw [hlength', hlength]
      show c.undos.length - 1 - k = _
      omega

theorem loads_next (h : c.Walkable) {k : Nat} (hk : k ≤ c.redos.length) :
    ∃ d, c.loads (List.replicate k .next) = .ok d ∧ d.timeline = c.timeline ∧
      d.undos.length = c.undos.length + k := by
  induction k generalizing c with
  | zero => exact ⟨c, rfl, rfl, rfl⟩
  | succ k ih =>
    rw [List.replicate_succ, loads]
    have hne : c.stack .next ≠ [] := List.ne_nil_of_length_pos (by show 0 < c.redos.length; omega)
    obtain ⟨e, he, hwalk, htime, hlength⟩ := timeline_load h hne
    have hlength : e.undos.length = c.undos.length + 1 := hlength
    have htotal := congrArg List.length htime
    rw [length_timeline, length_timeline] at htotal
    obtain ⟨d, hd, htime', hlength'⟩ := ih hwalk (by omega)
    rw [he]
    exact ⟨d, hd, htime'.trans htime, by omega⟩

/-- Undo and redo are a walk along the timeline. After any of them, a step that finds a state moves one place, and one
    that finds none changes nothing. As many redos as states were undone lead back to the same place. -/
theorem timeline_loads (hc : c.Settled c.catalog) (hundos : ∀ t ∈ c.undos, Snapshot K c.catalog t)
    (hredos : ∀ t ∈ c.redos, Snapshot K c.catalog t) :
    (∀ ways, ∃ d, c.loads ways = .ok d ∧ d.timeline = c.timeline ∧ ∀ way,
      (d.stack way = [] → d.load way = .ok none) ∧
      (d.stack way ≠ [] → ∃ e, d.load way = .ok (some e) ∧ e.timeline = d.timeline ∧
        e.undos.length = way.moved d.undos.length)) ∧
    ∀ k, ∃ d, c.loads (List.replicate k .previous ++ List.replicate (min k c.undos.length) .next) = .ok d ∧
      d.current = c.current ∧ d.undos = c.undos ∧ d.redos = c.redos := by
  have h : c.Walkable := ⟨hc, fun way => by cases way <;> assumption⟩
  constructor
  · intro ways
    obtain ⟨d, hd, hwalk, htime⟩ := exists_loads h ways
    refine ⟨d, hd, htime, fun way => ⟨load_nil, fun hne => ?_⟩⟩
    obtain ⟨e, he, -, htime', hlength⟩ := timeline_load hwalk hne
    exact ⟨e, he, htime', hlength⟩
  · intro k
    obtain ⟨d, hd, hwalk, htime, hlength⟩ := loads_previous h k
    have htotal := congrArg List.length htime
    rw [length_timeline, length_timeline] at htotal
    obtain ⟨e, he, htime', hlength'⟩ := loads_next hwalk (k := min k c.undos.length) (by omega)
    rw [loads_append, hd]
    exact ⟨e, he, eq_of_timeline (htime'.trans htime) (by omega)⟩

/-- A circuit between two states of its history. -/
def pairWalk : Circuit Rat :=
  { pairDraft with undos := [tripleStart.refresh.current], redos := [pairCircuit.current] }.refresh

theorem timeline_loads_pair :
    (∃ d, pairWalk.loads [.previous, .next, .next] = .ok d ∧ d.timeline = pairWalk.timeline) ∧
    ∃ d, pairWalk.loads [.previous, .next] = .ok d ∧ d.current = pairWalk.current ∧ d.undos = pairWalk.undos ∧
      d.redos = pairWalk.redos := by
  have hdraft : Intact (GateKind.Known pairCatalog) []
      { pairDraft with undos := [tripleStart.refresh.current], redos := [pairCircuit.current] } :=
    intact_pairDraft.congr rfl rfl
  have hstart := intact_tripleStart.settled (by decide) (by decide)
  have hpair := intact_pairDraft.settled (by decide) (by decide)
  obtain ⟨hwalk, hback⟩ := timeline_loads (c := pairWalk) (hdraft.settled (by decide) (by decide))
    (fun t ht => List.mem_singleton.mp ht ▸ hstart.snapshot) fun t ht => List.mem_singleton.mp ht ▸ hpair.snapshot
  obtain ⟨d, hd, htime, -⟩ := hwalk [.previous, .next, .next]
  exact ⟨⟨d, hd, htime⟩, hback 1⟩

end CircuitDesigner
