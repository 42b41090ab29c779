import CircuitDesigner.Proofs.History.Rollback
import CircuitDesigner.Proofs.Workspace.Run

/-! The history of a new tab.

    A template may record both stacks of a history, one of them or none, and the circuit still has the history of the
    tab before when the template is loaded. A stack that is recorded takes the place of the one that is there. If none
    is recorded both are emptied. If one is recorded the other stays, so that the new tab starts with states of the
    tab before (`stack_openTab`). -/

namespace CircuitDesigner

open Circuit

/-- The recorded states of a direction, if there are any. -/
def Template.stack? (t : Template) : Direction → Option (List Template)
  | .previous => t.undos
  | .next => t.redos

namespace Workspace

variable {K : Type} [Coordinate K] {w v : Workspace K} {t : Template} {e : Circuit K} {index : Nat} {title : String}

/-- The circuit before is left only in a stack that the template leaves out while it records the other one. -/
theorem stack_loaded (h : w.circuit.Restored t .none e) (way : Direction) :
    (if t.undos.isNone && t.redos.isNone then e.clearHistory else e).stack way =
      (t.stack? way).getD (if (t.stack? way.back).isSome then w.circuit.stack way else []) := by
  have hloaded : e.stack way = (t.stack? way).getD (w.circuit.stack way) := by
    cases way with
    | previous => exact h.undos
    | next => exact h.redos
  have hcleared : e.clearHistory.stack way = [] := by cases way <;> rfl
  split
  · rename_i hnone
    obtain ⟨hundos, hredos⟩ := Bool.and_eq_true_iff.mp hnone
    rw [Option.isNone_iff_eq_none] at hundos hredos
    rw [hcleared]
    cases way <;> simp only [Template.stack?, Direction.back, hundos, hredos] <;> rfl
  · rename_i hsome
    rw [hloaded]
    cases hway : t.stack? way with
    | some ts => rfl
    | none =>
      -- The other stack is recorded, as one of them is.
      rw [if_pos]
      cases way <;> simp_all [Template.stack?, Direction.back, Option.isSome_iff_ne_none]

/-- Either a stamp means nothing and the workspace stays as it was, or a tab is opened at the end. Its circuit is the
    one loaded, without history if none is recorded. -/
theorem openTab_cases (h : w.Bounded) (t : Template) (title : String) :
    (∃ error, t.validate w.circuit.catalog = .error error ∧ w.openTab t title = (.error error, w)) ∨
      ∃ e, w.circuit.Restored t .none e ∧
        w.openTab t title = (.ok w.tabs.length, (w.extended t (Text.trim title)).turned w.tabs.length
          (if t.undos.isNone && t.redos.isNone then e.clearHistory else e)) := by
  cases hvalid : t.validate w.circuit.catalog with
  | error error =>
    refine .inl ⟨error, rfl, ?_⟩
    unfold openTab
    rw [hvalid]
  | ok _ =>
    obtain ⟨e, he, hrestored⟩ := exists_restore_of_validate hvalid .none
    exact .inr ⟨e, hrestored, openTab_eq h hvalid he title⟩

omit [Coordinate K] in
theorem bounded_turned (hindex : index < w.tabs.length) (e : Circuit K) : (w.turned index e).Bounded := by
  intro i hi
  obtain rfl := Option.some.inj hi
  rwa [tabs_turned, length_views]

/-- A new tab is the last one and active. Its stacks are those that the template records. One that is not recorded is
    that of the circuit before if the other one is, and empty if not. So the history of another tab is left in it
    exactly when one stack is recorded and the circuit had states on the other. -/
theorem stack_openTab (h : w.Bounded) (hopen : w.openTab t title = (.ok index, v)) :
    index = w.tabs.length ∧ v.active = some index ∧ v.Bounded ∧
    (∀ way, v.circuit.stack way =
      (t.stack? way).getD (if (t.stack? way.back).isSome then w.circuit.stack way else [])) ∧
    ((∀ way, v.circuit.stack way = (t.stack? way).getD []) ↔
      ∀ way, (t.stack? way).isNone → (t.stack? way.back).isSome → w.circuit.stack way = []) := by
  rcases openTab_cases h t title with ⟨error, -, hrefused⟩ | ⟨e, hrestored, hopened⟩
  · rw [hopen] at hrefused
    cases hrefused
  · rw [hopen] at hopened
    have hv := congrArg Prod.snd hopened
    obtain rfl := Except.ok.inj (congrArg Prod.fst hopened)
    dsimp only at hv
    subst hv
    have hstack := stack_loaded hrestored
    refine ⟨rfl, rfl, bounded_turned (by simp [extended]) _, hstack, forall_congr' fun way => ?_⟩
    rw [circuit_turned, hstack way]
    cases t.stack? way <;> cases t.stack? way.back <;> simp

/-- A workspace whose only wire was given a name, so that there is a state to go back to. -/
def renamedWorkspace : Workspace Rat :=
  (ofCircuit (ofSettings {})).run [.gesture (.edit (.renameWire 0 "a")) trivial]

/-- A gate on a wire, with a history that goes back only. -/
def pastTemplate : Template where
  wires := [{ stamps := ["h"] }]
  undos := some [{ wires := [] }]

/-- A gate on a wire, with a history that goes forward only. -/
def futureTemplate : Template where
  wires := [{ stamps := ["h"] }]
  redos := some [{ wires := [] }]

/-- There is nothing to return to in the tab before, and so nothing is left of it. -/
theorem stack_openTab_past : renamedWorkspace.Bounded ∧ ∃ v, renamedWorkspace.openTab pastTemplate "T" = (.ok 1, v) ∧
    ∀ way, v.circuit.stack way = (pastTemplate.stack? way).getD [] := by
  have hnew : (ofCircuit (ofSettings {})).Live 0 := live_ofCircuit ⟨by decide, by decide⟩
  have hlive := hnew.run [.gesture (.edit (.renameWire 0 "a")) trivial]
  have hopen : renamedWorkspace.openTab pastTemplate "T" = (.ok 1, _) := rfl
  obtain ⟨-, -, -, -, hiff⟩ := stack_openTab hlive.tidy.bounded hopen
  refine ⟨hlive.tidy.bounded, _, hopen, hiff.mpr fun way hnone _ => ?_⟩
  cases way with
  | previous => cases hnone
  | next => rfl

/-- The new tab goes back to the state that the tab before saved. -/
theorem openTab_inherits : ∃ v, renamedWorkspace.openTab futureTemplate "T" = (.ok 1, v) ∧
    futureTemplate.undos = none ∧ v.circuit.undos = renamedWorkspace.circuit.undos ∧ v.circuit.undos.length = 1 :=
  ⟨_, rfl, rfl, rfl, rfl⟩

end Workspace

end CircuitDesigner
