import CircuitDesigner.CommandLine.Command
import CircuitDesigner.Proofs.Except

/-! What the command for normal forms leaves.

    It reads a bundle and writes its normal form beside it, or where it is told to. Where there is no normal form, or it
    cannot be written, all files are as they were (`run_normalization`). -/

namespace CircuitDesigner

variable {d : Directory} {input text : String} {config : Config}

/-! ### Plans -/

/-- What is printed first comes before all else that a plan prints. -/
theorem Action.run_printLines (lines : List String) (next : Action) (d : Directory) : (printLines lines next).run d =
    { next.run d with printed := String.join (lines.map (· ++ "\n")) ++ (next.run d).printed } := rfl

/-- A plan goes on when its file is written, and otherwise ends there. -/
theorem Action.run_save (path text : String) (next : Action) (d : Directory) :
    (save path text next).run d = match d.write path (text ++ "\n") with
      | .ok d' => next.run d'
      | .error e => ⟨"", some (.unwritten path e), d⟩ := by
  unfold save
  rw [Action.run]
  cases d.write path (text ++ "\n") <;> rfl

namespace Command

/-- To read a circuit takes two steps after the file is read. Both of them may fail. -/
theorem run_withCircuit (hread : d.read input = .ok text) (next : Circuit Float → Action) :
    (withCircuit input config next).run d = match Bundle.parse text with
      | .error e => ⟨"", some (.unparsed input e), d⟩
      | .ok b => match (b.load config.settings : Except BundleError (Circuit Float)) with
        | .error e => ⟨"", some (.refused input e), d⟩
        | .ok c => (next c).run d := by
  unfold withCircuit
  rw [Action.run, hread]
  dsimp only
  cases Bundle.parse text with
  | error e => rfl
  | ok b =>
    dsimp only
    cases (b.load config.settings : Except BundleError (Circuit Float)) <;> rfl

/-- The command writes the normal form of the text that it reads, and nothing else. Where there is none it fails for the
    same reason, and writes nothing. -/
theorem run_normalization (hread : d.read input = .ok text) (output : Option String) (config : Config) :
    (∀ out, Bundle.normalize Float config.settings text = .ok out → ∃ printed,
      (normalization input { output } config).run d =
        match d.write (output.getD (Path.sibling input "normalized")) (out ++ "\n") with
        | .ok d' => ⟨printed, none, d'⟩
        | .error e => ⟨printed, some (.unwritten (output.getD (Path.sibling input "normalized")) e), d⟩) ∧
    ∀ e, Bundle.normalize Float config.settings text = .error e → ∃ printed failure,
      (normalization input { output } config).run d = ⟨printed, some failure, d⟩ ∧
        (failure = .unparsed input e ∨ failure = .refused input e) := by
  unfold normalization Bundle.normalize
  rw [Action.run_printLines, run_withCircuit hread]
  cases Bundle.parse text with
  | error e =>
    refine ⟨nofun, fun e' he => ?_⟩
    cases he
    exact ⟨_, _, rfl, .inl rfl⟩
  | ok b =>
    rw [bind_of_ok rfl]
    dsimp only
    cases (b.load config.settings : Except BundleError (Circuit Float)) with
    | error e =>
      refine ⟨nofun, fun e' he => ?_⟩
      cases he
      exact ⟨_, _, rfl, .inr rfl⟩
    | ok c =>
      refine ⟨fun out hout => ?_, nofun⟩
      cases hout
      have happly : NormalOptions.apply { output } c = .ok c.refresh := rfl
      simp only [happly, Action.run_save]
      cases d.write (output.getD (Path.sibling input "normalized")) ((Bundle.ofCircuit c.refresh).render ++ "\n") <;>
        exact ⟨_, rfl⟩

end Command

end CircuitDesigner
