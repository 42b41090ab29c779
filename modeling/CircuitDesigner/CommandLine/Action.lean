import CircuitDesigner.CommandLine.Failure

/-! What commands do to the world: they print, read and write files, and finish or fail.

    A command is a plan of such actions, which goes on depending on what it reads. The plan is carried out by
    the program on the files of the system, and here on a directory in memory. -/

namespace CircuitDesigner

inductive Action where
  | finish
  | fail (failure : Failure)
  | print (text : String) (next : Action)
  | read (path : String) (next : Except FileError String → Action)
  | write (path text : String) (next : Except FileError Unit → Action)

/-- What is left when a command has ended. -/
structure Outcome where
  printed : String
  failure : Option Failure
  directory : Directory

namespace Action

/-- Prints lines. -/
def printLines (lines : List String) (next : Action) : Action :=
  .print (String.join (lines.map (· ++ "\n"))) next

/-- Writes a text and the end of its last line. -/
def save (path text : String) (next : Action) : Action :=
  .write path (text ++ "\n") fun
    | .ok () => next
    | .error e => .fail (.unwritten path e)

/-- Carries a plan out in a directory. -/
def run : Action → Directory → Outcome
  | .finish, d => ⟨"", none, d⟩
  | .fail failure, d => ⟨"", some failure, d⟩
  | .print text next, d =>
    let o := next.run d
    { o with printed := text ++ o.printed }
  | .read path next, d => (next (d.read path)).run d
  | .write path text next, d =>
    match d.write path text with
    | .ok d => (next (.ok ())).run d
    | .error e => (next (.error e)).run d

end Action

/-- The exit code of the program. -/
def Outcome.code (o : Outcome) : Nat := if o.failure.isSome then 1 else 0

end CircuitDesigner
