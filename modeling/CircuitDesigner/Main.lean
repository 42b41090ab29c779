import CircuitDesigner.CommandLine.Arguments

/-! The program. It carries out the plan of a command on the files of the system. -/

namespace CircuitDesigner

/-- What an error of the system means to a command. -/
def FileError.ofSystem (e : IO.Error) : FileError :=
  match e with
  | .noFileOrDirectory .. => .missing
  | .permissionDenied _ code reason => if code = 13 then .denied else .other code.toNat reason
  | .inappropriateType _ code reason =>
    if code = 20 then .notDirectory else if code = 21 then .directory else .other code.toNat reason
  | .invalidArgument _ code reason => if code = 36 then .longName else .other code.toNat reason
  | e => .other 5 (toString e)

/-- The text of a file. -/
def readText (path : String) : IO (Except FileError String) := do
  try
    let bytes ← IO.FS.readBinFile path
    match String.fromUTF8? bytes with
    | some text => return .ok text
    | none => return .error .notText
  catch e => return .error (.ofSystem e)

def writeText (path text : String) : IO (Except FileError Unit) := do
  try
    IO.FS.writeFile path text
    return .ok ()
  catch e => return .error (.ofSystem e)

/-- Carries a plan out, and gives the exit code. -/
def Action.perform : Action → IO UInt32
  | .finish => return 0
  | .fail failure => do
    IO.eprintln ("Error: " ++ failure.message)
    return 1
  | .print text next => do
    IO.print text
    next.perform
  | .read path next => do
    let text ← readText path
    (next text).perform
  | .write path text next => do
    let written ← writeText path text
    (next written).perform

end CircuitDesigner

open CircuitDesigner

/-- Runs the program with its arguments. -/
def main (arguments : List String) : IO UInt32 := do
  match Invocation.parse (← IO.getEnv "QCANVAS_CONFIG") arguments with
  | .ok invocation =>
    let home := (← IO.getEnv "HOME").filter fun home => !home.isEmpty
    (invocation.action home).perform
  | .error .help =>
    IO.println ("\n".intercalate Command.usage)
    return 0
  | .error .version =>
    IO.println Command.versionLine
    return 0
  | .error .misuse =>
    IO.eprintln ("\n".intercalate Command.usage)
    return 2
