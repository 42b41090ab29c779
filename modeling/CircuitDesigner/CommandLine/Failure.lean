import CircuitDesigner.Bundle
import CircuitDesigner.CommandLine.Directory
import CircuitDesigner.Config
import CircuitDesigner.Execution.OutputKind

/-! Why a command of the command line fails. -/

namespace CircuitDesigner

inductive Failure where
  | unreadConfig (path : String) (cause : FileError)
  | invalidConfig (path : String) (cause : ConfigError)
  /-- The path of a bundle leads nowhere. -/
  | absent (path : String)
  | unread (path : String) (cause : FileError)
  /-- The file holds no bundle. -/
  | unparsed (path : String) (cause : BundleError)
  /-- The bundle holds no circuit that means something. -/
  | refused (path : String) (cause : BundleError)
  /-- An option gives a setting that is refused. -/
  | badOption (option : String) (cause : CircuitError)
  | unknownOutput (cause : UnknownOutput)
  | unwritten (path : String) (cause : FileError)

/-- The messages of an error and of the errors behind it. -/
def CircuitError.chain (e : CircuitError) : List String :=
  match e with
  | .undecodable cause => [e.message, cause.message]
  | e => [e.message]

/-- The messages of an error and of the errors behind it. -/
def BundleError.chain (e : BundleError) : List String :=
  match e with
  | .json _ cause => [e.message, cause.message]
  | .circuit _ cause | .core cause => e.message :: cause.chain
  | e => [e.message]

namespace Failure

/-- What was attempted, and why it failed, down to the first cause. -/
def chain : Failure → List String
  | unreadConfig path cause => ["Failed to read config: " ++ path, cause.message]
  | invalidConfig path cause => ["Invalid config: " ++ path, cause.message]
  | absent path => ["File not found: " ++ path]
  | unread path cause => ["Failed to read file: " ++ path, cause.message]
  | unparsed path cause => ("Failed to parse " ++ path) :: cause.chain
  | refused path cause => ("Failed to import " ++ path) :: cause.chain
  | badOption option cause => ("Invalid " ++ option) :: cause.chain
  | unknownOutput cause => [cause.message]
  | unwritten path cause => ["Failed to write " ++ path, cause.message]

def message (f : Failure) : String := ": ".intercalate f.chain

end Failure

end CircuitDesigner
