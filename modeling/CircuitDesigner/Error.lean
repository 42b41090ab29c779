import CircuitDesigner.Json.Decode
import CircuitDesigner.Settings

/-! Why the designer refuses something. -/

namespace CircuitDesigner

/-- Why the circuit cannot become a custom gate. -/
inductive Rejection where
  /-- The button that offers it is disabled, for the reason on its tooltip. -/
  | disabled (title : String)
  /-- The symbol has more than `limit` characters. -/
  | longSymbol (limit : Nat)
  deriving DecidableEq, Repr

def Rejection.message : Rejection → String
  | disabled title => title
  | longSymbol limit => "Be concise (max. " ++ toString limit ++ " characters)"

inductive CircuitError where
  /-- The type of a stamp is neither built in nor declared. -/
  | unknownGate (id : String)
  /-- The extra data of a stamp mean nothing for its type. -/
  | malformedStamp (gate extra : String)
  /-- Supports come with their gate, never from a stamp. -/
  | placeholderStamp
  /-- The snapshot of a new tab could not be applied. -/
  | unopenedTab (title : String)
  /-- A text is not the JSON form of a template. -/
  | undecodable (cause : DecodeError)
  /-- A setting must not be zero. -/
  | zeroSetting (setting : Setting)
  | rejected (reason : Rejection)
  | missingTab (index : Nat)

def CircuitError.message : CircuitError → String
  | unknownGate id => "Unknown gate type '" ++ id ++ "'"
  | malformedStamp gate extra => "Malformed extra data '" ++ extra ++ "' for gate '" ++ gate ++ "'"
  | placeholderStamp => "Support placeholders cannot be created from a stamp"
  | unopenedTab title => "Malformed template: snapshot for tab '" ++ title ++ "' cannot be applied"
  | undecodable cause => "Template serialization failed: " ++ cause.message
  | zeroSetting setting => "Invalid setting '" ++ setting.label ++ "': must be a positive integer"
  | rejected reason => "Cannot create custom gate: " ++ reason.message
  | missingTab index => "Tab " ++ toString index ++ " does not exist"

end CircuitDesigner
