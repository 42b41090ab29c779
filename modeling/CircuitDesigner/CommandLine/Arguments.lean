import CircuitDesigner.CommandLine.Command
import CircuitDesigner.Text.Unsigned

/-! Arguments of the command line.

    There are two levels: the program takes options up to the name of a command, and the command takes options
    and words. The options of the program may be given on both levels. -/

namespace CircuitDesigner

/-- Why arguments lead to no command. -/
inductive Stop where
  | misuse
  | help
  | version
  deriving DecidableEq, Repr

/-- What an option does to the options of its level. -/
inductive Effect (σ : Type) where
  /-- Switches something on. -/
  | switch (set : σ → σ)
  /-- Takes a value, if it is one that it accepts. -/
  | value (set : String → σ → Option σ)
  /-- May be given any number of times, and changes nothing that is answered. -/
  | mute
  /-- Ends the reading. -/
  | stop (reason : Stop)

structure Switch (σ : Type) where
  /-- Its name after two hyphens. -/
  long : String
  /-- Its letter after one hyphen. -/
  short : Option Char := none
  effect : Effect σ

/-! ### One level -/

namespace Arguments

/-- What an argument looks like. -/
inductive Shape where
  /-- Two hyphens, after which there are only words. -/
  | separator
  | long (name : String) (value : Option String)
  /-- Letters of options, the last of which may be followed by its value. -/
  | short (letters : List Char)
  | word

/-- What stands before and after the first equals sign. -/
def splitValue : List Char → List Char × Option (List Char)
  | [] => ([], none)
  | '=' :: cs => ([], some cs)
  | c :: cs =>
    let (name, value) := splitValue cs
    (c :: name, value)

def shape (argument : String) : Shape :=
  match argument.toList with
  | ['-', '-'] => .separator
  | '-' :: '-' :: cs =>
    let (name, value) := splitValue cs
    .long (String.ofList name) (value.map String.ofList)
  | '-' :: c :: cs => .short (c :: cs)
  | _ => .word

/-- A level that is being read. -/
structure Level (σ : Type) where
  switches : List (Switch σ)
  options : σ
  /-- The options met so far that may be given once. -/
  given : List String := []
  /-- An option whose value is the next argument. -/
  waiting : Option (Switch σ) := none
  /-- In order. -/
  words : List String := []
  /-- There cannot be more words. -/
  maxWords : Nat

namespace Level

variable {σ : Type}

/-- Marks an option as given; none if it was given before. -/
def once (l : Level σ) (name : String) : Except Stop (Level σ) :=
  if l.given.contains name then .error .misuse else .ok { l with given := name :: l.given }

/-- An option with its value. -/
def store (l : Level σ) (s : Switch σ) (value : String) : Except Stop (Level σ) :=
  match s.effect with
  | .value set => do
    let l ← l.once s.long
    match set value l.options with
    | some options => .ok { l with options, waiting := none }
    | none => .error .misuse
  | _ => .error .misuse

/-- An option, with the value that is joined to it, if there is one. -/
def apply (l : Level σ) (s : Switch σ) (value : Option String) : Except Stop (Level σ) :=
  if l.waiting.isSome then .error .misuse
  else
    match value, s.effect with
    | some value, _ => l.store s value
    | none, .switch set => return { ← l.once s.long with options := set l.options }
    | none, .value _ => .ok { l with waiting := some s }
    | none, .mute => .ok l
    | none, .stop reason => .error reason

def takesValue (s : Switch σ) : Bool :=
  match s.effect with
  | .value _ => true
  | _ => false

/-- A value joined to its letter, perhaps with an equals sign between them. -/
def joinedValue : List Char → Option String
  | [] => none
  | '=' :: cs => some (String.ofList cs)
  | cs => some (String.ofList cs)

/-- Letters of options. What follows one that takes a value is the value. -/
def applyLetters (l : Level σ) : List Char → Except Stop (Level σ)
  | [] => .ok l
  | c :: cs =>
    match l.switches.find? fun s => s.short == some c with
    | none => .error .misuse
    | some s =>
      if takesValue s then l.apply s (joinedValue cs)
      else do (← l.apply s none).applyLetters cs

/-- A word that is no value. -/
def addWord (l : Level σ) (word : String) : Except Stop (Level σ) :=
  if l.waiting.isSome || l.maxWords ≤ l.words.length then .error .misuse
  else .ok { l with words := l.words ++ [word] }

/-- Reads arguments to their end, or to the first word if that is the name of a command. The name and what
    follows it are given back. -/
def read (named : Bool) : Level σ → List String → Except Stop (Level σ × Option (String × List String))
  | l, [] => if l.waiting.isSome then .error .misuse else .ok (l, none)
  | l, argument :: arguments =>
    match shape argument with
    | .separator => do
      let l ← arguments.foldlM addWord l
      if l.waiting.isSome then .error .misuse else .ok (l, none)
    | .long name value =>
      match l.switches.find? fun s => s.long == name with
      | none => .error .misuse
      | some s => do read named (← l.apply s value) arguments
    | .short letters => do read named (← l.applyLetters letters) arguments
    | .word =>
      match l.waiting with
      | some s => do read named (← l.store s argument) arguments
      | none =>
        if named then .ok (l, some (argument, arguments))
        else do read named (← l.addWord argument) arguments

end Level

/-! ### Options -/

/-- Options of a command with those of the program. -/
structure Options (σ : Type) where
  /-- The path of the configuration. -/
  config : Option String := none
  own : σ

/-- The options of both levels. -/
def globals {σ : Type} : List (Switch (Options σ)) :=
  [⟨"verbose", some 'v', .mute⟩,
    ⟨"config", none, .value fun path o => if path.isEmpty then none else some { o with config := some path }⟩,
    ⟨"help", some 'h', .stop .help⟩]

/-- Acts on the options of the command alone. -/
def own {σ : Type} (s : Switch σ) : Switch (Options σ) where
  long := s.long
  short := s.short
  effect := match s.effect with
    | .switch set => .switch fun o => { o with own := set o.own }
    | .value set => .value fun value o => (set value o.own).map fun options => { o with own := options }
    | .mute => .mute
    | .stop reason => .stop reason

def programOptions : List (Switch (Options Unit)) := globals ++ [⟨"version", some 'V', .stop .version⟩]

def normalOptions : List (Switch NormalOptions) :=
  [⟨"output", some 'o', .value fun path o => some { o with output := some path }⟩,
    ⟨"min-qubits", none, .value fun count o =>
      (Text.unsigned? Text.word count).map fun count => { o with minQubits := some count }⟩,
    ⟨"flip-endianness", none, .switch fun o => { o with flip := true }⟩]

/-- The option to list what is laid out. -/
def layoutOptions : List (Switch Bool) := [⟨"layout", none, .switch fun _ => true⟩]

def payloadOptions : List (Switch PayloadOptions) :=
  [⟨"kind", some 'k', .value fun kind o => some { o with kind := some kind }⟩,
    ⟨"shots", some 's', .value fun shots o =>
      (Text.unsigned? Text.word shots).map fun shots => { o with shots := some shots }⟩,
    ⟨"backend", some 'b', .value fun backend o => some { o with backend := some backend }⟩,
    ⟨"export", some 'e', .value fun path o => some { o with file := some path }⟩]

/-! ### Commands -/

/-- A command with the configuration given on its level. -/
abbrev Read := Except Stop (Option String × Command)

/-- A command that takes the path of a bundle. -/
def withInput {σ : Type} (switches : List (Switch σ)) (start : σ) (command : String → σ → Command)
    (arguments : List String) : Read := do
  let level : Level (Options σ) := {
    switches := globals ++ switches.map own
    options := { own := start }
    maxWords := 1 }
  let (level, _) ← level.read false arguments
  match level.words with
  | [input] => .ok (level.options.config, command input level.options.own)
  | _ => .error .misuse

/-- A command without words or options of its own. -/
def withoutInput (command : Command) (arguments : List String) : Read := do
  let level : Level (Options Unit) := { switches := globals, options := { own := () }, maxWords := 0 }
  let (level, _) ← level.read false arguments
  .ok (level.options.config, command)

def commandNames : List String := ["inspect", "normalize", "render", "payload", "version", "help"]

/-- The words after the name of the command that explains another one. -/
def explained : List String → Stop
  | [] => .help
  | [name] => if commandNames.contains name then .help else .misuse
  | _ => .misuse

/-- The command of a name with its arguments. -/
def readCommand (name : String) (arguments : List String) : Read :=
  match name with
  | "inspect" => withInput [] () (fun input _ => .inspect input) arguments
  | "normalize" => withInput normalOptions {} .normalize arguments
  | "render" => withInput layoutOptions false .render arguments
  | "payload" => withInput payloadOptions {} .payload arguments
  | "version" => withoutInput .version arguments
  | "help" => .error (explained arguments)
  | _ => .error .misuse

/-- A configuration named by the environment counts where none is given. On neither level may it be empty. -/
def chooseConfig (outer inner environment : Option String) : Except Stop (Option String) :=
  if environment = some "" ∧ ¬ (outer.isSome ∧ inner.isSome) then .error .misuse
  else .ok (inner <|> outer <|> environment)

end Arguments

/-- Reads arguments. `environment` is the path of a configuration that the environment names. -/
def Invocation.parse (environment : Option String) (arguments : List String) : Except Stop Invocation := do
  let level : Arguments.Level (Arguments.Options Unit) :=
    { switches := Arguments.programOptions, options := { own := () }, maxWords := 0 }
  match ← level.read true arguments with
  | (_, none) => .error .misuse
  | (level, some (name, arguments)) =>
    let (config, command) ← Arguments.readCommand name arguments
    .ok ⟨← Arguments.chooseConfig level.options.config config environment, command⟩

namespace Command

/-- How the program is called. -/
def usage : List String :=
  ["Usage: qcanvas [OPTIONS] <COMMAND>",
    "",
    "Commands:",
    "  inspect    Summarize an exported circuit: wires, gates, errors and toolbar state",
    "  normalize  Re-export a circuit in canonical form",
    "  render     Draw the circuit as text",
    "  payload    Build the request body for the execution backend",
    "  version    Show version information"]

/-- What the program prints when it is asked for its version. -/
def versionLine : String := "qcanvas " ++ versionNumber

end Command

end CircuitDesigner
