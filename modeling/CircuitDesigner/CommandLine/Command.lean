import CircuitDesigner.Bundle.Normal
import CircuitDesigner.CommandLine.Action
import CircuitDesigner.Drawing
import CircuitDesigner.Execution.Request
import CircuitDesigner.Report

/-! The commands of the command line. -/

namespace CircuitDesigner

/-- Options of the command that brings a bundle into its normal form. -/
structure NormalOptions where
  /-- Where the result goes, if not beside the input. -/
  output : Option String := none
  minQubits : Option Nat := none
  /-- The wires are numbered from the other end. -/
  flip : Bool := false
  deriving DecidableEq, Repr

/-- Options of the command that builds requests. Those that are not given are taken from elsewhere. -/
structure PayloadOptions where
  kind : Option String := none
  shots : Option Nat := none
  backend : Option String := none
  /-- Where the request goes, if it is not printed. -/
  file : Option String := none
  deriving DecidableEq, Repr

inductive Command where
  | inspect (input : String)
  | normalize (input : String) (options : NormalOptions)
  /-- Draws the circuit, and lists its connectors and borders if asked for. -/
  | render (input : String) (layout : Bool)
  | payload (input : String) (options : PayloadOptions)
  | version
  deriving DecidableEq, Repr

/-- A command and the configuration file it is given. -/
structure Invocation where
  config : Option String
  command : Command
  deriving DecidableEq, Repr

namespace Command

/-- The version of the program. -/
def versionNumber : String := "0.4.2"

/-! ### Files -/

/-- Goes on with the configuration of a text. -/
def withConfigText (path text : String) (next : Config → Action) : Action :=
  match Config.parse text with
  | .ok config => next config
  | .error e => .fail (.invalidConfig path e)

/-- Goes on with the configuration in a file that has to be there, or else in the file of the user, if there
    is one. -/
def withConfig (path home : Option String) (next : Config → Action) : Action :=
  match path, home with
  | some path, _ =>
    .read path fun
      | .ok text => withConfigText path text next
      | .error e => .fail (.unreadConfig path e)
  | none, some home =>
    let path := Path.push (Path.push home ".qcanvas") "config.yaml"
    .read path fun
      | .ok text => withConfigText path text next
      | .error e => if e.isAbsent then next {} else .fail (.unreadConfig path e)
  | none, none => next {}

/-- Goes on with the circuit of a bundle. -/
def withCircuit (path : String) (config : Config) (next : Circuit Float → Action) : Action :=
  .read path fun
    | .error e => .fail (if e.isAbsent then .absent path else .unread path e)
    | .ok text =>
      match Bundle.parse text with
      | .error e => .fail (.unparsed path e)
      | .ok b =>
        match b.load config.settings with
        | .error e => .fail (.refused path e)
        | .ok c => next c

/-! ### Commands -/

def inspection (input : String) (config : Config) : Action :=
  .printLines ["→ Inspecting " ++ input] <| withCircuit input config fun c =>
    .printLines (Report.inspection c) .finish

/-- The circuit with the options applied. -/
def NormalOptions.apply (o : NormalOptions) (c : Circuit Float) : Except CircuitError (Circuit Float) := do
  let c ← match o.minQubits with
    | some count => c.setMinQubits count
    | none => .ok c
  .ok (if o.flip then c.toggleEndianness else c).refresh

def normalization (input : String) (options : NormalOptions) (config : Config) : Action :=
  .printLines ["→ Normalizing " ++ input] <| withCircuit input config fun before =>
    match NormalOptions.apply options before with
    | .error e => .fail (.badOption "--min-qubits" e)
    | .ok c =>
      let output := options.output.getD (Path.sibling input "normalized")
      .save output (Bundle.ofCircuit c).render <|
        .printLines
          ["✓ Normalization complete",
            "  Result: " ++ toString c.wires.length ++ " qubits, " ++ toString c.columns ++ " steps (was " ++
              toString before.columns ++ ")",
            "  Output: " ++ output]
          .finish

def drawing (input : String) (layout : Bool) (config : Config) : Action :=
  withCircuit input config fun c =>
    .print (Drawing.render c) (if layout then .printLines (Report.layout c) .finish else .finish)

/-- Goes on with the kind of output that is asked for. -/
def withOutput (kind : Option String) (config : Config) (next : OutputKind → Action) : Action :=
  match kind with
  | none => next config.output
  | some text =>
    match OutputKind.parse text with
    | .ok output => next output
    | .error e => .fail (.unknownOutput e)

/-- The circuit with the shots that are asked for. -/
def PayloadOptions.apply (o : PayloadOptions) (c : Circuit Float) : Except CircuitError (Circuit Float) :=
  match o.shots with
  | some shots => c.setShots shots
  | none => .ok c

def request (input : String) (options : PayloadOptions) (config : Config) : Action :=
  withOutput options.kind config fun output => withCircuit input config fun c =>
    match PayloadOptions.apply options c with
    | .error e => .fail (.badOption "--shots" e)
    | .ok c =>
      let text := (Request.ofCircuit c output (options.backend.getD config.backend)).render
      match options.file with
      | some path => .save path text .finish
      | none => .printLines [text] .finish

/-- What the program consists of. -/
def about : List String :=
  ["qcanvas v" ++ versionNumber ++ " - visual quantum circuit designer toolkit",
    "",
    "Components:",
    "  qcanvas-core  Circuit model, layout and interaction engine",
    "  qcanvas-io    Export files and execution envelopes",
    "  qcanvas-cli   Command-line interface",
    "",
    "File extension: ." ++ Path.extension,
    "License:        Apache-2.0"]

/-- The plan of a command. -/
def action (config : Config) : Command → Action
  | inspect input => inspection input config
  | normalize input options => normalization input options config
  | render input layout => drawing input layout config
  | payload input options => request input options config
  | version => .printLines about .finish

end Command

/-- The plan of a command, for a user with that home directory. -/
def Invocation.action (i : Invocation) (home : Option String) : Action :=
  Command.withConfig i.config home fun config => i.command.action config

end CircuitDesigner
