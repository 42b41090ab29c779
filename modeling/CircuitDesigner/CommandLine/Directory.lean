import CircuitDesigner.CommandLine.Path

/-! Files: why reading and writing them can fail, and a directory of files in memory. -/

namespace CircuitDesigner

/-- Why a file cannot be read or written. -/
inductive FileError where
  | missing
  /-- A path goes on after the name of a file. -/
  | notDirectory
  | directory
  /-- A name or the whole path is too long for the system. -/
  | longName
  | denied
  /-- The file holds no text. -/
  | notText
  | other (code : Nat) (reason : String)
  deriving DecidableEq, Repr

namespace FileError

/-- An error of the operating system with its number. -/
def system (reason : String) (code : Nat) : String := reason ++ " (os error " ++ toString code ++ ")"

def message : FileError → String
  | missing => system "No such file or directory" 2
  | notDirectory => system "Not a directory" 20
  | directory => system "Is a directory" 21
  | longName => system "File name too long" 36
  | denied => system "Permission denied" 13
  | notText => "stream did not contain valid UTF-8"
  | other code reason => system reason code

/-- The path leads to no file and no directory. -/
def isAbsent : FileError → Bool
  | missing | notDirectory | longName => true
  | directory | denied | notText | other .. => false

end FileError

/-- Files in memory, in a directory which is the working directory. Nothing is known of what lies around it. -/
structure Directory where
  /-- The names from the root of all files to the directory. -/
  root : List (List Char)
  /-- Each file by the names from the directory to it. -/
  files : List (List (List Char) × String)

namespace Directory

/-- What a path leads to. -/
inductive Entry where
  | file (text : String)
  | folder

/-- The entry at the end of some names from the root of all files. -/
def entry? (d : Directory) (names : List (List Char)) : Option Entry :=
  if names.isPrefixOf d.root then some .folder
  else if d.root.isPrefixOf names then
    let names := names.drop d.root.length
    match d.files.find? fun file => file.1 == names with
    | some (_, text) => some (.file text)
    | none => if d.files.any fun file => names.isPrefixOf file.1 then some .folder else none
  else none

/-- The longest name in bytes. -/
def maxName : Nat := 255

/-- The longest path in bytes. -/
def maxPath : Nat := 4095

/-- Goes from one place to the next, name by name. Only a directory can be left, and be it to stay there. -/
def walk (d : Directory) : List (List Char) → List (List Char) → Except FileError (List (List Char))
  | place, [] => .ok place
  | place, name :: names =>
    match d.entry? place with
    | none => .error .missing
    | some (.file _) => .error .notDirectory
    | some .folder =>
      if Path.isStill name then d.walk place names
      else if name == ['.', '.'] then d.walk place.dropLast names
      else if maxName < (String.ofList name).utf8ByteSize then .error .longName
      else d.walk (place ++ [name]) names

/-- The place where a path starts, and the names from there on. -/
def start (d : Directory) (path : String) : List (List Char) × List (List Char) :=
  match Path.split path.toList with
  | [] :: name :: names => ([], name :: names)
  | names => (d.root, names)

/-- The text of a file. -/
def read (d : Directory) (path : String) : Except FileError String :=
  if path.isEmpty then .error .missing
  else if maxPath < path.utf8ByteSize then .error .longName
  else
    let (place, names) := d.start path
    match d.walk place names with
    | .error e => .error e
    | .ok place =>
      match d.entry? place with
      | none => .error .missing
      | some .folder => .error .directory
      | some (.file text) => .ok text

/-- The files with the text of one of them replaced, or one added. -/
def replace (names : List (List Char)) (text : String) :
    List (List (List Char) × String) → List (List (List Char) × String)
  | [] => [(names, text)]
  | file :: files => if file.1 = names then (names, text) :: files else file :: replace names text files

/-- Writes a file into a directory that is there. What is written around the working directory is not kept. -/
def write (d : Directory) (path text : String) : Except FileError Directory :=
  if path.isEmpty then .error .missing
  else if maxPath < path.utf8ByteSize then .error .longName
  else
    let (place, names) := d.start path
    let given := (names.reverse.dropWhile (· == [])).reverse
    match given.getLast? with
    | none => .error .directory
    | some name =>
      match d.walk place (given.dropLast ++ [[]]) with
      | .error e => .error e
      | .ok place =>
        if given.length < names.length || Path.isStill name || name == ['.', '.'] then .error .directory
        else if maxName < (String.ofList name).utf8ByteSize then .error .longName
        else
          let place := place ++ [name]
          match d.entry? place with
          | some .folder => .error .directory
          | some (.file _) | none =>
            if d.root.isPrefixOf place then
              .ok { d with files := replace (place.drop d.root.length) text d.files }
            else .ok d

end Directory

end CircuitDesigner
