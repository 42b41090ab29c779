/-! File paths: names between slashes. A path that starts with a slash starts at the root; an empty name and a
    dot stay where they are, and two dots go one directory up. -/

namespace CircuitDesigner.Path

/-- The names between the slashes; there is an empty one between two slashes in a row. -/
def split : List Char → List (List Char)
  | [] => [[]]
  | '/' :: cs => [] :: split cs
  | c :: cs =>
    match split cs with
    | [] => [[c]]
    | name :: names => (c :: name) :: names

/-- The names with slashes between them. -/
def join (names : List (List Char)) : List Char := ['/'].intercalate names

/-- The name leads nowhere else. -/
def isStill (name : List Char) : Bool := name == [] || name == ['.']

/-- The names up to the last one that leads elsewhere. -/
def dropStill (names : List (List Char)) : List (List Char) := (names.reverse.dropWhile isStill).reverse

/-- The root or the dot at the head of a path, and the names after it. -/
def splitStart : List (List Char) → List (List Char) × List (List Char)
  | [] :: name :: names => ([[]], name :: names)
  | ['.'] :: names => ([['.']], names)
  | names => ([], names)

/-- The names of the directory and the last name, if the path ends in one. -/
def splitLast? (names : List (List Char)) : Option (List (List Char) × List Char) :=
  let (start, names) := splitStart names
  let names := dropStill names
  match names.getLast? with
  | none => none
  | some name => if name = ['.', '.'] then none else some (start ++ dropStill names.dropLast, name)

/-- The name without its extension, which starts at the last dot. A dot in front of everything else starts
    none. -/
def stem (name : List Char) : List Char :=
  let before := (name.reverse.dropWhile (· != '.')).drop 1
  if before.isEmpty then name else before.reverse

/-- The path of a name in a directory. -/
def push (directory name : String) : String :=
  if directory.isEmpty || directory.endsWith "/" then directory ++ name else directory ++ "/" ++ name

/-- The extension of bundles. -/
def extension : String := "qcanvas"

/-- The bundle beside a file whose name has a suffix added to its stem. Where a path has no last name, the
    bundle lies in the directory itself. -/
def sibling (path suffix : String) : String :=
  match splitLast? (split path.toList) with
  | none => push path ("_" ++ suffix ++ "." ++ extension)
  | some (directory, name) =>
    String.ofList (join (directory ++ [stem name ++ ("_" ++ suffix ++ "." ++ extension).toList]))

end CircuitDesigner.Path
