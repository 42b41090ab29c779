/-! The characters of a YAML stream with their places. -/

namespace CircuitDesigner.Yaml

/-- Lines and columns count from zero. -/
structure Place where
  line : Nat := 0
  column : Nat := 0
  /-- The number of bytes before it; a break counts as one. -/
  index : Nat := 0

/-- A part of the stream up to its end. -/
abbrev Source := List (Char × Place)

/-- The characters that a stream may hold. -/
def isPrintable (c : Char) : Bool :=
  let n := c.toNat
  n == 9 || n == 10 || n == 13 || (32 ≤ n && n ≤ 126) || n == 133 || (160 ≤ n && n ≤ 0xFFFD) || 0x10000 ≤ n

/-- Spaces and tabs. -/
def isSpace (c : Char) : Bool := c == ' ' || c == '\t'

/-- The ends of lines, once they are unified. -/
def isBreak (c : Char) : Bool := c == '\n' || c == '\u2028' || c == '\u2029'

/-- The characters of names: ASCII letters and digits, the underscore and the hyphen. -/
def isNameChar (c : Char) : Bool := c.isAlphanum || c == '_' || c == '-'

/-- Line feeds in place of carriage returns, of the two together and of next lines. -/
def unifyBreaks : List Char → List Char
  | '\r' :: '\n' :: cs => '\n' :: unifyBreaks cs
  | '\r' :: cs => '\n' :: unifyBreaks cs
  | '\u0085' :: cs => '\n' :: unifyBreaks cs
  | c :: cs => c :: unifyBreaks cs
  | [] => []

/-- The place after a character. -/
def Place.after (p : Place) (c : Char) : Place :=
  if isBreak c then ⟨p.line + 1, 0, p.index + 1⟩ else ⟨p.line, p.column + 1, p.index + c.utf8Size⟩

/-- The characters with their places, the first of them at `p`. -/
def placed (p : Place) : List Char → Source
  | [] => []
  | c :: cs => (c, p) :: placed (p.after c) cs

/-- The stream of a text, unless it holds control characters. -/
def Source.ofText? (text : String) : Option Source :=
  let cs := text.toList
  if cs.all isPrintable then some (placed {} (unifyBreaks cs)) else none

/-- A space, a tab, the end of a line or of the stream. -/
def atGap : Source → Bool
  | [] => true
  | (c, _) :: _ => isSpace c || isBreak c

/-- The next character is one of these. -/
def headIn (cs : List Char) : Source → Bool
  | [] => false
  | (c, _) :: _ => cs.contains c

/-- A line starts here with the mark three times, and nothing joined to it. -/
def atMark (mark : Char) : Source → Bool
  | (a, p) :: (b, _) :: (c, _) :: rest => p.column == 0 && a == mark && b == mark && c == mark && atGap rest
  | _ => false

/-- A document starts or ends here. -/
def atDocument (s : Source) : Bool := atMark '-' s || atMark '.' s

/-- The characters of a class at the head, and what follows them. -/
def spanChars (p : Char → Bool) (s : Source) : List Char × Source :=
  ((s.takeWhile fun c => p c.1).map (·.1), s.dropWhile fun c => p c.1)

/-- What follows the spaces and tabs at the head. -/
def skipSpaces (s : Source) : Source := s.dropWhile fun c => isSpace c.1

/-- What follows the rest of a line that holds nothing more than a comment. -/
def endLine? (s : Source) : Option Source :=
  let s := skipSpaces s
  let s := if headIn ['#'] s then s.dropWhile fun c => !isBreak c.1 else s
  match s with
  | [] => some []
  | (c, _) :: rest => if isBreak c then some rest else none

end CircuitDesigner.Yaml
