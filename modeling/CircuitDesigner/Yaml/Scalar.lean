import CircuitDesigner.Yaml.Source

/-! Scalars of YAML: plain, quoted and block texts.

    A text that goes on over several lines is folded: its parts are joined by a space where one line ends, and
    by one break less than there are where several do. -/

namespace CircuitDesigner.Yaml

/-- How a scalar is written. -/
inductive Style where
  | plain
  | singleQuoted
  | doubleQuoted
  | literal
  | folded
  deriving DecidableEq, Repr

namespace Scalar

/-! ### Folding -/

/-- What stands for the breaks between two parts of a text. -/
def fold : List Char → List Char
  | ['\n'] => [' ']
  | '\n' :: breaks => breaks
  | breaks => breaks

/-- What stands for the spaces and breaks between two parts of a text. Without a break they stand for
    themselves. -/
def gapText (gap : List Char) : List Char :=
  let breaks := gap.filter isBreak
  if breaks.isEmpty then gap else fold breaks

/-- The text so far, read backwards, with a gap after it that is read backwards too. -/
def extend (text gap : List Char) : List Char := (gapText gap.reverse).reverse ++ text

/-! ### Plain scalars -/

/-- The characters that end a plain scalar inside brackets. -/
def flowIndicators : List Char := [',', '[', ']', '\x7b', '\x7d']

/-- Reads a plain scalar whose later lines are indented by at least `indent` columns. Text and gap so far are
    read backwards. The result tells whether the scalar is followed by a break. -/
def plain (inFlow : Bool) (indent : Nat) : List Char → List Char → Source → Option (List Char × Bool × Source)
  | text, gap, [] => some (text.reverse, gap.any isBreak, [])
  | text, gap, (c, p) :: cs =>
    if isSpace c || isBreak c then
      if c == '\t' && gap.any isBreak && p.column < indent then none
      else plain inFlow indent text (c :: gap) cs
    else if !gap.isEmpty &&
        ((!inFlow && p.column < indent) || c == '#' || atDocument ((c, p) :: cs)) then
      some (text.reverse, gap.any isBreak, (c, p) :: cs)
    else if inFlow && c == ':' && headIn ('?' :: flowIndicators) cs then none
    else if (c == ':' && atGap cs) || (inFlow && flowIndicators.contains c) then
      some (text.reverse, gap.any isBreak, (c, p) :: cs)
    else plain inFlow indent (c :: extend text gap) [] cs

/-! ### Quoted scalars -/

/-- Reads a scalar up to its closing single quote. Two of them stand for one. -/
def singleQuoted : List Char → List Char → Source → Option (List Char × Source)
  | _, _, [] => none
  | text, gap, ('\'', _) :: ('\'', _) :: cs => singleQuoted ('\'' :: extend text gap) [] cs
  | text, gap, ('\'', _) :: cs => some ((extend text gap).reverse, cs)
  | text, gap, (c, p) :: cs =>
    if isSpace c || isBreak c then singleQuoted text (c :: gap) cs
    else if atDocument ((c, p) :: cs) then none
    else singleQuoted (c :: extend text gap) [] cs

/-- The character that a letter stands for after a backslash. -/
def escape? : Char → Option Char
  | '0' => some '\x00'
  | 'a' => some '\x07'
  | 'b' => some '\x08'
  | 't' => some '\t'
  | '\t' => some '\t'
  | 'n' => some '\n'
  | 'v' => some '\x0b'
  | 'f' => some '\x0c'
  | 'r' => some '\r'
  | 'e' => some '\x1b'
  | ' ' => some ' '
  | '"' => some '"'
  | '/' => some '/'
  | '\\' => some '\\'
  | 'N' => some '\u0085'
  | '_' => some '\u00a0'
  | 'L' => some '\u2028'
  | 'P' => some '\u2029'
  | _ => none

/-- The value of a hexadecimal digit. -/
def hexDigit? (c : Char) : Option Nat :=
  if '0' ≤ c ∧ c ≤ '9' then some (c.toNat - 48)
  else if 'a' ≤ c ∧ c ≤ 'f' then some (c.toNat - 87)
  else if 'A' ≤ c ∧ c ≤ 'F' then some (c.toNat - 55)
  else none

/-- The character of a hexadecimal number. -/
def codePoint? (digits : List Char) : Option Char := do
  let n ← digits.foldlM (fun n c => (hexDigit? c).map fun d => 16 * n + d) 0
  if n.isValidChar then some (Char.ofNat n) else none

/-- The text so far with the gap after it. After an escaped break only the breaks of a gap count. -/
def extendJoined (joined : Bool) (text gap : List Char) : List Char :=
  if joined then gap.filter isBreak ++ text else extend text gap

/-- Reads a scalar up to its closing double quote; `joined` after a backslash at the end of a line. -/
def doubleQuoted : Bool → List Char → List Char → Source → Option (List Char × Source)
  | _, _, _, [] => none
  | joined, text, gap, ('"', _) :: cs => some ((extendJoined joined text gap).reverse, cs)
  | joined, text, gap, ('\\', _) :: ('x', _) :: (a, _) :: (b, _) :: cs => do
    let c ← codePoint? [a, b]
    doubleQuoted false (c :: extendJoined joined text gap) [] cs
  | joined, text, gap, ('\\', _) :: ('u', _) :: (a, _) :: (b, _) :: (c, _) :: (d, _) :: cs => do
    let c ← codePoint? [a, b, c, d]
    doubleQuoted false (c :: extendJoined joined text gap) [] cs
  | joined, text, gap, ('\\', _) :: ('U', _) :: (a, _) :: (b, _) :: (c, _) :: (d, _) :: (e, _) :: (f, _) ::
      (g, _) :: (h, _) :: cs => do
    let c ← codePoint? [a, b, c, d, e, f, g, h]
    doubleQuoted false (c :: extendJoined joined text gap) [] cs
  | joined, text, gap, ('\\', _) :: (e, _) :: cs =>
    if isBreak e then doubleQuoted true (extendJoined joined text gap) [] cs
    else (escape? e).bind fun c => doubleQuoted false (c :: extendJoined joined text gap) [] cs
  | joined, text, gap, (c, p) :: cs =>
    if isSpace c || isBreak c then doubleQuoted joined text (c :: gap) cs
    else if atDocument ((c, p) :: cs) then none
    else doubleQuoted false (c :: extendJoined joined text gap) [] cs

/-! ### Block scalars -/

/-- What becomes of the breaks at the end of a block. -/
inductive Chomping where
  | strip
  /-- One of them stays. -/
  | clip
  | keep

/-- The chomping of a block, if its indicator is next. -/
def takeChomping : Source → Option Chomping × Source
  | ('-', _) :: cs => (some .strip, cs)
  | ('+', _) :: cs => (some .keep, cs)
  | cs => (none, cs)

/-- The indentation of a block, if its indicator is next. It is not zero. -/
def takeIndentation : Source → Option (Option Nat × Source)
  | (c, p) :: cs =>
    if c == '0' then none
    else if c.isDigit then some (some (c.toNat - 48), cs)
    else some (none, (c, p) :: cs)
  | [] => some (none, [])

/-- The indicators of a block in either order, and the lines after them. -/
def blockHead? (s : Source) : Option (Chomping × Option Nat × Source) := do
  let (early, s) := takeChomping s
  let (indentation, s) ← takeIndentation s
  let (late, s) := if early.isSome || indentation.isNone then (none, s) else takeChomping s
  let s ← endLine? s
  some ((early <|> late).getD .clip, indentation, s)

/-- The widest margin of the empty lines at the head of a block and of its first other line, and the breaks
    of the empty ones, read backwards. -/
def firstMargin : Nat → List Char → Source → Option (Nat × List Char × Source)
  | margin, breaks, [] => some (margin, breaks, [])
  | margin, breaks, (c, p) :: cs =>
    if c == ' ' then firstMargin (max margin (p.column + 1)) breaks cs
    else if c == '\t' then none
    else if isBreak c then firstMargin margin (c :: breaks) cs
    else some (margin, breaks, (c, p) :: cs)

/-- A block that is being read. All texts are read backwards. -/
structure Block where
  text : List Char := []
  /-- The break after the last line of the text. -/
  final : List Char := []
  /-- The breaks of the empty lines after it. -/
  breaks : List Char := []
  /-- The last line starts with a space or tab. -/
  spaced : Bool := false

/-- The block at the start of one more line, whose first character is given. Only lines that start with
    neither space nor tab are folded. -/
def Block.addLine (b : Block) (isFolded : Bool) (first : Char) : Block :=
  let gap := b.breaks ++ b.final
  let gap := if isFolded && b.final == ['\n'] && !b.spaced && !isSpace first then (fold gap.reverse).reverse else gap
  { text := first :: (gap ++ b.text), spaced := isSpace first }

/-- Reads the lines of a block that are indented by `indent` columns; `inLine` after the margin of a line. -/
def blockLines (isFolded : Bool) (indent : Nat) : Bool → Block → Source → Option (Block × Source)
  | _, b, [] => some (b, [])
  | true, b, (c, _) :: cs =>
    if isBreak c then blockLines isFolded indent false { b with final := [c], breaks := [] } cs
    else blockLines isFolded indent true { b with text := c :: b.text } cs
  | false, b, (c, p) :: cs =>
    if isBreak c then blockLines isFolded indent false { b with breaks := c :: b.breaks } cs
    else if indent ≤ p.column then blockLines isFolded indent true (b.addLine isFolded c) cs
    else if c == ' ' then blockLines isFolded indent false b cs
    else if c == '\t' then none
    else some (b, (c, p) :: cs)

/-- The text of a finished block. -/
def Block.finish (b : Block) : Chomping → List Char
  | .strip => b.text.reverse
  | .clip => (b.final ++ b.text).reverse
  | .keep => (b.breaks ++ (b.final ++ b.text)).reverse

/-- Reads a block scalar after its indicator, inside a collection at column `parent`. Without an indicator the
    first line sets the indentation. -/
def block (isFolded : Bool) (parent : Int) (s : Source) : Option (List Char × Source) := do
  let (chomping, indentation, s) ← blockHead? s
  match indentation with
  | some n =>
    let (b, s) ← blockLines isFolded (parent.toNat + n) false {} s
    some (b.finish chomping, s)
  | none =>
    let (margin, breaks, s) ← firstMargin 0 [] s
    let indent := max margin (max (parent + 1).toNat 1)
    let (b, s) ← blockLines isFolded indent false { breaks } s
    some (b.finish chomping, s)

end Scalar

end CircuitDesigner.Yaml
