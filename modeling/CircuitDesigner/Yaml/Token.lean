import CircuitDesigner.Text.Unsigned
import CircuitDesigner.Yaml.Scalar

/-! Tokens of YAML.

    Indentation becomes tokens too: a block opens where a line is indented deeper, and closes with the first
    line that is not. A key shows only by the colon after it. So whatever may be a key is remembered with the
    number of tokens before it, and a colon on the same line makes it one. -/

namespace CircuitDesigner.Yaml

/-- The bytes of a tag. They need not be a text. -/
abbrev Tag := List UInt8

/-- The tag of an ASCII text. -/
def Tag.ofText (text : String) : Tag := text.toList.map Char.toUInt8

inductive Token where
  | version (major minor : Nat)
  /-- What a handle stands for at the start of tags. -/
  | handle (name : String) (lead : Tag)
  | documentStart
  | documentEnd
  | blockSequenceStart
  | blockMappingStart
  | blockEnd
  | flowSequenceStart
  | flowSequenceEnd
  | flowMappingStart
  | flowMappingEnd
  | blockEntry
  | flowEntry
  | key
  | value
  /-- The node of an anchor once more. -/
  | reference (name : String)
  | anchor (name : String)
  /-- A tag without handle is complete. -/
  | tag (handle : String) (suffix : Tag)
  | scalar (style : Style) (text : String)
  deriving DecidableEq, Repr

namespace Token

/-! ### Names and tags -/

/-- The name of an anchor. -/
def takeName? (s : Source) : Option (String × Source) :=
  let (name, s) := spanChars isNameChar s
  if !name.isEmpty && (atGap s || headIn "?:,]\x7d%@\x60".toList s) then some (String.ofList name, s) else none

/-- The characters of a tag besides those of names; more of them in a complete one. -/
def isTagChar (complete : Bool) (c : Char) : Bool :=
  isNameChar c || ";/?:@&=+$.!~*'()".toList.contains c || (complete && (c == ',' || c == '[' || c == ']'))

/-- How many bytes follow the first byte of a character in UTF-8. -/
def following? (first : Nat) : Option Nat :=
  if first < 128 then some 0
  else if first / 32 = 6 then some 1
  else if first / 16 = 14 then some 2
  else if first / 8 = 30 then some 3
  else none

/-- The bytes of a tag. A byte may be given by its number after a percent sign, and then `due` more of its
    character follow in the same way. -/
def takeTagBytes (complete : Bool) : Nat → Source → Option (List UInt8 × Source)
  | due, ('%', _) :: (a, _) :: (b, _) :: s => do
    let byte := 16 * (← Scalar.hexDigit? a) + (← Scalar.hexDigit? b)
    let due ← match due with
      | 0 => following? byte
      | due + 1 => if byte / 64 = 2 then some due else none
    let (bytes, s) ← takeTagBytes complete due s
    some (byte.toUInt8 :: bytes, s)
  | 0, (c, p) :: s =>
    if c == '%' then none
    else if isTagChar complete c then do
      let (bytes, s) ← takeTagBytes complete 0 s
      some (c.toUInt8 :: bytes, s)
    else some ([], (c, p) :: s)
  | 0, [] => some ([], [])
  | _ + 1, _ => none

/-- At least one byte of a tag. A zero ends the tag, and what is read after it is no part of it. -/
def takeTag? (complete : Bool) (s : Source) : Option (Tag × Source) := do
  let (bytes, s) ← takeTagBytes complete 0 s
  if bytes.isEmpty then none else some (bytes.takeWhile (· != 0), s)

/-- Handle and suffix of a tag, after its exclamation mark. A tag in angle brackets is complete, and so is the
    mark alone. -/
def takeTagParts? : Source → Option ((String × Tag) × Source)
  | ('<', _) :: s => do
    let (suffix, s) ← takeTag? true s
    match s with
    | ('>', _) :: s => some (("", suffix), s)
    | _ => none
  | s => do
    let (name, s) := spanChars isNameChar s
    match s with
    | ('!', _) :: s =>
      let (suffix, s) ← takeTag? false s
      some ((String.ofList ('!' :: name ++ ['!']), suffix), s)
    | s =>
      let (more, s) ← takeTagBytes false 0 s
      let suffix := name.map Char.toUInt8 ++ more.takeWhile (· != 0)
      some (if suffix.isEmpty then ("", Tag.ofText "!") else ("!", suffix), s)

/-- A tag after its exclamation mark, with a gap behind it. -/
def takeTagToken? (inFlow : Bool) (s : Source) : Option (Token × Source) := do
  let (parts, s) ← takeTagParts? s
  if atGap s || (inFlow && headIn [','] s) then some (.tag parts.1 parts.2, s) else none

/-! ### Directives -/

/-- A number of a version. -/
def takeNumber? (s : Source) : Option (Nat × Source) := do
  let (digits, s) := spanChars Char.isDigit s
  if digits.length ≤ 9 then some (← Text.digits? digits, s) else none

def takeVersion? (s : Source) : Option (Token × Source) := do
  let (major, s) ← takeNumber? s
  match s with
  | ('.', _) :: s =>
    let (minor, s) ← takeNumber? s
    some (.version major minor, s)
  | _ => none

/-- A handle stands between exclamation marks, or is one of them. -/
def takeHandle? : Source → Option (String × Source)
  | ('!', _) :: s =>
    let (name, s) := spanChars isNameChar s
    match s with
    | ('!', _) :: s => some (String.ofList ('!' :: name ++ ['!']), s)
    | s => if name.isEmpty then some ("!", s) else none
  | _ => none

def takeHandleLine? (s : Source) : Option (Token × Source) := do
  let (name, s) ← takeHandle? s
  if !headIn [' ', '\t'] s then none
  let (lead, s) ← takeTag? true (skipSpaces s)
  if atGap s then some (.handle name lead, s) else none

/-- A directive after its percent sign, with the rest of its line. -/
def takeDirective? (s : Source) : Option (Token × Source) := do
  let (name, s) := spanChars isNameChar s
  if !atGap s then none
  let (token, s) ←
    if name == "YAML".toList then takeVersion? (skipSpaces s)
    else if name == "TAG".toList then takeHandleLine? (skipSpaces s)
    else none
  some (token, ← endLine? s)

end Token

/-! ### The scanner -/

/-- Something that may turn out to be a key. -/
structure Candidate where
  place : Place
  /-- The number of tokens before it. -/
  before : Nat
  /-- Nothing else can stand there. -/
  required : Bool

structure Scanner where
  rest : Source
  /-- The latest first. -/
  tokens : List Token := []
  /-- The column of the innermost block. -/
  indent : Int := -1
  /-- The columns of the blocks around it, innermost first. -/
  outer : List Int := []
  /-- A key may start here. -/
  keyAllowed : Bool := true
  /-- The candidate inside the innermost brackets. -/
  candidate : Option Candidate := none
  /-- The candidates outside of them; one for each pair of brackets. -/
  outerCandidates : List (Option Candidate) := []

namespace Scanner

def inFlow (s : Scanner) : Bool := !s.outerCandidates.isEmpty

def push (s : Scanner) (t : Token) : Scanner := { s with tokens := t :: s.tokens }

/-- A token put after the first `before` tokens. -/
def insert (s : Scanner) (before : Nat) (t : Token) : Scanner :=
  let k := s.tokens.length - before
  { s with tokens := s.tokens.take k ++ t :: s.tokens.drop k }

/-- The candidate is no key; none if it has to be one. -/
def dropCandidate (s : Scanner) : Option Scanner :=
  if s.candidate.any Candidate.required then none else some { s with candidate := none }

/-- What starts at the place becomes the candidate, if a key may start there. -/
def addCandidate (s : Scanner) (p : Place) : Option Scanner :=
  if s.keyAllowed then do
    let s ← s.dropCandidate
    some { s with candidate := some ⟨p, s.tokens.length, !s.inFlow && s.indent == p.column⟩ }
  else some s

/-- A candidate has to meet its colon on its line and within 1024 bytes. -/
def expire (p : Place) : Option Candidate → Option (Option Candidate)
  | none => some none
  | some c =>
    if c.place.line < p.line || c.place.index + 1024 < p.index then if c.required then none else some none
    else some (some c)

/-- The scanner without the candidates that are too far before the place. -/
def expireAll (s : Scanner) (p : Place) : Option Scanner := do
  let candidate ← expire p s.candidate
  let outerCandidates ← s.outerCandidates.mapM (expire p)
  some { s with candidate, outerCandidates }

/-- Opens a block if the column lies deeper than the innermost one. -/
def openBlock (s : Scanner) (column before : Nat) (t : Token) : Scanner :=
  if !s.inFlow && s.indent < column then
    { s.insert before t with indent := column, outer := s.indent :: s.outer }
  else s

/-- The number of blocks deeper than the column, and the blocks that stay open. -/
def deeper (column : Int) : Int → List Int → Nat × Int × List Int
  | indent, [] => (0, indent, [])
  | indent, o :: outer =>
    if column < indent then
      let (count, rest) := deeper column o outer
      (count + 1, rest)
    else (0, indent, o :: outer)

/-- Closes the blocks that lie deeper than the column. -/
def closeBlocks (s : Scanner) (column : Int) : Scanner :=
  if s.inFlow then s
  else
    let (count, indent, outer) := deeper column s.indent s.outer
    { s with tokens := List.replicate count .blockEnd ++ s.tokens, indent, outer }

/-- The start of the next token, after spaces, comments and breaks. A break allows a key again; a tab does not
    count as space where a key may start. A byte order mark at the start of a line is passed over, but takes up
    a column. -/
def skipGap (inFlow inComment keyAllowed : Bool) : Source → Bool × Source
  | [] => (keyAllowed, [])
  | (c, p) :: cs =>
    if isBreak c then skipGap inFlow false (keyAllowed || !inFlow) cs
    else if inComment || c == ' ' || (c == '\t' && (inFlow || !keyAllowed)) then
      skipGap inFlow inComment keyAllowed cs
    else if c == '\ufeff' && p.column == 0 then skipGap inFlow false keyAllowed cs
    else if c == '#' then skipGap inFlow true keyAllowed cs
    else (keyAllowed, (c, p) :: cs)

/-! ### One token -/

/-- A directive or the mark of a document, which closes all blocks. -/
def fetchMark (s : Scanner) (t : Token) (rest : Source) : Option Scanner := do
  let s ← (s.closeBlocks (-1)).dropCandidate
  some { s.push t with rest, keyAllowed := false }

/-- An opening bracket. It may start a key, and so may what follows it. -/
def fetchOpen (s : Scanner) (p : Place) (t : Token) (rest : Source) : Option Scanner := do
  let s ← s.addCandidate p
  some { s.push t with
    rest, keyAllowed := true, candidate := none, outerCandidates := s.candidate :: s.outerCandidates }

/-- A closing bracket. -/
def fetchClose (s : Scanner) (t : Token) (rest : Source) : Option Scanner := do
  let s ← s.dropCandidate
  let s := match s.outerCandidates with
    | [] => s
    | candidate :: outerCandidates => { s with candidate, outerCandidates }
  some { s.push t with rest, keyAllowed := false }

/-- A comma. -/
def fetchComma (s : Scanner) (rest : Source) : Option Scanner := do
  let s ← s.dropCandidate
  some { s.push .flowEntry with rest, keyAllowed := true }

/-- The hyphen of a sequence. -/
def fetchEntry (s : Scanner) (p : Place) (rest : Source) : Option Scanner := do
  if !s.inFlow && !s.keyAllowed then none
  let s ← (s.openBlock p.column s.tokens.length .blockSequenceStart).dropCandidate
  some { s.push .blockEntry with rest, keyAllowed := true }

/-- The question mark of a key. -/
def fetchKey (s : Scanner) (p : Place) (rest : Source) : Option Scanner := do
  if !s.inFlow && !s.keyAllowed then none
  let s ← (s.openBlock p.column s.tokens.length .blockMappingStart).dropCandidate
  some { s.push .key with rest, keyAllowed := !s.inFlow }

/-- A colon, which makes the candidate a key. -/
def fetchValue (s : Scanner) (p : Place) (rest : Source) : Option Scanner :=
  match s.candidate with
  | some c =>
    let s := (s.insert c.before .key).openBlock c.place.column c.before .blockMappingStart
    some { s.push .value with rest, keyAllowed := false, candidate := none }
  | none =>
    if !s.inFlow && !s.keyAllowed then none
    else
      let s := s.openBlock p.column s.tokens.length .blockMappingStart
      some { s.push .value with rest, keyAllowed := !s.inFlow }

/-- Something that may be a key. -/
def fetchContent (s : Scanner) (p : Place) (read : Scanner → Option (Token × Source)) : Option Scanner := do
  let s ← s.addCandidate p
  let (t, rest) ← read s
  some { s.push t with rest, keyAllowed := false }

/-- A block scalar, which is no key and whose end allows one. -/
def fetchBlock (s : Scanner) (style : Style) (rest : Source) : Option Scanner := do
  let s ← s.dropCandidate
  let (text, rest) ← Scalar.block (style == .folded) s.indent rest
  some { s.push (.scalar style (String.ofList text)) with rest, keyAllowed := true }

/-- A plain scalar. A break after it allows a key. -/
def fetchPlain (s : Scanner) (p : Place) : Option Scanner := do
  let s ← s.addCandidate p
  let (text, broken, rest) ← Scalar.plain s.inFlow (s.indent + 1).toNat [] [] s.rest
  some { s.push (.scalar .plain (String.ofList text)) with rest, keyAllowed := broken }

/-- The characters that do not start a plain scalar. -/
def indicators : List Char := "-?:,[]\x7b\x7d#&*!|>'\"%@\x60".toList

/-- Reads the token that starts with the character `c` at `p`, before `rest`. -/
def fetch (s : Scanner) (c : Char) (p : Place) (rest : Source) : Option Scanner :=
  let loose := atGap rest
  let text (style : Style) (read : List Char × Source) : Token × Source :=
    (.scalar style (String.ofList read.1), read.2)
  if p.column == 0 && c == '%' then do
    let (t, rest) ← Token.takeDirective? rest
    s.fetchMark t rest
  else if atMark '-' s.rest then s.fetchMark .documentStart (s.rest.drop 3)
  else if atMark '.' s.rest then s.fetchMark .documentEnd (s.rest.drop 3)
  else if c == '[' then s.fetchOpen p .flowSequenceStart rest
  else if c == '\x7b' then s.fetchOpen p .flowMappingStart rest
  else if c == ']' then s.fetchClose .flowSequenceEnd rest
  else if c == '\x7d' then s.fetchClose .flowMappingEnd rest
  else if c == ',' then s.fetchComma rest
  else if c == '-' && loose then s.fetchEntry p rest
  else if c == '?' && (s.inFlow || loose) then s.fetchKey p rest
  else if c == ':' && (s.inFlow || loose) then s.fetchValue p rest
  else if c == '*' then s.fetchContent p fun _ => (Token.takeName? rest).map fun (name, rest) => (.reference name, rest)
  else if c == '&' then s.fetchContent p fun _ => (Token.takeName? rest).map fun (name, rest) => (.anchor name, rest)
  else if c == '!' then s.fetchContent p fun s => Token.takeTagToken? s.inFlow rest
  else if c == '|' && !s.inFlow then s.fetchBlock .literal rest
  else if c == '>' && !s.inFlow then s.fetchBlock .folded rest
  else if c == '\'' then s.fetchContent p fun _ => (Scalar.singleQuoted [] [] rest).map (text .singleQuoted)
  else if c == '"' then s.fetchContent p fun _ => (Scalar.doubleQuoted false [] [] rest).map (text .doubleQuoted)
  else if (!isSpace c && !indicators.contains c) || (c == '-' && !loose) ||
      (!s.inFlow && (c == '?' || c == ':') && !loose) then
    s.fetchPlain p
  else none

/-! ### All of them -/

/-- The tokens up to the end of the stream, `fuel` of them at most. -/
def run : Nat → Scanner → Option (List Token)
  | 0, _ => none
  | fuel + 1, s => do
    let (keyAllowed, rest) := skipGap s.inFlow false s.keyAllowed s.rest
    match rest with
    | [] =>
      let s ← (s.closeBlocks (-1)).dropCandidate
      some s.tokens.reverse
    | (c, p) :: cs =>
      let s ← { s with keyAllowed, rest := (c, p) :: cs }.expireAll p
      run fuel (← (s.closeBlocks p.column).fetch c p cs)

end Scanner

/-- The tokens of a text. Each of them takes up at least one character. -/
def Token.scan? (text : String) : Option (List Token) := do
  let source ← Source.ofText? text
  Scanner.run (source.length + 1) { rest := source }

end CircuitDesigner.Yaml
