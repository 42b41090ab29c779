import CircuitDesigner.Yaml.Token

/-! Documents of YAML: trees of scalars, sequences and mappings.

    Reading a tree takes a bound on its steps. Each step takes at least one token or goes one level deeper
    before the next token is taken, so that twice the number of tokens is enough. -/

namespace CircuitDesigner.Yaml

inductive Node where
  | scalar (tag : Option Tag) (style : Style) (text : String)
  | sequence (tag : Option Tag) (items : List Node)
  | mapping (tag : Option Tag) (members : List (Node × Node))
  /-- The node of an anchor with that number, once more. -/
  | reference (number : Nat)

/-- What stands where a node is left out. -/
def Node.blank : Node := .scalar none .plain ""

/-- An anchor that starts a node. -/
structure Anchor where
  /-- How many names of anchors there are before it. A name that is used again keeps its place among them, so
      that two anchors may have one number. -/
  number : Nat
  /-- How many anchors start before it. -/
  start : Nat

/-- A tree that is being read. -/
structure Reader where
  tokens : List Token
  /-- What handles stand for. -/
  handles : List (String × Tag)
  /-- The number of the last anchor of each name. -/
  names : List (String × Nat) := []
  /-- How many anchors have started. -/
  started : Nat := 0
  /-- The finished nodes with anchors. -/
  anchored : List (Anchor × Node) := []

namespace Reader

/-- The first of some pairs with that key. -/
def lookUp {α : Type} (key : String) (pairs : List (String × α)) : Option α :=
  (pairs.find? fun p => p.1 == key).map (·.2)

def drop (r : Reader) (count : Nat) : Reader := { r with tokens := r.tokens.drop count }

/-- The next token is one of these. -/
def atAny (r : Reader) (ts : List Token) : Bool := r.tokens.head?.any ts.contains

/-- The tag of a handle and a suffix; none if the handle stands for nothing. -/
def tag? (r : Reader) (handle : String) (suffix : Tag) : Option Tag :=
  if handle.isEmpty then some suffix else (lookUp handle r.handles).map (· ++ suffix)

/-- The anchor of a name, and the reader after it has started. -/
def startAnchor (r : Reader) (name : String) : Anchor × Reader :=
  let number := r.names.length
  (⟨number, r.started⟩,
    { r with names := (name, number) :: r.names.filter fun n => n.1 != name, started := r.started + 1 })

/-- Anchor and tag of a node. -/
def properties (r : Reader) : Option (Option Anchor × Option Tag × Reader) :=
  match r.tokens with
  | .anchor name :: .tag handle suffix :: _ => do
    let tag ← r.tag? handle suffix
    let (anchor, r) := r.startAnchor name
    some (some anchor, some tag, r.drop 2)
  | .tag handle suffix :: .anchor name :: _ => do
    let tag ← r.tag? handle suffix
    let (anchor, r) := r.startAnchor name
    some (some anchor, some tag, r.drop 2)
  | .anchor name :: _ =>
    let (anchor, r) := r.startAnchor name
    some (some anchor, none, r.drop 1)
  | .tag handle suffix :: _ => do
    let tag ← r.tag? handle suffix
    some (none, some tag, r.drop 1)
  | _ => some (none, none, r)

/-- A finished node, kept if it has an anchor. -/
def keep (anchor : Option Anchor) (read : Node × Reader) : Node × Reader :=
  match anchor with
  | none => read
  | some anchor => (read.1, { read.2 with anchored := (anchor, read.1) :: read.2.anchored })

mutual

/-- A node. Blocks are not allowed inside brackets; a sequence that is the value of a key need not be indented
    deeper than the key. -/
def node : Nat → Bool → Bool → Reader → Option (Node × Reader)
  | 0, _, _, _ => none
  | fuel + 1, inBlock, indentless, r =>
    match r.tokens with
    | .reference name :: _ => (lookUp name r.names).map fun number => (.reference number, r.drop 1)
    | _ => do
      let (anchor, tag, r) ← r.properties
      let read ←
        match r.tokens with
        | .scalar style text :: _ => some (.scalar tag style text, r.drop 1)
        | .flowSequenceStart :: _ =>
          (flowItems fuel true (r.drop 1)).map fun (items, r) => (.sequence tag items, r)
        | .flowMappingStart :: _ =>
          (flowMembers fuel true (r.drop 1)).map fun (members, r) => (.mapping tag members, r)
        | .blockEntry :: _ =>
          if indentless then (indentlessItems fuel r).map fun (items, r) => (.sequence tag items, r)
          else if anchor.isSome || tag.isSome then some (.scalar tag .plain "", r)
          else none
        | .blockSequenceStart :: _ =>
          if inBlock then (blockItems fuel (r.drop 1)).map fun (items, r) => (.sequence tag items, r)
          else if anchor.isSome || tag.isSome then some (.scalar tag .plain "", r)
          else none
        | .blockMappingStart :: _ =>
          if inBlock then (blockMembers fuel (r.drop 1)).map fun (members, r) => (.mapping tag members, r)
          else if anchor.isSome || tag.isSome then some (.scalar tag .plain "", r)
          else none
        | _ => if anchor.isSome || tag.isSome then some (.scalar tag .plain "", r) else none
      some (keep anchor read)

/-- A node, or nothing where one of these tokens comes next. -/
def nodeBefore : Nat → List Token → Bool → Bool → Reader → Option (Node × Reader)
  | 0, _, _, _, _ => none
  | fuel + 1, ends, inBlock, indentless, r =>
    if r.atAny ends then some (.blank, r) else node fuel inBlock indentless r

/-- The value of a key, or nothing where it has no colon. -/
def valueBefore : Nat → List Token → Bool → Reader → Option (Node × Reader)
  | 0, _, _, _ => none
  | fuel + 1, ends, inBlock, r =>
    if r.atAny [.value] then nodeBefore fuel ends inBlock inBlock (r.drop 1) else some (.blank, r)

def blockItems : Nat → Reader → Option (List Node × Reader)
  | 0, _ => none
  | fuel + 1, r =>
    if r.atAny [.blockEntry] then do
      let (item, r) ← nodeBefore fuel [.blockEntry, .blockEnd] true false (r.drop 1)
      let (items, r) ← blockItems fuel r
      some (item :: items, r)
    else if r.atAny [.blockEnd] then some ([], r.drop 1)
    else none

def indentlessItems : Nat → Reader → Option (List Node × Reader)
  | 0, _ => none
  | fuel + 1, r =>
    if r.atAny [.blockEntry] then do
      let (item, r) ← nodeBefore fuel [.blockEntry, .key, .value, .blockEnd] true false (r.drop 1)
      let (items, r) ← indentlessItems fuel r
      some (item :: items, r)
    else some ([], r)

def blockMembers : Nat → Reader → Option (List (Node × Node) × Reader)
  | 0, _ => none
  | fuel + 1, r =>
    if r.atAny [.key] then do
      let (key, r) ← nodeBefore fuel [.key, .value, .blockEnd] true true (r.drop 1)
      let (value, r) ← valueBefore fuel [.key, .value, .blockEnd] true r
      let (members, r) ← blockMembers fuel r
      some ((key, value) :: members, r)
    else if r.atAny [.blockEnd] then some ([], r.drop 1)
    else none

/-- The items of a sequence in brackets. An item with a colon is a mapping of one member. -/
def flowItems : Nat → Bool → Reader → Option (List Node × Reader)
  | 0, _, _ => none
  | fuel + 1, first, r =>
    if r.atAny [.flowSequenceEnd] then some ([], r.drop 1)
    else if !first && !r.atAny [.flowEntry] then none
    else do
      let r := if first then r else r.drop 1
      if r.atAny [.key] then
        let ends := [.value, .flowEntry, .flowSequenceEnd]
        let r := r.drop 1
        let (key, r) ← if r.atAny ends then some (.blank, r.drop 1) else node fuel false false r
        let (value, r) ← valueBefore fuel [.flowEntry, .flowSequenceEnd] false r
        let (items, r) ← flowItems fuel false r
        some (.mapping none [(key, value)] :: items, r)
      else if r.atAny [.flowSequenceEnd] then some ([], r.drop 1)
      else
        let (item, r) ← node fuel false false r
        let (items, r) ← flowItems fuel false r
        some (item :: items, r)

/-- The members of a mapping in braces. One without a colon is a key alone. -/
def flowMembers : Nat → Bool → Reader → Option (List (Node × Node) × Reader)
  | 0, _, _ => none
  | fuel + 1, first, r =>
    if r.atAny [.flowMappingEnd] then some ([], r.drop 1)
    else if !first && !r.atAny [.flowEntry] then none
    else do
      let r := if first then r else r.drop 1
      if r.atAny [.key] then
        let (key, r) ← nodeBefore fuel [.value, .flowEntry, .flowMappingEnd] false false (r.drop 1)
        let (value, r) ← valueBefore fuel [.flowEntry, .flowMappingEnd] false r
        let (members, r) ← flowMembers fuel false r
        some ((key, value) :: members, r)
      else if r.atAny [.flowMappingEnd] then some ([], r.drop 1)
      else
        let (key, r) ← node fuel false false r
        let (members, r) ← flowMembers fuel false r
        some ((key, .blank) :: members, r)

end

end Reader

/-! ### Documents -/

structure Document where
  /-- None if the stream is empty. -/
  root : Option Node
  anchored : List (Anchor × Node) := []

namespace Document

/-- The handles that need no directive. -/
def standardHandles : List (String × Tag) := [("!", .ofText "!"), ("!!", .ofText "tag:yaml.org,2002:")]

/-- The handles of the directives at the head of a document, and what follows them. Each handle may be given
    once, and a version, if there is one, has to be 1.1 or 1.2. -/
def directives? : Bool → List (String × Tag) → List Token → Option (List (String × Tag) × List Token)
  | versioned, handles, .version major minor :: ts =>
    if versioned || major != 1 || (minor != 1 && minor != 2) then none else directives? true handles ts
  | versioned, handles, .handle name lead :: ts =>
    if (Reader.lookUp name handles).isSome then none else directives? versioned ((name, lead) :: handles) ts
  | _, handles, ts => some (handles, ts)

/-- Nothing but marks of the end. -/
def ended (ts : List Token) : Bool := ts.all (· == .documentEnd)

/-- The one document of a stream. -/
def ofTokens? (ts : List Token) : Option Document := do
  let fuel := 2 * ts.length + 2
  let read (handles : List (String × Tag)) (ts : List Token) : Option Document := do
    let (root, r) ← Reader.node fuel true false { tokens := ts, handles := handles ++ standardHandles }
    if ended r.tokens then some ⟨some root, r.anchored⟩ else none
  match ts with
  | [] => some ⟨none, []⟩
  | .version .. :: _ | .handle .. :: _ | .documentStart :: _ =>
    match ← directives? false [] ts with
    | (handles, .documentStart :: ts) => if ended ts then some ⟨some .blank, []⟩ else read handles ts
    | _ => none
  | ts => read [] ts

/-- The document of a text; none if the text is not YAML or holds several documents. -/
def parse? (text : String) : Option Document := do ofTokens? (← Token.scan? text)

/-- The one of two anchors that starts later, with its node. -/
def later (best : Option (Anchor × Node)) (a : Anchor × Node) : Option (Anchor × Node) :=
  match best with
  | some b => if a.1.start < b.1.start then some b else some a
  | none => some a

/-- The node itself, or the one that it refers to. Of the anchors with one number the last one counts, wherever
    the reference stands. -/
def resolve? (d : Document) : Node → Option Node
  | .reference number => ((d.anchored.filter fun a => a.1.number == number).foldl later none).map (·.2)
  | n => some n

end Document

end CircuitDesigner.Yaml
