import ScriptTidy.Yaml.TokenQueue

/-!
# The node tree of a YAML document

`document?` composes the first document of a text from its tokens. An alias holds the node
that it stands for; an alias inside the very node it names holds only what can be known of a
node that is not finished.
-/

namespace ScriptTidy.Yaml

/-- A node with the line, from zero, on which it starts. -/
inductive Node
  /-- A scalar. `tag` is empty if there is none; `implicit` says that the kind of value follows
  from the text. -/
  | scalar (line : Nat) (tag : Bytes) (implicit : Bool) (text : List Char)
  | sequence (line : Nat) (items : List Node)
  | mapping (line : Nat) (entries : List (Node × Node))
  | alias (line : Nat) (name : List Char) (target : Node)
  /-- An alias of a collection that contains it and starts on the line `target`. -/
  | enclosing (line : Nat) (name : List Char) (isMapping : Bool) (target : Nat)

/-- What an anchor names. -/
inductive Anchored
  /-- A collection that is not finished, with a number of its own. -/
  | unfinished (id : Nat) (isMapping : Bool) (line : Nat)
  | finished (node : Node)

/-- What is left of the tokens, and the names that are known. -/
structure ComposeState where
  tokens : List Token
  /-- What ended the tokens, if they are not complete. -/
  fault : Option Fault
  /-- Tag handles with the address that each stands for. -/
  handles : List (Bytes × Bytes) := []
  /-- Anchors, the latest first. -/
  anchors : List (List Char × Anchored) := []

/-- A step of composing nodes from tokens. -/
abbrev Composer := StateT ComposeState (Except Fault)

namespace Composer

/-- The next token. -/
def peek : Composer Token := do
  match (← get).tokens with
  | t :: _ => return t
  | [] => throw ((← get).fault.getD (.ofText "unknown problem parsing YAML content"))

/-- Past the next token. -/
def next : Composer Unit := modify fun s => { s with tokens := s.tokens.drop 1 }

/-- A fault at a place; the first line is not named. -/
def failAt {α : Type} (m : Mark) (problem : String) : Composer α :=
  throw { line := m.line, problem := utf8 problem }

/-- The scalar that stands where nothing is written. -/
def emptyScalar (m : Mark) : Node := .scalar m.line [] true []

/-- The node that an alias stands for. -/
def resolveAlias (line : Nat) (name : List Char) : Composer Node := do
  match (← get).anchors.lookup name with
  | some (.finished node) => return .alias line name node
  | some (.unfinished _ isMapping target) => return .enclosing line name isMapping target
  | none =>
    throw { problem := utf8 "unknown anchor '" ++ Utf8.encodeChars name ++ utf8 "' referenced" }

/-- Lets an anchor, if there is one, name something. -/
def bindAnchor (anchor : Option (List Char)) (what : Anchored) : Composer Unit :=
  match anchor with
  | none => pure ()
  | some name => modify fun s => { s with anchors := (name, what) :: s.anchors }

/-- The anchors with the unfinished collection of the given number finished. -/
def finishAnchor (id : Nat) (node : Node) :
    List (List Char × Anchored) → List (List Char × Anchored)
  | [] => []
  | (name, .unfinished i m l) :: rest =>
    if i = id then (name, .finished node) :: rest
    else (name, .unfinished i m l) :: finishAnchor id node rest
  | entry :: rest => entry :: finishAnchor id node rest

/-- A collection with its anchor: while it is composed, the anchor names an unfinished node. -/
def collection (anchor : Option (List Char)) (line : Nat) (isMapping : Bool)
    (compose : Composer Node) : Composer Node := do
  let id := (← get).anchors.length
  bindAnchor anchor (.unfinished id isMapping line)
  let node ← compose
  if anchor.isSome then modify fun s => { s with anchors := finishAnchor id node s.anchors }
  return node

/-- What stands before the content of a node. -/
structure Properties where
  anchor : Option (List Char) := none
  /-- Handle and suffix of the tag. -/
  tag : Option (Bytes × Bytes × Mark) := none

/-- Reads an anchor if one comes next. -/
def readAnchorOf (p : Properties) : Composer Properties := do
  match (← peek).kind with
  | .anchor name => next; return { p with anchor := some name }
  | _ => return p

/-- Reads a tag if one comes next. -/
def readTagOf (p : Properties) : Composer Properties := do
  let t ← peek
  match t.kind with
  | .tag handle suffix => next; return { p with tag := some (handle, suffix, t.start) }
  | _ => return p

/-- An anchor and a tag in either order. -/
def properties : Composer Properties := do
  match (← peek).kind with
  | .anchor _ => readAnchorOf {} >>= readTagOf
  | .tag _ _ => readTagOf {} >>= readAnchorOf
  | _ => return {}

/-- The whole text of a tag; empty if there is none. -/
def tagText (p : Properties) : Composer Bytes := do
  match p.tag with
  | none => return []
  | some ([], suffix, _) => return suffix
  | some (handle, suffix, m) =>
    match (← get).handles.lookup handle with
    | none => failAt m "found undefined tag handle"
    | some uri =>
      if (uri ++ suffix).isEmpty then failAt m "found undefined tag handle"
      else return uri ++ suffix

/-- The kinds of token before which a key or a value of a block mapping is empty. -/
def endsBlockPair : TokenKind → Bool
  | .key | .value | .blockEnd => true
  | _ => false

/-- The fault of a text that is nested more deeply than it has tokens; there is none. -/
def outOfFuel {α : Type} : Composer α := throw (.ofText "unknown problem parsing YAML content")

mutual

/-- A node. `block` allows block collections, `indentless` sequences without indentation. The
fuel bounds the number of steps. -/
def node (fuel : Nat) (block indentless : Bool) : Composer Node :=
  match fuel with
  | 0 => outOfFuel
  | fuel + 1 => do
    let first ← peek
    let line := first.start.line
    if let .alias name := first.kind then
      let node ← resolveAlias line name
      next
      return node
    let p ← properties
    let t ← peek
    let tag ← tagText p
    match t.kind, block, indentless with
    | .blockEntry, _, true =>
      collection p.anchor line false (return .sequence line (← indentlessItems fuel))
    | .scalar text plain, _, _ =>
      let implicit := (tag.isEmpty && plain) || tag = utf8 "!"
      let node := Node.scalar line tag implicit text
      next
      bindAnchor p.anchor (.finished node)
      return node
    | .flowSequenceStart, _, _ =>
      collection p.anchor line false (next *> return .sequence line (← flowItems fuel true))
    | .flowMappingStart, _, _ =>
      collection p.anchor line true (next *> return .mapping line (← flowPairs fuel true))
    | .blockSequenceStart, true, _ =>
      collection p.anchor line false (next *> return .sequence line (← blockItems fuel))
    | .blockMappingStart, true, _ =>
      collection p.anchor line true (next *> return .mapping line (← blockPairs fuel))
    | _, _, _ =>
      if p.anchor.isNone && tag.isEmpty then
        failAt t.start "did not find expected node content"
      else
        let node := Node.scalar line tag tag.isEmpty []
        bindAnchor p.anchor (.finished node)
        return node

/-- The items of a block sequence. -/
def blockItems (fuel : Nat) : Composer (List Node) :=
  match fuel with
  | 0 => outOfFuel
  | fuel + 1 => do
    let t ← peek
    match t.kind with
    | .blockEntry =>
      next
      let item ← match (← peek).kind with
        | .blockEntry | .blockEnd => pure (emptyScalar t.stop)
        | _ => node fuel true false
      return item :: (← blockItems fuel)
    | .blockEnd => next; return []
    | _ => failAt t.start "did not find expected '-' indicator"

/-- The items of a sequence that is not indented. -/
def indentlessItems (fuel : Nat) : Composer (List Node) :=
  match fuel with
  | 0 => outOfFuel
  | fuel + 1 => do
    let t ← peek
    match t.kind with
    | .blockEntry =>
      next
      let k := (← peek).kind
      let item ← if k = .blockEntry || endsBlockPair k then pure (emptyScalar t.stop)
        else node fuel true false
      return item :: (← indentlessItems fuel)
    | _ => return []

/-- The entries of a block mapping. -/
def blockPairs (fuel : Nat) : Composer (List (Node × Node)) :=
  match fuel with
  | 0 => outOfFuel
  | fuel + 1 => do
    let t ← peek
    match t.kind with
    | .key =>
      next
      let key ← if endsBlockPair (← peek).kind then pure (emptyScalar t.stop)
        else node fuel true true
      let v ← peek
      let value ← if v.kind = .value then do
          next
          if endsBlockPair (← peek).kind then pure (emptyScalar v.stop) else node fuel true true
        else pure (emptyScalar v.start)
      return (key, value) :: (← blockPairs fuel)
    | .blockEnd => next; return []
    | _ => failAt t.start "did not find expected key"

/-- The value of a pair in a flow collection that ends with `close`. -/
def flowValue (fuel : Nat) (close : TokenKind) : Composer Node :=
  match fuel with
  | 0 => outOfFuel
  | fuel + 1 => do
    let v ← peek
    if v.kind = .value then
      next
      let k := (← peek).kind
      if k = .flowEntry || k = close then return emptyScalar v.start else node fuel false false
    else return emptyScalar v.start

/-- The items of a flow sequence, with commas between them. -/
def flowItems (fuel : Nat) (first : Bool) : Composer (List Node) :=
  match fuel with
  | 0 => outOfFuel
  | fuel + 1 => do
    let t ← peek
    if t.kind = .flowSequenceEnd then next; return []
    if !first then
      if t.kind = .flowEntry then next
      else failAt t.start "did not find expected ',' or ']'"
    let t ← peek
    match t.kind with
    | .flowSequenceEnd => next; return []
    | .key =>
      next
      let k ← peek
      let key ←
        if k.kind = .value || k.kind = .flowEntry || k.kind = .flowSequenceEnd then do
          next
          pure (emptyScalar k.stop)
        else node fuel false false
      let value ← flowValue fuel .flowSequenceEnd
      return .mapping t.start.line [(key, value)] :: (← flowItems fuel false)
    | _ => return (← node fuel false false) :: (← flowItems fuel false)

/-- The entries of a flow mapping, with commas between them. -/
def flowPairs (fuel : Nat) (first : Bool) : Composer (List (Node × Node)) :=
  match fuel with
  | 0 => outOfFuel
  | fuel + 1 => do
    let t ← peek
    if t.kind = .flowMappingEnd then next; return []
    if !first then
      if t.kind = .flowEntry then next
      else failAt t.start "did not find expected ',' or '\x7d'"
    let t ← peek
    match t.kind with
    | .flowMappingEnd => next; return []
    | .key =>
      next
      let k ← peek
      let key ← if k.kind = .value || k.kind = .flowEntry || k.kind = .flowMappingEnd then
          pure (emptyScalar k.start)
        else node fuel false false
      let value ← flowValue fuel .flowMappingEnd
      return (key, value) :: (← flowPairs fuel false)
    | _ =>
      let key ← node fuel false false
      let after ← peek
      return (key, emptyScalar after.start) :: (← flowPairs fuel false)

end

/-- Adds a tag handle that is not known yet. -/
def addHandle (m : Mark) (handle uri : Bytes) : Composer Unit := do
  if ((← get).handles.lookup handle).isSome then failAt m "found duplicate %TAG directive"
  modify fun s => { s with handles := s.handles ++ [(handle, uri)] }

/-- The directives before a document; `versioned` says that the version was given. -/
def directives : Nat → Bool → Composer Unit
  | 0, _ => outOfFuel
  | fuel + 1, versioned => do
    let t ← peek
    match t.kind with
    | .versionDirective major minor =>
      if versioned then failAt t.start "found duplicate %YAML directive"
      if major ≠ 1 ∨ minor ≠ 1 then failAt t.start "found incompatible YAML document"
      next
      directives fuel true
    | .tagDirective handle uri =>
      addHandle t.start handle uri
      next
      directives fuel versioned
    | _ => return ()

/-- The tag handles that every document has. -/
def standardHandles : List (Bytes × Bytes) :=
  [(utf8 "!", utf8 "!"), (utf8 "!!", utf8 "tag:yaml.org,2002:")]

/-- Whether the token belongs to the frame of documents and not to their content. -/
def isFrame : TokenKind → Bool
  | .versionDirective .. | .tagDirective .. | .documentStart | .documentEnd | .streamEnd => true
  | _ => false

/-- The content of the first document, if the text has one. -/
def firstDocument (fuel : Nat) : Composer (Option Node) := do
  let first ← peek
  if first.kind = .streamEnd then return none
  let explicit := isFrame first.kind && first.kind != .documentEnd
  if explicit then directives fuel false
  modify fun s => { s with handles := s.handles ++ standardHandles }
  let root ← if explicit then do
      let t ← peek
      if t.kind ≠ .documentStart then failAt t.start "did not find expected <document start>"
      next
      let t ← peek
      if isFrame t.kind then pure (emptyScalar t.start) else node fuel true false
    else node fuel true false
  let _ ← peek
  return some root

end Composer

/-- The root of the first document of a text, if there is a document. -/
def document? (text : Bytes) : Except Fault (Option Node) := do
  let (ts, fault) := tokens text
  let (root, _) ← (Composer.firstDocument (4 * ts.length + 8)).run { tokens := ts, fault }
  return root

end ScriptTidy.Yaml
