import CrateAudit.Yaml.Token

/-!
# Nodes

The tokens of a text are put together to documents, each of which is one node: a scalar, a sequence or a
mapping. References to anchors are replaced by what they refer to, so a node never holds one; a reference
from inside the node that it refers to is refused.

The readers take a number that bounds how deep they go. Between two steps at least one token is taken,
so a small multiple of the number of tokens is always enough.
-/

namespace CrateAudit.Yaml

/-- A node of a document, with the place where it starts. -/
inductive Node where
  | scalar (mark : Mark) (tag : Option (List Char)) (plain : Bool) (text : List Char)
  | sequence (mark : Mark) (items : List Node)
  | mapping (mark : Mark) (entries : List (Node × Node))

/-- The node that stands where nothing is written. -/
def Node.empty (m : Mark) : Node := .scalar m none true []

/-- What is left to be put together. -/
structure Composer where
  tokens : List Token
  /-- the anchors that were seen, the last one first; a node that is not complete is missing -/
  anchors : List (List Char × Option Node) := []
  /-- what the handles of tags stand for -/
  handles : List (List Char × List Char) := []

namespace Composer

/-- Takes tokens and gives a result, or refuses. -/
abbrev Reader (α : Type) := StateT Composer (Except Error) α

/-- Where the tokens end. -/
def endToken : Token := ⟨.streamEnd, Mark.start, Mark.start⟩

/-- The next token. -/
def peek : Reader Token := return (← get).tokens.head?.getD endToken

/-- Passes over the next token. -/
def skip : Reader Unit := modify fun c => { c with tokens := c.tokens.drop 1 }

/-- Refuses the document at a place. -/
def refuse {α : Type} (p : Problem) (m : Mark) : Reader α := throw ⟨p, m⟩

/-- Announces an anchor. -/
def openAnchor (name : Option (List Char)) : Reader Unit :=
  match name with
  | none => pure ()
  | some name => modify fun c => { c with anchors := (name, none) :: c.anchors }

/-- Completes the node of an anchor, unless the name was given to another one meanwhile. -/
def closeAnchor (name : Option (List Char)) (node : Node) : Reader Node := do
  match name with
  | none => pure ()
  | some name => modify fun c =>
    match c.anchors.find? (·.1 = name) with
    | some (_, none) => { c with anchors := (name, some node) :: c.anchors }
    | _ => c
  return node

/-- What a tag stands for. -/
def resolveTag (m : Mark) (handle suffix : List Char) : Reader (List Char) := do
  if handle.isEmpty then return suffix
  match (← get).handles.find? (·.1 = handle) with
  | some (_, start) => return start ++ suffix
  | none => refuse .unknownTag m

/-- What stands in front of a node: an anchor and a tag, in any order, each at most once. -/
structure Properties where
  anchor : Option (List Char) := none
  tag : Option (List Char) := none

/-- Takes the properties of a node. -/
def properties : Reader Properties := do
  let t ← peek
  match t.kind with
  | .anchor name =>
    skip
    let u ← peek
    match u.kind with
    | .tag handle suffix => skip; return ⟨some name, some (← resolveTag u.start handle suffix)⟩
    | _ => return ⟨some name, none⟩
  | .tag handle suffix =>
    skip
    let tag ← resolveTag t.start handle suffix
    let u ← peek
    match u.kind with
    | .anchor name => skip; return ⟨some name, some tag⟩
    | _ => return ⟨none, some tag⟩
  | _ => return {}

/-- Where a node stands decides which collections it may be. -/
inductive Place where
  /-- inside brackets -/
  | flow
  /-- outside of brackets -/
  | block
  /-- behind a key, where the entries of a sequence need not be indented -/
  | behindKey
  deriving DecidableEq

mutual

/-- Takes a node. -/
def node : Nat → Place → Reader Node
  | 0, _ => do refuse .missingContent (← peek).start
  | fuel + 1, place => do
    let first ← peek
    match first.kind with
    | .alias name =>
      skip
      match (← get).anchors.find? (·.1 = name) with
      | some (_, some node) => return node
      | _ => refuse .unknownAnchor first.start
    | _ =>
      let props ← properties
      let t ← peek
      let m := first.start
      openAnchor props.anchor
      match t.kind with
      | .scalar plain text => skip; closeAnchor props.anchor (.scalar m props.tag plain text)
      | .flowSequenceStart =>
        skip
        closeAnchor props.anchor (.sequence m (← flowSequence fuel true))
      | .flowMappingStart =>
        skip
        closeAnchor props.anchor (.mapping m (← flowMapping fuel true))
      | kind =>
        if place = .behindKey && kind = .entry then
          closeAnchor props.anchor (.sequence m (← plainSequence fuel))
        else if place ≠ .flow && kind = .sequenceStart then
          skip
          closeAnchor props.anchor (.sequence m (← blockSequence fuel))
        else if place ≠ .flow && kind = .mappingStart then
          skip
          closeAnchor props.anchor (.mapping m (← blockMapping fuel))
        else if props.anchor.isSome || props.tag.isSome then
          closeAnchor props.anchor (.scalar m props.tag true [])
        else refuse .missingContent t.start

/-- Takes a node, unless one of some tokens follows, in which case nothing is written. -/
def nodeUnless : Nat → Place → List Kind → Mark → Reader Node
  | 0, _, _, m => refuse .missingContent m
  | fuel + 1, place, kinds, m => do
    if kinds.contains (← peek).kind then return .empty m
    node fuel place

/-- Takes the entries of an indented sequence. -/
def blockSequence : Nat → Reader (List Node)
  | 0 => do refuse .missingContent (← peek).start
  | fuel + 1 => do
    let t ← peek
    match t.kind with
    | .entry =>
      skip
      let item ← nodeUnless fuel .block [.entry, .blockEnd] t.stop
      return item :: (← blockSequence fuel)
    | .blockEnd => skip; return []
    | _ => refuse .misplacedEntry t.start

/-- Takes the entries of a sequence that is not indented. -/
def plainSequence : Nat → Reader (List Node)
  | 0 => do refuse .missingContent (← peek).start
  | fuel + 1 => do
    let t ← peek
    match t.kind with
    | .entry =>
      skip
      let item ← nodeUnless fuel .block [.entry, .key, .value, .blockEnd] t.stop
      return item :: (← plainSequence fuel)
    | _ => return []

/-- Takes the entries of an indented mapping. -/
def blockMapping : Nat → Reader (List (Node × Node))
  | 0 => do refuse .missingContent (← peek).start
  | fuel + 1 => do
    let t ← peek
    match t.kind with
    | .key =>
      skip
      let key ← nodeUnless fuel .behindKey [.key, .value, .blockEnd] t.stop
      let value ← blockValue fuel
      return (key, value) :: (← blockMapping fuel)
    | .blockEnd => skip; return []
    | _ => refuse .misplacedKey t.start

/-- Takes the value behind a key of an indented mapping. -/
def blockValue : Nat → Reader Node
  | 0 => do refuse .missingContent (← peek).start
  | fuel + 1 => do
    let t ← peek
    match t.kind with
    | .value => skip; nodeUnless fuel .behindKey [.key, .value, .blockEnd] t.stop
    | _ => return .empty t.start

/-- Takes the items of a sequence in brackets. -/
def flowSequence : Nat → Bool → Reader (List Node)
  | 0, _ => do refuse .missingContent (← peek).start
  | fuel + 1, first => do
    let t ← peek
    if t.kind = .flowSequenceEnd then skip; return []
    if !first then
      if t.kind ≠ .separator then refuse .missingSeparator t.start
      skip
    let t ← peek
    match t.kind with
    | .flowSequenceEnd => skip; return []
    | .key =>
      skip
      let stops := [.value, .separator, .flowSequenceEnd]
      let key ← nodeUnless fuel .flow stops t.stop
      let value ← flowValue fuel [.separator, .flowSequenceEnd]
      return .mapping t.start [(key, value)] :: (← flowSequence fuel false)
    | _ =>
      let item ← node fuel .flow
      return item :: (← flowSequence fuel false)

/-- Takes the entries of a mapping in brackets. -/
def flowMapping : Nat → Bool → Reader (List (Node × Node))
  | 0, _ => do refuse .missingContent (← peek).start
  | fuel + 1, first => do
    let t ← peek
    if t.kind = .flowMappingEnd then skip; return []
    if !first then
      if t.kind ≠ .separator then refuse .missingSeparator t.start
      skip
    let t ← peek
    match t.kind with
    | .flowMappingEnd => skip; return []
    | .key =>
      skip
      let next ← peek
      let key ← nodeUnless fuel .flow [.value, .separator, .flowMappingEnd] next.start
      let value ← flowValue fuel [.separator, .flowMappingEnd]
      return (key, value) :: (← flowMapping fuel false)
    | _ =>
      let key ← node fuel .flow
      let value := Node.empty (← peek).start
      return (key, value) :: (← flowMapping fuel false)

/-- Takes the value behind a key in brackets. -/
def flowValue : Nat → List Kind → Reader Node
  | 0, _ => do refuse .missingContent (← peek).start
  | fuel + 1, stops => do
    let t ← peek
    match t.kind with
    | .value =>
      skip
      nodeUnless fuel .flow stops (← peek).start
    | _ => return .empty t.start

end

/-! ### Documents -/

/-- The handles that every document knows. -/
def commonHandles : List (List Char × List Char) :=
  [(['!'], ['!']), (['!', '!'], "tag:yaml.org,2002:".toList)]

/-- Takes the directives in front of a document; `versioned` says that the version was given already. -/
def directives : Nat → Bool → Reader Unit
  | 0, _ => pure ()
  | fuel + 1, versioned => do
    let t ← peek
    match t.kind with
    | .versionDirective major minor =>
      if versioned || major ≠ 1 || minor ≠ 1 then refuse .badDirective t.start
      skip
      directives fuel true
    | .tagDirective handle start =>
      skip
      modify fun c => { c with handles := (handle, start) :: c.handles }
      directives fuel versioned
    | _ => pure ()

/-- Passes over the marks that end a document. -/
def skipEnds : Nat → Reader Unit
  | 0 => pure ()
  | fuel + 1 => do
    if (← peek).kind = .documentEnd then
      skip
      skipEnds fuel

/-- Takes the content of a document. -/
def content (fuel : Nat) : Reader Node := do
  let t ← peek
  match t.kind with
  | .versionDirective .. | .tagDirective .. | .documentStart | .documentEnd | .streamEnd =>
    return .empty t.start
  | _ => node fuel .block

/-- Takes all documents; only the first may come without a mark in front of it. -/
def documents : Nat → Bool → Reader (List Node)
  | 0, _ => pure []
  | fuel + 1, first => do
    let size := (← get).tokens.length
    skipEnds size
    modify fun c => { c with handles := commonHandles }
    let t ← peek
    if t.kind = .streamEnd then return []
    let bare := match t.kind with
      | .versionDirective .. | .tagDirective .. | .documentStart => false
      | _ => true
    if bare then
      if !first then refuse .missingDocumentStart t.start
    else
      directives size false
      let t ← peek
      if t.kind ≠ .documentStart then refuse .missingDocumentStart t.start
      skip
    let node ← content (8 * size + 8)
    return node :: (← documents fuel false)

end Composer

/-- The documents of a byte string. -/
def nodes (bs : Bytes) : Except Error (List Node) := do
  let tokens ← tokens (← characters bs)
  let (nodes, _) ← (Composer.documents (tokens.length + 1) true).run { tokens := tokens }
  return nodes

end CrateAudit.Yaml
