import KeyConsole.Yaml.Node
import KeyConsole.Yaml.Layout

/-!
# Yaml.Node.Reading: tokens into a document

Reading goes down the tree.  Every function takes a bound for its depth, which the number of tokens gives,
since none of them calls itself twice without a token in between.  A source holds one document or none.

The number of an anchor is the number of different names that anchors before it have.  So an anchor with a
name that was there before can get a number that another one gets as well; an alias with this number stands
for the last of their nodes, even if the name it was written with is not the name of that anchor.
-/

namespace KeyConsole.Yaml

/-- The tokens that are left, and the anchors so far. -/
structure Rest where
  tokens : List Token
  /-- What the handles of tags stand for. -/
  handles : List (String × Tag) := []
  /-- The different names of anchors, each with the number of its last anchor. -/
  numbers : List (String × Nat) := []
  /-- The numbers of all anchors and their nodes, in the order of the source. -/
  anchored : Array (Nat × Node) := #[]

/-- A step of reading; nothing if the tokens do not fit. -/
abbrev Read := OptionT (StateM Rest)

namespace Read

/-- The next token. -/
def peek : Read (Option Token) := do return (← get).tokens.head?

/-- Pass over the next token. -/
def drop : Read Unit := modify fun r => { r with tokens := r.tokens.tail }

/-- Whether the next token is this one; if so, it is passed over. -/
def eat (t : Token) : Read Bool := do
  if (← peek) = some t then
    drop
    return true
  else return false

/-- Whether the next token is one of these. -/
def isAt (ts : List Token) : Read Bool := do return (← peek).any ts.contains

/-- The tag with a handle; a handle that stands for nothing does not fit. -/
def resolveTag (handle : String) (suffix : Tag) : Read Tag := do
  if handle.isEmpty then return suffix
  else
    match (← get).handles.lookup handle with
    | some start => return start ++ suffix
    | none => failure

/-- What stands before a node. -/
structure Properties where
  /-- The place of the anchor among all anchors. -/
  anchor : Option Nat := none
  tag : Option Tag := none

/-- Note an anchor, whose node is not known yet. -/
def anchor (p : Properties) : Read Properties := do
  match ← peek with
  | some (.anchor name) =>
    drop
    let { numbers, anchored, .. } ← get
    let number := numbers.length
    modify fun r =>
      { r with
        numbers := (name, number) :: numbers.filter (·.1 ≠ name)
        anchored := anchored.push (number, .nothing) }
    return { p with anchor := some anchored.size }
  | _ => return p

/-- Note a tag. -/
def tag (p : Properties) : Read Properties := do
  match ← peek with
  | some (.tag handle suffix) =>
    drop
    return { p with tag := some (← resolveTag handle suffix) }
  | _ => return p

/-- Read anchor and tag of a node, in either order. -/
def properties : Read Properties := do
  match ← peek with
  | some (.tag ..) => anchor (← tag {})
  | _ => tag (← anchor {})

/-- Something stands before a node. -/
def Properties.isAny (p : Properties) : Bool := p.anchor.isSome || p.tag.isSome

/-- Note the node of an anchor. -/
def noted (p : Properties) (node : Node) : Read Node := do
  match p.anchor with
  | none => return node
  | some place =>
    modify fun r => { r with anchored := r.anchored.modify place fun (number, _) => (number, node) }
    return node

/-- The place where a node may stand. -/
inductive Place where
  /-- Within brackets: no block may begin. -/
  | flow
  | block
  /-- In a mapping of blocks, where the items of a sequence need not be indented. -/
  | entry
  deriving DecidableEq

mutual

/-- Read a node. -/
def node : Nat → Place → Read Node
  | 0, _ => failure
  | depth + 1, place => do
    match ← peek with
    | some (.alias name) =>
      drop
      match (← get).numbers.lookup name with
      | some number => return .alias number
      | none => failure
    | _ =>
      let p ← properties
      match ← peek with
      | some (.text style s) =>
        drop
        noted p (.text (p.tag.filter (· ≠ Tag.bare)) style s)
      | some .flowSequenceStart =>
        drop
        noted p (.sequence (← flowItems depth []))
      | some .flowMappingStart =>
        drop
        noted p (.mapping (← flowEntries depth []))
      | some .blockSequenceStart =>
        if place = .flow then failure
        drop
        noted p (.sequence (← blockItems depth []))
      | some .blockMappingStart =>
        if place = .flow then failure
        drop
        noted p (.mapping (← blockEntries depth []))
      | some .blockEntry =>
        if place = .entry then noted p (.sequence (← looseItems depth []))
        else if p.isAny then noted p (.text p.tag .plain "")
        else failure
      | _ => if p.isAny then noted p (.text p.tag .plain "") else failure

/-- Read a node, or nothing if one of some tokens follows. -/
def nodeUnless : Nat → List Token → Place → Read Node
  | 0, _, _ => failure
  | depth + 1, ts, place => do
    if ← isAt ts then return .nothing else node depth place

/-- Read the items of a block, up to its end. -/
def blockItems : Nat → List Node → Read (List Node)
  | 0, _ => failure
  | depth + 1, done => do
    if ← eat .blockEntry then
      let item ← nodeUnless depth [.blockEntry, .blockEnd] .block
      blockItems depth (item :: done)
    else if ← eat .blockEnd then return done.reverse
    else failure

/-- Read items that are not indented. -/
def looseItems : Nat → List Node → Read (List Node)
  | 0, _ => failure
  | depth + 1, done => do
    if ← eat .blockEntry then
      let item ← nodeUnless depth [.blockEntry, .key, .value, .blockEnd] .block
      looseItems depth (item :: done)
    else return done.reverse

/-- Read the entries of a block, up to its end. -/
def blockEntries : Nat → List (Node × Node) → Read (List (Node × Node))
  | 0, _ => failure
  | depth + 1, done => do
    if ← eat .key then
      let key ← nodeUnless depth [.key, .value, .blockEnd] .entry
      let value ←
        if ← eat .value then nodeUnless depth [.key, .value, .blockEnd] .entry else pure .nothing
      blockEntries depth ((key, value) :: done)
    else if ← eat .blockEnd then return done.reverse
    else failure

/-- Read the items within brackets, up to the closing one.  An item may be a single entry of a mapping. -/
def flowItems : Nat → List Node → Read (List Node)
  | 0, _ => failure
  | depth + 1, done => do
    if ← eat .flowSequenceEnd then return done.reverse
    if !done.isEmpty then
      if !(← eat .flowEntry) then failure
      if ← eat .flowSequenceEnd then return done.reverse
    if ← eat .key then
      let key ←
        if ← isAt [.value, .flowEntry, .flowSequenceEnd] then
          drop
          pure .nothing
        else node depth .flow
      let value ←
        if ← eat .value then nodeUnless depth [.flowEntry, .flowSequenceEnd] .flow else pure .nothing
      flowItems depth (.mapping [(key, value)] :: done)
    else flowItems depth ((← node depth .flow) :: done)

/-- Read the entries within braces, up to the closing one. -/
def flowEntries : Nat → List (Node × Node) → Read (List (Node × Node))
  | 0, _ => failure
  | depth + 1, done => do
    if ← eat .flowMappingEnd then return done.reverse
    if !done.isEmpty then
      if !(← eat .flowEntry) then failure
      if ← eat .flowMappingEnd then return done.reverse
    if ← eat .key then
      let key ← nodeUnless depth [.value, .flowEntry, .flowMappingEnd] .flow
      let value ←
        if ← eat .value then nodeUnless depth [.flowEntry, .flowMappingEnd] .flow else pure .nothing
      flowEntries depth ((key, value) :: done)
    else flowEntries depth ((← node depth .flow, .nothing) :: done)

end

/-- The handles of tags that need no directive. -/
def knownHandles : List (String × Tag) := [("!", .bare), ("!!", .common "")]

/-- Read the directives before a document; each thing may be said once only. -/
def directives : Nat → Bool → List (String × Tag) → Read (Bool × List (String × Tag))
  | 0, _, _ => failure
  | fuel + 1, versioned, handles => do
    match ← peek with
    | some (.version major minor) =>
      if versioned || major ≠ 1 || !(minor = 1 || minor = 2) then failure
      drop
      directives fuel true handles
    | some (.tagHandle handle start) =>
      if handles.any (·.1 = handle) then failure
      drop
      directives fuel versioned ((handle, start) :: handles)
    | _ => return (versioned, handles)

/-- Pass over the ends of documents. -/
def dropEnds : Nat → Read Unit
  | 0 => return
  | fuel + 1 => do if ← eat .documentEnd then dropEnds fuel

/-- Read the only document there is. -/
def document : Read Document := do
  if (← peek).isNone then return {}
  let bound := 4 * ((← get).tokens.length + 1)
  let (versioned, handles) ← directives bound false []
  modify fun r => { r with handles := handles ++ knownHandles }
  let root ←
    if ← eat .documentStart then
      if (← peek).isNone then pure .nothing else nodeUnless bound [.documentStart, .documentEnd] .block
    else if versioned || !handles.isEmpty then failure
    else node bound .block
  dropEnds bound
  if (← peek).isSome then failure
  return { root, anchored := (← get).anchored.toList.reverse }

end Read

/-- The document of a source, if it can be read and is the only one. -/
def Document.read? (source : String) : Option Document := do
  let tokens ← tokens? source
  (Read.document.run { tokens }).1

end KeyConsole.Yaml
