import PipelineManifest.Yaml.Node.Basic
import PipelineManifest.Yaml.Token.Basic

/-!
# `PipelineManifest.Yaml.Node.Compose`: from tokens to the graph of a document

The nodes of a document are read from its tokens by descent. Only as many tokens are looked at
as are needed to see where the document ends, so what is wrong behind it is not noticed yet.

* `ComposeState`: the tokens that are left, the nodes so far, and the anchors.
* `Compose`: reading from a state.
* `composeNode`: a node with all that it contains.
* `composeDocument`: the next document of a text.
-/

set_option autoImplicit false

namespace PipelineManifest.Yaml

/-- The state of reading nodes. -/
structure ComposeState where
  tokens : List Token
  /-- What stops the text after the last token. -/
  defect : Option Defect
  graph : Graph := .empty
  anchors : List (String × NodeId) := []
  handles : List (String × String) := []

/-- A reading of nodes from tokens. -/
abbrev Compose (α : Type) := StateT ComposeState (Except Defect) α

namespace Compose

/-- Rejects the text. -/
def reject {α : Type} : Compose α := throw .rejected

/-- The next token, which stays where it is. -/
def peek : Compose Token := do
  let s ← get
  match s.tokens with
  | t :: _ => return t
  | [] => throw (s.defect.getD .rejected)

/-- Takes the next token away. -/
def drop : Compose Unit := modify fun s => { s with tokens := s.tokens.tail }

/-- Takes the next token away if it is the given one. -/
def dropIf (t : Token) : Compose Bool := do
  if (← peek) = t then
    drop
    return true
  else return false

/-- Adds a node. -/
def add (n : Node) : Compose NodeId := modifyGet fun s =>
  let (id, graph) := s.graph.add n
  (id, { s with graph })

/-- Fills in a node whose contents have been read. -/
def fill (id : NodeId) (n : Node) : Compose Unit :=
  modify fun s => { s with graph := s.graph.set id n }

/-- Lets an anchor name a node. -/
def name (anchor : Option String) (id : NodeId) : Compose Unit :=
  match anchor with
  | some a => modify fun s => { s with anchors := (a, id) :: s.anchors }
  | none => return ()

/-- An empty scalar where a node is left out. -/
def nothing : Compose NodeId := add (.scalar .null "")

/-- The anchor at the position, if there is one. -/
def anchor? : Compose (Option String) := do
  match ← peek with
  | .anchor a => drop; return some a
  | _ => return none

/-- The tag at the position, if there is one. -/
def tag? : Compose (Option WrittenTag) := do
  match ← peek with
  | .tag t => drop; return some t
  | _ => return none

/-- Anchor and tag of a node, in either order. -/
def properties : Compose (Option String × Option WrittenTag) := do
  match ← anchor? with
  | some a => return (some a, ← tag?)
  | none =>
    match ← tag? with
    | some t => return (← anchor?, some t)
    | none => return (none, none)

/-- The text of a tag, its handle replaced by what it stands for. -/
def tagText (t : WrittenTag) : Compose String := do
  match t.handle with
  | none => return t.suffix
  | some handle =>
    match (← get).handles.lookup handle with
    | some meaning => return meaning ++ t.suffix
    | none => reject

/-- The text of a tag that may be left out. -/
def tagText? : Option WrittenTag → Compose (Option String)
  | some t => return some (← tagText t)
  | none => return none

end Compose

/-- The text of the tag that leaves it to the node what it is. -/
def openTag : String := "!"

/-- The tag of a scalar. Without a tag a plain one gets it by its form and all others are texts;
the open tag lets the form decide in any case. -/
def scalarTag (tag : Option String) (plain : Bool) (text : String) : Tag :=
  match tag with
  | none => if plain then Tag.ofPlain text else .text
  | some t => if t = openTag then Tag.ofPlain text else Tag.ofText t

/-- The tag of a collection. -/
def collectionTag (tag : Option String) (untagged : Tag) : Tag :=
  match tag with
  | none => untagged
  | some t => if t = openTag then untagged else Tag.ofText t

/-- Tokens that end an entry of a block mapping. -/
def endsBlockPart : Token → Bool
  | .key | .value | .blockEnd => true
  | _ => false

/-- Tokens that end an item of a sequence whose dashes stand in the column of its key. -/
def endsDashItem (t : Token) : Bool := t = .blockEntry || endsBlockPart t

/-- Tokens that end a part of an entry between brackets. -/
def endsFlowPart (close : Token) (t : Token) : Bool := t = .flowEntry || t = close

open Compose

mutual

/-- A node with all that it contains. `block` says whether block collections may start here,
and `dashes` whether a sequence may whose dashes stand in the column of its key. Every call
takes a token or goes one rule further down, so a multiple of the number of tokens is fuel
enough. -/
def composeNode : (fuel : Nat) → (block dashes : Bool) → Compose NodeId
  | 0, _, _ => reject
  | fuel + 1, block, dashes => do
    if let .alias name := ← peek then
      drop
      match (← get).anchors.lookup name with
      | some id => return id
      | none => reject
    else
      let (anchor, written) ← properties
      let tag ← tagText? written
      -- A name belongs to one node of a document.
      if let some a := anchor then
        if ((← get).anchors.lookup a).isSome then reject
      match ← peek with
      | .scalar text plain =>
        drop
        let id ← add (.scalar (scalarTag tag plain text) text)
        name anchor id
        return id
      | .flowSequenceStart =>
        drop
        sequence anchor tag (composeFlowItems fuel true)
      | .flowMappingStart =>
        drop
        mapping anchor tag (composeFlowEntries fuel true)
      | .blockEntry =>
        if dashes then sequence anchor tag (composeDashItems fuel)
        else emptyScalar anchor tag
      | .blockSequenceStart =>
        if block then
          drop
          sequence anchor tag (composeBlockItems fuel)
        else emptyScalar anchor tag
      | .blockMappingStart =>
        if block then
          drop
          mapping anchor tag (composeBlockEntries fuel)
        else emptyScalar anchor tag
      | _ => emptyScalar anchor tag
where
  /-- A sequence, named before its items are read so that they can refer to it. -/
  sequence (anchor tag : Option String) (items : Compose (List NodeId)) : Compose NodeId := do
    let tag := collectionTag tag .sequence
    let id ← add (.sequence tag [])
    name anchor id
    fill id (.sequence tag (← items))
    return id
  /-- A mapping, named before its entries are read so that they can refer to it. -/
  mapping (anchor tag : Option String) (entries : Compose (List (NodeId × NodeId))) :
      Compose NodeId := do
    let tag := collectionTag tag .mapping
    let id ← add (.mapping tag [])
    name anchor id
    fill id (.mapping tag (← entries))
    return id
  /-- A node without contents, which needs an anchor or a tag. -/
  emptyScalar (anchor tag : Option String) : Compose NodeId := do
    if anchor.isNone && tag.isNone then reject
    let id ← add (.scalar (scalarTag tag true "") "")
    name anchor id
    return id

/-- A part of a block collection, which is left out before the given tokens. -/
def composePart (fuel : Nat) (dashes : Bool) (ends : Token → Bool) : Compose NodeId :=
  match fuel with
  | 0 => reject
  | fuel + 1 => do
    if ends (← peek) then nothing else composeNode fuel true dashes

/-- The items of a block sequence. -/
def composeBlockItems : (fuel : Nat) → Compose (List NodeId)
  | 0 => reject
  | fuel + 1 => do
    if ← dropIf .blockEntry then
      let item ← composePart fuel false fun t => t = .blockEntry || t = .blockEnd
      return item :: (← composeBlockItems fuel)
    else if ← dropIf .blockEnd then return []
    else reject

/-- The items of a sequence whose dashes stand in the column of its key. -/
def composeDashItems : (fuel : Nat) → Compose (List NodeId)
  | 0 => reject
  | fuel + 1 => do
    if ← dropIf .blockEntry then
      let item ← composePart fuel false endsDashItem
      return item :: (← composeDashItems fuel)
    else return []

/-- The entries of a block mapping. -/
def composeBlockEntries : (fuel : Nat) → Compose (List (NodeId × NodeId))
  | 0 => reject
  | fuel + 1 => do
    if ← dropIf .key then
      let key ← composePart fuel true endsBlockPart
      let value ←
        if ← dropIf .value then composePart fuel true endsBlockPart else nothing
      return (key, value) :: (← composeBlockEntries fuel)
    else if ← dropIf .blockEnd then return []
    else reject

/-- A part of an entry between brackets, which is left out before the given tokens. -/
def composeFlowPart (fuel : Nat) (ends : Token → Bool) : Compose NodeId :=
  match fuel with
  | 0 => reject
  | fuel + 1 => do
    if ends (← peek) then nothing else composeNode fuel false false

/-- A key between brackets with its value. -/
def composeFlowPair (fuel : Nat) (close : Token) : Compose (NodeId × NodeId) :=
  match fuel with
  | 0 => reject
  | fuel + 1 => do
    let key ← composeFlowPart fuel fun t => t = .value || endsFlowPart close t
    let value ←
      if ← dropIf .value then composeFlowPart fuel (endsFlowPart close) else nothing
    return (key, value)

/-- The items of a sequence in brackets, with commas between them. A pair among them is a
mapping of one entry. -/
def composeFlowItems : (fuel : Nat) → (first : Bool) → Compose (List NodeId)
  | 0, _ => reject
  | fuel + 1, first => do
    if ← dropIf .flowSequenceEnd then return []
    if !first then
      if !(← dropIf .flowEntry) then reject
    if ← dropIf .key then
      -- A pair makes a mapping of its own, which nothing can name.
      let id ← add (.mapping .mapping [])
      let pair ← composeFlowPair fuel .flowSequenceEnd
      fill id (.mapping .mapping [pair])
      return id :: (← composeFlowItems fuel false)
    else if ← dropIf .flowSequenceEnd then return []
    else
      let item ← composeNode fuel false false
      return item :: (← composeFlowItems fuel false)

/-- The entries of a mapping in braces, with commas between them. -/
def composeFlowEntries : (fuel : Nat) → (first : Bool) → Compose (List (NodeId × NodeId))
  | 0, _ => reject
  | fuel + 1, first => do
    if ← dropIf .flowMappingEnd then return []
    if !first then
      if !(← dropIf .flowEntry) then reject
    if ← dropIf .key then
      let pair ← composeFlowPair fuel .flowMappingEnd
      return pair :: (← composeFlowEntries fuel false)
    else if ← dropIf .flowMappingEnd then return []
    else
      -- A key that no colon follows.
      let key ← composeNode fuel false false
      let value ← nothing
      return (key, value) :: (← composeFlowEntries fuel false)

end

/-- The handles that every document has. -/
def defaultHandles : List (String × String) := [("!", "!"), ("!!", languageTag)]

/-- The directives before a document: the language has major version one, and nothing is set
twice. -/
def composeDirectives (versioned : Bool) (handles : List (String × String)) :
    (fuel : Nat) → Compose (List (String × String))
  | 0 => reject
  | fuel + 1 => do
    match ← peek with
    | .directive (.version major _) =>
      if versioned || major ≠ 1 then reject
      drop
      composeDirectives true handles fuel
    | .directive (.handle name meaning) =>
      if (handles.lookup name).isSome then reject
      drop
      composeDirectives versioned (handles ++ [(name, meaning)]) fuel
    | .directive .other =>
      drop
      composeDirectives versioned handles fuel
    | _ => return handles

/-- Takes away the marks that end documents. -/
def dropEnds : (fuel : Nat) → Compose Unit
  | 0 => reject
  | fuel + 1 => do if ← dropIf .documentEnd then dropEnds fuel

/-- Tokens before which a document has no contents. -/
def endsDocument : Token → Bool
  | .directive _ | .documentStart | .documentEnd | .textEnd => true
  | _ => false

/-- Reads what stands before the contents of a document: marks that end earlier ones, then
directives and the mark that starts it. Answers whether there is a document. -/
def composeStart (fuel : Nat) : Compose Bool := do
  dropEnds fuel
  if (← peek) = .textEnd then return false
  let handles ← composeDirectives false [] fuel
  if !(← dropIf .documentStart) then reject
  modify fun s => { s with handles := handles ++ defaultHandles }
  return true

/-- Tokens that start a document with a mark, or end the text. -/
def startsMarked : Token → Bool
  | .directive _ | .documentStart | .textEnd => true
  | _ => false

/-- The next document of a text, if there is one. The first one needs no mark at its start, but
then it has contents. -/
def composeDocument (first : Bool) : Compose (Option NodeId) := do
  let fuel := 8 * (← get).tokens.length + 16
  modify fun s => { s with graph := .empty, anchors := [], handles := defaultHandles }
  let marked := !first || startsMarked (← peek)
  -- Without a mark the text starts with the contents, and directives keep their defaults.
  if marked then
    if !(← composeStart fuel) then return none
  let root ←
    if marked && endsDocument (← peek) then nothing else composeNode fuel true false
  discard (dropIf .documentEnd)
  return some root

end PipelineManifest.Yaml
