import PipelineManifest.Text.Base64
import PipelineManifest.Value.Basic
import PipelineManifest.Yaml.Scalar.Write

/-!
# `PipelineManifest.Yaml.Print`: values as YAML

Every document starts with three hyphens. Containers are written in block form, two columns
further in than the container around them, except that a sequence stands in the column of the
key it belongs to; empty ones are written as a pair of brackets. A key that is short and has
one line stands in front of its value; any other key has a mark of its own. A container that
occurs inside itself gets a name, by which it is referred to.

* `Leaf`: a value that is no container, as tag and text.
* `anchorsOf`: the containers that get names.
* `printNode`: a value in its place.
* `printStream`: the documents of a stream.
-/

set_option autoImplicit false

namespace PipelineManifest.Yaml

open Number (Binary64)

/-! ### Scalars -/

/-- A value that is no container: its tag and its text. -/
structure Leaf where
  tag : Tag
  text : String

/-- A floating-point number; the exponent form keeps a point. -/
def floatText : Binary64 → String
  | .nan => ".nan"
  | .infinity negative => if negative then "-.inf" else ".inf"
  | x =>
    let cs := x.text.toList
    if cs.contains 'e' && !cs.contains '.' then
      String.ofList (cs.takeWhile (· ≠ 'e') ++ ['.', '0'] ++ cs.dropWhile (· ≠ 'e'))
    else x.text

/-- The tag and the text of a value that is no container. -/
def Leaf.ofValue? : Value → Option Leaf
  | .null => some ⟨.null, "null"⟩
  | .bool b => some ⟨.boolean, if b then "true" else "false"⟩
  | .int i => some ⟨.integer, toString i⟩
  | .float x => some ⟨.float, floatText x⟩
  | .str s => some ⟨.text, s⟩
  | .bytes octets => some ⟨.binary, Text.encodeBase64 octets⟩
  | .date d => some ⟨.timestamp, d.text⟩
  | .time t => some ⟨.timestamp, t.text " "⟩
  | .seq _ | .tuple _ | .set _ | .map _ | .back _ => none

/-- How a tag of the language is written out. -/
def Tag.mark : Tag → String
  | .null => "!!null"
  | .boolean => "!!bool"
  | .integer => "!!int"
  | .float => "!!float"
  | .binary => "!!binary"
  | .timestamp => "!!timestamp"
  | .set => "!!set"
  | .sequence => "!!seq"
  | .mapping => "!!map"
  | _ => "!!str"

/-- The length from which a key has a mark of its own. -/
def markedKeyLength : Nat := 128

/-- Whether a key stands in front of its value without a mark of its own. Its tag counts, also
where it is not written. -/
def isSimpleKey (key : Value) : Bool :=
  match Leaf.ofValue? key with
  | some leaf =>
    let traits := Traits.ofText leaf.text.toList
    leaf.tag.mark.length + leaf.text.length < markedKeyLength
      && !traits.empty && !traits.multiline
  | none =>
    match key with
    | .seq [] | .tuple [] | .map [] => true
    | _ => false

/-- Writes a scalar, which stands inside a container at column `indent`; one that is a key
without a mark is not broken. The tag is written where the form of the scalar does not give
it. -/
def Leaf.print (leaf : Leaf) (key : Bool) (indent : Nat) (p : Pen) : Pen :=
  let traits := Traits.ofText leaf.text.toList
  let style := ScalarStyle.choose traits (Tag.ofPlain leaf.text = leaf.tag) key
    (leaf.tag = .binary)
  -- Between quotes a scalar is a text unless a tag says otherwise.
  let untagged := style = .plain || leaf.tag = .text
  style.write key (indent + 2) leaf.text (if untagged then p else p.word leaf.tag.mark)

/-! ### Names of containers -/

mutual

/-- The containers inside `v` that are referred to, in the order of the references. Containers
are counted from `next` in the order in which they begin; `path` are the open ones. The first
result is the next number. -/
def references (path : List Nat) (next : Nat) : Value → Nat × List Nat
  | .seq items | .tuple items | .set items => itemReferences (next :: path) (next + 1) items
  | .map entries => entryReferences (next :: path) (next + 1) entries
  -- `path` holds the open containers from the innermost one on, as references count them.
  | .back n => (next, path[n]?.toList)
  | _ => (next, [])

/-- `references` on the items of a sequence. -/
def itemReferences (path : List Nat) (next : Nat) : List Value → Nat × List Nat
  | [] => (next, [])
  | v :: vs =>
    let (next, found) := references path next v
    let (next, rest) := itemReferences path next vs
    (next, found ++ rest)

/-- `references` on the entries of a mapping. -/
def entryReferences (path : List Nat) (next : Nat) : List (Value × Value) → Nat × List Nat
  | [] => (next, [])
  | (k, v) :: es =>
    let (next, inKey) := references path next k
    let (next, inValue) := references path next v
    let (next, rest) := entryReferences path next es
    (next, inKey ++ inValue ++ rest)

end

/-- The containers of a document that get names, in the order of their names. -/
def anchorsOf (v : Value) : List Nat := (references [] 0 v).2.eraseDups

/-- The name at a position: `id` and a number of at least three digits. -/
def anchorName (position : Nat) : String := "id" ++ padded 3 (position + 1)

/-! ### Containers -/

/-- A document that is being written: its text, and how many containers have begun. -/
structure Draft where
  pen : Pen
  begun : Nat

namespace Draft

/-- Writes on without a container. -/
def onPen (d : Draft) (f : Pen → Pen) : Draft := { d with pen := f d.pen }

/-- Begins a container: its name, if it has one, and its tag. -/
def «begin» (d : Draft) (anchors : List Nat) (tag : Option Tag) : Draft :=
  let pen := match anchors.idxOf? d.begun with
    | some position => d.pen.word ("&" ++ anchorName position)
    | none => d.pen
  let pen := match tag with
    | some tag => pen.word tag.mark
    | none => pen
  ⟨pen, d.begun + 1⟩

/-- Writes the key of an entry at column `indent`, up to where its value stands. -/
def key (d : Draft) (simple : Bool) (indent : Nat) (content : Draft → Draft) : Draft :=
  let d := d.onPen (·.indentTo indent)
  if simple then (content d).onPen (·.close ":")
  else (content (d.onPen (·.bullet "?"))).onPen fun p => (p.indentTo indent).bullet ":"

end Draft

/-- Where a value stands: the column of the container around it, if there is one, and its part
in an entry of a mapping. -/
structure Place where
  indent : Option Nat
  inEntry : Bool
  simpleKey : Bool

namespace Place

/-- The column of a container in a place. -/
def inner (p : Place) : Nat :=
  match p.indent with
  | some indent => indent + 2
  | none => 0

/-- The column of a sequence in a place. It does not move in where a key stands before it. -/
def innerSequence (p : Place) (pen : Pen) : Nat :=
  if p.inEntry && !pen.indenting then p.indent.getD 0 else p.inner

end Place

mutual

/-- Writes a value in its place. `path` are the numbers of the open containers. -/
def printNode (anchors path : List Nat) (place : Place) : Value → Draft → Draft
  | .seq [], d | .tuple [], d => (d.begin anchors none).onPen (·.word "[]")
  | .map [], d => (d.begin anchors none).onPen (·.word "\x7b\x7d")
  | .set [], d => (d.begin anchors (some .set)).onPen (·.word "\x7b\x7d")
  | .seq items, d | .tuple items, d =>
    let path := d.begun :: path
    let d := d.begin anchors none
    printItems anchors path (place.innerSequence d.pen) items d
  | .set items, d =>
    let path := d.begun :: path
    printMembers anchors path place.inner items (d.begin anchors (some .set))
  | .map entries, d =>
    let path := d.begun :: path
    printEntries anchors path place.inner entries (d.begin anchors none)
  | .back n, d =>
    d.onPen fun p => p.word ("*" ++ anchorName ((path[n]?.bind anchors.idxOf?).getD 0))
  | v, d =>
    match Leaf.ofValue? v with
    | some leaf => d.onPen (leaf.print place.simpleKey (place.indent.getD 0))
    | none => d

/-- Writes the items of a sequence at column `indent`. -/
def printItems (anchors path : List Nat) (indent : Nat) : List Value → Draft → Draft
  | [], d => d
  | v :: vs, d =>
    let d := d.onPen fun p => (p.indentTo indent).bullet "-"
    printItems anchors path indent vs (printNode anchors path ⟨some indent, false, false⟩ v d)

/-- Writes the members of a set at column `indent`, as keys of null. -/
def printMembers (anchors path : List Nat) (indent : Nat) : List Value → Draft → Draft
  | [], d => d
  | v :: vs, d =>
    let simple := isSimpleKey v
    let d := d.key simple indent (printNode anchors path ⟨some indent, true, simple⟩ v)
    printMembers anchors path indent vs (d.onPen (·.word "null"))

/-- Writes the entries of a mapping at column `indent`. -/
def printEntries (anchors path : List Nat) (indent : Nat) :
    List (Value × Value) → Draft → Draft
  | [], d => d
  | (k, v) :: es, d =>
    let simple := isSimpleKey k
    let d := d.key simple indent (printNode anchors path ⟨some indent, true, simple⟩ k)
    printEntries anchors path indent es
      (printNode anchors path ⟨some indent, true, false⟩ v d)

end

/-- Writes a document in a new line. -/
def printDocument (v : Value) (p : Pen) : Pen :=
  let d := printNode (anchorsOf v) [] ⟨none, false, false⟩ v ⟨(p.indentTo 0).word "---", 0⟩
  d.pen.indentTo 0

/-- The text of a stream of documents. -/
def printStream (documents : List Value) : String :=
  (documents.foldl (fun p v => printDocument v p) {}).text

end PipelineManifest.Yaml
