import PipelineManifest.Yaml.Node.Compose
import PipelineManifest.Yaml.Object.Data
import PipelineManifest.Yaml.Object.Source
import PipelineManifest.Yaml.Token.Scan

/-!
# `PipelineManifest.Yaml.Stream`: the documents of a text

A text is a stream of documents. They are read one after the other, so what is wrong with one
document comes to light before what is wrong with the next one is looked at; a character that
no text may hold comes before all.

* `SourcedValue`: a document's value and its source.
* `Graph.sourced`: both readings of a graph.
* `readStream`: all documents of a text.
* `readSingle`: the value of a text of one document.
-/

set_option autoImplicit false

namespace PipelineManifest.Yaml

/-- The value of a document, and the same with scalars as written. -/
structure SourcedValue where
  data : Value
  source : Value

/-- Both readings of the document at `root`. Its merge entries are replaced in both. -/
def Graph.sourced (g : Graph) (root : NodeId) : Except Defect SourcedValue := do
  let (g, dataHeap, dataSlot) ← g.dataHeap root
  let (sourceHeap, sourceSlot) ← g.sourceHeap root
  return ⟨dataHeap.value dataSlot, sourceHeap.value sourceSlot⟩

/-- Fails at a character that no text may hold. -/
def checkCharacters (text : String) : Except Defect Unit :=
  if text.toList.all isAllowed then .ok () else .error .forbiddenCharacter

/-- The documents from a state on. Every document takes a token at least, its end aside. -/
def documentsFrom : (fuel : Nat) → (first : Bool) → ComposeState →
    Except Defect (List SourcedValue)
  | 0, _, _ => .ok []
  | fuel + 1, first, s => do
    match ← composeDocument first s with
    | (none, _) => return []
    | (some root, s) =>
      let document ← s.graph.sourced root
      return document :: (← documentsFrom fuel false s)

/-- The state at the start of a text. -/
def ComposeState.start (text : String) : ComposeState :=
  let stream := Token.scan text.toList
  { tokens := stream.tokens, defect := stream.defect }

/-- All documents of a text. -/
def readStream (text : String) : Except Defect (List SourcedValue) := do
  checkCharacters text
  let s := ComposeState.start text
  documentsFrom (s.tokens.length + 1) true s

/-- The value of a text that holds one document, or null if it holds none. That no other
document starts behind it is seen before the document is read. -/
def readSingle (text : String) : Except Defect Value := do
  checkCharacters text
  match ← composeDocument true (ComposeState.start text) with
  | (none, _) => return .null
  | (some root, s) =>
    match ← composeStart (s.tokens.length + 1) s with
    | (true, _) => throw .rejected
    | (false, _) =>
      let (_, heap, slot) ← s.graph.dataHeap root
      return heap.value slot

end PipelineManifest.Yaml
