import PipelineManifest.Files
import PipelineManifest.Resource
import PipelineManifest.Yaml.Print
import PipelineManifest.Yaml.Stream

/-!
# `PipelineManifest.Manifest`: reading and writing manifests

A manifest is a stream of documents, each of which holds a resource. All documents are split off
before the first one is decoded.

* `Manifest`: the resources of a manifest.
* `splitDocuments`, `splitText`: the documents of a stream and of a text.
* `decodeAll`: the resources of some documents, up to the first one that is bad.
* `Manifest.parse`, `Manifest.parseFile`: the manifest that a text or a file holds.
* `Manifest.dump`: the text of some resources.
-/

set_option autoImplicit false

namespace PipelineManifest

open Yaml (Defect SourcedValue)

/-- The fault of a text that is not YAML. What breaks the rules of the language makes the
document malformed; all else is a fault of its own. -/
def defectFault (rejected : Fault) : Defect → Fault
  | .rejected => rejected
  | .forbiddenCharacter => .forbiddenCharacter
  | .noCharacter | .noNumber | .noDate => .invalidValue
  | .hugeCharacter | .hugeNumber => .tooLarge
  | .emptyNumber => .outOfRange
  | .noTime => .missingMember
  | .noBoolean => .missingKey
  | .noText => .wrongKind

/-- The fault of a manifest that breaks the rules of YAML. -/
def syntaxFault : Fault := .malformedOne "YAML syntax error"

/-- The documents of a stream from position `index` on; empty documents are left out. -/
def splitDocuments (index : Nat) : List SourcedValue → Outcome (List Document)
  | [] => .ok []
  | v :: vs => do
    match v.data with
    -- An empty document holds no resource, but it counts.
    | .null => splitDocuments (index + 1) vs
    | .map _ =>
      let document ← Document.ofValue v.data index v.source
      return document :: (← splitDocuments (index + 1) vs)
    | data =>
      throw (.malformedOne
        (Document.place index ++ ": expected a mapping, got " ++ data.kindName))

/-- The documents of a text. -/
def splitText (text : String) : Outcome (List Document) := do
  splitDocuments 0 (← (Yaml.readStream text).mapError (defectFault syntaxFault))

/-- The resources of some documents, up to the first one that is bad. -/
def decodeAll {ρ : Type} (r : Registry ρ) : List Document → Logged (Outcome (List ρ))
  | [] => ⟨.ok [], []⟩
  | d :: ds =>
    let first := r.resolveLogged d
    match first.result with
    | .error fault => ⟨.error fault, first.log⟩
    | .ok resource? =>
      let rest := decodeAll r ds
      ⟨rest.result.map (resource?.toList ++ ·), first.log ++ rest.log⟩

/-- The resources of a manifest, in the order of its documents, and the file it was read
from. -/
structure Manifest where
  resources : List Resource := []
  path : Option String := none
  deriving Inhabited

namespace Manifest

/-- The resources of one kind. -/
def ofKind (m : Manifest) (kind : Value) : List Resource :=
  m.resources.filter fun r => r.kind.equal kind

/-- Equality of manifests; the file does not count. -/
def equal (m n : Manifest) : Bool := equalResources m.resources n.resources
where
  /-- Equality of lists of resources. -/
  equalResources : List Resource → List Resource → Bool
    | [], [] => true
    | r :: rs, s :: ss => r.equal s && equalResources rs ss
    | _, _ => false

/-- The manifest that a text holds. -/
def parse (r : Registry Resource) (text : String) : Logged (Outcome Manifest) :=
  match splitText text with
  | .error fault => ⟨.error fault, []⟩
  | .ok documents =>
    let decoded := decodeAll r documents
    ⟨decoded.result.map fun resources => { resources }, decoded.log⟩

/-- The manifest that a file holds. -/
def parseFile (r : Registry Resource) (files : Files) (path : String) :
    Logged (Outcome Manifest) :=
  let start : LogEntry := ⟨.debug, decoderLogger, "Parsing manifest " ++ path⟩
  match (files path).readManifest path with
  | .error fault => ⟨.error fault, [start]⟩
  | .ok text =>
    let parsed := parse r text
    ⟨parsed.result.map fun m => { m with path := some path }, start :: parsed.log⟩

/-- The text of some resources, one document each; a number of too many digits has no text. -/
def dump (resources : List Resource) : Outcome String := do
  let values ← resources.mapM Resource.toValue
  if Value.areWritable values then return Yaml.printStream values else throw .invalidValue

end Manifest

end PipelineManifest
