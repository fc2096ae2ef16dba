import PipelineManifest.Manifest
import PipelineManifest.Pipeline.Edit

/-!
# `PipelineManifest.Session`: editing a manifest

A session holds a manifest and remembers which of its pipelines is being edited. An edit that
fails has no effect.

* `Session`: a manifest and its current pipeline.
* `Session.load`, `Session.create`, `Session.select`: choosing what is edited.
* `Session.pipeline`, `Session.edit`: the current pipeline, and a change of it.
* `Session.dump`, `Session.reparse`: the manifest as a text, and what that text holds.
-/

set_option autoImplicit false

namespace PipelineManifest

/-- A manifest that is being edited, with the position of the current pipeline among its
resources. -/
structure Session where
  manifest : Manifest := {}
  current : Option Nat := none
  deriving Inhabited

namespace Session

/-- Whether a resource is listed as a pipeline. -/
def isPipeline (r : Resource) : Bool := r.kind.equal (.str Pipeline.documentKind)

/-- The positions of the resources that are listed as pipelines. -/
def pipelinePositions (m : Manifest) : List Nat :=
  (List.range m.resources.length).filter fun i => m.resources[i]?.any isPipeline

/-- A session with the manifest of a text; the first pipeline is the current one. -/
def load (text : String) : Outcome Session := do
  let manifest ← (Manifest.parse defaultRegistry text).result
  return { manifest, current := (pipelinePositions manifest).head? }

/-- A new pipeline with a name, which becomes the current one. -/
def create (s : Session) (name : Value) : Session :=
  let resources := s.manifest.resources ++ [.pipeline { name }]
  { manifest := { s.manifest with resources }, current := some s.manifest.resources.length }

/-- The pipeline at a position among the pipelines becomes the current one. -/
def select (s : Session) (i : Int) : Outcome Session := do
  let positions := pipelinePositions s.manifest
  let k ← position positions.length i
  return { s with current := positions[k]? }

/-- The current pipeline. -/
def pipeline (s : Session) : Outcome Pipeline :=
  match s.current.bind (s.manifest.resources[·]?) with
  | some (.pipeline p) => .ok p
  | _ => .error .noPipeline

/-- A session with the current pipeline changed. -/
def edit (s : Session) (change : Pipeline → Outcome Pipeline) : Outcome Session := do
  let p ← change (← s.pipeline)
  match s.current with
  | some i =>
    return { s with manifest.resources := s.manifest.resources.set i (.pipeline p) }
  | none => throw .noPipeline

/-- The manifest as a text. -/
def dump (s : Session) : Outcome String := Manifest.dump s.manifest.resources

/-- The manifest that the manifest's text holds. -/
def reparse (s : Session) : Outcome Manifest := do
  (Manifest.parse defaultRegistry (← s.dump)).result

end Session

end PipelineManifest
