import PipelineManifest.Pipeline.Lint
import PipelineManifest.Registry
import PipelineManifest.Secret

/-!
# `PipelineManifest.Resource`: the resources of a manifest

A manifest holds pipelines, secrets and signatures. Their families are registered in the order
secret, signature, pipeline.

* `Resource`: the resources, with what all of them answer: kind, type, name, version.
* `Pipeline.ofDocument`: the pipeline of a document that keeps the schema and the lint rules.
* `defaultRegistry`: the registry of the three families.
-/

set_option autoImplicit false

namespace PipelineManifest

/-- A resource. -/
inductive Resource where
  | pipeline (p : Pipeline)
  | secret (s : Secret)
  | signature (s : Signature)
  deriving Inhabited

namespace Resource

/-- The kind of a resource. -/
def kind : Resource → Value
  | pipeline p => p.kind
  | secret _ => .str Secret.documentKind
  | signature _ => .str Signature.documentKind

/-- The type of a resource; a signature has none. -/
def type : Resource → Value
  | pipeline p => p.type
  | secret s => .str s.type
  | signature _ => .str ""

/-- The name of a resource; a signature has none. -/
def name : Resource → Value
  | pipeline p => p.name
  | secret s => .str s.name
  | signature _ => .str ""

/-- The version of a resource; a signature has none. -/
def version : Resource → Value
  | pipeline p => p.version
  | secret s => .str s.version
  | signature _ => .str ""

/-- A resource as a value of a document. -/
def toValue : Resource → Outcome Value
  | pipeline p => p.toValue
  | secret s => .ok s.toValue
  | signature s => .ok s.toValue

/-- Equality of resources. -/
def equal : Resource → Resource → Bool
  | pipeline p, pipeline q => p.equal q
  | secret s, secret t => s = t
  | signature s, signature t => s = t
  | _, _ => false

end Resource

namespace Pipeline

/-- Whether a document is a pipeline that runs over SSH. Its body is not looked at. -/
def isOwn (d : Document) : Bool := d.kind = documentKind && d.type = documentType

/-- The pipeline that a document describes. Without a source, texts are read from the data. -/
def ofDocument (d : Document) : Outcome Pipeline := do
  Schema.pipeline.check d.data ("pipeline " ++ Text.quoted d.name)
  decode d.data (if d.source.isTruthy then d.source else d.data)

/-- The pipeline that a document describes, if it also keeps the lint rules. -/
def ofDocumentLinted (d : Document) : Outcome Pipeline := do
  let p ← ofDocument d
  p.lint
  return p

/-- The pipeline of a document, if the document is one. -/
def parse (d : Document) : Outcome (Option Pipeline) :=
  if isOwn d then (ofDocumentLinted d).map some else .ok none

end Pipeline

/-- The family of secrets. -/
def secretFamily : Family Resource :=
  ⟨Secret.documentKind, none, fun d => (Secret.decode d).map .secret⟩

/-- The family of signatures. -/
def signatureFamily : Family Resource :=
  ⟨Signature.documentKind, none, fun d => (Signature.decode d).map .signature⟩

/-- The family of pipelines that run over SSH. -/
def pipelineFamily : Family Resource :=
  ⟨Pipeline.documentKind, some Pipeline.documentType,
    fun d => (Pipeline.ofDocumentLinted d).map .pipeline⟩

/-- The registry of secrets, signatures and pipelines. -/
def defaultRegistry : Registry Resource :=
  ⟨[secretFamily, signatureFamily, pipelineFamily], by decide⟩

/-- The log of building the default registry. -/
def defaultRegistryLog : List LogEntry := Registry.registrationLog defaultRegistry.families

end PipelineManifest
