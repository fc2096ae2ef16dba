import PipelineManifest.Pipeline.Step
import PipelineManifest.Settings

/-!
# `PipelineManifest.Pipeline.Basic`: pipelines

A pipeline runs its steps on a server over SSH. Version, node, platform, server and the
environments are read from the source of the document, so that texts keep their spelling; all
other fields are read from its data. Like steps, pipelines can be decoded and edited without a
check of their shape.

* `Pipeline`, `Pipeline.decode`, `Pipeline.toValue`: a pipeline, from and as a value of a
  document.
* `Pipeline.step?`: a step by its name.
-/

set_option autoImplicit false

namespace PipelineManifest

/-- A pipeline. -/
structure Pipeline where
  kind : Value := .str "pipeline"
  type : Value := .str "ssh"
  name : Value := .str ""
  version : Value := .str ""
  dependsOn : Value := .seq []
  node : Value := .map []
  server : Server := {}
  workspace : Workspace := {}
  platform : Platform := {}
  clone : Clone := {}
  trigger : Conditions := .none
  steps : List Step := []
  deriving Inhabited

namespace Pipeline

/-- The kind of documents that hold pipelines. -/
def documentKind : String := "pipeline"

/-- The type of documents that hold pipelines. -/
def documentType : String := "ssh"

/-- The version of a document as a text. -/
def decodeVersion : Option Value → Outcome Value
  | none | some .null => .ok (.str "")
  | some v => do return .str (← v.toScalarText)

/-- A node selector, all its values as texts. -/
def decodeNode (section? : Option Value) : Outcome Value := do
  return .map (← (← (Value.orEmpty section?).fields).mapM fun (key, v) => do
    return (key, .str (← v.toScalarText)))

/-- The field of a mapping that must be there. -/
def requiredField (data : Value) (name : String) : Outcome Value := do
  match ← data.get name with
  | some v => return v
  | none => throw .missingKey

/-- The steps at the positions from `index` on, each with its source at the same position. -/
def decodeSteps (shell : String) (sources : Value) (index : Nat) :
    List Value → Outcome (List Step)
  | [] => .ok []
  | data :: rest => do
    let step ← Step.decode data shell index (← sources.element index)
    return step :: (← decodeSteps shell sources (index + 1) rest)

/-- A list that may be left out, where a value that counts as not given is the empty one. -/
def orNoItems : Option Value → Value
  | some v => if v.isTruthy then v else .seq []
  | none => .seq []

/-- The pipeline that `data` describes; the fields of spelled texts are read from its source,
which is the data itself where there is none. -/
def decode (data source : Value) : Outcome Pipeline := do
  let source := source.orData data
  -- The shell of the steps depends on the platform. Of two faults the first one read is reported.
  let platform ← Platform.decode (← source.get "platform")
  let shell := defaultShell platform.os
  let version? ← source.get "version"
  let stepSources := orNoItems (← source.get "steps")
  let kind ← data.getD "kind" (.str documentKind)
  let type ← data.getD "type" (.str documentType)
  let name ← requiredField data "name"
  let version ← decodeVersion version?
  let dependsOn ← Value.elementsOrNone (← data.get "depends_on")
  let node ← decodeNode (← source.get "node")
  let server ← Server.decode (← source.get "server")
  let workspace ← Workspace.decode (← data.get "workspace")
  let clone ← Clone.decode (← data.get "clone")
  let trigger ← Conditions.decode ((← data.get "trigger").getD .null) "trigger"
  let steps ← decodeSteps shell stepSources 0 (← Value.elementsOrNone (← data.get "steps"))
  return {
    kind, type, name, version, dependsOn := .seq dependsOn, node, server, workspace
    platform, clone, trigger, steps }

/-- The first step with a name. -/
def step? (p : Pipeline) (name : Value) : Option Step := p.steps.find? (·.name.equal name)

/-- The two values of a pair. -/
def pair (v : Value) : Outcome (Value × Value) := do
  match ← v.elements with
  | [k, w] => if k.isHashable then return (k, w) else throw .wrongKind
  | _ => throw .invalidValue

/-- A node selector as a mapping, which may also be given as a sequence of pairs. -/
def nodeEntries (node : Value) : Outcome (List (Value × Value)) := do
  match node with
  | .map es => return Value.entries es
  | v => return Value.ofEntries (← (← v.elements).mapM pair)

/-- A section that is left out when it is empty. -/
def sectionEntry (name : String) (entries : List (Value × Value)) : List (Value × Value) :=
  if entries.isEmpty then [] else [(.str name, .map entries)]

/-- A pipeline as a value of a document: the fields that are given, in a fixed order. -/
def toValue (p : Pipeline) : Outcome Value := do
  let dependsOn ← Step.listEntries "depends_on" p.dependsOn
  let node ← if p.node.isTruthy then nodeEntries p.node else pure []
  let steps ← p.steps.mapM Step.toValue
  return .map (
    [(.str "kind", p.kind), (.str "type", p.type), (.str "name", p.name)]
      ++ (if p.version.isTruthy then [(.str "version", p.version)] else [])
      ++ dependsOn
      ++ (if p.node.isTruthy then [(.str "node", .map node)] else [])
      ++ sectionEntry "server" p.server.entries
      ++ sectionEntry "workspace" p.workspace.entries
      ++ sectionEntry "platform" p.platform.entries
      ++ sectionEntry "clone" p.clone.entries
      ++ (if p.trigger.toList.isEmpty then [] else [(.str "trigger", p.trigger.toValue)])
      ++ [(.str "steps", .seq steps)])

/-- Equality of lists of steps. -/
def equalSteps : List Step → List Step → Bool
  | [], [] => true
  | s :: ss, t :: ts => s.equal t && equalSteps ss ts
  | _, _ => false

/-- Equality of node selectors: the same keys with equal values, in any order. -/
def equalNodes (v w : Value) : Bool :=
  match v, w with
  | .map es, .map fs =>
    es.length = fs.length
      && es.all fun e => fs.any fun f => Value.sameKey e.1 f.1 && e.2.equal f.2
  | v, w => v.equal w

/-- Equality of pipelines. -/
def equal (p q : Pipeline) : Bool :=
  p.kind.equal q.kind && p.type.equal q.type && p.name.equal q.name
    && p.version.equal q.version && p.dependsOn.equal q.dependsOn
    && equalNodes p.node q.node
    && p.server = q.server && p.workspace.equal q.workspace
    && p.platform.equal q.platform && p.clone.equal q.clone
    && p.trigger = q.trigger && equalSteps p.steps q.steps

end Pipeline

end PipelineManifest
