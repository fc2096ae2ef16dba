import PipelineManifest.Schema.Basic
import PipelineManifest.Condition

/-!
# `PipelineManifest.Schema.Manifest`: the schemas of the resources

* `Schema.pipeline`: pipelines that run over SSH.
* `Schema.secret`: secrets.
* `Schema.signature`: signatures.
* `Schema.variableValue`, `Schema.conditions`, `Schema.step`: the parts of pipelines that have
  schemas of their own.
-/

set_option autoImplicit false

namespace PipelineManifest.Schema

/-- A text. -/
def string : Schema := [.type [.string]]

/-- A text or a number. -/
def version : Schema := [.type [.string, .number]]

/-- A sequence of texts. -/
def stringList : Schema := [.type [.array], .items string]

/-- A scalar, or a mapping that names a secret. -/
def variableValue : Schema :=
  [.anyOf [
    [.type [.string, .number, .boolean, .null]],
    [.type [.object], .required ["from_secret"], .properties [("from_secret", string)],
      .noOthers ["from_secret"]]]]

/-- A text or a sequence of texts. -/
def stringOrList : Schema := [.anyOf [string, stringList]]

/-- A condition: nothing, patterns to include, or patterns to include and exclude. -/
def condition : Schema :=
  [.anyOf [
    [.type [.null]],
    stringOrList,
    [.type [.object],
      .properties [("include", stringOrList), ("exclude", stringOrList)],
      .noOthers ["include", "exclude"]]]]

/-- The conditions of a trigger or a step. -/
def conditions : Schema :=
  [.type [.object, .null],
    .properties (Subject.all.map fun s => (s.name, condition)),
    .noOthers (Subject.all.map Subject.name)]

/-- A step. -/
def step : Schema :=
  [.type [.object],
    .properties [
      ("name", string),
      ("shell", string),
      ("detach", [.type [.boolean]]),
      ("depends_on", stringList),
      ("commands", stringList),
      ("environment", [.type [.object], .others [] variableValue]),
      ("failure", [.oneOf ["", "fail", "ignore", "never"]]),
      ("when", conditions)]]

/-- The server of a pipeline. -/
def server : Schema :=
  [.type [.object],
    .properties [
      ("host", variableValue), ("user", variableValue),
      ("password", variableValue), ("ssh_key", variableValue)],
    .noOthers ["host", "user", "password", "ssh_key"]]

/-- The fields of a pipeline with their schemas, in the order in which they are checked. -/
def pipelineFields : List (String × Schema) := [
  ("kind", [.const "pipeline"]),
  ("type", [.const "ssh"]),
  ("name", [.type [.string], .nonEmpty]),
  ("version", version),
  ("depends_on", stringList),
  ("node", [.type [.object], .others [] [.type [.string, .number, .boolean]]]),
  ("server", server),
  ("workspace", [.type [.object], .properties [("path", string)]]),
  ("platform", [.type [.object],
    .properties [
      ("os", string), ("arch", string), ("variant", string), ("version", version)]]),
  ("clone", [.type [.object],
    .properties [
      ("depth", [.type [.integer], .minimum 0]),
      ("disable", [.type [.boolean]]),
      ("skip_verify", [.type [.boolean]])]]),
  ("trigger", conditions),
  ("steps", [.type [.array], .items step])]

/-- A pipeline. -/
def pipeline : Schema :=
  [.type [.object], .required ["kind", "type", "name"], .properties pipelineFields]

/-- A secret. -/
def secret : Schema :=
  [.type [.object], .required ["name"],
    .properties [
      ("kind", [.const "secret"]),
      ("type", string),
      ("version", version),
      ("name", [.type [.string], .nonEmpty]),
      ("data", string),
      ("get", [.type [.object],
        .properties [("path", string), ("name", string), ("key", string)]])]]

/-- A signature. -/
def signature : Schema :=
  [.type [.object], .required ["hmac"],
    .properties [
      ("kind", [.const "signature"]),
      ("hmac", [.type [.string], .nonEmpty])]]

end PipelineManifest.Schema
