import PipelineManifest.Condition
import PipelineManifest.Proofs.Value.Same

/-!
# `PipelineManifest.Proofs.Pipeline.Form`: the canonical form of a pipeline

What a pipeline is written as, said of its document alone: a table of the fields in the order in
which they are written, and for each field the form of what it holds. No pipeline is decoded here.

* `Form`, `Form.fields`, `Form.sectionOf`: the form of a field, of the fields of a table, and of a
  section.
* `Form.variableValue`, `Form.condition`, `Form.environment`: the forms that are more than the value
  itself.
* `Form.step`: the form of a step.
* `canonical`: the form of a pipeline.
-/

set_option autoImplicit false

namespace PipelineManifest

open Value (field?)

/-- What is kept of a field: nothing where it has no content. -/
abbrev Form : Type := Value → Option Value

namespace Form

/-- A field that is kept whatever it holds. -/
def always : Form := some

/-- A value that is kept as it is, unless it is an empty text or container, zero, false, or null. -/
def given : Form := fun v => if v.isTruthy then some v else none

/-- A scalar as a text. -/
def text : Form := fun v => given (.str v.scalarText)

/-- The fields of a table that have content, in the order of the table. Other fields are left
out. -/
def fields (table : List (String × Form)) (es : List (Value × Value)) : List (Value × Value) :=
  table.filterMap fun f => ((field? f.1 es).bind f.2).map fun v => (.str f.1, v)

/-- A section with the fields of a table, unless none of them has content. -/
def sectionOf (table : List (String × Form)) : Form
  | .map es => given (.map (fields table es))
  | _ => none

/-- A mapping whose values take a form; all its entries are kept. -/
def eachValue (form : Value → Value) : Form
  | .map es => given (.map ((Value.entries es).map fun e => (e.1, form e.2)))
  | _ => none

/-! ### Variables -/

/-- The mapping that names a secret. -/
def secret (name : String) : Value := .map [(.str "from_secret", .str name)]

/-- A variable: the text of a scalar, the name of a secret, or null. -/
def variableValue : Value → Value
  | .null => .null
  | .map es =>
    match field? "from_secret" es with
    | some (.str name) => secret name
    | _ => .null
  | v => .str v.scalarText

/-- A variable of the server is left out where it is empty. -/
def serverVariable : Form := fun v =>
  if Form.variableValue v ∈ [.null, .str "", secret ""] then none else some (Form.variableValue v)

/-- The environment of a step keeps variables that are empty. -/
def environment : Form := eachValue Form.variableValue

/-! ### Conditions -/

/-- A list of texts; a text stands for the list of itself. -/
def texts : Form
  | .str s => some (.seq [.str s])
  | v => given v

/-- A condition; a list of texts says what is included. -/
def condition : Form
  | .map es => given (.map (fields [("include", texts), ("exclude", texts)] es))
  | v => (texts v).map fun included => .map [(.str "include", included)]

/-- The conditions of a trigger or a step, subject by subject. -/
def conditions : Form := sectionOf (Subject.all.map fun s => (s.name, condition))

/-! ### Steps -/

/-- A policy other than the usual one. -/
def failure : Form := fun v => if v = .str "ignore" ∨ v = .str "never" then some v else none

/-- The fields of a step after its name and its shell. -/
def stepTable : List (String × Form) := [
  ("detach", given), ("depends_on", given), ("commands", given), ("environment", environment),
  ("failure", failure), ("when", conditions)]

/-- A step. It has a name, even an empty one, and a shell: its own or the given one. -/
def step (shell : String) : Value → Value
  | .map es =>
    .map ([(.str "name", (field? "name" es).getD (.str "")),
        (.str "shell", ((field? "shell" es).bind given).getD (.str shell))]
      ++ fields stepTable es)
  | v => v

/-! ### Pipelines -/

/-- The fields of a pipeline before its steps. -/
def pipelineTable : List (String × Form) := [
  ("kind", always), ("type", always), ("name", always), ("version", text), ("depends_on", given),
  ("node", eachValue fun v => .str v.scalarText),
  ("server", sectionOf [
    ("host", serverVariable), ("user", serverVariable), ("password", serverVariable),
    ("ssh_key", serverVariable)]),
  ("workspace", sectionOf [("path", given)]),
  ("platform", sectionOf [
    ("os", given), ("arch", given), ("variant", given), ("version", text)]),
  ("clone", sectionOf [("depth", given), ("disable", given), ("skip_verify", given)]),
  ("trigger", conditions)]

/-- The operating system of a pipeline. -/
def os? (es : List (Value × Value)) : Option Value :=
  match field? "platform" es with
  | some (.map platform) => field? "os" platform
  | _ => none

/-- The shell of steps that name none. -/
def shell (es : List (Value × Value)) : String :=
  if os? es = some (.str "windows") then "powershell" else "/bin/sh"

/-- The steps of a pipeline, of which there may be none. -/
def steps (es : List (Value × Value)) : List Value :=
  match field? "steps" es with
  | some (.seq vs) => Value.items vs
  | _ => []

end Form

/-- The form in which a pipeline is written. -/
def canonical : Value → Value
  | .map es =>
    .map (Form.fields Form.pipelineTable es
      ++ [(.str "steps", .seq ((Form.steps es).map (Form.step (Form.shell es))))])
  | v => v

end PipelineManifest
