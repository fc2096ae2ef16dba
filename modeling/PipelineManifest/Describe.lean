import PipelineManifest.Json
import PipelineManifest.Manifest
import PipelineManifest.Table.Layout

/-!
# `PipelineManifest.Describe`: what a manifest holds

A description lists the resources of a manifest and shows each pipeline: its server, how it
logs in, its platform, and a table of its steps. Of a password or a key it says whether there
is one, but not which, unless it comes from a secret. A description can be given as text or as
JSON.

* `Variable.describe`: a variable, with or without its text.
* `Manifest.describeJson`: a description as JSON.
* `Manifest.describeHead`, `Pipeline.describeHead`, `Pipeline.stepTable`: the parts of a
  description as lines of text.
-/

set_option autoImplicit false

namespace PipelineManifest

/-- A variable in a description; the text of a literal is shown only if `reveal` says so. -/
def Variable.describe (v : Variable) (reveal : Bool) : String :=
  if v.isPresent then
    match v with
    | literal text => if reveal then text else "set"
    | secret name => secretField ++ ": " ++ name
    | absent => "-"
  else "-"

/-- The variables of a server in a description. -/
def Server.describe (s : Server) : List (String × String) := [
  ("host", s.host.describe true),
  ("user", s.user.describe true),
  ("password", s.password.describe false),
  ("ssh_key", s.sshKey.describe false)]

namespace Step

/-- How many commands a step has. -/
def commandCount (s : Step) : Outcome Nat := do return (← s.commands.elements).length

/-- A step as JSON. -/
def describeJson (s : Step) : Outcome Json := do
  return .object [
    ("name", ← Json.ofValue s.name),
    ("shell", ← Json.ofValue s.shell),
    ("depends_on", .array (← (← s.dependsOn.elements).mapM Json.ofValue)),
    ("commands", .int (← s.commandCount)),
    ("failure", .str s.failure.name)]

/-- A value that must be a text. -/
def textOf : Value → Outcome String
  | .str s => .ok s
  | _ => .error .wrongKind

/-- The cells of a step in a table. -/
def describeRow (s : Step) : Outcome (List String) := do
  let needed ← (← s.dependsOn.elements).mapM textOf
  let needed := ", ".intercalate needed
  return [
    ← textOf s.name,
    if needed = "" then "-" else needed,
    toString (← s.commandCount),
    s.failure.name]

end Step

/-- The columns of the table of steps. -/
def stepColumns : List Column := [
  { title := "Step" },
  { title := "Depends On" },
  { title := "Commands", rightAligned := true },
  { title := "Failure" }]

/-- The width of the terminal for which tables are laid out. -/
def terminalWidth : Nat := 80

namespace Pipeline

/-- A pipeline as JSON. -/
def describeJson (p : Pipeline) : Outcome Json := do
  return .object [
    ("name", ← Json.ofValue p.name),
    ("version", ← Json.ofValue p.version),
    ("server", .object (p.server.describe.map fun (name, text) => (name, .str text))),
    ("platform", ← Json.ofValue (.map p.platform.entries)),
    ("workspace", ← Json.ofValue p.workspace.path),
    ("clone_depth", ← Json.ofValue p.clone.depth),
    ("steps", .array (← p.steps.mapM Step.describeJson))]

/-- The line on the platform, if anything about it is given. -/
def platformLines (p : Pipeline) : List String :=
  let entries := p.platform.entries
  let part (name : String) := ((Value.field? name entries).map Value.text).getD "-"
  if entries.isEmpty then [] else ["  Platform: " ++ part "os" ++ "/" ++ part "arch"]

/-- The lines above the table of steps. -/
def describeHead (p : Pipeline) : List String :=
  let shown (name : String) := (p.server.describe.lookup name).getD "-"
  ["", "Pipeline: " ++ p.name.text,
    "  Server: " ++ shown "user" ++ "@" ++ shown "host",
    "  Credentials: password=" ++ shown "password" ++ ", ssh_key=" ++ shown "ssh_key"]
  ++ p.platformLines

/-- The table of steps. -/
def stepTable (p : Pipeline) : Outcome (List String) := do
  let rows ← p.steps.mapM Step.describeRow
  match ({ columns := stepColumns, rows } : Table).render? terminalWidth with
  | some lines => return lines
  | none => throw .badMarkup

end Pipeline

/-- A resource by its kind, type and name. -/
def Resource.label (r : Resource) : String :=
  let kind := if r.type.isTruthy then r.kind.text ++ "/" ++ r.type.text else r.kind.text
  if r.name.isTruthy then kind ++ " " ++ r.name.text else kind

namespace Manifest

/-- The pipelines that run over SSH. -/
def sshPipelines (m : Manifest) : List Pipeline :=
  m.resources.filterMap fun
    | .pipeline p =>
      if p.kind.equal (.str Pipeline.documentKind) && p.type.equal (.str Pipeline.documentType)
      then some p else none
    | _ => none

/-- A resource as JSON. -/
def resourceJson (r : Resource) : Outcome Json := do
  return .object [
    ("kind", ← Json.ofValue r.kind), ("type", ← Json.ofValue r.type),
    ("name", ← Json.ofValue r.name)]

/-- A description as JSON. -/
def describeJson (m : Manifest) (path : String) : Outcome Json := do
  return .object [
    ("manifest", .str path),
    ("resources", .array (← m.resources.mapM resourceJson)),
    ("pipelines", .array (← m.sshPipelines.mapM Pipeline.describeJson))]

/-- The lines on the manifest as a whole. -/
def describeHead (m : Manifest) (path : String) : List String :=
  ["Manifest: " ++ path, "Resources: " ++ toString m.resources.length]
    ++ m.resources.map fun r => "  - " ++ r.label

end Manifest

end PipelineManifest
