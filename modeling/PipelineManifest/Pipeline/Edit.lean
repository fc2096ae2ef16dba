import PipelineManifest.Pipeline.Basic

/-!
# `PipelineManifest.Pipeline.Edit`: changing a pipeline

Edits take values as they are, so an edited pipeline need not have the shape of one that was
read. Only variables and filters are decoded. Positions may be counted from the end, as
negative numbers.

* `position?`, `insertAt`: positions in a list.
* `StepParts`, `Step.ofParts`: a new step from its parts.
* `Pipeline.setField`, `Step.setField`: a field replaced.
* `Pipeline.insertStep`, `Pipeline.removeStep`, `Pipeline.setStepField`: changes of the steps.
-/

set_option autoImplicit false

namespace PipelineManifest

/-! ### Positions -/

/-- The position that a number names in a list of `n` items. -/
def position? (n : Nat) (i : Int) : Option Nat :=
  if i < -n then none
  else
    let k := if i < 0 then (i + n).toNat else i.toNat
    if k < n then some k else none

/-- The position that a number names in a list of `n` items. -/
def position (n : Nat) (i : Int) : Outcome Nat :=
  match position? n i with
  | some k => .ok k
  | none => .error .outOfRange

/-- A list with one more item in front of the position that a number names, or at the nearest
end. -/
def insertAt {α : Type} (xs : List α) (i : Int) (x : α) : List α :=
  let k := if i < 0 then (i + xs.length).toNat else i.toNat
  xs.take k ++ x :: xs.drop k

/-! ### Steps -/

/-- The parts of a new step. -/
structure StepParts where
  name : Value := .str ""
  shell : Value := .str ""
  detach : Value := .bool false
  dependsOn : Value := .seq []
  commands : Value := .seq []
  environment : List (Value × Value) := []
  failure : Option Value := none
  when : Option Value := none

namespace Step

/-- The step of some parts at a position. -/
def ofParts (index : Nat) (parts : StepParts) : Outcome Step := do
  let environment ← decodeEnvironment index parts.environment
  let failure ← Failure.decode parts.failure
  let when ← Conditions.decode (parts.when.getD .null) (place index ++ ".when")
  return {
    name := parts.name, shell := parts.shell, detach := parts.detach
    dependsOn := parts.dependsOn, commands := parts.commands
    environment := Value.ofEntries (environment), failure, when }

/-- A step with one field replaced. -/
def setField (s : Step) (field : String) (v : Value) : Outcome Step :=
  match field with
  | "name" => .ok { s with name := v }
  | "shell" => .ok { s with shell := v }
  | "detach" => .ok { s with detach := v }
  | "depends_on" => .ok { s with dependsOn := v }
  | "commands" => .ok { s with commands := v }
  | _ => .error .missingMember

end Step

/-! ### Pipelines -/

namespace Server

/-- A server with one variable replaced. -/
def setField (s : Server) (field : String) (v : Variable) : Outcome Server :=
  match field with
  | "server.host" => .ok { s with host := v }
  | "server.user" => .ok { s with user := v }
  | "server.password" => .ok { s with password := v }
  | "server.ssh_key" => .ok { s with sshKey := v }
  | _ => .error .missingMember

end Server

namespace Pipeline

/-- A pipeline with one field replaced that takes a value as it is. -/
def setPlainField (p : Pipeline) (field : String) (v : Value) : Outcome Pipeline :=
  match field with
  | "kind" => .ok { p with kind := v }
  | "type" => .ok { p with type := v }
  | "name" => .ok { p with name := v }
  | "version" => .ok { p with version := v }
  | "depends_on" => .ok { p with dependsOn := v }
  | "node" => .ok { p with node := v }
  | "workspace.path" => .ok { p with workspace.path := v }
  | "platform.os" => .ok { p with platform.os := v }
  | "platform.arch" => .ok { p with platform.arch := v }
  | "platform.variant" => .ok { p with platform.variant := v }
  | "platform.version" => .ok { p with platform.version := v }
  | "clone.depth" => .ok { p with clone.depth := v }
  | "clone.disable" => .ok { p with clone.disable := v }
  | "clone.skip_verify" => .ok { p with clone.skipVerify := v }
  | _ => .error .missingMember

/-- A pipeline with one field replaced. Variables of the server and the trigger are decoded. -/
def setField (p : Pipeline) (field : String) (v : Value) : Outcome Pipeline := do
  if field.startsWith "server." then
    let server ← p.server.setField field (← Variable.decode v field)
    return { p with server }
  else if field = "trigger" then
    return { p with trigger := ← Conditions.decode v "trigger" }
  else p.setPlainField field v

/-- A pipeline with a new step, at the end unless a position is given. -/
def insertStep (p : Pipeline) (at? : Option Int) (parts : StepParts) : Outcome Pipeline := do
  let step ← Step.ofParts p.steps.length parts
  let i := at?.getD p.steps.length
  return { p with steps := insertAt p.steps i step }

/-- A pipeline without the step at a position. -/
def removeStep (p : Pipeline) (i : Int) : Outcome Pipeline := do
  return { p with steps := p.steps.eraseIdx (← position p.steps.length i) }

/-- The step at a position. -/
def stepAt (p : Pipeline) (i : Int) : Outcome Step := do
  match p.steps[← position p.steps.length i]? with
  | some s => return s
  | none => throw .outOfRange

/-- A pipeline with a field of the step at a position replaced. -/
def setStepField (p : Pipeline) (i : Int) (field : String) (v : Value) : Outcome Pipeline := do
  let k ← position p.steps.length i
  let step ← (← p.stepAt i).setField field v
  return { p with steps := p.steps.set k step }

end Pipeline

end PipelineManifest
