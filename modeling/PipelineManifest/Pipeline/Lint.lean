import PipelineManifest.Pipeline.Basic

/-!
# `PipelineManifest.Pipeline.Lint`: rules that a schema cannot express

The rules are checked in a fixed order, each over all steps, and the first one that is broken
is reported: every step has a name; names are unique; no step is detached; the server has a
host, a user, and a password or a key. The names in `depends_on` are not looked up.

* `Pipeline.lint`: fails with the first violation.
-/

set_option autoImplicit false

namespace PipelineManifest.Pipeline

/-- A broken rule of steps. -/
def stepFault (rule : LintRule) (step : Option Value) : Fault :=
  .lint { rule, step, field := none }

/-- A broken rule of the server. -/
def serverFault (rule : LintRule) (field : String) : Fault :=
  .lint { rule, step := none, field := some field }

/-- Every step has a name. -/
def checkNamed (steps : List Step) : Outcome Unit :=
  if steps.all (·.name.isTruthy) then .ok () else .error (stepFault .missingName none)

/-- No name occurs twice; `seen` are the names so far. A name that cannot be a key cannot be
looked up among them. -/
def checkUnique (seen : List Value) : List Step → Outcome Unit
  | [] => .ok ()
  | s :: steps =>
    if !s.name.isHashable then .error .wrongKind
    else if seen.any (Value.sameKey · s.name) then
      .error (stepFault .duplicateName (some s.name))
    else checkUnique (seen ++ [s.name]) steps

/-- No step is detached. -/
def checkAttached (steps : List Step) : Outcome Unit :=
  match steps.find? (·.detach.isTruthy) with
  | some s => .error (stepFault .detachedStep (some s.name))
  | none => .ok ()

/-- The server says where and how to log in. -/
def checkServer (s : Server) : Outcome Unit :=
  if !s.host.isPresent then .error (serverFault .missingHost "host")
  else if !s.user.isPresent then .error (serverFault .missingUser "user")
  else if !s.password.isPresent && !s.sshKey.isPresent then
    .error (serverFault .missingCredentials "password")
  else .ok ()

/-- Fails with the first rule that a pipeline breaks. -/
def lint (p : Pipeline) : Outcome Unit := do
  checkNamed p.steps
  checkUnique [] p.steps
  checkAttached p.steps
  checkServer p.server

end PipelineManifest.Pipeline
