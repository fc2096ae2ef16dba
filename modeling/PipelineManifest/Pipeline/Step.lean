import PipelineManifest.Condition
import PipelineManifest.Variable

/-!
# `PipelineManifest.Pipeline.Step`: the steps of a pipeline

A step is a unit of work: commands for a shell, with an environment, conditions, and a policy
for what happens when it fails. A step can be decoded and edited without a check of its shape,
so its plain fields hold whatever values they were given.

* `Failure`, `Failure.decode`: the failure policies.
* `Step`, `Step.decode`, `Step.toValue`: a step, from and as a value of a document.
-/

set_option autoImplicit false

namespace PipelineManifest

/-- What a failing step does to the pipeline. -/
inductive Failure where
  | fail
  | ignore
  | never
  deriving DecidableEq, Repr, Inhabited

namespace Failure

/-- All policies. -/
def all : List Failure := [fail, ignore, never]

/-- The name of a policy in documents. -/
def name : Failure → String
  | fail => "fail"
  | ignore => "ignore"
  | never => "never"

/-- The policy that a value names; a value that counts as not given names `fail`. -/
def decode (v : Option Value) : Outcome Failure :=
  match v with
  | none => .ok fail
  | some v =>
    if !v.isTruthy then .ok fail
    else
      match all.find? fun f => v.str? = some f.name with
      | some f => .ok f
      | none => .error (.unknownFailure v)

end Failure

/-- The shell of steps that name none. -/
def defaultShell (os : Value) : String :=
  if os.str? = some "windows" then "powershell" else "/bin/sh"

/-- A step. -/
structure Step where
  name : Value := .str ""
  shell : Value := .str ""
  detach : Value := .bool false
  dependsOn : Value := .seq []
  commands : Value := .seq []
  environment : List (Value × Variable) := []
  failure : Failure := .fail
  when : Conditions := .none
  deriving Inhabited

namespace Step

/-- The place of a step in messages. -/
def place (index : Nat) : String := "steps[" ++ toString index ++ "]"

/-- The variable under a key of an environment, which messages name by the key. -/
def decodeEntry (index : Nat) (e : Value × Value) : Outcome (Value × Variable) := do
  let key ← e.1.toText
  return (e.1, ← Variable.decode e.2 (place index ++ ".environment." ++ key))

/-- The variables of an environment, decoded in order. -/
def decodeEnvironment (index : Nat) (entries : List (Value × Value)) :
    Outcome (List (Value × Variable)) :=
  entries.mapM (decodeEntry index)

/-- The step that `data` describes. The environment is read from the source, which is the data
itself where there is none; a step that names no shell has the given one. -/
def decode (data : Value) (shell : String) (index : Nat) (source : Value) : Outcome Step := do
  let source := source.orData data
  -- The environment comes first: of two faults in a step the one in it is reported.
  let environment ← decodeEnvironment index (← (Value.orEmpty (← source.get "environment")).fields)
  let name ← data.getD "name" (.str "")
  let ownShell := (← data.get "shell").filter Value.isTruthy
  let detach ← data.getD "detach" (.bool false)
  let dependsOn ← Value.elementsOrNone (← data.get "depends_on")
  let commands ← Value.elementsOrNone (← data.get "commands")
  let failure ← Failure.decode (← data.get "failure")
  let when ← Conditions.decode ((← data.get "when").getD .null) (place index ++ ".when")
  return {
    name, shell := ownShell.getD (.str shell), detach
    dependsOn := .seq dependsOn, commands := .seq commands
    environment, failure, when }

/-- An environment as a value of a document. -/
def environmentValue (environment : List (Value × Variable)) : Value :=
  .map (environment.map fun (key, v) => (key, v.toValue))

/-- The entries of a list that is given. -/
def listEntries (name : String) (v : Value) : Outcome (List (Value × Value)) := do
  if v.isTruthy then return [(.str name, .seq (← v.elements))] else return []

/-- A step as a value of a document: the fields that are given, in a fixed order. -/
def toValue (s : Step) : Outcome Value := do
  let dependsOn ← listEntries "depends_on" s.dependsOn
  let commands ← listEntries "commands" s.commands
  return .map (
    [(.str "name", s.name)]
      ++ (if s.shell.isTruthy then [(.str "shell", s.shell)] else [])
      ++ (if s.detach.isTruthy then [(.str "detach", .bool true)] else [])
      ++ dependsOn ++ commands
      ++ (if s.environment.isEmpty then []
          else [(.str "environment", environmentValue s.environment)])
      ++ (if s.failure = .fail then [] else [(.str "failure", .str s.failure.name)])
      ++ (if s.when.toList.isEmpty then [] else [(.str "when", s.when.toValue)]))

/-- Equality of environments: the same keys with the same variables, in any order. -/
def equalEnvironments (a b : List (Value × Variable)) : Bool :=
  a.length = b.length && a.all fun e => b.any fun f => Value.sameKey e.1 f.1 && e.2 = f.2

/-- Equality of steps. -/
def equal (s t : Step) : Bool :=
  s.name.equal t.name && s.shell.equal t.shell && s.detach.equal t.detach
    && s.dependsOn.equal t.dependsOn && s.commands.equal t.commands
    && equalEnvironments s.environment t.environment
    && s.failure = t.failure && s.when = t.when

end Step

end PipelineManifest
