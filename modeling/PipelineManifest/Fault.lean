import PipelineManifest.Value.Render

/-!
# `PipelineManifest.Fault`: what can go wrong

A manifest is rejected for its shape or for breaking a lint rule; both are manifest faults,
which the validator collects. All other faults say that an operation met a value, a name or a
file that it cannot work with; they end the whole run.

* `LintRule`, `Violation`: a lint rule and where it was broken.
* `Fault`: the faults, by cause.
* `Fault.isManifestFault`: the faults that belong to one document.
* `Fault.message?`: the text of a fault, for those that have one of their own.
-/

set_option autoImplicit false

namespace PipelineManifest

/-- The rules a decoded pipeline has to keep. -/
inductive LintRule where
  | missingName
  | duplicateName
  | detachedStep
  | missingHost
  | missingUser
  | missingCredentials
  deriving DecidableEq, Repr

/-- The reason given when a rule is broken. -/
def LintRule.reason : LintRule → String
  | missingName => "missing name"
  | duplicateName => "duplicate name"
  | detachedStep => "detached step not permitted"
  | missingHost => "missing host"
  | missingUser => "missing user"
  | missingCredentials => "missing password or ssh key"

/-- A broken rule, with the name of the step or the field of the server where that applies. -/
structure Violation where
  rule : LintRule
  step : Option Value
  field : Option String

/-- The text of a violation: its reason, and the name of the step unless that is empty. -/
def Violation.message (v : Violation) : String :=
  match v.step with
  | some step =>
    if step.isTruthy then v.rule.reason ++ ": " ++ step.text else v.rule.reason
  | none => v.rule.reason

/-- The faults. -/
inductive Fault where
  /-- A document does not have the shape that is expected of it. -/
  | malformed (message : String) (errors : List String)
  /-- A decoded pipeline breaks a lint rule. -/
  | lint (violation : Violation)
  /-- A filter is asked about a condition that does not exist. -/
  | unknownCondition (name : String)
  /-- Two families of one registry have the same kind and type. -/
  | duplicateFamily (kind : String) (type : Option String)
  /-- A value names no failure policy. -/
  | unknownFailure (value : Value)
  /-- There is no file; the message says which. -/
  | fileMissing (message : String)
  /-- A file is not valid YAML. -/
  | invalidYaml (path : String)
  /-- A text holds a character that YAML does not allow anywhere. -/
  | forbiddenCharacter
  /-- A file is not valid UTF-8. -/
  | undecodable
  /-- A path names a directory where a file is needed. -/
  | directory
  /-- A value is of a kind that an operation does not take, or two values have no order. -/
  | wrongKind
  /-- A mapping lacks a key. -/
  | missingKey
  /-- A position lies outside a sequence. -/
  | outOfRange
  /-- A value, or a table of names, lacks a member. -/
  | missingMember
  /-- A value of the right kind does not stand for anything. -/
  | invalidValue
  /-- A number is too large for its format. -/
  | tooLarge
  /-- An edit needs a current pipeline and there is none. -/
  | noPipeline
  /-- A cell of a table closes a style that is not open. -/
  | badMarkup

namespace Fault

/-- A malformed document with a single error. -/
def malformedOne (message : String) : Fault := malformed message [message]

/-- The faults that say that one document is bad. -/
def isManifestFault : Fault → Bool
  | malformed .. | lint _ => true
  | _ => false

/-- The text of a fault. -/
def message? : Fault → Option String
  | malformed message _ => some message
  | lint violation => some violation.message
  | unknownCondition name => some ("Unknown condition: " ++ name)
  | duplicateFamily kind type =>
    let type := match type with
      | some t => Text.quoted t
      | none => "None"
    some ("Resource family already registered for kind=" ++ Text.quoted kind ++ " type=" ++ type)
  | unknownFailure value => some (value.render ++ " is not a valid Failure")
  | fileMissing message => some message
  | invalidYaml path => some ("Invalid YAML syntax in " ++ path)
  | _ => none

end Fault

/-- The result of an operation that can fail. -/
abbrev Outcome (α : Type) := Except Fault α

end PipelineManifest
