import PipelineManifest.Schema.Basic

/-!
# `PipelineManifest.Schema.Report`: reporting the violations of a schema

Violations are reported in the order of their paths, each path taken as the list of its steps
as texts, so that position 10 comes before position 2. Violations with the same path keep the
order of the schema's rules. A message that shows a number of too many digits cannot be written, and
then there is no report.

* `Schema.report`: the messages, in order.
* `Schema.isReportable`: whether the messages can be written.
* `Schema.check`: fails with all messages if there are any.
-/

set_option autoImplicit false

namespace PipelineManifest

namespace SchemaViolation

/-- The steps of a path as texts. -/
def steps (v : SchemaViolation) : List String := v.path.map Value.text

/-- Whether a violation may stand before another one. -/
def notAfter (v w : SchemaViolation) : Bool := !(decide (w.steps < v.steps))

/-- The message with its path. -/
def text (v : SchemaViolation) : String :=
  let place := if v.path.isEmpty then "root" else " -> ".intercalate v.steps
  "Path '" ++ place ++ "': " ++ v.message

/-- Whether the path and the message can be written. -/
def isWritable (v : SchemaViolation) : Bool := v.shown.all Value.isWritable

end SchemaViolation

namespace Schema

/-- The violations in the order in which they are reported. -/
def sortedViolations (schema : Schema) (v : Value) : List SchemaViolation :=
  (violations schema v).mergeSort SchemaViolation.notAfter

/-- The messages of all violations, in order. -/
def report (schema : Schema) (v : Value) : List String :=
  (sortedViolations schema v).map SchemaViolation.text

/-- The fault of a value with these messages; `place` says what was checked. -/
def reportFault (place : String) (errors : List String) : Fault :=
  .malformed
    (place ++ " does not match schema:\n" ++ "\n".intercalate (errors.map fun e => "  - " ++ e))
    errors

/-- Whether all messages about a value can be written. -/
def isReportable (schema : Schema) (v : Value) : Bool :=
  (violations schema v).all SchemaViolation.isWritable

/-- Fails with all messages if a value breaks a schema, and without them if one of them cannot be
written. -/
def check (schema : Schema) (v : Value) (place : String) : Outcome Unit :=
  if !isReportable schema v then .error .invalidValue
  else
    match report schema v with
    | [] => .ok ()
    | errors => .error (reportFault place errors)

end Schema

end PipelineManifest
