import PipelineManifest.Value.Access

/-!
# `PipelineManifest.Variable`: values given inline or by the name of a secret

A field of the server and an entry of an environment is a variable: a literal text, the name of
a secret that is kept outside the manifest, or absent. In a document a literal is a scalar and
a secret a mapping with the one field `from_secret`.

* `Variable`: the variables.
* `Variable.decode`: a variable from a value of a document.
* `Variable.toValue`: a variable as a value of a document.
* `Variable.isPresent`: whether a variable is there and not empty.
-/

set_option autoImplicit false

namespace PipelineManifest

/-- A variable. -/
inductive Variable where
  | literal (text : String)
  | secret (name : String)
  | absent
  deriving DecidableEq, Repr, Inhabited

namespace Variable

/-- The field that names a secret. -/
def secretField : String := "from_secret"

/-- Whether a variable holds a text that is not empty or a name that is not empty. -/
def isPresent : Variable → Bool
  | literal text => text ≠ ""
  | secret name => name ≠ ""
  | absent => false

/-- A variable as a value of a document. -/
def toValue : Variable → Value
  | literal text => .str text
  | secret name => .map [(.str secretField, .str name)]
  | absent => .null

/-- The variable that a mapping stands for. -/
def decodeSecret (entries : List (Value × Value)) (field : String) : Outcome Variable :=
  match Value.field? secretField entries with
  | none =>
    .error (.malformedOne (field ++ ": mapping must contain '" ++ secretField ++ "'"))
  | some (.str name) => .ok (secret name)
  | some _ =>
    .error (.malformedOne (field ++ ": '" ++ secretField ++ "' must be a string"))

/-- The variable that a value of a document stands for; `field` names it in messages. -/
def decode (v : Value) (field : String) : Outcome Variable :=
  match v with
  | .null => .ok absent
  | .str _ | .int _ | .float _ | .bool _ => do return literal (← v.toScalarText)
  | .map entries => decodeSecret entries field
  | v =>
    .error (.malformedOne
      (field ++ ": expected a string or a '" ++ secretField ++ "' mapping, got " ++ v.kindName))

/-- The variable of a field that may be left out. -/
def decodeField (v : Option Value) (field : String) : Outcome Variable :=
  decode (v.getD .null) field

end Variable

end PipelineManifest
