import PipelineManifest.Fault
import PipelineManifest.Value.Equal

/-!
# `PipelineManifest.Value.Access`: reading values whose shape has not been checked

The decoders read documents before, or without, a check of their shape. Each way of reading
says what happens to a value of the wrong kind.

* `Value.fields`: the entries of a mapping.
* `Value.get`: a field of a mapping, if it is there.
* `Value.orEmpty`: a value, with everything that counts as not given read as an empty mapping.
* `Value.elements`: the values that a container or a text runs through.
* `Value.element`: the value at a position.
* `Value.toText`, `Value.toScalarText`: the forms that a number of too many digits does not have.
-/

set_option autoImplicit false

namespace PipelineManifest.Value

/-- The entries of a mapping; other values have no fields. -/
def fields : Value → Outcome (List (Value × Value))
  | map es => .ok (entries es)
  | _ => .error .missingMember

/-- The field of a mapping with a text as its key, if it is there. -/
def get (v : Value) (name : String) : Outcome (Option Value) :=
  match v with
  | map es => .ok (field? name es)
  | _ => .error .missingMember

/-- The field of a mapping, or `fallback` where it is missing. -/
def getD (v : Value) (name : String) (fallback : Value) : Outcome Value := do
  return (← v.get name).getD fallback

/-- A section of a document: a value that counts as not given is read as an empty mapping. -/
def orEmpty : Option Value → Value
  | some v => if v.isTruthy then v else empty
  | none => empty

/-- The values that a value runs through: the items of a container, the keys of a mapping, the
characters of a text, the numbers of octets. -/
def elements : Value → Outcome (List Value)
  | seq vs => .ok (items vs)
  | tuple vs => .ok (detachedItems tuple [] vs)
  | set vs => .ok vs
  | map es => .ok (es.map Prod.fst)
  | str s => .ok (s.toList.map fun c => str (String.singleton c))
  | bytes octets => .ok (octets.map fun o => int o.toNat)
  | _ => .error .wrongKind

/-- The elements of a list that may be left out: a value that counts as not given has none. -/
def elementsOrNone : Option Value → Outcome (List Value)
  | some v => if v.isTruthy then v.elements else .ok []
  | none => .ok []

/-- The value at a position, which for a mapping is a key. -/
def element (v : Value) (i : Nat) : Outcome Value :=
  match v with
  | seq _ | tuple _ | str _ | bytes _ => do
    match (← v.elements)[i]? with
    | some w => return w
    | none => throw .outOfRange
  | map es =>
    match lookup? (int i) (entries es) with
    | some w => .ok w
    | none => .error .missingKey
  | _ => .error .wrongKind

/-- The source of a document, which is its data where there is none. -/
def orData (source data : Value) : Value :=
  match source with
  | null => data
  | v => v

/-- The form of a value in running text, which has no number that is too long to be written. -/
def toText (v : Value) : Outcome String :=
  if v.isWritable then .ok v.text else .error .invalidValue

/-- The form of a value as a manifest spells it, which has no number that is too long to be
written. -/
def toScalarText (v : Value) : Outcome String :=
  if v.isWritable then .ok v.scalarText else .error .invalidValue

/-- The text that a value is. -/
def str? : Value → Option String
  | str s => some s
  | _ => none

end PipelineManifest.Value
