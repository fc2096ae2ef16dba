import PipelineManifest.Value.Access

/-!
# `PipelineManifest.Schema.Basic`: schemas of documents

A schema is a list of rules in the order in which their violations are reported. A rule about
texts, numbers, sequences or mappings says nothing about values of other kinds. A floating-point
number without a fraction is an integer; a boolean is neither integer nor number; a tuple or a
set is no array, and octets, dates and times are of no type.

* `SchemaType`, `Rule`, `Schema`: types, rules and schemas.
* `Schema.violations`: where a value breaks a schema, and how.
* `Schema.accepts`: whether a value keeps a schema.
-/

set_option autoImplicit false

namespace PipelineManifest

/-- The types a schema can ask for. -/
inductive SchemaType where
  | null
  | boolean
  | integer
  | number
  | string
  | array
  | object
  deriving DecidableEq, Repr

namespace SchemaType

/-- The name of a type in messages. -/
def name : SchemaType → String
  | null => "null"
  | boolean => "boolean"
  | integer => "integer"
  | number => "number"
  | string => "string"
  | array => "array"
  | object => "object"

/-- Whether a value is of a type. -/
def holds : SchemaType → Value → Bool
  | null, .null => true
  | boolean, .bool _ => true
  | integer, .int _ => true
  | integer, .float x => x.toInt?.isSome
  | number, .int _ | number, .float _ => true
  | string, .str _ => true
  | array, .seq _ => true
  | object, .map _ => true
  | _, _ => false

end SchemaType

/-- A rule of a schema. -/
inductive Rule where
  /-- The value is of one of the types. -/
  | type (types : List SchemaType)
  /-- The value is this text. -/
  | const (text : String)
  /-- The value is one of these texts. -/
  | oneOf (texts : List String)
  /-- A mapping has these fields. -/
  | required (names : List String)
  /-- The fields of a mapping keep their schemas. -/
  | properties (fields : List (String × List Rule))
  /-- A mapping has no fields but the known ones. -/
  | noOthers (known : List String)
  /-- The values of all fields but the known ones keep a schema. -/
  | others (known : List String) (schema : List Rule)
  /-- The items of a sequence keep a schema. -/
  | items (schema : List Rule)
  /-- A text is not empty. -/
  | nonEmpty
  /-- A number is at least this. -/
  | minimum (least : Int)
  /-- The value keeps one of the schemas. -/
  | anyOf (schemas : List (List Rule))

/-- A schema. -/
abbrev Schema := List Rule

/-- A broken rule: the keys and positions that lead to the offending value, the message, and the
values of the document that the path and the message show. -/
structure SchemaViolation where
  path : List Value
  message : String
  shown : List Value

namespace SchemaViolation

/-- A violation at the value that was checked, with a message that shows nothing of it. -/
def here (message : String) : SchemaViolation := ⟨[], message, []⟩

/-- A violation whose message starts with the value that was checked. -/
def ofValue (v : Value) (reason : String) : SchemaViolation := ⟨[], v.render ++ reason, [v]⟩

/-- A violation inside the part of a container that `step` leads to: a known field or a position. -/
def under (step : Value) (v : SchemaViolation) : SchemaViolation :=
  { v with path := step :: v.path }

/-- A violation under a key of the document, which may be any value. -/
def underKey (key : Value) (v : SchemaViolation) : SchemaViolation :=
  { v.under key with shown := key :: v.shown }

end SchemaViolation

/-- Texts in quotes, separated by commas. -/
def quotedList (texts : List String) : String := ", ".intercalate (texts.map Text.quoted)

/-- The violation by fields that a mapping must not have; the message lists them in the order of
their texts. -/
def unexpectedFields (keys : List Value) : SchemaViolation :=
  -- Keys of the same text, such as `1` and `"1"`, stay in the order of the mapping.
  let sorted := keys.mergeSort fun k l => !(l.text < k.text)
  let message := "Additional properties are not allowed ("
    ++ ", ".intercalate (sorted.map Value.render)
    ++ (if keys.length = 1 then " was" else " were") ++ " unexpected)"
  ⟨[], message, keys⟩

/-- The entries of a mapping whose keys are none of the given names. -/
def otherEntries (known : List String) (entries : List (Value × Value)) :
    List (Value × Value) :=
  entries.filter fun e => !known.any fun name => Value.sameKey e.1 (.str name)

/-- Whether a number is less than a whole number; other values are not. -/
def Value.isLessThan (least : Int) : Value → Bool
  | .int i => i < least
  | .float x => x.compareInt? least = some .lt
  | _ => false

namespace Schema

mutual

/-- Where a value breaks a schema: the violations of its rules, rule by rule. -/
def violations : List Rule → Value → List SchemaViolation
  | [], _ => []
  | r :: rs, v => ruleViolations r v ++ violations rs v

/-- Where a value breaks a rule. -/
def ruleViolations : Rule → Value → List SchemaViolation
  | .type types, v =>
    if types.any (·.holds v) then []
    else
      [.ofValue v (" is not of type " ++ quotedList (types.map SchemaType.name))]
  | .const text, v =>
    if v.str? = some text then [] else [.here (Text.quoted text ++ " was expected")]
  | .oneOf texts, v =>
    if texts.any fun text => v.str? = some text then []
    else [.ofValue v (" is not one of " ++ renderTexts texts)]
  | .required names, .map es =>
    (names.filter fun name => !Value.hasField name es).map fun name =>
      .here (Text.quoted name ++ " is a required property")
  | .required _, _ => []
  | .properties fields, .map es => fieldViolations fields es
  | .properties _, _ => []
  | .noOthers known, .map es =>
    let others := otherEntries known es
    if others.isEmpty then [] else [unexpectedFields (others.map Prod.fst)]
  | .noOthers _, _ => []
  | .others known schema, .map es =>
    (otherEntries known (Value.entries es)).flatMap fun e =>
      (violations schema e.2).map (.underKey e.1)
  | .others _ _, _ => []
  | .items schema, .seq vs =>
    (Value.items vs).zipIdx.flatMap fun (v, i) =>
      (violations schema v).map (.under (.int i))
  | .items _, _ => []
  | .nonEmpty, .str s => if s = "" then [.here (Text.quoted s ++ " should be non-empty")] else []
  | .nonEmpty, _ => []
  | .minimum least, v =>
    if v.isLessThan least then
      [.ofValue v (" is less than the minimum of " ++ toString least)]
    else []
  | .anyOf schemas, v =>
    if acceptedByOne schemas v then []
    else [.ofValue v " is not valid under any of the given schemas"]

/-- Where the fields of a mapping break their schemas, field by field. -/
def fieldViolations :
    List (String × List Rule) → List (Value × Value) → List SchemaViolation
  | [], _ => []
  | (name, schema) :: fields, es =>
    (match Value.field? name es with
      | some v => (violations schema v).map (.under (.str name))
      | none => [])
      ++ fieldViolations fields es

/-- Whether a value keeps one of several schemas. -/
def acceptedByOne : List (List Rule) → Value → Bool
  | [], _ => false
  | schema :: schemas, v => (violations schema v).isEmpty || acceptedByOne schemas v

end

/-- Whether a value keeps a schema. -/
def accepts (schema : Schema) (v : Value) : Bool := (violations schema v).isEmpty

end Schema

end PipelineManifest
