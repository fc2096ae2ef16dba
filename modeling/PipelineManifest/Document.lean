import PipelineManifest.Value.Access

/-!
# `PipelineManifest.Document`: documents before they are decoded

A document of a manifest says by its kind and type which resource it holds. Beside the document
itself its source is kept: the same document with every scalar as it is written in the file,
so that texts keep spellings such as `0123`, `1.10` or `yes`, which stand for numbers and
booleans.

* `Document`: a document with its kind, type, version and name.
* `Document.ofValue`: a document from its value and its source.
-/

set_option autoImplicit false

namespace PipelineManifest

/-- A document of a manifest. `data` is its value, `source` the same with scalars as
written. -/
structure Document where
  kind : String
  type : String
  version : String
  name : String
  data : Value
  source : Value

namespace Document

/-- A kind or a type: a text, or nothing. -/
def label (v : Option Value) (field place : String) : Outcome String :=
  match v with
  | none | some .null => .ok ""
  | some (.str s) => .ok s
  | some _ => .error (.malformedOne (place ++ ": '" ++ field ++ "' must be a string"))

/-- A version or a name as a text; containers have none. -/
def caption : Option Value → Outcome String
  | none | some .null | some (.map _) | some (.seq _) => .ok ""
  | some v => v.toScalarText

/-- The place of a document in messages; documents are counted from one. -/
def place (index : Nat) : String := "document " ++ toString (index + 1)

/-- The document at `index` from its value and its source, which is the value itself where
there is none. -/
def ofValue (data : Value) (index : Nat) (source : Value) : Outcome Document := do
  let kind ← label (← data.get "kind") "kind" (place index)
  let type ← label (← data.get "type") "type" (place index)
  let source := source.orData data
  return {
    kind, type
    version := ← caption (← source.get "version")
    name := ← caption (← source.get "name")
    data, source }

end Document

end PipelineManifest
