import PipelineManifest.Document
import PipelineManifest.Schema.Manifest
import PipelineManifest.Schema.Report

/-!
# `PipelineManifest.Secret`: secrets and signatures

A secret is an encrypted text, or says where an external store keeps it. A signature is the
code by which a server checks that a manifest has not been changed.

* `Secret`, `Secret.decode`, `Secret.toValue`: a secret, from a document and as a value.
* `Signature`, `Signature.decode`, `Signature.toValue`: the same for a signature.
-/

set_option autoImplicit false

namespace PipelineManifest

/-- Where an external store keeps a secret. -/
structure SecretLocation where
  path : String := ""
  name : String := ""
  key : String := ""
  deriving DecidableEq, Repr, Inhabited

/-- A secret. -/
structure Secret where
  name : String
  type : String := ""
  version : String := ""
  data : String := ""
  location : SecretLocation := {}
  deriving DecidableEq, Repr, Inhabited

/-- The text of a field that a schema has checked, or `fallback` where it is missing. -/
def textField (v : Value) (name fallback : String) : Outcome String := do
  match ← v.get name with
  | none => return fallback
  | some (.str s) => return s
  | some _ => throw .wrongKind

namespace Secret

/-- The kind of documents that hold secrets. -/
def documentKind : String := "secret"

/-- The location that a section describes. -/
def decodeLocation (section? : Option Value) : Outcome SecretLocation := do
  let v := Value.orEmpty section?
  return {
    path := ← textField v "path" ""
    name := ← textField v "name" ""
    key := ← textField v "key" "" }

/-- The secret that a document holds. -/
def decode (d : Document) : Outcome Secret := do
  Schema.secret.check d.data ("secret " ++ Text.quoted d.name)
  let location ← decodeLocation (← d.data.get "get")
  return {
    name := ← textField d.data "name" ""
    type := d.type
    version := d.version
    data := ← textField d.data "data" ""
    location }

/-- The entries of the texts that are not empty. -/
def textEntries (fields : List (String × String)) : List (Value × Value) :=
  (fields.filter (·.2 ≠ "")).map fun (name, s) => (.str name, .str s)

/-- A secret as a value of a document: the fields that are given, in a fixed order. -/
def toValue (s : Secret) : Value :=
  let location := textEntries
    [("path", s.location.path), ("name", s.location.name), ("key", s.location.key)]
  .map ([(.str "kind", .str documentKind)]
    ++ textEntries [("version", s.version), ("type", s.type)]
    ++ [(.str "name", .str s.name)]
    ++ textEntries [("data", s.data)]
    ++ (if location.isEmpty then [] else [(.str "get", .map location)]))

end Secret

/-- A signature. -/
structure Signature where
  hmac : String
  deriving DecidableEq, Repr, Inhabited

namespace Signature

/-- The kind of documents that hold signatures. -/
def documentKind : String := "signature"

/-- The signature that a document holds. -/
def decode (d : Document) : Outcome Signature := do
  Schema.signature.check d.data "signature"
  return { hmac := ← textField d.data "hmac" "" }

/-- A signature as a value of a document. -/
def toValue (s : Signature) : Value :=
  .map [(.str "kind", .str documentKind), (.str "hmac", .str s.hmac)]

end Signature

end PipelineManifest
