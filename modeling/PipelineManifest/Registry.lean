import PipelineManifest.Document
import PipelineManifest.Log

/-!
# `PipelineManifest.Registry`: which decoder a document belongs to

A family of resources owns the documents of one kind and, unless it takes any type, of one
type. A registry is a list of families with different kinds and types. The first family that
owns a document decodes it, so a family of any type shadows those of the same kind after it.

* `Family`, `Family.owns`: a family, and whether it owns a document.
* `Registry`, `Registry.ofFamilies`: a registry, and the registry of some families.
* `Registry.lookup?`: the family that decodes a document.
* `Registry.resolve`: the resource of a document.
-/

set_option autoImplicit false

namespace PipelineManifest

/-- A family of resources. Without a type it owns documents of any type. -/
structure Family (ρ : Type) where
  kind : String
  type : Option String
  decode : Document → Outcome ρ

namespace Family

variable {ρ : Type}

/-- The kind and the type by which families differ. -/
def key (f : Family ρ) : String × Option String := (f.kind, f.type)

/-- Whether a family owns a document. Kinds and types are compared exactly. -/
def owns (f : Family ρ) (d : Document) : Bool :=
  d.kind = f.kind && f.type.all (d.type = ·)

/-- The resource of a document that the family owns; nothing of a document it does not own. -/
def parse (f : Family ρ) (d : Document) : Outcome (Option ρ) :=
  if f.owns d then (f.decode d).map some else .ok none

end Family

/-- The type of a family or a document in messages, where any type is an asterisk. -/
def typeLabel (type : String) : String := if type = "" then "*" else type

/-- The part of the program that keeps the registry. -/
def registryLogger : String := loggerName "manifest.registry"

/-- The part of the program that decodes documents. -/
def decoderLogger : String := loggerName "manifest.parser"

/-- A list of families with different kinds and types. -/
structure Registry (ρ : Type) where
  families : List (Family ρ)
  distinct : (families.map Family.key).Nodup

namespace Registry

variable {ρ : Type}

/-- The log entry for a family that has been registered. -/
def registered (f : Family ρ) : LogEntry :=
  ⟨.debug, registryLogger,
    "Registered resource family " ++ f.kind ++ "/" ++ typeLabel (f.type.getD "")⟩

/-- The first family whose kind and type occur before it. -/
def duplicate? (seen : List (String × Option String)) : List (Family ρ) → Option (Family ρ)
  | [] => none
  | f :: fs => if f.key ∈ seen then some f else duplicate? (seen ++ [f.key]) fs

/-- The families before the first one whose kind and type occur before it. -/
def beforeDuplicate (seen : List (String × Option String)) : List (Family ρ) → List (Family ρ)
  | [] => []
  | f :: fs => if f.key ∈ seen then [] else f :: beforeDuplicate (seen ++ [f.key]) fs

/-- The registry of some families, which fails at the first one that is there already. -/
def ofFamilies (families : List (Family ρ)) : Outcome (Registry ρ) :=
  if h : (families.map Family.key).Nodup then .ok ⟨families, h⟩
  else
    -- Not all kinds and types differ, so there is a first family that is there already.
    match duplicate? [] families with
    | some f => .error (.duplicateFamily f.kind f.type)
    | none => .error .invalidValue

/-- The log of registering some families. -/
def registrationLog (families : List (Family ρ)) : List LogEntry :=
  (beforeDuplicate [] families).map registered

/-- The first family that owns a document. -/
def lookup? (r : Registry ρ) (d : Document) : Option (Family ρ) := r.families.find? (·.owns d)

/-- The resource of a document, by the first family that owns it. -/
def parse (r : Registry ρ) (d : Document) : Outcome (Option ρ) :=
  match r.lookup? d with
  | some f => f.parse d
  | none => .ok none

/-- The resource of a document; nothing if no family owns it. A document needs a kind. -/
def resolve (r : Registry ρ) (d : Document) : Outcome (Option ρ) :=
  if d.kind = "" then .error (.malformedOne "missing resource kind") else r.parse d

/-- What the log says about a resolved document: that it has been decoded, or that no family
owns it. -/
def resolutionLog (d : Document) : Outcome (Option ρ) → List LogEntry
  | .ok (some _) =>
    [⟨.debug, decoderLogger,
      "Decoded " ++ d.kind ++ "/" ++ typeLabel d.type ++ " resource " ++ Text.quoted d.name⟩]
  | .ok none =>
    [⟨.warning, decoderLogger,
      "Skipping resource kind=" ++ Text.quoted d.kind ++ " type=" ++ Text.quoted d.type
        ++ ": no registered family"⟩]
  | .error _ => []

/-- The resource of a document with the log of finding it. -/
def resolveLogged (r : Registry ρ) (d : Document) : Logged (Outcome (Option ρ)) :=
  ⟨r.resolve d, resolutionLog d (r.resolve d)⟩

end Registry

end PipelineManifest
