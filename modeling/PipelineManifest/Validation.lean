import PipelineManifest.Manifest

/-!
# `PipelineManifest.Validation`: all faults of a manifest at once

Reading a manifest stops at the first bad document. Validation goes on and reports every bad
document with its position among the documents that are not empty, its kind and its type; the
other documents make up a manifest. A file that cannot be split into documents has one fault
and no manifest.

* `Validation`: the faults of a manifest, and what is left of it.
* `Validation.validateAll`: the faults and the resources of some documents.
* `Validation.ofDocuments`, `Validation.ofFile`: the validation of documents and of a file.
-/

set_option autoImplicit false

namespace PipelineManifest

/-- The result of a validation. -/
structure Validation where
  errors : List String
  manifest : Option Manifest

namespace Validation

/-- Whether nothing is wrong. -/
def isValid (v : Validation) : Bool := v.errors.isEmpty

/-- How many resources have been decoded. -/
def size (v : Validation) : Nat := (v.manifest.map (·.resources.length)).getD 0

/-- The part of the program that validates. -/
def logger : String := loggerName "manifest.validation"

/-- The name of a document in the report: its position, and its kind and type with signs for
what is missing. -/
def label (position : Nat) (d : Document) : String :=
  "document " ++ toString position ++ " (" ++ (if d.kind = "" then "?" else d.kind) ++ "/"
    ++ typeLabel d.type ++ ")"

/-- The faults and the resources of some documents, the first of which is at `position`. A fault
that does not belong to one document ends the validation. -/
def validateAll {ρ : Type} (r : Registry ρ) (position : Nat) :
    List Document → Logged (Outcome (List String × List ρ))
  | [] => ⟨.ok ([], []), []⟩
  | d :: ds =>
    let first := r.resolveLogged d
    let rest := validateAll r (position + 1) ds
    match first.result with
    | .ok resource? =>
      ⟨rest.result.map fun (errors, resources) => (errors, resource?.toList ++ resources),
        first.log ++ rest.log⟩
    | .error fault =>
      if fault.isManifestFault then
        let message := fault.message?.getD ""
        let entry : LogEntry :=
          ⟨.debug, logger, label position d ++ " rejected: " ++ message⟩
        ⟨rest.result.map fun (errors, resources) =>
            ((label position d ++ ": " ++ message) :: errors, resources),
          first.log ++ entry :: rest.log⟩
      else ⟨.error fault, first.log⟩

/-- The validation of some documents. -/
def ofDocuments (r : Registry Resource) (documents : List Document) :
    Logged (Outcome Validation) :=
  let all := validateAll r 1 documents
  ⟨all.result.map fun (errors, resources) => ⟨errors, some { resources }⟩, all.log⟩

/-- The validation when a file could not be read or split. -/
def ofFault (path : String) : Fault → Outcome Validation
  | .fileMissing _ => .ok ⟨["File not found: " ++ path], none⟩
  | .malformed message _ => .ok ⟨[message], none⟩
  | fault => .error fault

/-- The validation of a file. -/
def ofFile (r : Registry Resource) (files : Files) (path : String) :
    Logged (Outcome Validation) :=
  match (files path).readManifest path >>= splitText with
  | .error fault => ⟨ofFault path fault, []⟩
  | .ok documents => ofDocuments r documents

end Validation

end PipelineManifest
