import PipelineManifest.Fault
import PipelineManifest.Text.Utf8

/-!
# `PipelineManifest.Files`: the files a manifest is read from

* `FileState`: what a path names.
* `Files`, `Files.ofEntries`: what every path names, and a directory with some entries.
* `FileState.text`: the text of a file.
* `FileState.readText`, `FileState.readManifest`: the same with the faults of a manifest.
* `pathText`: the short form of a path.
-/

set_option autoImplicit false

namespace PipelineManifest

open Text (Utf8Defect decodeUtf8 lineFeeds)

/-- What a path names. -/
inductive FileState where
  | missing
  | directory
  | file (octets : List UInt8)
  deriving Inhabited

/-- What every path names. -/
abbrev Files := String → FileState

/-! ### Paths -/

/-- The parts of a path. -/
def pathParts (path : String) : List String :=
  (split path.toList).map String.ofList
where
  /-- The runs of characters between slashes. -/
  split : List Char → List (List Char)
    | [] => [[]]
    | c :: cs =>
      match split cs with
      | [] => [[]]
      | part :: parts => if c = '/' then [] :: part :: parts else (c :: part) :: parts

/-- The parts of a path that name something; empty ones and single dots do not. -/
def namedParts (path : String) : List String :=
  (pathParts path).filter fun part => part ≠ "" && part ≠ "."

/-- The short form of a path: without parts that name nothing, and a dot where none is left. -/
def pathText (path : String) : String :=
  let parts := "/".intercalate (namedParts path)
  if path.startsWith "/" then "/" ++ parts
  else if parts = "" then "." else parts

/-- The entries of a directory: the parts of their paths, and the octets of those that are
files. -/
abbrev Entries := List (List String × Option (List UInt8))

namespace Files

/-- What the place `parts` of a directory names. Everything above an entry is a directory. -/
def stateAt (entries : Entries) (parts : List String) : FileState :=
  match entries.lookup parts with
  | some (some octets) => .file octets
  | some none => .directory
  | none => if parts = [] || entries.any (parts.isPrefixOf ·.1) then .directory else .missing

/-- The place that is reached from `place` by the parts of a path; every place on the way has
to be a directory. A place above the directory itself is not followed any further. -/
def walk (entries : Entries) (place : List String) : List String → FileState
  | [] => stateAt entries place
  | part :: parts =>
    match stateAt entries place with
    | .directory =>
      if part = "" || part = "." then walk entries place parts
      else if part = ".." then
        if place = [] then (if parts.all (· = "") then .directory else .missing)
        else walk entries place.dropLast parts
      else walk entries (place ++ [part]) parts
    | _ => .missing

/-- What paths name in a directory with some entries, of which those without octets are
directories. -/
def ofEntries (entries : List (String × Option (List UInt8))) : Files := fun path =>
  let entries := entries.map fun (name, octets) => (namedParts name, octets)
  if path = "" then .missing
  -- Outside the directory nothing exists but the root.
  else if path.startsWith "/" then
    (if namedParts path = [] then .directory else .missing)
  else walk entries [] (pathParts path)

end Files

/-! ### Texts -/

/-- Why a path gives no text. -/
inductive ReadDefect where
  | missing
  | directory
  | undecodable (defect : Utf8Defect)

namespace FileState

/-- The text of a file. -/
def text : FileState → Except ReadDefect String
  | missing => .error .missing
  | directory => .error .directory
  | file octets =>
    match decodeUtf8 octets with
    | .ok cs => .ok (String.ofList (lineFeeds cs))
    | .error defect => .error (.undecodable defect)

/-- The fault of a manifest that does not exist. -/
def manifestMissing (path : String) : Fault :=
  .fileMissing ("Manifest file not found: " ++ path ++
    "\nPlease create a manifest file or specify the correct path using --manifest/-m option.")

/-- The text of a manifest, with the plain faults of reading. -/
def readText (path : String) (s : FileState) : Outcome String :=
  s.text.mapError fun
    | .missing => manifestMissing path
    | .directory => .directory
    | .undecodable _ => .undecodable

/-- The text of a manifest; one that cannot be read is malformed. -/
def readManifest (path : String) (s : FileState) : Outcome String :=
  s.text.mapError fun
    | .missing => manifestMissing path
    | .directory => .malformedOne (path ++ ": cannot read file (Is a directory)")
    | .undecodable defect =>
      .malformedOne (path ++ ": not valid UTF-8 (" ++ defect.reason ++ ")")

end FileState

end PipelineManifest
