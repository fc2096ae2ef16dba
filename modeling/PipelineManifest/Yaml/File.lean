import PipelineManifest.Files
import PipelineManifest.Manifest

/-!
# `PipelineManifest.Yaml.File`: files that hold one YAML document

* `loadFile`: the value of a file.
* `loadSchema`: the value of a file that holds a schema, named by the short form of its path.
-/

set_option autoImplicit false

namespace PipelineManifest.Yaml

/-- The value of a file with one document. -/
def loadFile (files : Files) (path : String) : Outcome Value := do
  let text ← (files path).text.mapError fun
    | .missing => .fileMissing ("YAML file not found: " ++ path)
    | .directory => .directory
    | .undecodable _ => .undecodable
  (readSingle text).mapError fun
    | .forbiddenCharacter => .invalidYaml path
    | defect => defectFault (.invalidYaml path) defect

/-- The schema that a file holds. -/
def loadSchema (files : Files) (path : String) : Outcome Value := do
  let path := pathText path
  if let .missing := files path then throw (.fileMissing ("Schema file not found: " ++ path))
  loadFile files path

end PipelineManifest.Yaml
