import PipelineManifest.Yaml.Cursor

/-!
# `PipelineManifest.Yaml.Token.Basic`: the tokens of a YAML text

* `Token`: the tokens. The tokens that open and close block collections and those that mark
  keys are not all written in the text: indentation and colons imply them.
-/

set_option autoImplicit false

namespace PipelineManifest.Yaml

/-- A directive: the version of the language, a handle for tags, or one that is ignored. -/
inductive Directive where
  | version (major minor : Nat)
  | handle (name meaning : String)
  | other
  deriving DecidableEq, Repr

/-- A tag as written: the handle in front, unless the tag is written out in full. -/
structure WrittenTag where
  handle : Option String
  suffix : String
  deriving DecidableEq, Repr

/-- A token. -/
inductive Token where
  | directive (d : Directive)
  | documentStart
  | documentEnd
  | textEnd
  | blockSequenceStart
  | blockMappingStart
  | blockEnd
  | flowSequenceStart
  | flowSequenceEnd
  | flowMappingStart
  | flowMappingEnd
  | blockEntry
  | flowEntry
  | key
  | value
  | alias (name : String)
  | anchor (name : String)
  | tag (t : WrittenTag)
  | scalar (text : String) (plain : Bool)
  deriving DecidableEq, Repr

/-- The tokens of a text as far as they can be told apart, and what stops there if the text
does not end properly. -/
structure TokenStream where
  tokens : List Token
  defect : Option Defect

end PipelineManifest.Yaml
