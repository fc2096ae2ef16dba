/-!
# `PipelineManifest.CommandLine.Options`: options among arguments

An option starts with two hyphens and a name, or with one hyphen and a letter. Its value is the
next argument, whatever that looks like, or follows in the same argument: after an equals sign
for a name, directly for a letter. Two hyphens alone end the options. Where options may stand
among other arguments, they are collected from all of them; elsewhere the first other argument
ends them.

* `OptionSpec`: an option that can be given.
* `Setting`: an option that was given.
* `readOptions?`: the settings and the other arguments; nothing if an option is not known or
  lacks a value.
-/

set_option autoImplicit false

namespace PipelineManifest.CommandLine

/-- An option that can be given. -/
structure OptionSpec where
  name : String
  letter : Option Char := none
  takesValue : Bool := true

/-- An option that was given, with its value if it takes one. -/
structure Setting where
  name : String
  value : Option String

/-- What an argument says about options. -/
inductive Reading where
  /-- Not an option, or no option that is known, or one with a value that it does not take. -/
  | unknown
  /-- Options that are complete. -/
  | complete (settings : List Setting)
  /-- An option whose value is the next argument, after others that are complete. -/
  | needsValue (settings : List Setting) (name : String)

/-- The reading of the characters after two hyphens. -/
def readLong (specs : List OptionSpec) (cs : List Char) : Reading :=
  let name := String.ofList (cs.takeWhile (· ≠ '='))
  let value := (cs.dropWhile (· ≠ '=')).tail
  let hasValue := cs.contains '='
  match specs.find? (·.name = name) with
  | none => .unknown
  | some spec =>
    if spec.takesValue then
      if hasValue then .complete [⟨name, some (String.ofList value)⟩] else .needsValue [] name
    else if hasValue then .unknown
    else .complete [⟨name, none⟩]

/-- The reading of the characters after one hyphen, each of which is an option until one of them
takes a value. -/
def readLetters (specs : List OptionSpec) : List Char → Reading
  | [] => .complete []
  | c :: cs =>
    match specs.find? (·.letter = some c) with
    | none => .unknown
    | some spec =>
      if spec.takesValue then
        if cs.isEmpty then .needsValue [] spec.name
        else .complete [⟨spec.name, some (String.ofList cs)⟩]
      else
        let setting : Setting := ⟨spec.name, none⟩
        match readLetters specs cs with
        | .unknown => .unknown
        | .complete settings => .complete (setting :: settings)
        | .needsValue settings name => .needsValue (setting :: settings) name

/-- The settings and the other arguments of a list of arguments. -/
def readOptions? (specs : List OptionSpec) (amongOthers : Bool) :
    List String → Option (List Setting × List String)
  | [] => some ([], [])
  | arg :: args =>
    let go (reading : Reading) : Option (List Setting × List String) :=
      match reading with
      | .unknown => none
      | .complete settings =>
        (readOptions? specs amongOthers args).map fun (more, others) => (settings ++ more, others)
      | .needsValue settings name =>
        match args with
        | [] => none
        | value :: args =>
          (readOptions? specs amongOthers args).map fun (more, others) =>
            (settings ++ ⟨name, some value⟩ :: more, others)
    -- A hyphen alone is an argument like any other.
    match arg.toList with
    | ['-', '-'] => some ([], args)
    | '-' :: '-' :: cs => go (readLong specs cs)
    | '-' :: c :: cs => go (readLetters specs (c :: cs))
    | _ =>
      if amongOthers then
        (readOptions? specs amongOthers args).map fun (more, others) => (more, arg :: others)
      else some ([], arg :: args)

/-- The value of the last setting of an option. -/
def lastValue? (settings : List Setting) (name : String) : Option String :=
  (settings.reverse.find? (·.name = name)).bind Setting.value

end PipelineManifest.CommandLine
