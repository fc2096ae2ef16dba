import PipelineManifest.Number.Reading
import PipelineManifest.Value.Basic
import PipelineManifest.Text.Quoted

/-!
# `PipelineManifest.Value.Render`: values in messages

A message shows a value in full: texts in quotes, containers in their brackets, dates and
times by their parts, and a container inside itself as its brackets around three dots.

* `Value.render`: the full form.
* `Value.text`: the form in running text, where a text stands for itself and a date has its
  ISO form.
* `Value.scalarText`: the form as a manifest spells it, where booleans are `true` and `false`.
* `Value.isWritable`: whether there is a full form, for which every number has to be short enough.
-/

set_option autoImplicit false

namespace PipelineManifest

open Text (quoted quotedOctets)

/-- A distance in seconds by whole days, rounded down, and the seconds above. -/
def renderSeconds (seconds : Int) : String :=
  let days := seconds / 86400
  let rest := seconds % 86400
  let parts := (if days = 0 then [] else ["days=" ++ toString days])
    ++ (if rest = 0 then [] else ["seconds=" ++ toString rest])
  "datetime.timedelta(" ++ (if parts.isEmpty then "0" else ", ".intercalate parts) ++ ")"

/-- An offset from universal time. -/
def renderOffset (offset : Int) : String :=
  if offset = 0 then "datetime.timezone.utc"
  else "datetime.timezone(" ++ renderSeconds offset ++ ")"

/-- A date by its parts. -/
def Date.render (d : Date) : String :=
  "datetime.date(" ++ ", ".intercalate ([d.year, d.month, d.day].map toString) ++ ")"

/-- A time by its parts; seconds and microseconds are left out from the end while they are
zero. -/
def DateTime.render (t : DateTime) : String :=
  let seconds :=
    if t.microsecond ≠ 0 then [t.second, t.microsecond]
    else if t.second ≠ 0 then [t.second] else []
  let parts := ([t.date.year, t.date.month, t.date.day, t.hour, t.minute] ++ seconds).map toString
  let offset := match t.offset with
    | some o => ["tzinfo=" ++ renderOffset o]
    | none => []
  "datetime.datetime(" ++ ", ".intercalate (parts ++ offset) ++ ")"

namespace Value

mutual

/-- The full form of a value inside open containers; `above` holds, for each of them from the
innermost out, what stands for it inside itself. -/
def renderIn (above : List String) : Value → String
  | null => "None"
  | bool b => if b then "True" else "False"
  | int i => toString i
  | float x => x.text
  | str s => quoted s
  | bytes octets => quotedOctets octets
  | date d => d.render
  | time t => t.render
  | seq items => "[" ++ ", ".intercalate (renderItems ("[...]" :: above) items) ++ "]"
  | tuple items =>
    let inner := renderItems ("(...)" :: above) items
    "(" ++ ", ".intercalate inner ++ (if inner.length = 1 then ",)" else ")")
  | set items =>
    if items.isEmpty then "set()"
    else
      "\x7b" ++ ", ".intercalate (renderItems ("set(...)" :: above) items) ++ "\x7d"
  | map entries =>
    "\x7b" ++ ", ".intercalate (renderEntries ("\x7b...\x7d" :: above) entries) ++ "\x7d"
  | back n => above.getD n "..."

/-- The full forms of the items of a sequence. -/
def renderItems (above : List String) : List Value → List String
  | [] => []
  | v :: vs => renderIn above v :: renderItems above vs

/-- The full forms of the entries of a mapping. -/
def renderEntries (above : List String) : List (Value × Value) → List String
  | [] => []
  | (k, v) :: es =>
    (renderIn above k ++ ": " ++ renderIn above v) :: renderEntries above es

end

/-- The full form of a value. -/
def render (v : Value) : String := renderIn [] v

mutual

/-- Whether all whole numbers in a value can be written. -/
def isWritable : Value → Bool
  | int i => Number.isWritable i
  | seq items | tuple items | set items => areWritable items
  | map entries => areWritableEntries entries
  | _ => true

/-- `isWritable` on the items of a sequence. -/
def areWritable : List Value → Bool
  | [] => true
  | v :: vs => isWritable v && areWritable vs

/-- `isWritable` on the entries of a mapping. -/
def areWritableEntries : List (Value × Value) → Bool
  | [] => true
  | (k, v) :: es => isWritable k && isWritable v && areWritableEntries es

end

/-- The form of a value in running text. -/
def text : Value → String
  | str s => s
  | date d => d.text
  | time t => t.text " "
  | v => v.render

/-- The form of a value as a manifest spells it. -/
def scalarText : Value → String
  | bool b => if b then "true" else "false"
  | v => v.text

end Value

/-- A list of texts in full form. -/
def renderTexts (names : List String) : String :=
  (Value.seq (names.map Value.str)).render

end PipelineManifest
