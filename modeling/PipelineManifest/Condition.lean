import PipelineManifest.Glob
import PipelineManifest.Value.Access
import PipelineManifest.Value.Order

/-!
# `PipelineManifest.Condition`: filters by name

A condition lists patterns to include and patterns to exclude. A value passes when it matches
no excluded pattern and, if any are included, matches one of those. The filters of a trigger
or a step are one condition for each of ten names.

* `Condition`, `Condition.accepts`: a condition, and whether it accepts a text.
* `Condition.decode`, `Condition.toValue`: a condition from and as a value of a document.
* `Conditions`, `Conditions.accepts`: the conditions of all names, and whether they accept
  the values of a run.
* `Conditions.decode`, `Conditions.toValue`: conditions from and as a value of a document.
-/

set_option autoImplicit false

namespace PipelineManifest

/-- A filter by patterns. -/
structure Condition where
  included : List String := []
  excluded : List String := []
  deriving DecidableEq, Repr, Inhabited

namespace Condition

/-- Whether a condition lists no pattern at all. -/
def isEmpty (c : Condition) : Bool := c.included.isEmpty && c.excluded.isEmpty

/-- Whether a condition accepts a text. -/
def accepts (c : Condition) (text : String) : Bool :=
  if c.excluded.any (Glob.accepts · text) then false
  else if c.included.isEmpty then true
  else c.included.any (Glob.accepts · text)

/-- Whether a condition accepts a value. Only a text can be matched against a pattern. -/
def acceptsValue (c : Condition) : Value → Outcome Bool
  | .str text => .ok (c.accepts text)
  | _ => if c.isEmpty then .ok true else .error .wrongKind

/-- Whether a condition accepts one of several values, taken in order until one is accepted. -/
def acceptsOneOf (c : Condition) : List Value → Outcome Bool
  | [] => .ok false
  | v :: vs => do if ← c.acceptsValue v then return true else acceptsOneOf c vs

/-- Whether a condition accepts one of the elements of a value; the empty condition accepts
anything. -/
def acceptsAny (c : Condition) (v : Value) : Outcome Bool :=
  if c.isEmpty then .ok true
  else do c.acceptsOneOf (← v.elements)

/-- The texts of a list of texts; nothing if a member is no text. -/
def texts? (vs : List Value) : Option (List String) := vs.mapM Value.str?

/-- A list of texts from a value: none, one text, or a sequence of texts. -/
def decodeTexts (v : Value) (place : String) : Outcome (List String) :=
  let mismatch := Fault.malformedOne (place ++ ": expected a string or a list of strings")
  match v with
  | .null => .ok []
  | .str s => .ok [s]
  | .seq vs =>
    match texts? (Value.items vs) with
    | some ss => .ok ss
    | none => .error mismatch
  | _ => .error mismatch

/-- The keys of a mapping that are none of the given names. -/
def unknownKeys (known : List String) (entries : List (Value × Value)) : List Value :=
  (entries.map Prod.fst).filter fun k => !known.any fun name => Value.sameKey k (.str name)

/-- Keys in order, as a message lists them. Keys without an order cannot be listed, and neither can
a number of too many digits. -/
def renderKeys (keys : List Value) : Outcome String :=
  match Value.sorted? keys with
  | some vs => if Value.areWritable vs then .ok (Value.seq vs).render else .error .invalidValue
  | none => .error .wrongKind

/-- A condition from a value: a text, a sequence of texts, or a mapping of two of those. -/
def decode (v : Value) (place : String) : Outcome Condition :=
  match v with
  | .null => .ok {}
  | .map entries => do
    -- A misspelt key would otherwise turn a filter off.
    let unknown := unknownKeys ["include", "exclude"] entries
    if !unknown.isEmpty then
      throw (.malformedOne (place ++ ": unknown keys " ++ (← renderKeys unknown)))
    let texts (name : String) : Outcome (List String) :=
      decodeTexts ((Value.field? name entries).getD .null) (place ++ "." ++ name)
    return { included := ← texts "include", excluded := ← texts "exclude" }
  | v => do return { included := ← decodeTexts v place }

/-- A sequence of texts as a value. -/
def textsValue (ss : List String) : Value := .seq (ss.map .str)

/-- A condition as a value of a document: its lists, as far as they are not empty. -/
def toValue (c : Condition) : Value :=
  .map ((if c.included.isEmpty then [] else [(.str "include", textsValue c.included)])
    ++ (if c.excluded.isEmpty then [] else [(.str "exclude", textsValue c.excluded)]))

end Condition

/-- What a condition looks at. -/
inductive Subject where
  | action
  | branch
  | cron
  | event
  | inst
  | paths
  | ref
  | repo
  | status
  | target
  deriving DecidableEq, Repr

namespace Subject

/-- All subjects, in the order in which documents list them. -/
def all : List Subject :=
  [action, branch, cron, event, inst, paths, ref, repo, status, target]

theorem mem_all (s : Subject) : s ∈ all := by cases s <;> decide

/-- The name of a subject in documents. -/
def name : Subject → String
  | action => "action"
  | branch => "branch"
  | cron => "cron"
  | event => "event"
  | inst => "instance"
  | paths => "paths"
  | ref => "ref"
  | repo => "repo"
  | status => "status"
  | target => "target"

/-- The subject of a name. -/
def ofName? (name : String) : Option Subject := all.find? (·.name = name)

end Subject

/-- One condition for every subject. -/
structure Conditions where
  on : Subject → Condition

namespace Conditions

instance : Inhabited Conditions := ⟨⟨fun _ => {}⟩⟩

/-- The conditions that accept everything. -/
def none : Conditions := ⟨fun _ => {}⟩

/-- The conditions with that of one subject replaced. -/
def set (cs : Conditions) (s : Subject) (c : Condition) : Conditions :=
  ⟨fun t => if t = s then c else cs.on t⟩

/-- The conditions that list at least one pattern, with their subjects in order. -/
def toList (cs : Conditions) : List (Subject × Condition) :=
  (Subject.all.map fun s => (s, cs.on s)).filter fun p => !p.2.isEmpty

-- Conditions are equal when they agree on every subject, of which there are ten.
instance : DecidableEq Conditions := fun a b =>
  if h : ∀ s ∈ Subject.all, a.on s = b.on s then
    isTrue (by
      obtain ⟨f⟩ := a
      obtain ⟨g⟩ := b
      have e : f = g := funext fun s => h s (Subject.mem_all s)
      rw [e])
  else isFalse (by rintro rfl; exact h fun _ _ => rfl)

/-- Whether one argument of a run passes: paths pass if one of them is accepted, every other
argument is accepted itself. -/
def acceptsArgument (cs : Conditions) (s : Subject) (v : Value) : Outcome Bool :=
  match s, v with
  | .paths, .str path => (cs.on .paths).acceptsAny (.seq [.str path])
  | .paths, v => (cs.on .paths).acceptsAny v
  | s, v => (cs.on s).acceptsValue v

/-- Whether the arguments of a run pass, taken in order: the first one that is rejected, or
whose name is unknown, decides. Arguments without a value pass. -/
def accepts (cs : Conditions) : List (String × Value) → Outcome Bool
  | [] => .ok true
  | (name, v) :: args =>
    match Subject.ofName? name with
    | Option.none => .error (.unknownCondition name)
    | some s =>
      match v with
      | .null => cs.accepts args
      | v => do if ← cs.acceptsArgument s v then cs.accepts args else return false

/-- Enters the conditions of a mapping's entries one after the other. -/
def decodeEntries (place : String) (cs : Conditions) :
    List (Value × Value) → Outcome Conditions
  | [] => .ok cs
  | (k, v) :: es => do
    let c ← Condition.decode v (place ++ "." ++ k.text)
    match k.str?.bind Subject.ofName? with
    | some s => decodeEntries place (cs.set s c) es
    | Option.none => decodeEntries place cs es

/-- Conditions from a value: nothing, or a mapping from names to conditions. -/
def decode (v : Value) (place : String) : Outcome Conditions :=
  match v with
  | .null => .ok none
  | .map entries => do
    let unknown := Condition.unknownKeys (Subject.all.map Subject.name) entries
    if !unknown.isEmpty then
      throw (.malformedOne
        (place ++ ": unknown conditions " ++ (← Condition.renderKeys unknown)))
    decodeEntries place none (Value.entries entries)
  | _ => .error (.malformedOne (place ++ ": expected a mapping"))

/-- Conditions as a value of a document: those that list a pattern, in order. -/
def toValue (cs : Conditions) : Value :=
  .map (cs.toList.map fun (s, c) => (.str s.name, c.toValue))

end Conditions

end PipelineManifest
