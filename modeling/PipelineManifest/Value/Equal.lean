import PipelineManifest.Value.Basic

/-!
# `PipelineManifest.Value.Equal`: when two values are equal

Numbers are equal by value, whichever way they are held, and booleans count as the numbers
zero and one. Sequences are equal item by item, sets by their members and mappings by their
entries, in any order; a sequence is never equal to a tuple. Times with an offset are equal
when they are the same instant. Not-a-number equals nothing, but as a key it is the same key
as itself.

* `Value.equal`: equality of values.
* `Value.sameKey`: equality of keys.
* `Value.lookup?`, `Value.insertEntry`: entries by key; a new value of a key keeps the key's
  place.
-/

set_option autoImplicit false

namespace PipelineManifest

open Number (Binary64)

/-- A number, whole or floating-point. -/
inductive Quantity where
  | int (i : Int)
  | float (x : Binary64)
  deriving DecidableEq, Repr

namespace Quantity

/-- The order of two numbers by value. -/
def compare? : Quantity → Quantity → Option Ordering
  | int i, int j => some (compare i j)
  | int i, float x => (x.compareInt? i).map Ordering.swap
  | float x, int i => x.compareInt? i
  | float x, float y => x.compare? y

/-- Whether two numbers have one value. -/
def equal (p q : Quantity) : Bool := p.compare? q = some .eq

end Quantity

namespace Value

/-- The number that a value counts as. -/
def quantity? : Value → Option Quantity
  | bool b => some (.int (if b then 1 else 0))
  | int i => some (.int i)
  | float x => some (.float x)
  | _ => none

/-- Whether two values count as the same number. -/
def sameQuantity (v w : Value) : Bool :=
  match v.quantity?, w.quantity? with
  | some p, some q => p.equal q
  | _, _ => false

mutual

/-- Equality of values. -/
def equal : Value → Value → Bool
  | null, null => true
  | str s, str t => s = t
  | bytes s, bytes t => s = t
  | date d, date e => d = e
  | time t, time u => t.sameInstant u
  | seq vs, seq ws => equalItems vs ws
  | tuple vs, tuple ws => equalItems vs ws
  | set vs, set ws => vs.length = ws.length && equalMembers vs ws
  | map es, map fs => es.length = fs.length && equalEntries es fs
  | back m, back n => m = n
  | v, w => sameQuantity v w
termination_by structural v => v

/-- Equality item by item. -/
def equalItems : List Value → List Value → Bool
  | [], [] => true
  | v :: vs, w :: ws => equal v w && equalItems vs ws
  | _, _ => false
termination_by structural vs => vs

/-- Whether every value of the first list equals one of the second. -/
def equalMembers : List Value → List Value → Bool
  | [], _ => true
  | v :: vs, ws => ws.any (equal v) && equalMembers vs ws
termination_by structural vs => vs

/-- Whether every entry of the first list equals one of the second. -/
def equalEntries : List (Value × Value) → List (Value × Value) → Bool
  | [], _ => true
  | (k, v) :: es, fs => fs.any (fun f => equal k f.1 && equal v f.2) && equalEntries es fs
termination_by structural es => es

end

/-- Equality of keys. -/
def sameKey : Value → Value → Bool
  -- Otherwise a mapping could hold any number of entries under it.
  | float .nan, float .nan => true
  | k, l => equal k l

/-- The value of the first entry with this key. -/
def lookup? {α : Type} (key : Value) : List (Value × α) → Option α
  | [] => none
  | (k, v) :: es => if sameKey k key then some v else lookup? key es

/-- The entries with `key` set to `value`: in its old place if the key is there, else at the
end. -/
def insertEntry {α : Type} (key : Value) (value : α) : List (Value × α) → List (Value × α)
  | [] => [(key, value)]
  | (k, v) :: es =>
    if sameKey k key then (k, value) :: es else (k, v) :: insertEntry key value es

/-- The entries that arise from entering `entries` one after the other. -/
def ofEntries {α : Type} (entries : List (Value × α)) : List (Value × α) :=
  entries.foldl (fun es e => insertEntry e.1 e.2 es) []

/-- The values without those that equal an earlier one. -/
def distinct (members : List Value) : List Value :=
  members.foldl (fun vs v => if vs.any (sameKey · v) then vs else vs ++ [v]) []

/-- The value of a mapping's field with a text as its key. -/
def field? (name : String) (entries : List (Value × Value)) : Option Value :=
  lookup? (str name) (Value.entries entries)

/-- Whether a mapping has a field with a text as its key. -/
def hasField (name : String) (entries : List (Value × Value)) : Bool :=
  entries.any fun e => sameKey e.1 (str name)

end Value

end PipelineManifest
