import PipelineManifest.Yaml.Stream

/-!
# `PipelineManifest.Proofs.Value.Same`: deciding whether two values are one

Equality of values as the program compares them takes `1` and `true` for equal, and not-a-number for
unequal to itself. Here values are compared as they are built, so that what comes out of a reading
can be compared with what is expected.

* `Value.same`: whether two values are built alike.
* `Value.same_iff`: then they are one value, which makes equality of values decidable.
-/

set_option autoImplicit false

namespace PipelineManifest

namespace Value

mutual

/-- Whether two values are built alike. -/
def same : Value → Value → Bool
  | null, null => true
  | bool b, bool c => b = c
  | int i, int j => i = j
  | float x, float y => x = y
  | str s, str t => s = t
  | bytes s, bytes t => s = t
  | date d, date e => d = e
  | time t, time u => t = u
  | seq vs, seq ws | tuple vs, tuple ws | set vs, set ws => sameItems vs ws
  | map es, map fs => sameEntries es fs
  | back m, back n => m = n
  | _, _ => false
termination_by structural v => v

/-- `same` item by item. -/
def sameItems : List Value → List Value → Bool
  | [], [] => true
  | v :: vs, w :: ws => same v w && sameItems vs ws
  | _, _ => false
termination_by structural vs => vs

/-- `same` entry by entry. -/
def sameEntries : List (Value × Value) → List (Value × Value) → Bool
  | [], [] => true
  | (k, v) :: es, (l, w) :: fs => same k l && same v w && sameEntries es fs
  | _, _ => false
termination_by structural es => es

end

mutual

theorem same_iff (v w : Value) : same v w = true ↔ v = w := by
  cases v with
  | seq vs | tuple vs | set vs => cases w <;> simp [same, sameItems_iff vs]
  | map es => cases w <;> simp [same, sameEntries_iff es]
  | _ => cases w <;> simp [same]

theorem sameItems_iff (vs ws : List Value) : sameItems vs ws = true ↔ vs = ws := by
  cases vs with
  | nil => cases ws <;> simp [sameItems]
  | cons v vs => cases ws <;> simp [sameItems, same_iff v, sameItems_iff vs]

theorem sameEntries_iff (es fs : List (Value × Value)) : sameEntries es fs = true ↔ es = fs := by
  cases es with
  | nil => cases fs <;> simp [sameEntries]
  | cons e es =>
    cases fs with
    | nil => simp [sameEntries]
    | cons f fs =>
      obtain ⟨k, v⟩ := e
      simp [sameEntries, same_iff k, same_iff v, sameEntries_iff es, Prod.ext_iff]

end

instance : DecidableEq Value := fun v w => decidable_of_iff _ (same_iff v w)

end Value

instance : DecidableEq Yaml.SourcedValue := fun v w =>
  decidable_of_iff (v.data = w.data ∧ v.source = w.source) (by cases v; cases w; simp)

end PipelineManifest
