import PipelineManifest.Value.Equal

/-!
# `PipelineManifest.Value.Order`: sorting values

Numbers, texts, octets, dates and times are ordered among their own kind, tuples item by item.
Values of different kinds have no order, and sorting them fails.

* `Value.less?`: whether one value comes before another, if the two are comparable.
* `Value.sorted?`: a list of values in order, if they are comparable.
-/

set_option autoImplicit false

namespace PipelineManifest.Value

mutual

/-- Whether `v` comes before `w`. -/
def less? : Value → Value → Option Bool
  | str s, str t => some (s < t)
  | bytes s, bytes t => some (s < t)
  | date d, date e => some (d.ordinal < e.ordinal)
  | time t, time u => (t.compare? u).map (· = .lt)
  | tuple vs, tuple ws => lessItems? vs ws
  | v, w =>
    match v.quantity?, w.quantity? with
    | some p, some q => some (p.compare? q = some .lt)
    | _, _ => none

/-- The order of two tuples: that of the first items that differ. -/
def lessItems? : List Value → List Value → Option Bool
  | [], ws => some (!ws.isEmpty)
  | _ :: _, [] => some false
  | v :: vs, w :: ws => if equal v w then lessItems? vs ws else less? v w

end

/-- `v` put into a sorted list, before the first value that comes after it. -/
def insertSorted? (v : Value) : List Value → Option (List Value)
  | [] => some [v]
  | w :: ws => do
    if ← less? v w then return v :: w :: ws
    return w :: (← insertSorted? v ws)

/-- The values in order. -/
def sorted? (vs : List Value) : Option (List Value) := vs.foldlM (fun ws v => insertSorted? v ws) []

end PipelineManifest.Value
