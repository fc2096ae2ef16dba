import PipelineManifest.Value.Access

/-!
# `PipelineManifest.Proofs.Value.Keys`: looking up the fields of a mapping

Fields are looked up by texts, and keys are compared as a mapping compares them. The facts that
the other proofs use:

* `sameKey_str_iff`: only a text is the same key as a text.
* `sameKey_self`: a scalar is the same key as itself, not-a-number included.
* `lookup?_append`, `lookup?_str_cons`: a lookup goes through the entries from the front.
* `hasField_eq_isSome`: a mapping has a field exactly when looking it up finds one.
* `field?_of_isTree`: in a value without references a field is what is written there.
-/

set_option autoImplicit false

namespace PipelineManifest

namespace Number.Binary64

/-- A number that is not not-a-number is equal to itself. -/
theorem compare?_self {x : Binary64} (h : x ≠ .nan) : x.compare? x = some .eq := by
  cases x with
  | nan => exact absurd rfl h
  | infinity s => simp [compare?]
  | finite s m e => simp [compare?, ratio?, compareRatios]

end Number.Binary64

theorem DateTime.sameInstant_self (t : DateTime) : t.sameInstant t = true := by
  simp [sameInstant, compare?]

namespace Value

/-! ### Keys -/

/-- Whether a value is no container. -/
def isScalar : Value → Bool
  | seq _ | tuple _ | set _ | map _ | back _ => false
  | _ => true

theorem isTree_of_isScalar {v : Value} (h : v.isScalar = true) : v.isTree = true := by
  cases v <;> first | rfl | simp [isScalar] at h

theorem equal_str_iff {v : Value} {s : String} : equal v (str s) = true ↔ v = str s := by
  cases v <;> simp [equal, sameQuantity, quantity?]

/-- Only a text is the same key as a text. -/
theorem sameKey_str_iff {k : Value} {s : String} : sameKey k (str s) = true ↔ k = str s := by
  have h : sameKey k (str s) = equal k (str s) := by
    unfold sameKey
    split
    · rename_i h
      cases h
    · rfl
  rw [h, equal_str_iff]

@[simp] theorem sameKey_str_str (s t : String) : sameKey (str s) (str t) = decide (s = t) := by
  rw [Bool.eq_iff_iff, sameKey_str_iff]
  simp

/-- Values that are equal are the same key. -/
theorem sameKey_of_equal {v w : Value} (h : equal v w = true) : sameKey v w = true := by
  unfold sameKey
  split
  · rfl
  · exact h

/-- A scalar is the same key as itself. Not-a-number is, although it does not equal itself. -/
theorem sameKey_self {k : Value} (h : k.isScalar = true) : sameKey k k = true := by
  cases k with
  | float x =>
    by_cases hx : x = .nan
    · subst hx
      rfl
    · have he : equal (float x) (float x) = true := by
        simp [equal, sameQuantity, quantity?, Quantity.equal, Quantity.compare?,
          Number.Binary64.compare?_self hx]
      unfold sameKey
      split
      · rfl
      · exact he
  | time t => exact DateTime.sameInstant_self t
  | seq _ | tuple _ | set _ | map _ | back _ => simp [isScalar] at h
  | null => rfl
  | bool b => simp [sameKey, equal, sameQuantity, quantity?, Quantity.equal, Quantity.compare?]
  | int i => simp [sameKey, equal, sameQuantity, quantity?, Quantity.equal, Quantity.compare?]
  | str s | bytes s | date s => simp [sameKey, equal]

/-! ### Lookups -/

section Lookup

variable {α : Type}

@[simp] theorem lookup?_nil (key : Value) : lookup? key ([] : List (Value × α)) = none := rfl

theorem lookup?_cons (key k : Value) (v : α) (es : List (Value × α)) :
    lookup? key ((k, v) :: es) = if sameKey k key then some v else lookup? key es := rfl

@[simp] theorem lookup?_str_cons (name s : String) (v : α) (es : List (Value × α)) :
    lookup? (str name) ((str s, v) :: es)
      = if s = name then some v else lookup? (str name) es := by
  simp [lookup?_cons]

theorem lookup?_append (key : Value) (es fs : List (Value × α)) :
    lookup? key (es ++ fs) = (lookup? key es).or (lookup? key fs) := by
  induction es with
  | nil => rfl
  | cons e es ih =>
    obtain ⟨k, v⟩ := e
    rw [List.cons_append, lookup?_cons, lookup?_cons, ih]
    split <;> rfl

/-- What is found under a text is an entry of the mapping. -/
theorem mem_of_lookup?_str {name : String} {v : α} {es : List (Value × α)}
    (h : lookup? (str name) es = some v) : (str name, v) ∈ es := by
  induction es with
  | nil => cases h
  | cons e es ih =>
    obtain ⟨k, w⟩ := e
    rw [lookup?_cons] at h
    split at h
    · rename_i hk
      rw [sameKey_str_iff] at hk
      cases h
      rw [hk]
      exact List.mem_cons_self
    · exact List.mem_cons_of_mem _ (ih h)

theorem lookup?_isSome (key : Value) (es : List (Value × α)) :
    (lookup? key es).isSome = (es.map Prod.fst).any (sameKey · key) := by
  induction es with
  | nil => rfl
  | cons e es ih =>
    obtain ⟨k, v⟩ := e
    rw [lookup?_cons, List.map_cons, List.any_cons, ← ih]
    cases h : sameKey k key <;> simp

end Lookup

/-! ### Fields -/

/-- A mapping has a field exactly when looking it up finds one. -/
theorem hasField_eq_isSome (name : String) (es : List (Value × Value)) :
    hasField name es = (field? name es).isSome := by
  rw [field?, lookup?_isSome, keys_entries, List.any_map]
  rfl

@[simp] theorem get_map (es : List (Value × Value)) (name : String) :
    (map es).get name = .ok (field? name es) := rfl

@[simp] theorem fields_map (es : List (Value × Value)) : (map es).fields = .ok (entries es) := rfl

/-- In a value without references a field is what is written there. -/
theorem field?_of_isTree {es : List (Value × Value)} (h : (map es).isTree = true)
    (name : String) : field? name es = lookup? (str name) es := by
  simp only [isTree] at h
  rw [field?, entries_of_areTreeEntries es h]

/-- The one field of a mapping with one entry. -/
theorem field?_singleton {v : Value} (h : v.isTree = true) (name s : String) :
    field? name [(str s, v)] = if s = name then some v else none := by
  have htree : (map [(str s, v)]).isTree = true := by simp [isTree, areTreeEntries, h]
  rw [field?_of_isTree htree, lookup?_str_cons, lookup?_nil]

@[simp] theorem orEmpty_none : orEmpty none = map [] := rfl

/-- A mapping stands for itself, also where it is empty. -/
@[simp] theorem orEmpty_map (es : List (Value × Value)) : orEmpty (some (map es)) = map es := by
  cases es <;> rfl

end Value

end PipelineManifest
