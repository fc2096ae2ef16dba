import PipelineManifest.Calendar
import PipelineManifest.Number.Shortest

/-!
# `PipelineManifest.Value.Basic`: the values a document can hold

A document is a tree of values: null, booleans, whole and floating-point numbers, texts,
octets, dates, times, and the containers sequence, tuple, set and mapping. A mapping keeps its
entries in order and its keys are values themselves. A document may also contain itself: the
place where a container occurs inside itself holds a reference `back n`, which names the
container `n` levels above the one that holds the reference.

* `Value`: the values.
* `Value.detach`: a part of a container as a value of its own, with no reference left that
  leads out of it.
* `Value.items`, `Value.entries`: the parts of a container, detached.
* `Value.isTruthy`, `Value.isHashable`, `Value.kindName`: the classes of values that the
  decoders tell apart.
-/

set_option autoImplicit false

namespace PipelineManifest

open Number (Binary64)

/-- A value of a document. -/
inductive Value where
  | null
  | bool (b : Bool)
  | int (i : Int)
  | float (x : Binary64)
  | str (s : String)
  | bytes (octets : List UInt8)
  | date (d : Date)
  | time (t : DateTime)
  | seq (items : List Value)
  | tuple (items : List Value)
  | set (items : List Value)
  | map (entries : List (Value × Value))
  | back (levels : Nat)
  deriving Repr, Inhabited

namespace Value

/-! ### Taking a part out of its container -/

mutual

/-- `v`, standing `depth` levels below a container, with every reference to that container
replaced. `outer d` is what stands for the container `d` levels further down. -/
def detach (outer : Nat → Value) (depth : Nat) : Value → Value
  | seq items => seq (detachItems outer (depth + 1) items)
  | tuple items => tuple (detachItems outer (depth + 1) items)
  | set items => set (detachItems outer (depth + 1) items)
  | map entries => map (detachEntries outer (depth + 1) entries)
  | back n => if n = depth then outer depth else back n
  | v => v

/-- `detach` on the items of a sequence. -/
def detachItems (outer : Nat → Value) (depth : Nat) : List Value → List Value
  | [] => []
  | v :: vs => detach outer depth v :: detachItems outer depth vs

/-- `detach` on the entries of a mapping; keys hold no references. -/
def detachEntries (outer : Nat → Value) (depth : Nat) :
    List (Value × Value) → List (Value × Value)
  | [] => []
  | (k, v) :: es => (k, detach outer depth v) :: detachEntries outer depth es

end

/-- The items of a sequence built by `make`, each detached; `before` are the items that come
before the given ones. In the container that replaces a reference, the item's own place holds
a reference to the item. -/
def detachedItems (make : List Value → Value) (before : List Value) : List Value → List Value
  | [] => []
  | v :: vs =>
    detach (fun d => make (before ++ back d :: vs)) 0 v
      :: detachedItems make (before ++ [v]) vs

/-- The entries of a mapping, each value detached. -/
def detachedEntries (before : List (Value × Value)) :
    List (Value × Value) → List (Value × Value)
  | [] => []
  | (k, v) :: es =>
    (k, detach (fun d => map (before ++ (k, back d) :: es)) 0 v)
      :: detachedEntries (before ++ [(k, v)]) es

/-- The items of a sequence. -/
def items (items : List Value) : List Value := detachedItems seq [] items

/-- The entries of a mapping. -/
def entries (entries : List (Value × Value)) : List (Value × Value) :=
  detachedEntries [] entries

/-! ### Values without references -/

mutual

/-- Whether no container occurs inside itself. -/
def isTree : Value → Bool
  | seq items | tuple items | set items => areTrees items
  | map entries => areTreeEntries entries
  | back _ => false
  | _ => true

/-- `isTree` on the items of a sequence. -/
def areTrees : List Value → Bool
  | [] => true
  | v :: vs => isTree v && areTrees vs

/-- `isTree` on the entries of a mapping. -/
def areTreeEntries : List (Value × Value) → Bool
  | [] => true
  | (k, v) :: es => isTree k && isTree v && areTreeEntries es

end

mutual

theorem detach_of_isTree (outer : Nat → Value) (depth : Nat) (v : Value) (h : v.isTree = true) :
    detach outer depth v = v := by
  cases v with
  | seq items | tuple items | set items =>
    simp only [isTree] at h
    rw [detach, detachItems_of_areTrees outer _ items h]
  | map entries =>
    simp only [isTree] at h
    rw [detach, detachEntries_of_areTreeEntries outer _ entries h]
  | back n => simp [isTree] at h
  | _ => rfl

theorem detachItems_of_areTrees (outer : Nat → Value) (depth : Nat) (vs : List Value)
    (h : areTrees vs = true) : detachItems outer depth vs = vs := by
  cases vs with
  | nil => rfl
  | cons v vs =>
    simp only [areTrees, Bool.and_eq_true] at h
    rw [detachItems, detach_of_isTree outer depth v h.1,
      detachItems_of_areTrees outer depth vs h.2]

theorem detachEntries_of_areTreeEntries (outer : Nat → Value) (depth : Nat)
    (es : List (Value × Value)) (h : areTreeEntries es = true) :
    detachEntries outer depth es = es := by
  cases es with
  | nil => rfl
  | cons e es =>
    obtain ⟨k, v⟩ := e
    simp only [areTreeEntries, Bool.and_eq_true] at h
    rw [detachEntries, detach_of_isTree outer depth v h.1.2,
      detachEntries_of_areTreeEntries outer depth es h.2]

end

theorem detachedItems_of_areTrees (make : List Value → Value) (before vs : List Value)
    (h : areTrees vs = true) : detachedItems make before vs = vs := by
  induction vs generalizing before with
  | nil => rfl
  | cons v vs ih =>
    simp only [areTrees, Bool.and_eq_true] at h
    rw [detachedItems, detach_of_isTree _ _ v h.1, ih _ h.2]

/-- The items of a sequence that holds no references are the items themselves. -/
theorem items_of_areTrees (vs : List Value) (h : areTrees vs = true) : items vs = vs :=
  detachedItems_of_areTrees seq [] vs h

theorem detachedEntries_of_areTreeEntries (before es : List (Value × Value))
    (h : areTreeEntries es = true) : detachedEntries before es = es := by
  induction es generalizing before with
  | nil => rfl
  | cons e es ih =>
    obtain ⟨k, v⟩ := e
    simp only [areTreeEntries, Bool.and_eq_true] at h
    rw [detachedEntries, detach_of_isTree _ _ v h.1.2, ih _ h.2]

/-- The entries of a mapping that holds no references are the entries themselves. -/
theorem entries_of_areTreeEntries (es : List (Value × Value)) (h : areTreeEntries es = true) :
    entries es = es :=
  detachedEntries_of_areTreeEntries [] es h

@[simp] theorem length_items (vs : List Value) : (items vs).length = vs.length := by
  have h : ∀ before : List Value, (detachedItems seq before vs).length = vs.length := by
    induction vs with
    | nil => intro _; rfl
    | cons v vs ih => intro before; simp [detachedItems, ih]
  exact h []

@[simp] theorem keys_entries (es : List (Value × Value)) :
    (entries es).map Prod.fst = es.map Prod.fst := by
  have h : ∀ before, (detachedEntries before es).map Prod.fst = es.map Prod.fst := by
    induction es with
    | nil => intro _; rfl
    | cons e es ih => intro before; obtain ⟨k, v⟩ := e; simp [detachedEntries, ih]
  exact h []

/-! ### Classes of values -/

/-- Whether a value counts as given: null, false, zero and everything empty do not. -/
def isTruthy : Value → Bool
  | null => false
  | bool b => b
  | int i => i ≠ 0
  | float x => !x.isZero
  | str s => s ≠ ""
  | bytes octets => !octets.isEmpty
  | seq items | tuple items | set items => !items.isEmpty
  | map entries => !entries.isEmpty
  | date _ | time _ | back _ => true

mutual

/-- Whether a value can be a key of a mapping or a member of a set. -/
def isHashable : Value → Bool
  | seq _ | set _ | map _ | back _ => false
  | tuple items => areHashable items
  | _ => true

/-- `isHashable` on the items of a tuple. -/
def areHashable : List Value → Bool
  | [] => true
  | v :: vs => isHashable v && areHashable vs

end

/-- The name of a value's kind in messages. -/
def kindName : Value → String
  | null => "NoneType"
  | bool _ => "bool"
  | int _ => "int"
  | float _ => "float"
  | str _ => "str"
  | bytes _ => "bytes"
  | date _ => "date"
  | time _ => "datetime"
  | seq _ => "list"
  | tuple _ => "tuple"
  | set _ => "set"
  | map _ => "dict"
  | back _ => "list"

/-- The empty mapping. -/
def empty : Value := map []

end Value

end PipelineManifest
