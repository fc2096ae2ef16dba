import PipelineManifest.Proofs.Schema.Shapes

/-!
# `PipelineManifest.Proofs.Value.Kinds`: the kinds of values that fields hold

The plain fields of pipelines hold texts, lists of texts, booleans and depths. A value of one of
these kinds is equal to itself, and the only one of its kind that does not count as given is the
value that a field has when it is left out. (A depth of zero may be held as a floating-point
number, and is then equal to the whole number zero.)

* `IsText`, `IsTexts`, `IsSwitch`: the kinds.
* `IsText.equal_self` and so on: equality.
* `IsText.eq_of_not_isTruthy` and so on: the values that do not count as given.
-/

set_option autoImplicit false

namespace PipelineManifest

namespace Value

/-- A text. -/
def IsText (v : Value) : Prop := ∃ s, v = .str s

/-- A list of texts. -/
def IsTexts (v : Value) : Prop := ∃ ss : List String, v = .seq (ss.map .str)

/-- A boolean. -/
def IsSwitch (v : Value) : Prop := ∃ b, v = .bool b

/-! ### Values without references -/

theorem IsText.isTree {v : Value} (h : v.IsText) : v.isTree = true := by
  obtain ⟨s, rfl⟩ := h
  rfl

theorem areTreeEntries_append (es fs : List (Value × Value)) :
    areTreeEntries (es ++ fs) = (areTreeEntries es && areTreeEntries fs) := by
  induction es with
  | nil => rfl
  | cons e es ih => simp only [List.cons_append, areTreeEntries, ih, Bool.and_assoc]

theorem areTrees_map {α : Type} {f : α → Value} {xs : List α}
    (h : ∀ x ∈ xs, (f x).isTree = true) : areTrees (xs.map f) = true := by
  induction xs with
  | nil => rfl
  | cons x xs ih =>
    rw [List.map_cons, areTrees, h x List.mem_cons_self,
      ih fun y hy => h y (List.mem_cons_of_mem _ hy)]
    rfl

theorem areTrees_map_str (ss : List String) : areTrees (ss.map .str) = true :=
  areTrees_map fun _ _ => rfl

theorem IsTexts.isTree {v : Value} (h : v.IsTexts) : v.isTree = true := by
  obtain ⟨ss, rfl⟩ := h
  exact areTrees_map_str ss

/-! ### Equality -/

theorem equal_str_self (s : String) : equal (.str s) (.str s) = true :=
  equal_str_iff.mpr rfl

theorem IsText.equal_self {v : Value} (h : v.IsText) : v.equal v = true := by
  obtain ⟨s, rfl⟩ := h
  exact equal_str_self s

theorem IsTexts.equal_self {v : Value} (h : v.IsTexts) : v.equal v = true := by
  obtain ⟨ss, rfl⟩ := h
  rw [equal]
  induction ss with
  | nil => rfl
  | cons s ss ih => rw [List.map_cons, equalItems, equal_str_self, ih, Bool.and_self]

theorem equal_bool_self (b : Bool) : equal (.bool b) (.bool b) = true := by
  cases b <;> rfl

theorem IsSwitch.equal_self {v : Value} (h : v.IsSwitch) : v.equal v = true := by
  obtain ⟨b, rfl⟩ := h
  exact equal_bool_self b

/-! ### Values that do not count as given -/

theorem IsText.eq_of_not_isTruthy {v : Value} (h : v.IsText) (hv : v.isTruthy = false) :
    v = .str "" := by
  obtain ⟨s, rfl⟩ := h
  simpa [isTruthy] using hv

theorem IsTexts.eq_of_not_isTruthy {v : Value} (h : v.IsTexts) (hv : v.isTruthy = false) :
    v = .seq [] := by
  obtain ⟨ss, rfl⟩ := h
  simpa [isTruthy] using hv

theorem IsSwitch.eq_bool_isTruthy {v : Value} (h : v.IsSwitch) : v = .bool v.isTruthy := by
  obtain ⟨b, rfl⟩ := h
  rfl

/-- The floating-point number zero has the value of the whole number zero. -/
theorem equal_zero_of_isZero {x : Number.Binary64} (h : x.isZero = true) :
    equal (.int 0) (.float x) = true := by
  have hcompare : x.compareInt? 0 = some .eq := by
    cases x with
    | nan => cases h
    | infinity s => cases h
    | finite s m e =>
      have hm : m = 0 := by
        cases m with
        | zero => rfl
        | succ m => cases h
      subst hm
      simp [Number.Binary64.compareInt?, Number.Binary64.ratio?, Number.compareRatios]
  simp [equal, sameQuantity, quantity?, Quantity.equal, Quantity.compare?, hcompare]

end Value

namespace Schema.IsDepth

variable {v : Value}

theorem isTree (h : IsDepth v) : v.isTree = true := by
  obtain ⟨n, -, rfl | ⟨x, rfl, -⟩⟩ := h
  · rfl
  · rfl

/-- A depth is a number, and none that differs from itself. -/
theorem equal_self (h : IsDepth v) : v.equal v = true := by
  obtain ⟨n, -, rfl | ⟨x, rfl, hx⟩⟩ := h
  · simp [Value.equal, Value.sameQuantity, Value.quantity?, Quantity.equal, Quantity.compare?]
  · have hnan : x ≠ .nan := by
      rintro rfl
      cases hx
    simp [Value.equal, Value.sameQuantity, Value.quantity?, Quantity.equal, Quantity.compare?,
      Number.Binary64.compare?_self hnan]

/-- A depth that does not count as given is zero. -/
theorem equal_zero (h : IsDepth v) (hv : v.isTruthy = false) :
    Value.equal (.int 0) v = true := by
  obtain ⟨n, -, rfl | ⟨x, rfl, -⟩⟩ := h
  · have hn : n = 0 := by simpa [Value.isTruthy] using hv
    subst hn
    rfl
  · exact Value.equal_zero_of_isZero (by simpa [Value.isTruthy] using hv)

end Schema.IsDepth

end PipelineManifest
