import PipelineManifest.Proofs.Outcome
import PipelineManifest.Proofs.Value.WellFormed

/-!
# `PipelineManifest.Proofs.Value.Writable`: values in which every number can be written

A whole number of too many digits cannot be written in base ten. What a message shows of a value,
and what a decoder reads of it, is found by taking parts out of containers, where a reference to a
container is replaced by the container; that brings no new numbers in. A decoder that writes some of
these parts out as texts fails if one of them cannot be written, and otherwise goes on.

* `Value.isWritable_of_isScalar`: among the scalars only whole numbers can be too long.
* `Value.isWritable_detach`: a part that is taken out of its container can be written.
* `Value.whenWritable`: an operation that writes some values out.
* `Value.whenWritable_bind`, `Value.exists_mapM_whenWritable`: a chain of such operations writes out
  what its links do.
-/

set_option autoImplicit false

namespace PipelineManifest

namespace Value

theorem areWritable_iff {vs : List Value} :
    areWritable vs = true ↔ ∀ v ∈ vs, v.isWritable = true := by
  induction vs with
  | nil => simp [areWritable]
  | cons v vs ih => simp [areWritable, ih]

theorem areWritableEntries_iff {es : List (Value × Value)} :
    areWritableEntries es = true ↔ ∀ e ∈ es, e.1.isWritable = true ∧ e.2.isWritable = true := by
  induction es with
  | nil => simp [areWritableEntries]
  | cons e es ih => simp [areWritableEntries, ih]

/-- Among the scalars only a whole number can be too long. -/
theorem isWritable_of_isScalar {v : Value} (h : v.isScalar = true) :
    v.isWritable = true ∨ ∃ i, v = .int i ∧ Number.isWritable i = false := by
  cases v with
  | int i =>
    cases hi : Number.isWritable i with
    | true => exact .inl hi
    | false => exact .inr ⟨i, rfl, hi⟩
  | seq vs | tuple vs | set vs => cases h
  | map es => cases h
  | _ => exact .inl rfl

/-! ### Taking parts out -/

mutual

/-- A part that is taken out of its container can be written, if what stands for the container in
it can be written. -/
theorem isWritable_detach {outer : Nat → Value} (houter : ∀ d, (outer d).isWritable = true)
    (depth : Nat) (v : Value) (h : v.isWritable = true) :
    (detach outer depth v).isWritable = true := by
  cases v with
  | seq items | tuple items | set items =>
    simp only [isWritable] at h
    simp only [detach, isWritable]
    exact areWritable_detachItems houter _ items h
  | map entries =>
    simp only [isWritable] at h
    simp only [detach, isWritable]
    exact areWritableEntries_detachEntries houter _ entries h
  | back n =>
    rw [detach]
    split
    · exact houter depth
    · rfl
  | _ => exact h

theorem areWritable_detachItems {outer : Nat → Value} (houter : ∀ d, (outer d).isWritable = true)
    (depth : Nat) (vs : List Value) (h : areWritable vs = true) :
    areWritable (detachItems outer depth vs) = true := by
  cases vs with
  | nil => rfl
  | cons v vs =>
    simp only [areWritable, Bool.and_eq_true] at h
    simp only [detachItems, areWritable, Bool.and_eq_true]
    exact ⟨isWritable_detach houter depth v h.1, areWritable_detachItems houter depth vs h.2⟩

theorem areWritableEntries_detachEntries {outer : Nat → Value}
    (houter : ∀ d, (outer d).isWritable = true) (depth : Nat) (es : List (Value × Value))
    (h : areWritableEntries es = true) :
    areWritableEntries (detachEntries outer depth es) = true := by
  cases es with
  | nil => rfl
  | cons e es =>
    obtain ⟨k, v⟩ := e
    simp only [areWritableEntries, Bool.and_eq_true] at h
    simp only [detachEntries, areWritableEntries, Bool.and_eq_true]
    exact ⟨⟨h.1.1, isWritable_detach houter depth v h.1.2⟩,
      areWritableEntries_detachEntries houter depth es h.2⟩

end

/-- Every item, detached, can be written. The induction is on the items that are left. -/
theorem isWritable_of_mem_detachedItems (before vs : List Value)
    (h : ∀ v ∈ before ++ vs, v.isWritable = true) :
    ∀ v ∈ detachedItems seq before vs, v.isWritable = true := by
  induction vs generalizing before with
  | nil => simp [detachedItems]
  | cons w ws ih =>
    intro v hv
    rw [detachedItems, List.mem_cons] at hv
    rcases hv with rfl | hv
    · -- In the sequence that replaces a reference, a reference stands in place of the item.
      refine isWritable_detach (fun d => ?_) 0 w (h w (by simp))
      rw [isWritable, areWritable_iff]
      intro u hu
      simp only [List.mem_append, List.mem_cons] at hu
      rcases hu with hu | rfl | hu
      · exact h u (by simp [hu])
      · rfl
      · exact h u (by simp [hu])
    · exact ih (before ++ [w]) (by simpa using h) v hv

theorem isWritable_of_mem_items {vs : List Value} (h : (seq vs).isWritable = true) {v : Value}
    (hv : v ∈ items vs) : v.isWritable = true := by
  rw [isWritable, areWritable_iff] at h
  exact isWritable_of_mem_detachedItems [] vs h v hv

/-- Every entry, its value detached, can be written. The induction is on the entries that are
left. -/
theorem isWritable_of_mem_detachedEntries (before es : List (Value × Value))
    (h : ∀ e ∈ before ++ es, e.1.isWritable = true ∧ e.2.isWritable = true) :
    ∀ e ∈ detachedEntries before es, e.1.isWritable = true ∧ e.2.isWritable = true := by
  induction es generalizing before with
  | nil => simp [detachedEntries]
  | cons f fs ih =>
    obtain ⟨k, w⟩ := f
    have hf := h (k, w) (by simp)
    intro e he
    rw [detachedEntries, List.mem_cons] at he
    rcases he with rfl | he
    · refine ⟨hf.1, isWritable_detach (fun d => ?_) 0 w hf.2⟩
      rw [isWritable, areWritableEntries_iff]
      intro g hg
      simp only [List.mem_append, List.mem_cons] at hg
      rcases hg with hg | rfl | hg
      · exact h g (by simp [hg])
      · exact ⟨hf.1, rfl⟩
      · exact h g (by simp [hg])
    · exact ih (before ++ [(k, w)]) (by simpa using h) e he

theorem isWritable_of_mem_entries {es : List (Value × Value)} (h : (map es).isWritable = true)
    {e : Value × Value} (he : e ∈ entries es) : e.1.isWritable = true ∧ e.2.isWritable = true := by
  rw [isWritable, areWritableEntries_iff] at h
  exact isWritable_of_mem_detachedEntries [] es h e he

/-- A field of a mapping that can be written can be written. -/
theorem isWritable_of_field? {es : List (Value × Value)} (h : (map es).isWritable = true)
    {name : String} {v : Value} (hv : field? name es = some v) : v.isWritable = true :=
  (isWritable_of_mem_entries h (mem_of_lookup?_str hv)).2

theorem isWritable_of_get {v : Value} (h : v.isWritable = true) {name : String}
    {o : Option Value} (ho : v.get name = .ok o) : ∀ w, o = some w → w.isWritable = true := by
  cases v with
  | map es =>
    rintro w rfl
    exact isWritable_of_field? h (Except.ok.inj ho)
  | _ => cases ho

/-! ### Writing values out -/

/-- What is made of some values that are written out for it. -/
def whenWritable {α : Type} (vs : List Value) (a : α) : Outcome α :=
  if areWritable vs then .ok a else .error .invalidValue

section Written

variable {α β : Type} {vs ws : List Value} {a : α}

@[simp] theorem whenWritable_nil : whenWritable [] a = .ok a := rfl

theorem whenWritable_of_areWritable (h : areWritable vs = true) : whenWritable vs a = .ok a := by
  rw [whenWritable, if_pos h]

theorem whenWritable_of_forall (h : ∀ v ∈ vs, v.isWritable = true) : whenWritable vs a = .ok a :=
  whenWritable_of_areWritable (areWritable_iff.mpr h)

theorem whenWritable_of_not_areWritable (h : areWritable vs = false) :
    whenWritable vs a = .error .invalidValue := by
  rw [whenWritable, h]
  rfl

theorem whenWritable_of_mem {v : Value} (hv : v ∈ vs) (h : v.isWritable = false) :
    whenWritable vs a = .error .invalidValue := by
  refine whenWritable_of_not_areWritable (Bool.eq_false_iff.mpr fun hvs => ?_)
  rw [areWritable_iff.mp hvs v hv] at h
  cases h

theorem whenWritable_eq_ok_iff {b : α} :
    whenWritable vs a = .ok b ↔ areWritable vs = true ∧ a = b := by
  rw [whenWritable]
  split <;> simp [*]

theorem areWritable_append : areWritable (vs ++ ws) = (areWritable vs && areWritable ws) := by
  induction vs with
  | nil => rfl
  | cons v vs ih => rw [List.cons_append, areWritable, areWritable, ih, Bool.and_assoc]

/-- One operation after another writes out what both do. -/
theorem whenWritable_bind {f : α → Outcome β} {b : β} (h : f a = whenWritable ws b) :
    whenWritable vs a >>= f = whenWritable (vs ++ ws) b := by
  rw [whenWritable, whenWritable, areWritable_append]
  cases hvs : areWritable vs with
  | true => rw [if_pos rfl, Outcome.ok_bind, h, whenWritable, Bool.true_and]
  | false => rfl

theorem whenWritable_map (f : α → β) :
    whenWritable vs a >>= (fun a => .ok (f a)) = whenWritable vs (f a) := by
  rw [whenWritable, whenWritable]
  split <;> rfl

/-- An operation on the items of a list writes out what it does for each of them. -/
theorem exists_mapM_whenWritable {f : α → Outcome β} {written : α → List Value} {P : α → β → Prop}
    {xs : List α} (h : ∀ x ∈ xs, ∃ y, f x = whenWritable (written x) y ∧ P x y) :
    ∃ ys, xs.mapM f = whenWritable (xs.flatMap written) ys ∧ ∀ y ∈ ys, ∃ x ∈ xs, P x y := by
  induction xs with
  | nil => exact ⟨[], rfl, by simp⟩
  | cons x xs ih =>
    obtain ⟨y, hy, hp⟩ := h x List.mem_cons_self
    obtain ⟨ys, hys, hps⟩ := ih fun z hz => h z (List.mem_cons_of_mem _ hz)
    refine ⟨y :: ys, ?_, ?_⟩
    · rw [List.mapM_cons, hy, List.flatMap_cons]
      refine whenWritable_bind ?_
      rw [hys]
      exact whenWritable_map (y :: ·)
    · intro z hz
      rcases List.mem_cons.mp hz with rfl | hz
      · exact ⟨x, List.mem_cons_self, hp⟩
      · obtain ⟨w, hw, hpw⟩ := hps z hz
        exact ⟨w, List.mem_cons_of_mem _ hw, hpw⟩

end Written

theorem toText_eq (v : Value) : v.toText = whenWritable [v] v.text := by
  rw [toText, whenWritable, areWritable, areWritable, Bool.and_true]

theorem toScalarText_eq (v : Value) : v.toScalarText = whenWritable [v] v.scalarText := by
  rw [toScalarText, whenWritable, areWritable, areWritable, Bool.and_true]

theorem toText_of_isWritable {v : Value} (h : v.isWritable = true) : v.toText = .ok v.text := by
  rw [toText, if_pos h]

theorem toScalarText_of_isWritable {v : Value} (h : v.isWritable = true) :
    v.toScalarText = .ok v.scalarText := by
  rw [toScalarText, if_pos h]

@[simp] theorem toScalarText_str (s : String) : (str s).toScalarText = .ok s := rfl

end Value

end PipelineManifest
