import PipelineManifest.Proofs.Value.Keys

/-!
# `PipelineManifest.Proofs.Value.WellFormed`: the values that documents have

A value may hold any list of entries in a mapping. In a document the keys of a mapping are
scalars, and no two of them are the same key. A container may occur inside itself.

* `isWellFormed`: whether a value is one of a document.
* `hasDistinctKeys`: whether no key of a mapping is there twice, whatever the keys are.
* `isWellFormed_detach`: a part that is taken out of its container stays well-formed.
* `isWellFormed_of_field?`, `isWellFormed_of_mem_items`: the fields and the items of a
  well-formed value are well-formed.
-/

set_option autoImplicit false

namespace PipelineManifest.Value

/-- Whether no two keys of a list are the same. -/
def areDistinct : List Value → Bool
  | [] => true
  | k :: ks => !ks.any (sameKey k) && areDistinct ks

mutual

/-- Whether the keys of all mappings in a value are scalars, and different in each mapping. -/
def isWellFormed : Value → Bool
  | seq items | tuple items | set items => areWellFormed items
  | map entries => areDistinct (entries.map Prod.fst) && areWellFormedEntries entries
  | _ => true

/-- `isWellFormed` on the items of a sequence. -/
def areWellFormed : List Value → Bool
  | [] => true
  | v :: vs => isWellFormed v && areWellFormed vs

/-- `isWellFormed` on the values of a mapping, whose keys are scalars. -/
def areWellFormedEntries : List (Value × Value) → Bool
  | [] => true
  | (k, v) :: es => isScalar k && isWellFormed v && areWellFormedEntries es

end

theorem areWellFormed_iff {vs : List Value} :
    areWellFormed vs = true ↔ ∀ v ∈ vs, v.isWellFormed = true := by
  induction vs with
  | nil => simp [areWellFormed]
  | cons v vs ih => simp [areWellFormed, ih]

theorem areWellFormedEntries_iff {es : List (Value × Value)} :
    areWellFormedEntries es = true
      ↔ ∀ e ∈ es, e.1.isScalar = true ∧ e.2.isWellFormed = true := by
  induction es with
  | nil => simp [areWellFormedEntries]
  | cons e es ih =>
    obtain ⟨k, v⟩ := e
    simp [areWellFormedEntries, ih, and_assoc]

theorem isWellFormed_map_iff {es : List (Value × Value)} :
    (map es).isWellFormed = true
      ↔ areDistinct (es.map Prod.fst) = true
        ∧ ∀ e ∈ es, e.1.isScalar = true ∧ e.2.isWellFormed = true := by
  rw [isWellFormed, Bool.and_eq_true, areWellFormedEntries_iff]

/-- Whether no key of a mapping is there twice. -/
def hasDistinctKeys : Value → Bool
  | map es => areDistinct (es.map Prod.fst)
  | _ => true

theorem hasDistinctKeys_of_isWellFormed {v : Value} (h : v.isWellFormed = true) :
    v.hasDistinctKeys = true := by
  cases v with
  | map es => exact (isWellFormed_map_iff.mp h).1
  | _ => rfl

/-! ### Taking parts out -/

@[simp] theorem keys_detachEntries (outer : Nat → Value) (depth : Nat)
    (es : List (Value × Value)) :
    (detachEntries outer depth es).map Prod.fst = es.map Prod.fst := by
  induction es with
  | nil => rfl
  | cons e es ih =>
    obtain ⟨k, v⟩ := e
    rw [detachEntries, List.map_cons, List.map_cons, ih]

mutual

/-- A part that is taken out of its container stays well-formed, if what stands for the
container in it is well-formed. -/
theorem isWellFormed_detach {outer : Nat → Value}
    (houter : ∀ d, (outer d).isWellFormed = true) (depth : Nat) (v : Value)
    (h : v.isWellFormed = true) : (detach outer depth v).isWellFormed = true := by
  cases v with
  | seq items | tuple items | set items =>
    simp only [isWellFormed] at h
    simp only [detach, isWellFormed]
    exact areWellFormed_detachItems houter _ items h
  | map entries =>
    simp only [isWellFormed, Bool.and_eq_true] at h
    simp only [detach, isWellFormed, keys_detachEntries, Bool.and_eq_true]
    exact ⟨h.1, areWellFormedEntries_detachEntries houter _ entries h.2⟩
  | back n =>
    rw [detach]
    split
    · exact houter depth
    · rfl
  | _ => exact h

theorem areWellFormed_detachItems {outer : Nat → Value}
    (houter : ∀ d, (outer d).isWellFormed = true) (depth : Nat) (vs : List Value)
    (h : areWellFormed vs = true) : areWellFormed (detachItems outer depth vs) = true := by
  cases vs with
  | nil => rfl
  | cons v vs =>
    simp only [areWellFormed, Bool.and_eq_true] at h
    simp only [detachItems, areWellFormed, Bool.and_eq_true]
    exact ⟨isWellFormed_detach houter depth v h.1,
      areWellFormed_detachItems houter depth vs h.2⟩

theorem areWellFormedEntries_detachEntries {outer : Nat → Value}
    (houter : ∀ d, (outer d).isWellFormed = true) (depth : Nat) (es : List (Value × Value))
    (h : areWellFormedEntries es = true) :
    areWellFormedEntries (detachEntries outer depth es) = true := by
  cases es with
  | nil => rfl
  | cons e es =>
    obtain ⟨k, v⟩ := e
    simp only [areWellFormedEntries, Bool.and_eq_true] at h
    simp only [detachEntries, areWellFormedEntries, Bool.and_eq_true]
    exact ⟨⟨h.1.1, isWellFormed_detach houter depth v h.1.2⟩,
      areWellFormedEntries_detachEntries houter depth es h.2⟩

end

/-- Every item, detached, is well-formed. The induction is on the items that are left; what
stands for the sequence holds a reference in place of the item, and all others. -/
theorem isWellFormed_of_mem_detachedItems (before vs : List Value)
    (h : ∀ v ∈ before ++ vs, v.isWellFormed = true) :
    ∀ v ∈ detachedItems seq before vs, v.isWellFormed = true := by
  induction vs generalizing before with
  | nil => simp [detachedItems]
  | cons w ws ih =>
    intro v hv
    rw [detachedItems, List.mem_cons] at hv
    rcases hv with rfl | hv
    · refine isWellFormed_detach (fun d => ?_) 0 w (h w (by simp))
      rw [isWellFormed, areWellFormed_iff]
      intro u hu
      simp only [List.mem_append, List.mem_cons] at hu
      rcases hu with hu | rfl | hu
      · exact h u (by simp [hu])
      · rfl
      · exact h u (by simp [hu])
    · exact ih (before ++ [w]) (by simpa using h) v hv

theorem isWellFormed_of_mem_items {vs : List Value} (h : (seq vs).isWellFormed = true)
    {v : Value} (hv : v ∈ items vs) : v.isWellFormed = true := by
  rw [isWellFormed, areWellFormed_iff] at h
  exact isWellFormed_of_mem_detachedItems [] vs h v hv

/-- Every entry, its value detached, is well-formed. -/
theorem isWellFormed_of_mem_detachedEntries (before es : List (Value × Value))
    (h : (map (before ++ es)).isWellFormed = true) :
    ∀ e ∈ detachedEntries before es, e.1.isScalar = true ∧ e.2.isWellFormed = true := by
  induction es generalizing before with
  | nil => simp [detachedEntries]
  | cons f fs ih =>
    obtain ⟨k, w⟩ := f
    intro e he
    rw [detachedEntries, List.mem_cons] at he
    rcases he with rfl | he
    · rw [isWellFormed_map_iff] at h
      refine ⟨(h.2 (k, w) (by simp)).1, isWellFormed_detach (fun d => ?_) 0 w ?_⟩
      · -- The mapping with a reference in place of the entry's value has the same keys.
        rw [isWellFormed_map_iff]
        refine ⟨by simpa using h.1, fun g hg => ?_⟩
        simp only [List.mem_append, List.mem_cons] at hg
        rcases hg with hg | rfl | hg
        · exact h.2 g (by simp [hg])
        · exact ⟨(h.2 (k, w) (by simp)).1, rfl⟩
        · exact h.2 g (by simp [hg])
      · exact (h.2 (k, w) (by simp)).2
    · exact ih (before ++ [(k, w)]) (by simpa using h) e he

theorem isWellFormed_of_mem_entries {es : List (Value × Value)}
    (h : (map es).isWellFormed = true) {e : Value × Value} (he : e ∈ entries es) :
    e.1.isScalar = true ∧ e.2.isWellFormed = true :=
  isWellFormed_of_mem_detachedEntries [] es h e he

/-- A field of a well-formed mapping is well-formed. -/
theorem isWellFormed_of_field? {es : List (Value × Value)} (h : (map es).isWellFormed = true)
    {name : String} {v : Value} (hv : field? name es = some v) : v.isWellFormed = true :=
  (isWellFormed_of_mem_entries h (mem_of_lookup?_str hv)).2

end PipelineManifest.Value
