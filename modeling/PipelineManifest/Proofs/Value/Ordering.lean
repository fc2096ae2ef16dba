import PipelineManifest.Proofs.Value.Keys
import PipelineManifest.Value.Order

/-!
# `PipelineManifest.Proofs.Value.Ordering`: which values can be put in order

Values are sorted one by one: each is put in front of the first value that comes after it. This
compares neighbours, so it fails as soon as two values without an order between them meet. Among
scalars that is a matter of their kinds alone.

* `OrderKind`, `orderKind?`: the kinds of scalars that have an order; null has none.
* `less?_isSome_iff`: two scalars have an order exactly when they are of one kind.
* `perm_of_sorted?`: sorting neither loses nor repeats a value.
* `sorted?_eq_none_iff`: scalars cannot be sorted exactly when there are two of them at least and
  they are not all of one kind.
-/

set_option autoImplicit false

namespace PipelineManifest.Value

/-- The kinds of scalars that have an order among themselves. Times with an offset and times without
one are two kinds. -/
inductive OrderKind where
  | number
  | text
  | octets
  | date
  | time (hasOffset : Bool)
  deriving DecidableEq

/-- The kind of a scalar by which it is compared; booleans count as numbers. -/
def orderKind? : Value → Option OrderKind
  | bool _ | int _ | float _ => some .number
  | str _ => some .text
  | bytes _ => some .octets
  | date _ => some .date
  | time t => some (.time t.offset.isSome)
  | _ => none

/-- Two scalars have an order exactly when they are of one kind. -/
theorem less?_isSome_iff {v w : Value} (hv : v.isScalar = true) :
    (less? v w).isSome = true ↔ ∃ k, v.orderKind? = some k ∧ w.orderKind? = some k := by
  cases v with
  | time t =>
    cases w with
    | time u =>
      cases ht : t.offset.isSome <;> cases hu : u.offset.isSome <;>
        simp [less?, DateTime.compare?, orderKind?, ht, hu]
    | _ => simp [less?, quantity?, orderKind?]
  | seq vs | tuple vs | set vs | map es | back n => cases hv
  | _ => cases w <;> simp [less?, quantity?, orderKind?]

section Insert

variable {v : Value} {ws us : List Value}

theorem perm_of_insertSorted? (h : insertSorted? v ws = some us) : us.Perm (v :: ws) := by
  induction ws generalizing us with
  | nil =>
    cases h
    exact .refl _
  | cons w ws ih =>
    rw [insertSorted?] at h
    obtain ⟨less, -, h⟩ := Option.bind_eq_some_iff.mp h
    cases less with
    | true =>
      cases h
      exact .refl _
    | false =>
      obtain ⟨us', hus', h⟩ := Option.bind_eq_some_iff.mp h
      cases h
      exact ((ih hus').cons w).trans (.swap v w ws)

/-- A scalar can be put among values of one kind exactly when it is of this kind as well. -/
theorem insertSorted?_isSome_iff {k : OrderKind} (hv : v.isScalar = true) (hne : ws ≠ [])
    (hws : ∀ w ∈ ws, w.orderKind? = some k) :
    (insertSorted? v ws).isSome = true ↔ v.orderKind? = some k := by
  induction ws with
  | nil => exact absurd rfl hne
  | cons w ws ih =>
    obtain ⟨hw, hws⟩ := List.forall_mem_cons.mp hws
    have hhead : (less? v w).isSome = true ↔ v.orderKind? = some k := by
      simp [less?_isSome_iff hv, hw]
    rw [← hhead, insertSorted?]
    -- The first comparison decides: a value that is of the kind of one is of the kind of all.
    cases hless : less? v w with
    | none => simp
    | some less =>
      cases less with
      | true => simp
      | false =>
        cases ws with
        | nil => simp [insertSorted?]
        | cons u us =>
          have hrest := (ih (by simp) hws).mpr (hhead.mp (by simp [hless]))
          obtain ⟨xs, hxs⟩ := Option.isSome_iff_exists.mp hrest
          simp [hxs]

end Insert

/-- The values put one after the other into a sorted list. -/
def insertAll? (ws vs : List Value) : Option (List Value) :=
  vs.foldlM (fun ws v => insertSorted? v ws) ws

theorem insertAll?_cons (ws : List Value) (v : Value) (vs : List Value) :
    insertAll? ws (v :: vs) = (insertSorted? v ws).bind fun us => insertAll? us vs :=
  List.foldlM_cons

theorem perm_of_insertAll? {ws vs us : List Value} (h : insertAll? ws vs = some us) :
    us.Perm (ws ++ vs) := by
  induction vs generalizing ws with
  | nil =>
    cases h
    rw [List.append_nil]
  | cons v vs ih =>
    rw [insertAll?_cons] at h
    obtain ⟨xs, hxs, h⟩ := Option.bind_eq_some_iff.mp h
    exact (ih h).trans (((perm_of_insertSorted? hxs).append_right vs).trans
      List.perm_middle.symm)

/-- Sorting neither loses nor repeats a value. -/
theorem perm_of_sorted? {vs us : List Value} (h : sorted? vs = some us) : us.Perm vs := by
  have hperm : us.Perm ([] ++ vs) := perm_of_insertAll? h
  exact hperm

theorem insertAll?_isSome_iff {k : OrderKind} {ws vs : List Value}
    (hscalar : ∀ v ∈ vs, v.isScalar = true) (hne : ws ≠ [])
    (hws : ∀ w ∈ ws, w.orderKind? = some k) :
    (insertAll? ws vs).isSome = true ↔ ∀ v ∈ vs, v.orderKind? = some k := by
  induction vs generalizing ws with
  | nil => exact iff_of_true rfl (by simp)
  | cons v vs ih =>
    obtain ⟨hv, hvs⟩ := List.forall_mem_cons.mp hscalar
    have hinsert := insertSorted?_isSome_iff hv hne hws
    rw [insertAll?_cons, List.forall_mem_cons, ← hinsert]
    cases hus : insertSorted? v ws with
    | none => simp
    | some us =>
      have hperm := perm_of_insertSorted? hus
      have hv' := hinsert.mp (by simp [hus])
      have hall : ∀ u ∈ v :: ws, u.orderKind? = some k := List.forall_mem_cons.mpr ⟨hv', hws⟩
      have hus' : ∀ u ∈ us, u.orderKind? = some k := fun u hu => hall u (hperm.mem_iff.mp hu)
      simpa using ih hvs (by rintro rfl; simpa using hperm.length_eq) hus'

/-- Scalars cannot be sorted exactly when there are two of them at least and they are not all of one
kind. A single scalar needs no order. -/
theorem sorted?_eq_none_iff {vs : List Value} (hscalar : ∀ v ∈ vs, v.isScalar = true) :
    sorted? vs = none ↔ 2 ≤ vs.length ∧ ¬ ∃ k, ∀ v ∈ vs, v.orderKind? = some k := by
  match vs with
  | [] => simp [sorted?]
  | [v] => simp [sorted?, insertSorted?]
  | v :: w :: vs =>
    obtain ⟨hv, hrest⟩ := List.forall_mem_cons.mp hscalar
    have hstart : sorted? (v :: w :: vs) = insertAll? [v] (w :: vs) := rfl
    rw [hstart, ← Option.not_isSome_iff_eq_none]
    refine Iff.trans (not_congr ?_) (iff_and_self.mpr fun _ => by simp)
    cases hk : v.orderKind? with
    | some k =>
      rw [insertAll?_isSome_iff hrest (by simp) (by simpa using hk)]
      simp [hk]
    | none =>
      -- Null has no order, not even with a value of its own kind.
      have hless : less? w v = none := by
        rw [← Option.not_isSome_iff_eq_none, less?_isSome_iff (hrest w List.mem_cons_self)]
        simp [hk]
      simp [insertAll?_cons, insertSorted?, hless, hk]

end PipelineManifest.Value
