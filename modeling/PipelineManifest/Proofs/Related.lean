import Mathlib.Data.List.Forall2

/-!
# `PipelineManifest.Proofs.Related`: lists that are related one by one

Two runs side by side, or a list and what is made of it, are compared item by item
(`List.Forall₂`). These are the facts about such lists by which items are found and relations are
changed.

* `exists_of_mem_left`, `exists_of_mem_right`: the partner of an item.
* `forall₂_getElem?`: the items at one position.
* `forall₂_imp_of_mem`: another relation that holds within the two lists.
* `exists_forall₂_iff`: a list has a related one when every item has a partner.
-/

set_option autoImplicit false

namespace PipelineManifest

variable {α β : Type} {R : α → β → Prop} {xs : List α} {ys : List β}

theorem exists_of_mem_left (h : List.Forall₂ R xs ys) {x : α} (hx : x ∈ xs) : ∃ y ∈ ys, R x y := by
  induction h with
  | nil => cases hx
  | cons hxy _ ih =>
    rcases List.mem_cons.mp hx with rfl | hx
    · exact ⟨_, List.mem_cons_self, hxy⟩
    · obtain ⟨y, hy, hR⟩ := ih hx
      exact ⟨y, List.mem_cons_of_mem _ hy, hR⟩

theorem exists_of_mem_right (h : List.Forall₂ R xs ys) {y : β} (hy : y ∈ ys) : ∃ x ∈ xs, R x y :=
  exists_of_mem_left (R := fun y x => R x y) h.flip hy

theorem forall₂_getElem? (h : List.Forall₂ R xs ys) (i : Nat) : Option.Rel R xs[i]? ys[i]? := by
  induction h generalizing i with
  | nil => exact .none
  | cons hxy _ ih =>
    cases i with
    | zero => exact .some hxy
    | succ i => simpa using ih i

/-- What is related one by one is related also in a way that only holds within the two lists. -/
theorem forall₂_imp_of_mem {S : α → β → Prop} (h : List.Forall₂ R xs ys)
    (hS : ∀ x ∈ xs, ∀ y ∈ ys, R x y → S x y) : List.Forall₂ S xs ys := by
  induction h with
  | nil => exact .nil
  | @cons x y xs ys hxy _ ih =>
    exact .cons (hS x List.mem_cons_self y List.mem_cons_self hxy)
      (ih fun z hz w hw => hS z (List.mem_cons_of_mem _ hz) w (List.mem_cons_of_mem _ hw))

theorem exists_forall₂_iff : (∃ ys, List.Forall₂ R xs ys) ↔ ∀ x ∈ xs, ∃ y, R x y := by
  induction xs with
  | nil => simp
  | cons x xs ih =>
    rw [List.forall_mem_cons, ← ih]
    simp only [List.forall₂_cons_left_iff]
    exact ⟨fun ⟨_, y, ys, hy, hys, _⟩ => ⟨⟨y, hy⟩, ys, hys⟩,
      fun ⟨⟨y, hy⟩, ys, hys⟩ => ⟨_, y, ys, hy, hys, rfl⟩⟩

end PipelineManifest
