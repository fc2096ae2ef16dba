import Mathlib.Data.List.Forall2
import PipelineManifest.Fault

/-!
# `PipelineManifest.Proofs.Outcome`: operations one after the other

Operations that can fail are chained: the first fault ends the chain. These are the equations by
which the other proofs go along a chain.

* `ok_bind`, `error_bind`, `bind_eq_ok_iff`, `bind_eq_error_iff`: one step of a chain.
* `mapM_ok`: the same operation on every item of a list, where it succeeds.
* `exists_of_mapM_eq_ok`, `eq_map_of_mapM_eq_ok`, `forall₂_of_mapM_eq_ok`, `mapM_eq_ok_of_forall`:
  what it means that it succeeded on a list.
* `Satisfies`: what an operation gives has a property, and so has its fault if it fails. A chain has
  them when every link does (`Satisfies.bind`).
* `Yields`: the same with faults of manifests.
* `Alike`: two operations fail alike, or give what is related. Chains agree when their links do
  (`Alike.bind`).
-/

set_option autoImplicit false

namespace PipelineManifest.Outcome

variable {α β : Type}

@[simp] theorem ok_bind (a : α) (f : α → Outcome β) : (Except.ok a : Outcome α) >>= f = f a := rfl

@[simp] theorem error_bind (fault : Fault) (f : α → Outcome β) :
    (Except.error fault : Outcome α) >>= f = .error fault := rfl

@[simp] theorem pure_eq_ok (a : α) : (pure a : Outcome α) = .ok a := rfl

@[simp] theorem throw_eq_error (fault : Fault) : (throw fault : Outcome α) = .error fault := rfl

/-- A chain succeeds when its first operation does, and then the rest with its result. -/
theorem bind_eq_ok_iff {ε : Type} {x : Except ε α} {f : α → Except ε β} {b : β} :
    x >>= f = .ok b ↔ ∃ a, x = .ok a ∧ f a = .ok b := by
  cases x <;> simp [bind, Except.bind]

/-- A chain fails with the fault of its first operation, or of the rest. -/
theorem bind_eq_error_iff {ε : Type} {x : Except ε α} {f : α → Except ε β} {e : ε} :
    x >>= f = .error e ↔ x = .error e ∨ ∃ a, x = .ok a ∧ f a = .error e := by
  cases x <;> simp [bind, Except.bind]

/-- An operation that succeeds on every item succeeds on the list. -/
theorem mapM_ok {f : α → Outcome β} {g : α → β} {xs : List α}
    (h : ∀ x ∈ xs, f x = .ok (g x)) : xs.mapM f = .ok (xs.map g) := by
  induction xs with
  | nil => rfl
  | cons x xs ih =>
    rw [List.mapM_cons, h x List.mem_cons_self, ok_bind,
      ih fun y hy => h y (List.mem_cons_of_mem _ hy), ok_bind, List.map_cons]
    rfl

/-- What an operation gives that gives something of which `p` holds. -/
theorem exists_of_any {ε : Type} {x : Except ε α} {p : α → Bool} (h : x.toOption.any p = true) :
    ∃ a, x = .ok a ∧ p a = true := by
  cases x with
  | error e => cases h
  | ok a => exact ⟨a, rfl, h⟩

theorem eq_ok_of_toOption {ε : Type} {x : Except ε α} {a : α} (h : x.toOption = some a) :
    x = .ok a := by
  cases x with
  | error e => cases h
  | ok b => rw [Option.some.inj h]

theorem exists_of_isSome {ε : Type} {x : Except ε α} (h : x.toOption.isSome = true) :
    ∃ a, x = .ok a := by
  cases x with
  | error e => cases h
  | ok a => exact ⟨a, rfl⟩

section Each

variable {ε : Type} {f : α → Except ε β} {xs : List α} {ys : List β}

/-- An operation that succeeds on a list succeeds on its first item, and then on the rest. -/
theorem mapM_cons_eq_ok_iff {x : α} :
    (x :: xs).mapM f = .ok ys ↔ ∃ y ys', f x = .ok y ∧ xs.mapM f = .ok ys' ∧ ys = y :: ys' := by
  rw [List.mapM_cons, bind_eq_ok_iff]
  constructor
  · rintro ⟨y, hy, h⟩
    obtain ⟨ys', hys', h⟩ := bind_eq_ok_iff.mp h
    cases h
    exact ⟨y, ys', hy, hys', rfl⟩
  · rintro ⟨y, ys', hy, hys', rfl⟩
    exact ⟨y, hy, bind_eq_ok_iff.mpr ⟨ys', hys', rfl⟩⟩

/-- An operation that succeeds on a list succeeds on every item. -/
theorem exists_of_mapM_eq_ok (h : xs.mapM f = .ok ys) : ∀ x ∈ xs, ∃ y, f x = .ok y := by
  induction xs generalizing ys with
  | nil => simp
  | cons x xs ih =>
    obtain ⟨y, ys', hy, hys', -⟩ := mapM_cons_eq_ok_iff.mp h
    intro z hz
    rcases List.mem_cons.mp hz with rfl | hz
    · exact ⟨y, hy⟩
    · exact ih hys' z hz

/-- An operation succeeds on a list exactly if it does on each item. -/
theorem exists_mapM_iff : (∃ ys, xs.mapM f = .ok ys) ↔ ∀ x ∈ xs, ∃ y, f x = .ok y := by
  refine ⟨fun ⟨ys, h⟩ => exists_of_mapM_eq_ok h, fun h => ?_⟩
  induction xs with
  | nil => exact ⟨[], rfl⟩
  | cons x xs ih =>
    rw [List.forall_mem_cons] at h
    obtain ⟨y, hy⟩ := h.1
    obtain ⟨ys, hys⟩ := ih h.2
    exact ⟨y :: ys, mapM_cons_eq_ok_iff.mpr ⟨y, ys, hy, hys, rfl⟩⟩

/-- What an operation gives on a list is what it gives on the items. -/
theorem eq_map_of_mapM_eq_ok {p : α → β} (hp : ∀ x ∈ xs, ∀ y, f x = .ok y → y = p x)
    (h : xs.mapM f = .ok ys) : ys = xs.map p := by
  induction xs generalizing ys with
  | nil =>
    cases h
    rfl
  | cons x xs ih =>
    obtain ⟨y, ys', hy, hys', rfl⟩ := mapM_cons_eq_ok_iff.mp h
    rw [List.map_cons, hp x List.mem_cons_self y hy,
      ih (fun z hz => hp z (List.mem_cons_of_mem _ hz)) hys']

/-- What an operation gives on a list is related to the items if it is so one by one. -/
theorem forall₂_of_mapM_eq_ok {R : α → β → Prop} (hR : ∀ x y, f x = .ok y → R x y)
    (h : xs.mapM f = .ok ys) : List.Forall₂ R xs ys := by
  induction xs generalizing ys with
  | nil =>
    cases h
    exact .nil
  | cons x xs ih =>
    obtain ⟨y, ys', hy, hys', rfl⟩ := mapM_cons_eq_ok_iff.mp h
    exact .cons (hR x y hy) (ih hys')

/-- An operation that gives the same on every item gives the same on the list. -/
theorem mapM_eq_ok_of_forall {f' : α → Except ε β}
    (hf : ∀ x ∈ xs, ∀ y, f x = .ok y → f' x = .ok y) (h : xs.mapM f = .ok ys) :
    xs.mapM f' = .ok ys := by
  induction xs generalizing ys with
  | nil => exact h
  | cons x xs ih =>
    obtain ⟨y, ys', hy, hys', rfl⟩ := mapM_cons_eq_ok_iff.mp h
    exact mapM_cons_eq_ok_iff.mpr ⟨y, ys', hf x List.mem_cons_self y hy,
      ih (fun z hz => hf z (List.mem_cons_of_mem _ hz)) hys', rfl⟩

end Each

/-! ### What an operation gives, and how it fails -/

section Satisfies

variable {ε : Type} {E : ε → Prop} {P P' : α → Prop} {Q : β → Prop} {x : Except ε α}

/-- `P` holds of what an operation gives and, if it fails, `E` of the fault. -/
def Satisfies (E : ε → Prop) (P : α → Prop) : Except ε α → Prop
  | .ok a => P a
  | .error e => E e

instance [DecidablePred E] [DecidablePred P] : (x : Except ε α) → Decidable (Satisfies E P x)
  | .ok a => inferInstanceAs (Decidable (P a))
  | .error e => inferInstanceAs (Decidable (E e))

theorem satisfies_of_eq_ok {a : α} (hx : x = .ok a) (h : P a) : Satisfies E P x := by
  rw [hx]
  exact h

theorem Satisfies.of_eq_ok (h : Satisfies E P x) {a : α} (hx : x = .ok a) : P a := by
  rw [hx] at h
  exact h

theorem Satisfies.of_eq_error (h : Satisfies E P x) {e : ε} (hx : x = .error e) : E e := by
  rw [hx] at h
  exact h

/-- An operation that fails, and only with one fault, fails with it. -/
theorem eq_error_of_satisfies {e : ε} (h : Satisfies (· = e) (fun _ => False) x) :
    x = .error e := by
  cases x with
  | ok a => exact h.elim
  | error d => exact congrArg _ h

theorem Satisfies.imp (h : Satisfies E P x) (hP : ∀ a, P a → P' a) : Satisfies E P' x := by
  cases x with
  | ok a => exact hP a h
  | error e => exact h

theorem Satisfies.bind (h : Satisfies E P x) {f : α → Except ε β}
    (hf : ∀ a, P a → Satisfies E Q (f a)) : Satisfies E Q (x >>= f) := by
  cases x with
  | ok a => exact hf a h
  | error e => exact h

theorem Satisfies.map (h : Satisfies E P x) {f : α → β} (hf : ∀ a, P a → Q (f a)) :
    Satisfies E Q (x.map f) := by
  cases x with
  | ok a => exact hf a h
  | error e => exact h

/-- An operation on the items of a list, one after the other. -/
theorem satisfies_mapM {f : α → Except ε β} {xs : List α} (h : ∀ x ∈ xs, Satisfies E Q (f x)) :
    Satisfies E (fun ys => ∀ y ∈ ys, Q y) (xs.mapM f) := by
  induction xs with
  | nil => exact fun y hy => nomatch hy
  | cons x xs ih =>
    rw [List.mapM_cons]
    refine (h x List.mem_cons_self).bind fun y hy => ?_
    refine (ih fun z hz => h z (List.mem_cons_of_mem _ hz)).bind fun ys hys => ?_
    exact List.forall_mem_cons.mpr ⟨hy, hys⟩

end Satisfies

/-- `P` holds of what an operation gives, and if it fails, the fault is one of a manifest. -/
abbrev Yields (P : α → Prop) (x : Outcome α) : Prop := Satisfies (·.isManifestFault = true) P x

/-! ### Two operations side by side -/

section Alike

variable {α' β' ε : Type} {R R' : α → α' → Prop} {S : β → β' → Prop} {x : Except ε α}
  {y : Except ε α'}

/-- Two operations fail with the same fault, or `R` holds between what they give. -/
inductive Alike (R : α → α' → Prop) : Except ε α → Except ε α' → Prop
  | ok {a : α} {b : α'} (h : R a b) : Alike R (.ok a) (.ok b)
  | error (e : ε) : Alike R (.error e) (.error e)

theorem Alike.refl {R : α → α → Prop} (hR : ∀ a, R a a) (x : Except ε α) : Alike R x x := by
  cases x with
  | ok a => exact .ok (hR a)
  | error e => exact .error e

/-- An operation agrees with itself on everything that is taken from what it gives. -/
theorem alike_self {γ : Type} (f : α → γ) (x : Except ε α) : Alike (fun a b => f a = f b) x x :=
  Alike.refl (R := fun a b => f a = f b) (fun _ => rfl) x

theorem Alike.imp (h : Alike R x y) (hR : ∀ a b, R a b → R' a b) : Alike R' x y := by
  cases h with
  | ok h => exact .ok (hR _ _ h)
  | error e => exact .error e

/-- What two operations give has the properties that it has on either side. -/
theorem Alike.and (h : Alike R x y) {P : α → Prop} {Q : α' → Prop} (hx : ∀ a, x = .ok a → P a)
    (hy : ∀ b, y = .ok b → Q b) : Alike (fun a b => R a b ∧ P a ∧ Q b) x y := by
  cases h with
  | ok h => exact .ok ⟨h, hx _ rfl, hy _ rfl⟩
  | error e => exact .error e

theorem Alike.eq {x y : Except ε α} (h : Alike Eq x y) : x = y := by
  cases h with
  | ok h => rw [h]
  | error e => rfl

theorem Alike.bind (h : Alike R x y) {f : α → Except ε β} {g : α' → Except ε β'}
    (hfg : ∀ a b, R a b → Alike S (f a) (g b)) : Alike S (x >>= f) (y >>= g) := by
  cases h with
  | ok h => exact hfg _ _ h
  | error e => exact .error e

/-- The first link of two chains may be the same operation. -/
theorem alike_bind (x : Except ε α) {f : α → Except ε β} {g : α → Except ε β'}
    (hfg : ∀ a, Alike S (f a) (g a)) : Alike S (x >>= f) (x >>= g) := by
  cases x with
  | ok a => exact hfg a
  | error e => exact .error e

theorem Alike.map (h : Alike R x y) {f : α → β} {g : α' → β'} (hfg : ∀ a b, R a b → S (f a) (g b)) :
    Alike S (x.map f) (y.map g) := by
  cases h with
  | ok h => exact .ok (hfg _ _ h)
  | error e => exact .error e

/-- Operations on the items of two lists, one after the other. -/
theorem alike_mapM {f : α → Except ε β} {g : α' → Except ε β'} {xs : List α} {ys : List α'}
    (h : List.Forall₂ (fun a b => Alike S (f a) (g b)) xs ys) :
    Alike (List.Forall₂ S) (xs.mapM f) (ys.mapM g) := by
  induction h with
  | nil => exact .ok .nil
  | cons hab _ ih =>
    rw [List.mapM_cons, List.mapM_cons]
    refine hab.bind fun c d hcd => ?_
    exact ih.bind fun cs ds hcds => .ok (.cons hcd hcds)

end Alike

end PipelineManifest.Outcome
