import PipelineManifest.Pipeline.Lint
import PipelineManifest.Proofs.Outcome
import PipelineManifest.Proofs.Value.Kinds

/-!
# `PipelineManifest.Proofs.Pipeline.Lint`: which rule a pipeline breaks first

The rules run one after the other, each over all steps. So what is reported is the first rule that
the pipeline breaks, and among the steps that break it the first one. Names are compared with the
names seen so far; that is a comparison with the names of the steps before.

* `KeepsRules`: a pipeline that keeps every rule.
* `IsViolation`: the reason that a fault gives, with the step or the field.
* `Breaks`: the fault of the first rule that a pipeline breaks, with the rules that it kept before.
* `checkUnique_eq_ok_iff`, `checkUnique_eq_error_iff`: the search for a repeated name, from any
  position on.
* `lint_eq_ok_iff`, `lint_eq_error_iff`: the rules together.
* `lint_eq_of_lintView`: the rules see names, detached steps, and what is present of the server.
* `step?_of_areDistinct`: distinct names find the step at its position.
-/

set_option autoImplicit false

namespace PipelineManifest.Pipeline

open Outcome

variable {p q : Pipeline} {s : Step} {steps before after : List Step} {fault : Fault}

/-! ### The rules -/

/-- Every step has a name. -/
def AreNamed (steps : List Step) : Prop := ∀ s ∈ steps, s.name.isTruthy = true

/-- Every name can be looked up, and none is the name of an earlier step. -/
structure AreDistinct (steps : List Step) : Prop where
  hashable : ∀ s ∈ steps, s.name.isHashable = true
  apart : steps.Pairwise fun s t => Value.sameKey s.name t.name = false

/-- No step is detached. -/
def AreAttached (steps : List Step) : Prop := ∀ s ∈ steps, s.detach.isTruthy = false

/-- A pipeline that keeps every rule. -/
structure KeepsRules (p : Pipeline) : Prop where
  named : AreNamed p.steps
  distinct : AreDistinct p.steps
  attached : AreAttached p.steps
  host : p.server.host.isPresent = true
  user : p.server.user.isPresent = true
  credentials : p.server.password.isPresent = true ∨ p.server.sshKey.isPresent = true

/-- A fault that gives a reason, the name of a step and a field of the server. -/
def IsViolation (fault : Fault) (reason : String) (step : Option Value) (field : Option String) :
    Prop :=
  ∃ v : Violation, fault = .lint v ∧ v.rule.reason = reason ∧ v.step = step ∧ v.field = field

/-- The fault of a step whose name cannot stand after the steps `before`. -/
inductive NameFault (before : List Step) (s : Step) : Fault → Prop
  | unusable (h : s.name.isHashable = false) : NameFault before s .wrongKind
  | duplicate {fault : Fault} (hashable : s.name.isHashable = true)
    (h : ∃ t ∈ before, Value.sameKey t.name s.name = true)
    (hfault : IsViolation fault "duplicate name" (some s.name) none) : NameFault before s fault

/-- The first rule that a pipeline breaks, and the fault by which it is reported. In a list of
steps the first that breaks the rule stands after `before`, where the rule is kept. -/
inductive Breaks (p : Pipeline) (fault : Fault) : Prop
  | missingName (s : Step) (hs : s ∈ p.steps) (h : s.name.isTruthy = false)
    (hfault : IsViolation fault "missing name" none none)
  | repeatedName (before after : List Step) (s : Step) (named : AreNamed p.steps)
    (hs : p.steps = before ++ s :: after) (distinct : AreDistinct before)
    (h : NameFault before s fault)
  | detachedStep (before after : List Step) (s : Step) (named : AreNamed p.steps)
    (distinct : AreDistinct p.steps) (hs : p.steps = before ++ s :: after)
    (attached : AreAttached before) (h : s.detach.isTruthy = true)
    (hfault : IsViolation fault "detached step not permitted" (some s.name) none)
  | missingHost (named : AreNamed p.steps) (distinct : AreDistinct p.steps)
    (attached : AreAttached p.steps) (h : p.server.host.isPresent = false)
    (hfault : IsViolation fault "missing host" none (some "host"))
  | missingUser (named : AreNamed p.steps) (distinct : AreDistinct p.steps)
    (attached : AreAttached p.steps) (host : p.server.host.isPresent = true)
    (h : p.server.user.isPresent = false)
    (hfault : IsViolation fault "missing user" none (some "user"))
  | missingCredentials (named : AreNamed p.steps) (distinct : AreDistinct p.steps)
    (attached : AreAttached p.steps) (host : p.server.host.isPresent = true)
    (user : p.server.user.isPresent = true) (hpassword : p.server.password.isPresent = false)
    (hkey : p.server.sshKey.isPresent = false)
    (hfault : IsViolation fault "missing password or ssh key" none (some "password"))

/-! ### Reasons -/

/-- Different rules give different reasons. -/
theorem eq_of_reason_eq {rule rule' : LintRule} (h : rule.reason = rule'.reason) :
    rule = rule' := by
  cases rule <;> cases rule' <;> first | rfl | exact absurd h (by decide)

/-- The reason says which rule is broken. -/
theorem isViolation_iff (rule : LintRule) (step : Option Value) (field : Option String) :
    IsViolation fault rule.reason step field ↔ fault = .lint ⟨rule, step, field⟩ := by
  constructor
  · rintro ⟨v, rfl, hrule, rfl, rfl⟩
    obtain rfl := eq_of_reason_eq hrule
    rfl
  · rintro rfl
    exact ⟨_, rfl, rfl, rfl, rfl⟩

theorem isViolation_step_iff (rule : LintRule) (step : Option Value) :
    IsViolation fault rule.reason step none ↔ fault = stepFault rule step :=
  isViolation_iff rule step none

theorem isViolation_server_iff (rule : LintRule) (field : String) :
    IsViolation fault rule.reason none (some field) ↔ fault = serverFault rule field :=
  isViolation_iff rule none (some field)

/-! ### Names -/

theorem checkNamed_eq_ok_iff : checkNamed steps = .ok () ↔ AreNamed steps := by
  simp [checkNamed, AreNamed]

theorem checkNamed_eq_error_iff :
    checkNamed steps = .error fault ↔
      (∃ s ∈ steps, s.name.isTruthy = false) ∧ fault = stepFault .missingName none := by
  unfold checkNamed
  split
  · rename_i h
    have hnone : ¬∃ s ∈ steps, s.name.isTruthy = false := by simpa using h
    simp [hnone]
  · rename_i h
    have hsome : ∃ s ∈ steps, s.name.isTruthy = false := by simpa using h
    rw [Except.error.injEq, and_iff_right hsome]
    exact eq_comm

theorem areDistinct_nil : AreDistinct [] := ⟨by simp, .nil⟩

/-- One more step is distinct when its name can be looked up and is not there. -/
theorem areDistinct_concat :
    AreDistinct (before ++ [s]) ↔ AreDistinct before ∧ s.name.isHashable = true ∧
      ∀ t ∈ before, Value.sameKey t.name s.name = false := by
  constructor
  · intro h
    have hapart := List.pairwise_append.mp h.apart
    refine ⟨⟨fun t ht => h.hashable t (by simp [ht]), hapart.1⟩, h.hashable s (by simp), ?_⟩
    exact fun t ht => hapart.2.2 t ht s (by simp)
  · rintro ⟨h, hs, hnew⟩
    refine ⟨?_, List.pairwise_append.mpr ⟨h.apart, List.pairwise_singleton .., ?_⟩⟩
    · simpa [or_imp, forall_and, hs] using h.hashable
    · simpa using hnew

theorem AreDistinct.of_append (h : AreDistinct (before ++ after)) : AreDistinct before :=
  ⟨fun s hs => h.hashable s (by simp [hs]), (List.pairwise_append.mp h.apart).1⟩

/-- Names that are texts are distinct when they are different texts. -/
theorem areDistinct_iff_nodup (htext : ∀ s ∈ steps, s.name.IsText) :
    AreDistinct steps ↔ (steps.map (·.name)).Nodup := by
  have hsame : ∀ s ∈ steps, ∀ t ∈ steps,
      Value.sameKey s.name t.name = false ↔ s.name ≠ t.name := by
    intro s _ t ht
    obtain ⟨text, htext⟩ := htext t ht
    rw [htext, ne_eq, ← Value.sameKey_str_iff, Bool.not_eq_true]
  have hhash : ∀ s ∈ steps, s.name.isHashable = true := by
    intro s hs
    obtain ⟨text, htext⟩ := htext s hs
    rw [htext]
    rfl
  rw [List.Nodup, List.pairwise_map]
  constructor
  · intro h
    exact h.apart.imp_of_mem fun hs ht hst => (hsame _ hs _ ht).mp hst
  · intro h
    exact ⟨hhash, h.imp_of_mem fun hs ht hst => (hsame _ hs _ ht).mpr hst⟩

/-! ### The names seen so far

The names that the check carries along are those of the steps before, which are distinct: it would
have stopped otherwise. -/

section Seen

/-- After distinct steps a step has a name of its own, or a fault. -/
theorem areDistinct_concat_or (hbefore : AreDistinct before) (s : Step) :
    AreDistinct (before ++ [s]) ∨ ∃ fault, NameFault before s fault := by
  by_cases hhash : s.name.isHashable = true
  · by_cases hseen : ∃ t ∈ before, Value.sameKey t.name s.name = true
    · exact .inr ⟨_, .duplicate hhash hseen ((isViolation_step_iff .duplicateName _).mpr rfl)⟩
    · exact .inl (areDistinct_concat.mpr ⟨hbefore, hhash, by simpa using hseen⟩)
  · exact .inr ⟨_, .unusable (by simpa using hhash)⟩

theorem NameFault.not_areDistinct (h : NameFault before s fault) (after : List Step) :
    ¬AreDistinct (before ++ s :: after) := by
  intro hdistinct
  rw [List.append_cons] at hdistinct
  obtain ⟨-, hhash, hnew⟩ := areDistinct_concat.mp hdistinct.of_append
  cases h with
  | unusable h => simp [h] at hhash
  | duplicate _ h _ =>
    obtain ⟨t, ht, h⟩ := h
    simp [hnew t ht] at h

/-- The check goes on after a step with a name of its own. -/
theorem checkUnique_cons_of_new (hs : AreDistinct (before ++ [s])) (after : List Step) :
    checkUnique (before.map (·.name)) (s :: after) =
      checkUnique ((before ++ [s]).map (·.name)) after := by
  obtain ⟨-, hhash, hnew⟩ := areDistinct_concat.mp hs
  have hany : (before.map (·.name)).any (Value.sameKey · s.name) = false := by simpa using hnew
  rw [checkUnique, hhash, hany, List.map_append]
  rfl

/-- The check stops at a step with a fault. -/
theorem checkUnique_cons_of_nameFault (h : NameFault before s fault) (after : List Step) :
    checkUnique (before.map (·.name)) (s :: after) = .error fault := by
  cases h with
  | unusable h =>
    rw [checkUnique, h]
    rfl
  | duplicate hhash h hfault =>
    have hany : (before.map (·.name)).any (Value.sameKey · s.name) = true := by simpa using h
    rw [checkUnique, hhash, hany, (isViolation_step_iff .duplicateName (some s.name)).mp hfault]
    rfl

variable (hbefore : AreDistinct before)
include hbefore

theorem checkUnique_eq_ok_iff :
    checkUnique (before.map (·.name)) after = .ok () ↔ AreDistinct (before ++ after) := by
  induction after generalizing before with
  | nil => simp [checkUnique, hbefore]
  | cons s after ih =>
    rcases areDistinct_concat_or hbefore s with hs | ⟨fault, h⟩
    · rw [checkUnique_cons_of_new hs, ih hs, List.append_cons before s after]
    · rw [checkUnique_cons_of_nameFault h]
      exact iff_of_false (by simp) (h.not_areDistinct after)

theorem checkUnique_eq_error_iff :
    checkUnique (before.map (·.name)) after = .error fault ↔
      ∃ new s rest, after = new ++ s :: rest ∧ AreDistinct (before ++ new) ∧
        NameFault (before ++ new) s fault := by
  induction after generalizing before with
  | nil => simp [checkUnique]
  | cons s after ih =>
    rcases areDistinct_concat_or hbefore s with hs | ⟨found, h⟩
    · rw [checkUnique_cons_of_new hs, ih hs]
      constructor
      · rintro ⟨new, t, rest, rfl, hnew, hfault⟩
        exact ⟨s :: new, t, rest, rfl, by rwa [List.append_cons], by rwa [List.append_cons]⟩
      · rintro ⟨new, t, rest, heq, hnew, hfault⟩
        cases new with
        | nil =>
          -- A step with a name of its own is not the one that breaks the rule.
          obtain ⟨rfl, rfl⟩ := List.cons.inj heq
          rw [List.append_nil] at hfault
          exact absurd hs (hfault.not_areDistinct [])
        | cons u new =>
          obtain ⟨rfl, rfl⟩ := List.cons.inj heq
          rw [List.append_cons] at hnew hfault
          exact ⟨new, t, rest, rfl, hnew, hfault⟩
    · rw [checkUnique_cons_of_nameFault h]
      constructor
      · rintro ⟨⟩
        exact ⟨[], s, after, rfl, by rwa [List.append_nil], by rwa [List.append_nil]⟩
      · rintro ⟨new, t, rest, heq, hnew, hfault⟩
        cases new with
        | nil =>
          obtain ⟨rfl, rfl⟩ := List.cons.inj heq
          rw [List.append_nil] at hfault
          rw [← checkUnique_cons_of_nameFault h after, checkUnique_cons_of_nameFault hfault after]
        | cons u new =>
          -- Steps that are distinct do not hold the one that breaks the rule.
          obtain ⟨rfl, rfl⟩ := List.cons.inj heq
          exact absurd hnew (h.not_areDistinct new)

end Seen

/-! ### Detached steps, and the server -/

theorem checkAttached_eq_ok_iff : checkAttached steps = .ok () ↔ AreAttached steps := by
  unfold checkAttached AreAttached
  cases h : steps.find? (·.detach.isTruthy) with
  | none => simpa using List.find?_eq_none.mp h
  | some s =>
    refine iff_of_false (by simp) fun hall => ?_
    have hs := hall s (List.mem_of_find?_eq_some h)
    simp [List.find?_some h] at hs

/-- The first detached step is reported. -/
theorem checkAttached_eq_error_iff :
    checkAttached steps = .error fault ↔
      ∃ before s after, steps = before ++ s :: after ∧ AreAttached before ∧
        s.detach.isTruthy = true ∧ fault = stepFault .detachedStep (some s.name) := by
  have hfind (s : Step) : steps.find? (·.detach.isTruthy) = some s ↔
      ∃ before after, steps = before ++ s :: after ∧ AreAttached before ∧
        s.detach.isTruthy = true := by
    rw [List.find?_eq_some_iff_append]
    constructor
    · rintro ⟨hs, before, after, heq, hbefore⟩
      exact ⟨before, after, heq, fun t ht => by simpa using hbefore t ht, hs⟩
    · rintro ⟨before, after, heq, hbefore, hs⟩
      exact ⟨hs, before, after, heq, fun t ht => by simpa using hbefore t ht⟩
  constructor
  · intro h
    unfold checkAttached at h
    split at h
    · rename_i s hs
      cases h
      obtain ⟨before, after, heq, hbefore, hs⟩ := (hfind s).mp hs
      exact ⟨before, s, after, heq, hbefore, hs, rfl⟩
    · cases h
  · rintro ⟨before, s, after, heq, hbefore, hs, rfl⟩
    rw [checkAttached, (hfind s).mpr ⟨before, after, heq, hbefore, hs⟩]

theorem checkServer_eq_ok_iff (v : Server) :
    checkServer v = .ok () ↔ v.host.isPresent = true ∧ v.user.isPresent = true ∧
      (v.password.isPresent = true ∨ v.sshKey.isPresent = true) := by
  unfold checkServer
  cases v.host.isPresent <;> cases v.user.isPresent <;> cases v.password.isPresent <;>
    cases v.sshKey.isPresent <;> simp

theorem checkServer_eq_error_iff (v : Server) :
    checkServer v = .error fault ↔
      v.host.isPresent = false ∧ fault = serverFault .missingHost "host" ∨
      v.host.isPresent = true ∧ v.user.isPresent = false ∧
        fault = serverFault .missingUser "user" ∨
      v.host.isPresent = true ∧ v.user.isPresent = true ∧ v.password.isPresent = false ∧
        v.sshKey.isPresent = false ∧ fault = serverFault .missingCredentials "password" := by
  unfold checkServer
  cases v.host.isPresent <;> cases v.user.isPresent <;> cases v.password.isPresent <;>
    cases v.sshKey.isPresent <;> simp [eq_comm]

/-! ### The rules together -/

section Chain

variable {x y : Outcome Unit}

/-- A check and the ones after it. -/
theorem check_bind_eq_ok_iff : (x >>= fun _ => y) = .ok () ↔ x = .ok () ∧ y = .ok () := by
  cases x <;> simp

theorem check_bind_eq_error_iff :
    (x >>= fun _ => y) = .error fault ↔ x = .error fault ∨ x = .ok () ∧ y = .error fault := by
  cases x <;> simp

end Chain

theorem lint_eq_ok_iff : p.lint = .ok () ↔ KeepsRules p := by
  have hunique : checkUnique [] p.steps = .ok () ↔ AreDistinct p.steps :=
    checkUnique_eq_ok_iff areDistinct_nil
  simp only [lint, check_bind_eq_ok_iff, checkNamed_eq_ok_iff, hunique, checkAttached_eq_ok_iff,
    checkServer_eq_ok_iff]
  constructor
  · rintro ⟨named, distinct, attached, host, user, credentials⟩
    exact ⟨named, distinct, attached, host, user, credentials⟩
  · rintro ⟨named, distinct, attached, host, user, credentials⟩
    exact ⟨named, distinct, attached, host, user, credentials⟩

theorem lint_eq_error_iff : p.lint = .error fault ↔ Breaks p fault := by
  have hunique : checkUnique [] p.steps = .ok () ↔ AreDistinct p.steps :=
    checkUnique_eq_ok_iff areDistinct_nil
  have hrepeated : checkUnique [] p.steps = .error fault ↔
      ∃ before s after, p.steps = before ++ s :: after ∧ AreDistinct before ∧
        NameFault before s fault :=
    checkUnique_eq_error_iff areDistinct_nil
  simp only [lint, check_bind_eq_error_iff, checkNamed_eq_ok_iff, checkNamed_eq_error_iff, hunique,
    hrepeated, checkAttached_eq_ok_iff, checkAttached_eq_error_iff, checkServer_eq_error_iff]
  -- A check fails after all before it have passed, which is what each case of `Breaks` says.
  constructor
  · rintro (⟨⟨s, hs, h⟩, hfault⟩ | ⟨named, ⟨before, s, after, hs, distinct, h⟩ | ⟨distinct,
      ⟨before, s, after, hs, attached, h, hfault⟩ | ⟨attached, ⟨h, hfault⟩ | ⟨host, h, hfault⟩ |
      ⟨host, user, hpassword, hkey, hfault⟩⟩⟩⟩)
    · exact .missingName s hs h ((isViolation_step_iff .missingName _).mpr hfault)
    · exact .repeatedName before after s named hs distinct h
    · exact .detachedStep before after s named distinct hs attached h
        ((isViolation_step_iff .detachedStep _).mpr hfault)
    · exact .missingHost named distinct attached h
        ((isViolation_server_iff .missingHost _).mpr hfault)
    · exact .missingUser named distinct attached host h
        ((isViolation_server_iff .missingUser _).mpr hfault)
    · exact .missingCredentials named distinct attached host user hpassword hkey
        ((isViolation_server_iff .missingCredentials _).mpr hfault)
  · intro h
    cases h with
    | missingName s hs h hfault =>
      exact .inl ⟨⟨s, hs, h⟩, (isViolation_step_iff .missingName _).mp hfault⟩
    | repeatedName before after s named hs distinct h =>
      exact .inr ⟨named, .inl ⟨before, s, after, hs, distinct, h⟩⟩
    | detachedStep before after s named distinct hs attached h hfault =>
      exact .inr ⟨named, .inr ⟨distinct, .inl ⟨before, s, after, hs, attached, h,
        (isViolation_step_iff .detachedStep _).mp hfault⟩⟩⟩
    | missingHost named distinct attached h hfault =>
      exact .inr ⟨named, .inr ⟨distinct, .inr ⟨attached,
        .inl ⟨h, (isViolation_server_iff .missingHost _).mp hfault⟩⟩⟩⟩
    | missingUser named distinct attached host h hfault =>
      exact .inr ⟨named, .inr ⟨distinct, .inr ⟨attached,
        .inr (.inl ⟨host, h, (isViolation_server_iff .missingUser _).mp hfault⟩)⟩⟩⟩
    | missingCredentials named distinct attached host user hpassword hkey hfault =>
      exact .inr ⟨named, .inr ⟨distinct, .inr ⟨attached, .inr (.inr ⟨host, user, hpassword, hkey,
        (isViolation_server_iff .missingCredentials _).mp hfault⟩)⟩⟩⟩

/-- Where all names are texts, every fault names a rule. -/
theorem Breaks.exists_violation (htext : ∀ s ∈ p.steps, s.name.IsText) (h : Breaks p fault) :
    ∃ v, fault = .lint v := by
  have hlint {reason : String} {step : Option Value} {field : Option String}
      (hfault : IsViolation fault reason step field) : ∃ v, fault = .lint v :=
    hfault.imp fun _ hv => hv.1
  cases h with
  | missingName _ _ _ hfault => exact hlint hfault
  | repeatedName before after s named hs distinct h =>
    cases h with
    | unusable h =>
      obtain ⟨text, htext⟩ := htext s (by simp [hs])
      simp [htext, Value.isHashable] at h
    | duplicate _ _ hfault => exact hlint hfault
  | detachedStep _ _ _ _ _ _ _ _ hfault => exact hlint hfault
  | missingHost _ _ _ _ hfault => exact hlint hfault
  | missingUser _ _ _ _ _ hfault => exact hlint hfault
  | missingCredentials _ _ _ _ _ _ _ hfault => exact hlint hfault

/-! ### What the rules see -/

/-- What the rules see of a step. -/
def stepView (s : Step) : Value × Bool := (s.name, s.detach.isTruthy)

/-- What the rules see of a server: whether there is a host, a user, a password, and a key. -/
def serverView (v : Server) : Bool × Bool × Bool × Bool :=
  (v.host.isPresent, v.user.isPresent, v.password.isPresent, v.sshKey.isPresent)

/-- What the rules see of a pipeline. -/
def lintView (p : Pipeline) : List (Value × Bool) × Bool × Bool × Bool × Bool :=
  (p.steps.map stepView, serverView p.server)

/-- The checks of two lists of steps that look alike. -/
theorem checkSteps_congr {steps' : List Step} (h : steps.map stepView = steps'.map stepView) :
    checkNamed steps = checkNamed steps' ∧
      (∀ seen, checkUnique seen steps = checkUnique seen steps') ∧
      checkAttached steps = checkAttached steps' := by
  induction steps generalizing steps' with
  | nil =>
    obtain rfl : steps' = [] := by simpa using h.symm
    exact ⟨rfl, fun _ => rfl, rfl⟩
  | cons s steps ih =>
    obtain ⟨t, rest, rfl, hst, hrest⟩ := List.map_eq_cons_iff.mp h.symm
    obtain ⟨hname, hdetach⟩ := Prod.mk.inj hst
    obtain ⟨named, unique, attached⟩ := ih hrest.symm
    refine ⟨?_, fun seen => ?_, ?_⟩
    · unfold checkNamed at named ⊢
      rw [List.all_cons, List.all_cons, hname]
      cases s.name.isTruthy
      · rfl
      · exact named
    · rw [checkUnique, checkUnique, hname, unique]
    · unfold checkAttached at attached ⊢
      rw [List.find?_cons, List.find?_cons, hdetach]
      cases s.detach.isTruthy
      · exact attached
      · simp only [hname]

theorem lint_eq_of_lintView (h : p.lintView = q.lintView) : p.lint = q.lint := by
  obtain ⟨hsteps, hserver⟩ := Prod.mk.inj h
  obtain ⟨named, unique, attached⟩ := checkSteps_congr hsteps
  simp only [serverView, Prod.mk.injEq] at hserver
  obtain ⟨host, user, password, key⟩ := hserver
  have server : checkServer p.server = checkServer q.server := by
    simp only [checkServer, host, user, password, key]
  rw [lint, lint, named, unique, attached, server]

/-! ### Steps by their names -/

/-- Distinct names find the step at its position. Only a name that differs from itself, such as
not-a-number, finds none. -/
theorem step?_of_areDistinct (h : AreDistinct p.steps) {i : Nat} (hs : p.steps[i]? = some s)
    (hself : s.name.equal s.name = true) :
    p.step? s.name = some s ∧ p.steps.findIdx? (·.name.equal s.name) = some i := by
  obtain ⟨hi, hget⟩ := List.getElem?_eq_some_iff.mp hs
  -- Names that are equal are the same key, so no earlier name is equal to this one.
  have hearlier (j : Nat) (hj : j < i) : (p.steps[j].name.equal s.name) = false := by
    have hapart := List.pairwise_iff_getElem.mp h.apart j i (Nat.lt_trans hj hi) hi hj
    rw [hget] at hapart
    rw [← Bool.not_eq_true] at hapart ⊢
    exact fun heq => hapart (Value.sameKey_of_equal heq)
  have hindex : p.steps.findIdx? (·.name.equal s.name) = some i := by
    rw [List.findIdx?_eq_some_iff_getElem]
    refine ⟨hi, by rw [hget, hself], fun j hj => ?_⟩
    simpa using hearlier j hj
  refine ⟨?_, hindex⟩
  rw [step?, List.find?_eq_some_iff_getElem]
  refine ⟨hself, i, hi, hget, fun j hj => ?_⟩
  simpa using hearlier j hj

/-- A pipeline passes when it keeps every rule, and otherwise the first rule that it breaks is
reported, with the first step that breaks it. Nothing else of the pipeline is looked at. Every step
of a pipeline that passes is found by its name. -/
theorem lint_exact (p : Pipeline) :
    (p.lint = .ok () ↔ KeepsRules p) ∧
    (∀ fault, p.lint = .error fault ↔ Breaks p fault) ∧
    ((∀ s ∈ p.steps, s.name.IsText) →
      (AreDistinct p.steps ↔ (p.steps.map (·.name)).Nodup) ∧
      ∀ fault, p.lint = .error fault → ∃ v, fault = .lint v) ∧
    (∀ q : Pipeline, p.lintView = q.lintView → p.lint = q.lint) ∧
    (p.lint = .ok () → ∀ i s, p.steps[i]? = some s → s.name.equal s.name = true →
      p.step? s.name = some s ∧ p.steps.findIdx? (·.name.equal s.name) = some i) := by
  refine ⟨lint_eq_ok_iff, fun fault => lint_eq_error_iff, fun htext => ⟨?_, ?_⟩,
    fun q hview => lint_eq_of_lintView hview, ?_⟩
  · exact areDistinct_iff_nodup htext
  · intro fault h
    exact (lint_eq_error_iff.mp h).exists_violation htext
  · intro h i s hs hself
    exact step?_of_areDistinct (lint_eq_ok_iff.mp h).distinct hs hself

/-- A pipeline that breaks three rules: a name that comes again, a detached step, no server. -/
def unready : Pipeline where
  name := .str "release"
  steps := [
    { name := .str "build" },
    { name := .str "test", detach := .bool true },
    { name := .str "build" }]

/-- The name that comes again is reported, although the detached step comes first. -/
theorem lint_exact_unready :
    unready.lint = .error (stepFault .duplicateName (some (.str "build"))) ∧
      ¬KeepsRules unready ∧ ¬(unready.steps.map (·.name)).Nodup := by
  obtain ⟨hok, herror, htext, -⟩ := lint_exact unready
  have hreport : unready.lint = .error (stepFault .duplicateName (some (.str "build"))) := by
    refine (herror _).mpr (.repeatedName (unready.steps.take 2) [] { name := .str "build" } ?_ rfl
      ⟨?_, ?_⟩ (.duplicate rfl ⟨{ name := .str "build" }, ?_, rfl⟩ ⟨_, rfl, rfl, rfl, rfl⟩))
    all_goals simp [unready, AreNamed, Value.isTruthy, Value.isHashable]
  have hbroken : ¬KeepsRules unready := by
    rw [← hok, hreport]
    simp
  refine ⟨hreport, hbroken, ?_⟩
  rw [← (htext (by simp [unready, Value.IsText])).1]
  intro hdistinct
  have hapart := hdistinct.apart
  simp [unready] at hapart

end PipelineManifest.Pipeline
