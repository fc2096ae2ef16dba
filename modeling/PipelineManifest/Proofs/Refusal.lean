import PipelineManifest.Proofs.Schema.Decoders
import PipelineManifest.Proofs.Schema.Writable
import PipelineManifest.Proofs.Splitting
import PipelineManifest.Proofs.Value.Ordering
import PipelineManifest.Proofs.Value.Same

/-!
# `PipelineManifest.Proofs.Refusal`: how filters and variables are refused

A value that is no condition, or no variable, is malformed. There is one way in which it is not
refused like that: the message about unknown keys lists them in order, and keys without an order
cannot be listed. Then the fault is the one of sorting them. A number of too many digits cannot be
listed either.

* `Unlistable`: why some keys cannot be listed, and the fault of that.
* `ReportsUnknown`: a decoder that reports unknown keys if they can be listed.
* `Condition.decode_eq_error_iff`, `Conditions.decodeEntries_eq_error_iff`: how one condition and
  the entries of a mapping are refused.
* `refuses_malformed`: the faults of all three decoders.
-/

set_option autoImplicit false

namespace PipelineManifest

open Outcome (Satisfies)
open Condition (renderKeys unknownKeys)
open Value (sorted?)

/-! ### Messages that list keys -/

/-- Why keys cannot be listed in a message, with the fault that comes instead. -/
inductive Unlistable (keys : List Value) : Fault → Prop
  /-- Two keys without an order meet. -/
  | unordered (order : sorted? keys = none) : Unlistable keys .wrongKind
  /-- A key is a number of too many digits. -/
  | unwritable {k : Value} (order : sorted? keys ≠ none) (key : k ∈ keys)
      (digits : k.isWritable = false) : Unlistable keys .invalidValue

theorem Unlistable.not_isMalformed {keys : List Value} {fault : Fault} (h : Unlistable keys fault) :
    ¬ fault.IsMalformed := by
  rintro ⟨message, errors, rfl⟩
  cases h

theorem Unlistable.ne_nil {keys : List Value} {fault : Fault} (h : Unlistable keys fault) :
    keys ≠ [] := by
  rintro rfl
  cases h with
  | unordered order => cases order
  | unwritable _ key _ => cases key

theorem renderKeys_eq_error_iff {keys : List Value} {fault : Fault} :
    renderKeys keys = .error fault ↔ Unlistable keys fault := by
  rw [renderKeys]
  cases hsorted : sorted? keys with
  | none =>
    constructor
    · rintro ⟨⟩
      exact .unordered hsorted
    · rintro (_ | ⟨order, _, _⟩)
      · rfl
      · exact absurd hsorted order
  | some vs =>
    have hperm := Value.perm_of_sorted? hsorted
    have hwritable : Value.areWritable vs = false ↔ ∃ k ∈ keys, k.isWritable = false := by
      rw [← Bool.not_eq_true, Value.areWritable_iff]
      simp [hperm.mem_iff]
    by_cases hvs : Value.areWritable vs = true
    · simp only [hvs, if_true, reduceCtorEq, false_iff]
      rintro (order | ⟨_, key, digits⟩)
      · rw [hsorted] at order
        cases order
      · rw [hwritable.mpr ⟨_, key, digits⟩] at hvs
        cases hvs
    · obtain ⟨k, hk, hdigits⟩ := hwritable.mp (Bool.eq_false_iff.mpr hvs)
      simp only [hvs, Bool.false_eq_true, if_false, Except.error.injEq]
      constructor
      · rintro rfl
        exact .unwritable (by simp [hsorted]) hk hdigits
      · rintro (order | _)
        · rw [hsorted] at order
          cases order
        · rfl

/-- A refusal that lists keys is malformed, unless the keys cannot be listed. -/
theorem unlistable_of_bind {α : Type} {keys : List Value} {message : String → String}
    {fault : Fault} (h : (renderKeys keys >>= fun text =>
      (.error (.malformedOne (message text)) : Outcome α)) = .error fault)
    (hfault : ¬ fault.IsMalformed) : Unlistable keys fault := by
  rcases Outcome.bind_eq_error_iff.mp h with h | ⟨text, -, h⟩
  · exact renderKeys_eq_error_iff.mp h
  · cases h
    exact absurd (Fault.isMalformed_malformedOne _) hfault

/-- A decoder of mappings reports unknown keys, all of them and each of them once, if they can be
listed. Otherwise its fault is why they cannot. -/
structure ReportsUnknown {α : Type} (decode : Value → Outcome α) (known : List String)
    (reason : String) : Prop where
  listed : ∀ es keys, sorted? (unknownKeys known es) = some keys → keys ≠ [] →
    Value.areWritable keys = true →
    keys.Perm (unknownKeys known es) ∧
      decode (.map es) = .error (.malformedOne (reason ++ (Value.seq keys).render))
  unlisted : ∀ es fault, Unlistable (unknownKeys known es) fault →
    decode (.map es) = .error fault

/-- It is enough that the decoder fails with what listing the unknown keys gives. -/
theorem reportsUnknown_of_eq {α : Type} {decode : Value → Outcome α} {known : List String}
    {reason : String}
    (h : ∀ es, unknownKeys known es ≠ [] →
      decode (.map es) = renderKeys (unknownKeys known es) >>= fun text =>
        .error (.malformedOne (reason ++ text))) :
    ReportsUnknown decode known reason where
  listed es keys hsorted hne hwritable := by
    have hperm := Value.perm_of_sorted? hsorted
    refine ⟨hperm, ?_⟩
    have hunknown : unknownKeys known es ≠ [] := by
      intro hnil
      rw [hnil] at hperm
      exact hne hperm.eq_nil
    have hrender : renderKeys (unknownKeys known es) = .ok (Value.seq keys).render := by
      simp only [renderKeys, hsorted, hwritable, if_true]
    rw [h es hunknown, hrender, Outcome.ok_bind]
  unlisted es fault hfault := by
    rw [h es hfault.ne_nil, renderKeys_eq_error_iff.mpr hfault, Outcome.error_bind]

/-! ### One condition -/

namespace Condition

/-- The names of the lists of a condition. -/
def listNames : List String := ["include", "exclude"]

theorem satisfies_decodeTexts (v : Value) (place : String) :
    Satisfies Fault.IsMalformed (fun _ => True) (decodeTexts v place) := by
  unfold decodeTexts
  split
  · trivial
  · trivial
  · split
    · trivial
    · exact Fault.isMalformed_malformedOne _
  · exact Fault.isMalformed_malformedOne _

theorem decode_of_unknown {es : List (Value × Value)} (h : unknownKeys listNames es ≠ [])
    (place : String) :
    decode (.map es) place = renderKeys (unknownKeys listNames es) >>= fun text =>
      .error (.malformedOne (place ++ ": unknown keys " ++ text)) := by
  have hempty : (unknownKeys ["include", "exclude"] es).isEmpty = false := by
    simpa [listNames] using h
  simp only [decode, hempty, listNames]
  cases renderKeys (unknownKeys ["include", "exclude"] es) <;> rfl

/-- Without unknown keys a mapping has two lists, and nothing else can be wrong with it. -/
theorem satisfies_decode_of_known {es : List (Value × Value)} (h : unknownKeys listNames es = [])
    (place : String) :
    Satisfies Fault.IsMalformed (fun _ => True) (decode (.map es) place) := by
  have hempty : (unknownKeys ["include", "exclude"] es).isEmpty = true := by
    simpa [listNames] using h
  simp only [decode, hempty, Bool.not_true, Bool.false_eq_true, if_false]
  exact (satisfies_decodeTexts _ _).bind fun _ _ =>
    (satisfies_decodeTexts _ _).bind fun _ _ => trivial

/-- A condition is refused as malformed, unless its unknown keys cannot be listed. -/
theorem decode_eq_error_iff {v : Value} {place : String} {fault : Fault} :
    decode v place = .error fault ∧ ¬ fault.IsMalformed ↔
      ∃ es, v = .map es ∧ Unlistable (unknownKeys listNames es) fault := by
  constructor
  · rintro ⟨h, hfault⟩
    cases v with
    | map es =>
      refine ⟨es, rfl, ?_⟩
      by_cases hunknown : unknownKeys listNames es = []
      · exact absurd ((satisfies_decode_of_known hunknown place).of_eq_error h) hfault
      · rw [decode_of_unknown hunknown] at h
        exact unlistable_of_bind h hfault
    | null => cases h
    | _ =>
      obtain h | ⟨_, _, h⟩ := Outcome.bind_eq_error_iff.mp h
      · exact absurd ((satisfies_decodeTexts _ _).of_eq_error h) hfault
      · cases h
  · rintro ⟨es, rfl, h⟩
    rw [decode_of_unknown h.ne_nil, renderKeys_eq_error_iff.mpr h]
    exact ⟨rfl, h.not_isMalformed⟩

end Condition

/-! ### The conditions of a mapping -/

namespace Conditions

/-- The names of all subjects. -/
def subjectNames : List String := Subject.all.map Subject.name

theorem decode_of_unknown {es : List (Value × Value)} (h : unknownKeys subjectNames es ≠ [])
    (place : String) :
    decode (.map es) place = renderKeys (unknownKeys subjectNames es) >>= fun text =>
      .error (.malformedOne (place ++ ": unknown conditions " ++ text)) := by
  have hempty : (unknownKeys (Subject.all.map Subject.name) es).isEmpty = false := by
    simpa [subjectNames] using h
  simp only [decode, hempty, subjectNames]
  cases renderKeys (unknownKeys (Subject.all.map Subject.name) es) <;> rfl

theorem decode_of_known {es : List (Value × Value)} (h : unknownKeys subjectNames es = [])
    (place : String) : decode (.map es) place = decodeEntries place none (Value.entries es) := by
  have hempty : (unknownKeys (Subject.all.map Subject.name) es).isEmpty = true := by
    simpa [subjectNames] using h
  simp only [decode, hempty, Bool.not_true, Bool.false_eq_true, if_false]

/-- Entries fail with the fault of the first one that holds no condition. -/
theorem decodeEntries_eq_error_iff {place : String} {cs : Conditions} {es : List (Value × Value)}
    {fault : Fault} :
    decodeEntries place cs es = .error fault ↔
      ∃ before k w after, es = before ++ (k, w) :: after ∧
        (∀ e ∈ before, ∃ c, Condition.Means (some e.2) c) ∧
        Condition.decode w (place ++ "." ++ k.text) = .error fault := by
  induction es generalizing cs with
  | nil => simp [decodeEntries]
  | cons e es ih =>
    obtain ⟨k, w⟩ := e
    cases hw : Condition.decode w (place ++ "." ++ k.text) with
    | error found =>
      have hfound : decodeEntries place cs ((k, w) :: es) = .error found := by
        rw [decodeEntries, hw]
        rfl
      rw [hfound]
      constructor
      · rintro ⟨⟩
        exact ⟨[], k, w, es, rfl, by simp, hw⟩
      · rintro ⟨before, l, u, after, heq, hbefore, hu⟩
        cases before with
        | nil =>
          cases heq
          exact congrArg _ (Except.error.inj (hw.symm.trans hu))
        | cons b before =>
          cases heq
          -- An entry that comes before the fault is a condition, and this one is not.
          obtain ⟨c, hc⟩ := hbefore (k, w) List.mem_cons_self
          have hok : Condition.decode w (place ++ "." ++ k.text) = .ok c :=
            (Condition.decode_eq_ok_iff (o := some w)).mpr hc
          cases hw.symm.trans hok
    | ok c =>
      have hstep : ∃ cs', decodeEntries place cs ((k, w) :: es) = decodeEntries place cs' es := by
        simp only [decodeEntries, hw, Outcome.ok_bind]
        split
        · exact ⟨_, rfl⟩
        · exact ⟨_, rfl⟩
      obtain ⟨cs', hcs'⟩ := hstep
      rw [hcs', ih]
      constructor
      · rintro ⟨before, l, u, after, rfl, hbefore, hu⟩
        have hmeans : Condition.Means (some w) c := Condition.decode_eq_ok_iff.mp hw
        exact ⟨(k, w) :: before, l, u, after, rfl,
          List.forall_mem_cons.mpr ⟨⟨c, hmeans⟩, hbefore⟩, hu⟩
      · rintro ⟨before, l, u, after, heq, hbefore, hu⟩
        cases before with
        | nil =>
          cases heq
          cases hw.symm.trans hu
        | cons b before =>
          cases heq
          exact ⟨before, l, u, after, rfl, (List.forall_mem_cons.mp hbefore).2, hu⟩

/-- The entry of a mapping that is refused first, where its unknown keys cannot be listed. -/
def RefusesEntry (es : List (Value × Value)) (fault : Fault) : Prop :=
  ∃ before k fs after, Value.entries es = before ++ (k, .map fs) :: after ∧
    (∀ e ∈ before, ∃ c, Condition.Means (some e.2) c) ∧
    Unlistable (unknownKeys Condition.listNames fs) fault

/-- Conditions are refused as malformed, unless their own unknown keys cannot be listed, or those of
the first entry that holds no condition. -/
theorem decode_eq_error_iff {v : Value} {place : String} {fault : Fault} :
    decode v place = .error fault ∧ ¬ fault.IsMalformed ↔
      ∃ es, v = .map es ∧ (Unlistable (unknownKeys subjectNames es) fault ∨
        unknownKeys subjectNames es = [] ∧ RefusesEntry es fault) := by
  constructor
  · rintro ⟨h, hfault⟩
    cases v with
    | map es =>
      refine ⟨es, rfl, ?_⟩
      by_cases hunknown : unknownKeys subjectNames es = []
      · rw [decode_of_known hunknown] at h
        obtain ⟨before, k, w, after, heq, hbefore, hw⟩ := decodeEntries_eq_error_iff.mp h
        obtain ⟨fs, rfl, hfs⟩ := Condition.decode_eq_error_iff.mp ⟨hw, hfault⟩
        exact .inr ⟨hunknown, before, k, fs, after, heq, hbefore, hfs⟩
      · rw [decode_of_unknown hunknown] at h
        exact .inl (unlistable_of_bind h hfault)
    | null => cases h
    | _ =>
      cases h
      exact absurd (Fault.isMalformed_malformedOne _) hfault
  · rintro ⟨es, rfl, h | ⟨hunknown, before, k, fs, after, heq, hbefore, h⟩⟩
    · rw [decode_of_unknown h.ne_nil, renderKeys_eq_error_iff.mpr h]
      exact ⟨rfl, h.not_isMalformed⟩
    · refine ⟨?_, h.not_isMalformed⟩
      rw [decode_of_known hunknown, decodeEntries_eq_error_iff]
      exact ⟨before, k, .map fs, after, heq, hbefore,
        (Condition.decode_eq_error_iff.mpr ⟨fs, rfl, h⟩).1⟩

end Conditions

/-! ### Variables -/

/-- A variable is refused as malformed, unless it is a number that is too long to be written. -/
theorem Variable.decode_eq_error_iff {v : Value} {field : String} {fault : Fault} :
    decode v field = .error fault ∧ ¬ fault.IsMalformed ↔
      ∃ i, v = .int i ∧ Number.isWritable i = false ∧ fault = .invalidValue := by
  constructor
  · rintro ⟨h, hfault⟩
    cases v with
    | int i =>
      refine ⟨i, rfl, ?_⟩
      cases hi : Number.isWritable i with
      | true =>
        rw [decode, Value.toScalarText_of_isWritable (v := .int i) hi] at h
        cases h
      | false =>
        rw [decode_int_eq_error hi] at h
        cases h
        exact ⟨rfl, rfl⟩
    | map es =>
      rw [decode, decodeSecret] at h
      split at h
      · cases h
        exact absurd (Fault.isMalformed_malformedOne _) hfault
      · cases h
      · cases h
        exact absurd (Fault.isMalformed_malformedOne _) hfault
    | null | bool b | float x | str s => cases h
    | _ =>
      cases h
      exact absurd (Fault.isMalformed_malformedOne _) hfault
  · rintro ⟨i, rfl, hi, rfl⟩
    refine ⟨decode_int_eq_error hi field, ?_⟩
    rintro ⟨_, _, h⟩
    cases h

/-! ### All three decoders -/

/-- How the decoders of filters and variables refuse a value. One condition, and the conditions of a
mapping, are refused as malformed unless there are unknown keys that cannot be listed; then the
fault is why they cannot. A variable is refused as malformed unless it is a number that is too long
to be written. Unknown keys that can be listed are reported, all of them. Scalars cannot be put in
order exactly when there are two of them at least and they are not all of one kind. -/
theorem refuses_malformed (v : Value) (place : String) (fault : Fault) :
    (Condition.decode v place = .error fault ∧ ¬ fault.IsMalformed ↔
      ∃ es, v = .map es ∧ Unlistable (unknownKeys Condition.listNames es) fault) ∧
    (Conditions.decode v place = .error fault ∧ ¬ fault.IsMalformed ↔
      ∃ es, v = .map es ∧ (Unlistable (unknownKeys Conditions.subjectNames es) fault ∨
        unknownKeys Conditions.subjectNames es = [] ∧ Conditions.RefusesEntry es fault)) ∧
    (Variable.decode v place = .error fault ∧ ¬ fault.IsMalformed ↔
      ∃ i, v = .int i ∧ Number.isWritable i = false ∧ fault = .invalidValue) ∧
    ReportsUnknown (Condition.decode · place) Condition.listNames (place ++ ": unknown keys ") ∧
    ReportsUnknown (Conditions.decode · place) Conditions.subjectNames
      (place ++ ": unknown conditions ") ∧
    ∀ keys : List Value, (∀ k ∈ keys, k.isScalar = true) →
      (Unlistable keys .wrongKind ↔
        2 ≤ keys.length ∧ ¬ ∃ kind, ∀ k ∈ keys, k.orderKind? = some kind) := by
  refine ⟨Condition.decode_eq_error_iff, Conditions.decode_eq_error_iff,
    Variable.decode_eq_error_iff,
    reportsUnknown_of_eq fun es h => Condition.decode_of_unknown h place,
    reportsUnknown_of_eq fun es h => Conditions.decode_of_unknown h place, fun keys hscalar => ?_⟩
  rw [← Value.sorted?_eq_none_iff hscalar]
  constructor
  · rintro ⟨order⟩
    exact order
  · exact .unordered

/-- A mapping with two unknown keys, a number and a text. -/
def mixedKeys : Value := .map [(.int 1, .str "x"), (.str "a", .str "y")]

/-- A number and a text cannot be put in order, and two texts can. -/
theorem refuses_malformed_mixedKeys :
    (Conditions.decode (.map [(.str "branch", mixedKeys)]) "trigger" = .error .wrongKind ∧
      ¬ Fault.wrongKind.IsMalformed) ∧
    Conditions.decode (.map [(.str "tag", .null), (.str "os", .null)]) "trigger"
      = .error (.malformedOne "trigger: unknown conditions ['os', 'tag']") ∧
    (∀ fault, Variable.decode mixedKeys "host" = .error fault → fault.IsMalformed) := by
  have hkeys : unknownKeys Condition.listNames [(.int 1, .str "x"), (.str "a", .str "y")]
      = [.int 1, .str "a"] := by decide +kernel
  have hunlistable : Unlistable [.int 1, .str "a"] .wrongKind := by
    refine ((refuses_malformed .null "" .wrongKind).2.2.2.2.2 _ (by decide)).mpr ⟨by decide, ?_⟩
    rintro ⟨kind, hkind⟩
    have hnumber := hkind (.int 1) (by simp)
    have htext := hkind (.str "a") (by simp)
    cases hnumber
    cases htext
  refine ⟨?_, ?_, ?_⟩
  · refine (refuses_malformed _ "trigger" .wrongKind).2.1.mpr ⟨_, rfl, .inr ⟨by decide, ?_⟩⟩
    refine ⟨[], .str "branch", _, [], ?_, by simp, hkeys ▸ hunlistable⟩
    exact Value.entries_of_areTreeEntries _ rfl
  · have hlisted := (refuses_malformed .null "trigger" .wrongKind).2.2.2.2.1.listed
      [(.str "tag", .null), (.str "os", .null)] [.str "os", .str "tag"] (by decide +kernel)
      (by simp) rfl
    exact hlisted.2
  · intro fault h
    by_contra hfault
    obtain ⟨i, hi, -⟩ := (refuses_malformed mixedKeys "host" fault).2.2.1.mp ⟨h, hfault⟩
    cases hi

/-- The unknown keys of a condition are refused, but not as malformed. -/
theorem condition_mixedKeys :
    ∃ fault, Condition.decode mixedKeys "condition" = .error fault ∧ ¬ fault.IsMalformed :=
  ⟨.wrongKind, Condition.decode_eq_error_iff.mpr ⟨_, rfl, .unordered (by decide +kernel)⟩⟩

end PipelineManifest
