import PipelineManifest.Proofs.Schema.Rules
import PipelineManifest.Proofs.Value.Writable

/-!
# `PipelineManifest.Proofs.Schema.Writable`: when the messages of a schema can be written

A message about a value shows parts of it, so a schema has a report whenever every number of the
value can be written.

* `isReportable_of_isWritable`: all messages about a value can be written if the value can.
* `check_of_not_isReportable`, `yields_check`: a check fails with the report, if there is one.
-/

set_option autoImplicit false

namespace PipelineManifest

namespace SchemaViolation

theorem isWritable_here (message : String) : (here message).isWritable = true := rfl

theorem isWritable_ofValue {v : Value} (h : v.isWritable = true) (reason : String) :
    (ofValue v reason).isWritable = true := by
  simp [isWritable, ofValue, h]

theorem isWritable_underKey {x : SchemaViolation} (h : x.isWritable = true) {key : Value}
    (hkey : key.isWritable = true) : (x.underKey key).isWritable = true := by
  rw [isWritable] at h
  simp [isWritable, underKey, under, hkey, h]

end SchemaViolation

namespace Schema

open SchemaViolation

/-- A violation among those that there are unless a condition holds. -/
theorem isWritable_of_mem_unless {p : Prop} [Decidable p] {x y : SchemaViolation}
    (hx : x.isWritable = true) (hy : y ∈ if p then [] else [x]) : y.isWritable = true := by
  split at hy
  · cases hy
  · rw [List.mem_singleton.mp hy]
    exact hx

mutual

/-- Every violation of a schema can be written, if the value can be written. -/
theorem isWritable_of_mem_violations (schema : Schema) {v : Value} (h : v.isWritable = true) :
    ∀ x ∈ violations schema v, x.isWritable = true := by
  cases schema with
  | nil => simp [violations]
  | cons r rs =>
    intro x hx
    rw [violations] at hx
    rcases List.mem_append.mp hx with hx | hx
    · exact isWritable_of_mem_ruleViolations r h x hx
    · exact isWritable_of_mem_violations rs h x hx

theorem isWritable_of_mem_ruleViolations (r : Rule) {v : Value} (h : v.isWritable = true) :
    ∀ x ∈ ruleViolations r v, x.isWritable = true := by
  intro x hx
  -- A message shows the value, keys of it, or words of the schema; its path has keys of mappings.
  cases r with
  | type types => exact isWritable_of_mem_unless (isWritable_ofValue h _) hx
  | const text => exact isWritable_of_mem_unless (isWritable_here _) hx
  | oneOf texts => exact isWritable_of_mem_unless (isWritable_ofValue h _) hx
  | required names =>
    cases v with
    | map es =>
      obtain ⟨name, -, rfl⟩ := List.mem_map.mp hx
      rfl
    | _ => cases hx
  | properties fields =>
    cases v with
    | map es => exact isWritable_of_mem_fieldViolations fields h x hx
    | _ => cases hx
  | noOthers known =>
    cases v with
    | map es =>
      refine isWritable_of_mem_unless ?_ hx
      rw [SchemaViolation.isWritable, unexpectedFields, List.all_eq_true]
      intro k hk
      obtain ⟨e, he, rfl⟩ := List.mem_map.mp hk
      rw [Value.isWritable, Value.areWritableEntries_iff] at h
      exact (h e (List.mem_filter.mp he).1).1
    | _ => cases hx
  | others known schema =>
    cases v with
    | map es =>
      obtain ⟨e, he, hx⟩ := List.mem_flatMap.mp hx
      obtain ⟨y, hy, rfl⟩ := List.mem_map.mp hx
      obtain ⟨hkey, hvalue⟩ := Value.isWritable_of_mem_entries h (List.mem_filter.mp he).1
      exact isWritable_underKey (isWritable_of_mem_violations schema hvalue y hy) hkey
    | _ => cases hx
  | items schema =>
    cases v with
    | seq vs =>
      obtain ⟨e, he, hx⟩ := List.mem_flatMap.mp hx
      obtain ⟨y, hy, rfl⟩ := List.mem_map.mp hx
      have hitem := Value.isWritable_of_mem_items h (List.fst_mem_of_mem_zipIdx he)
      exact isWritable_of_mem_violations schema hitem y hy
    | _ => cases hx
  | nonEmpty =>
    cases v with
    | str s =>
      rw [ruleViolations] at hx
      split at hx
      · rw [List.mem_singleton.mp hx]
        rfl
      · cases hx
    | _ => cases hx
  | minimum least =>
    rw [ruleViolations] at hx
    split at hx
    · rw [List.mem_singleton.mp hx]
      exact isWritable_ofValue h _
    · cases hx
  | anyOf schemas => exact isWritable_of_mem_unless (isWritable_ofValue h _) hx

theorem isWritable_of_mem_fieldViolations (fields : List (String × List Rule))
    {es : List (Value × Value)} (h : (Value.map es).isWritable = true) :
    ∀ x ∈ fieldViolations fields es, x.isWritable = true := by
  cases fields with
  | nil => simp [fieldViolations]
  | cons f fields =>
    obtain ⟨name, schema⟩ := f
    intro x hx
    rw [fieldViolations] at hx
    rcases List.mem_append.mp hx with hx | hx
    · cases hf : Value.field? name es with
      | none =>
        rw [hf] at hx
        cases hx
      | some v =>
        rw [hf] at hx
        obtain ⟨y, hy, rfl⟩ := List.mem_map.mp hx
        exact isWritable_of_mem_violations schema (Value.isWritable_of_field? h hf) y hy
    · exact isWritable_of_mem_fieldViolations fields h x hx

end

/-- All messages about a value can be written, if the value can be written. -/
theorem isReportable_of_isWritable (schema : Schema) {v : Value} (h : v.isWritable = true) :
    isReportable schema v = true :=
  List.all_eq_true.mpr (isWritable_of_mem_violations schema h)

/-- A check fails without a report where a message cannot be written. -/
theorem check_of_not_isReportable {schema : Schema} {v : Value}
    (h : isReportable schema v = false) (place : String) :
    check schema v place = .error .invalidValue := by
  rw [check, h]
  rfl

/-- A check that can write its messages passes the values that the schema accepts, and fails on all
others with a fault of a manifest. -/
theorem yields_check {schema : Schema} {v : Value} (h : isReportable schema v = true)
    (place : String) :
    Outcome.Yields (fun _ => accepts schema v = true) (check schema v place) := by
  rw [check, h]
  cases hreport : report schema v with
  | nil => exact (report_eq_nil_iff schema v).mp hreport
  | cons error errors => rfl

end Schema

end PipelineManifest
