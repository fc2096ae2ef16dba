import PipelineManifest.Proofs.Value.Keys
import PipelineManifest.Schema.Report

/-!
# `PipelineManifest.Proofs.Schema.Rules`: what each rule of a schema accepts

`Schema.accepts` is defined by the violations that a schema reports. Here it is read rule by
rule, so that a schema can be taken apart without looking at messages.

* `Rule.accepts`: whether a value keeps a rule.
* `accepts_cons`: a value keeps a schema when it keeps every rule.
* `accepts_type`, `accepts_properties`, `accepts_items` and so on: one equation for each rule.
* `report_eq_nil_iff`, `check_eq_ok_iff`: a value without reported violations is an accepted one.
-/

set_option autoImplicit false

namespace PipelineManifest

/-- Whether a value keeps a rule. -/
def Rule.accepts (r : Rule) (v : Value) : Bool := (Schema.ruleViolations r v).isEmpty

namespace Schema

/-- A list that is empty under a condition, and else holds one violation. -/
theorem isEmpty_unless (p : Prop) [Decidable p] (x : SchemaViolation) :
    (if p then [] else [x]).isEmpty = decide p := by
  by_cases h : p <;> simp [h]

theorem isEmpty_append (xs ys : List SchemaViolation) :
    (xs ++ ys).isEmpty = (xs.isEmpty && ys.isEmpty) := by
  cases xs <;> rfl

theorem accepts_nil (v : Value) : accepts [] v = true := rfl

theorem accepts_cons (r : Rule) (rs : List Rule) (v : Value) :
    accepts (r :: rs) v = (r.accepts v && accepts rs v) := by
  show (ruleViolations r v ++ violations rs v).isEmpty = _
  rw [isEmpty_append]
  rfl

theorem accepts_singleton (r : Rule) (v : Value) : accepts [r] v = r.accepts v := by
  rw [accepts_cons, accepts_nil, Bool.and_true]

/-! ### Rules about any value -/

theorem accepts_type (types : List SchemaType) (v : Value) :
    (Rule.type types).accepts v = types.any (·.holds v) := by
  show (if types.any (·.holds v) then [] else [_]).isEmpty = _
  rw [isEmpty_unless, Bool.decide_eq_true]

theorem accepts_const (text : String) (v : Value) :
    (Rule.const text).accepts v = decide (v.str? = some text) := by
  show (if v.str? = some text then [] else [_]).isEmpty = _
  rw [isEmpty_unless]

theorem accepts_oneOf (texts : List String) (v : Value) :
    (Rule.oneOf texts).accepts v = texts.any fun text => v.str? = some text := by
  show (if texts.any (fun text => v.str? = some text) then [] else [_]).isEmpty = _
  rw [isEmpty_unless, Bool.decide_eq_true]

theorem accepts_minimum (least : Int) (v : Value) :
    (Rule.minimum least).accepts v = !v.isLessThan least := by
  show (if v.isLessThan least then [_] else []).isEmpty = _
  cases v.isLessThan least with
  | true => rfl
  | false => rfl

theorem acceptedByOne_eq (schemas : List Schema) (v : Value) :
    acceptedByOne schemas v = schemas.any (accepts · v) := by
  induction schemas with
  | nil => rfl
  | cons schema schemas ih =>
    show (accepts schema v || acceptedByOne schemas v) = _
    rw [ih, List.any_cons]

theorem accepts_anyOf (schemas : List Schema) (v : Value) :
    (Rule.anyOf schemas).accepts v = schemas.any (accepts · v) := by
  show (if acceptedByOne schemas v then [] else [_]).isEmpty = _
  rw [isEmpty_unless, Bool.decide_eq_true, acceptedByOne_eq]

/-! ### Rules about mappings -/

theorem accepts_required (names : List String) (es : List (Value × Value)) :
    (Rule.required names).accepts (.map es) = names.all (Value.hasField · es) := by
  show ((names.filter fun name => !Value.hasField name es).map _).isEmpty = _
  rw [Bool.eq_iff_iff, List.isEmpty_iff, List.map_eq_nil_iff, List.filter_eq_nil_iff]
  simp

theorem fieldViolations_isEmpty (fields : List (String × Schema)) (es : List (Value × Value)) :
    (fieldViolations fields es).isEmpty
      = fields.all fun f => (Value.field? f.1 es).all (accepts f.2) := by
  induction fields with
  | nil => rfl
  | cons f fields ih =>
    obtain ⟨name, schema⟩ := f
    rw [fieldViolations, isEmpty_append, ih, List.all_cons]
    cases Value.field? name es with
    | none => rfl
    | some v => simp [accepts, List.isEmpty_map]

theorem accepts_properties (fields : List (String × Schema)) (es : List (Value × Value)) :
    (Rule.properties fields).accepts (.map es)
      = fields.all fun f => (Value.field? f.1 es).all (accepts f.2) :=
  fieldViolations_isEmpty fields es

theorem accepts_noOthers (known : List String) (es : List (Value × Value)) :
    (Rule.noOthers known).accepts (.map es) = (otherEntries known es).isEmpty := by
  show (if (otherEntries known es).isEmpty then [] else [_]).isEmpty = _
  rw [isEmpty_unless, Bool.decide_eq_true]

theorem accepts_others (known : List String) (schema : Schema) (es : List (Value × Value)) :
    (Rule.others known schema).accepts (.map es)
      = (otherEntries known (Value.entries es)).all fun e => accepts schema e.2 := by
  show ((otherEntries known (Value.entries es)).flatMap fun e =>
    (violations schema e.2).map (SchemaViolation.underKey e.1)).isEmpty = _
  rw [Bool.eq_iff_iff, List.isEmpty_iff, List.flatMap_eq_nil_iff]
  simp [accepts]

/-! ### Rules about sequences, texts and numbers -/

theorem accepts_items (schema : Schema) (vs : List Value) :
    (Rule.items schema).accepts (.seq vs) = (Value.items vs).all (accepts schema) := by
  show ((Value.items vs).zipIdx.flatMap fun p =>
    (violations schema p.1).map (SchemaViolation.under (.int p.2))).isEmpty = _
  rw [Bool.eq_iff_iff, List.isEmpty_iff, List.flatMap_eq_nil_iff, List.all_eq_true]
  simp only [List.map_eq_nil_iff, accepts, List.isEmpty_iff]
  constructor
  · intro h v hv
    obtain ⟨i, hi, rfl⟩ := List.getElem_of_mem hv
    exact h ((Value.items vs)[i], i) (List.mk_mem_zipIdx_iff_getElem?.mpr (by simp))
  · intro h p hp
    exact h p.1 (List.fst_mem_of_mem_zipIdx hp)

theorem accepts_nonEmpty (s : String) : Rule.nonEmpty.accepts (.str s) = decide (s ≠ "") := by
  show (if s = "" then [_] else []).isEmpty = _
  by_cases h : s = ""
  · rw [if_pos h, h]
    rfl
  · rw [if_neg h]
    exact (decide_eq_true h).symm

/-! ### Reports -/

/-- Nothing is reported about a value exactly when the schema accepts it: sorting the violations
loses none of them. -/
theorem report_eq_nil_iff (schema : Schema) (v : Value) :
    report schema v = [] ↔ accepts schema v = true := by
  have hlength : (report schema v).length = (violations schema v).length := by
    simp [report, sortedViolations, List.length_mergeSort]
  rw [accepts, List.isEmpty_iff, ← List.length_eq_zero_iff, hlength, List.length_eq_zero_iff]

/-- A checked value passes exactly when the schema accepts it. -/
theorem check_eq_ok_iff (schema : Schema) (v : Value) (place : String) :
    check schema v place = .ok () ↔ accepts schema v = true := by
  rw [← report_eq_nil_iff, check]
  split
  · rename_i hbad
    refine ⟨fun h => (nomatch h), fun h => ?_⟩
    rw [report_eq_nil_iff, accepts, List.isEmpty_iff] at h
    simp [isReportable, h] at hbad
  · cases h : report schema v <;> simp

end Schema

end PipelineManifest
