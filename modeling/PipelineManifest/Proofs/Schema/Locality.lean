import Mathlib.Data.List.Sort
import Mathlib.Data.String.Basic
import PipelineManifest.Proofs.Schema.Shapes
import PipelineManifest.Proofs.Schema.Writable
import PipelineManifest.Proofs.Value.Same

/-!
# `PipelineManifest.Proofs.Schema.Locality`: where reported violations come from

A report lists the violations of a whole document in the order of their paths. Here it is taken
apart again. What it says about one field, or about one step, is what the schema of that field or
step says about the value alone, with the path put in front; nothing else in the document plays a
part. Sorting does not mix this up: picking out violations and sorting them can be done in either
order, since the sort is stable (`filter_mergeSort`).

* `filter_mergeSort`: a stable sort, and the items with a property.
* `SchemaViolation.isUnder`: the violations in a part of a document.
* `sortedViolations_perm`, `sortedViolations_sorted`, `filter_sortedViolations`: the order of a
  report.
* `filter_fieldViolations`, `filter_itemViolations`: the violations of one field and of one item.
* `reportedUnder_field`, `reportedUnder_step`: the same in a report about a pipeline.
* `accepts_pipeline_iff`: the documents without violations.
* `pipeline_report_exact`: all of it, and what a check makes of the report.
-/

set_option autoImplicit false

namespace PipelineManifest

open Value (field? hasField items)

/-! ### A stable sort -/

section Stable

variable {α : Type} {le : α → α → Bool}

/-- Two lists that are put together from items without a property and then items with it, and are
equal, have equal parts. -/
theorem append_inj_of_split {p : α → Bool} {xs xs' ys ys' : List α}
    (hxs : ∀ a ∈ xs, p a = false) (hxs' : ∀ a ∈ xs', p a = true) (hys : ∀ a ∈ ys, p a = false)
    (hys' : ∀ a ∈ ys', p a = true) (h : xs ++ xs' = ys ++ ys') : xs = ys ∧ xs' = ys' := by
  have hnone {zs : List α} (hzs : ∀ a ∈ zs, p a = false) : zs.filter p = [] :=
    List.filter_eq_nil_iff.mpr fun a ha => by simp [hzs a ha]
  have hparts := congrArg (List.filter p) h
  rw [List.filter_append, List.filter_append, hnone hxs, hnone hys, List.nil_append,
    List.nil_append, List.filter_eq_self.mpr hxs', List.filter_eq_self.mpr hys'] at hparts
  refine ⟨?_, hparts⟩
  rw [hparts] at h
  exact List.append_cancel_right h

/-- The items with a property are sorted among themselves as they are sorted among all. The
induction is on the list: a new first item goes in front of all that do not come before it. -/
theorem filter_mergeSort (trans : ∀ a b c : α, le a b = true → le b c = true → le a c = true)
    (total : ∀ a b : α, (le a b || le b a) = true) (p : α → Bool) (l : List α) :
    (l.mergeSort le).filter p = (l.filter p).mergeSort le := by
  induction l with
  | nil => simp
  | cons a l ih =>
    obtain ⟨before, after, hsort, hrest, hbefore⟩ := List.mergeSort_cons trans total a l
    have hsorted := List.pairwise_mergeSort trans total (a :: l)
    rw [hsort, List.pairwise_append, List.pairwise_cons] at hsorted
    rw [hrest, List.filter_append] at ih
    rw [hsort, List.filter_append, List.filter_cons, List.filter_cons]
    cases hp : p a with
    | false => simpa using ih
    | true =>
      obtain ⟨front, back, hsort', hrest', hfront⟩ :=
        List.mergeSort_cons trans total a (l.filter p)
      have hsorted' := List.pairwise_mergeSort trans total (a :: l.filter p)
      rw [hsort', List.pairwise_append, List.pairwise_cons] at hsorted'
      -- Both sides are cut where the items start that do not come before the new one.
      obtain ⟨hfronts, hbacks⟩ := append_inj_of_split (p := le a)
        (fun b hb => by simpa using hbefore b (List.mem_of_mem_filter hb))
        (fun b hb => hsorted.2.1.1 b (List.mem_of_mem_filter hb))
        (fun b hb => by simpa using hfront b hb) hsorted'.2.1.1 (ih.trans hrest')
      rw [if_pos rfl, if_pos rfl, hsort', hfronts, hbacks]

end Stable

/-! ### The order of a report -/

namespace SchemaViolation

theorem notAfter_iff {x y : SchemaViolation} : x.notAfter y = true ↔ ¬ y.steps < x.steps := by
  simp [notAfter]

theorem notAfter_trans (x y z : SchemaViolation) (hxy : x.notAfter y = true)
    (hyz : y.notAfter z = true) : x.notAfter z = true := by
  rw [notAfter_iff, List.not_lt] at *
  exact List.le_trans hxy hyz

theorem notAfter_total (x y : SchemaViolation) : (x.notAfter y || y.notAfter x) = true := by
  rw [Bool.or_eq_true, notAfter_iff, notAfter_iff, List.not_lt, List.not_lt]
  exact List.le_total x.steps y.steps

/-- Two violations in the same part of a container are ordered as they are inside it. -/
theorem notAfter_under (step : Value) (x y : SchemaViolation) :
    (x.under step).notAfter (y.under step) = x.notAfter y := by
  rw [Bool.eq_iff_iff, notAfter_iff, notAfter_iff]
  simp [steps, under]

/-- Whether a violation is in the part of a document to which a path leads. -/
def isUnder (path : List Value) (x : SchemaViolation) : Bool := decide (path <+: x.path)

theorem isUnder_nil (x : SchemaViolation) : x.isUnder [] = true := by simp [isUnder]

theorem isUnder_under (step step' : Value) (path : List Value) (x : SchemaViolation) :
    (x.under step').isUnder (step :: path) = (decide (step = step') && x.isUnder path) := by
  rw [Bool.eq_iff_iff]
  simp [isUnder, under, List.cons_prefix_cons]

/-- Among the violations in a part of a container, those further in are picked out inside the
part. -/
theorem filter_map_under (step : Value) (path : List Value) (xs : List SchemaViolation) :
    (xs.map (under step)).filter (isUnder (step :: path))
      = (xs.filter (isUnder path)).map (under step) := by
  rw [List.filter_map]
  refine congrArg _ (List.filter_congr fun x _ => ?_)
  simp [isUnder_under]

/-- No violation in one part is in another. -/
theorem filter_map_under_of_ne {step step' : Value} (h : step ≠ step') (path : List Value)
    (xs : List SchemaViolation) : (xs.map (under step')).filter (isUnder (step :: path)) = [] := by
  rw [List.filter_map, List.map_eq_nil_iff, List.filter_eq_nil_iff]
  simp [isUnder_under, h]

end SchemaViolation

namespace Schema

open SchemaViolation (isUnder under)

section Order

variable (schema : Schema) (v : Value)

/-- Sorting neither loses nor repeats a violation. -/
theorem sortedViolations_perm : (sortedViolations schema v).Perm (violations schema v) :=
  List.mergeSort_perm _ _

/-- No violation stands before one with a smaller path. -/
theorem sortedViolations_sorted :
    (sortedViolations schema v).Pairwise fun x y => ¬ y.steps < x.steps :=
  (List.pairwise_mergeSort SchemaViolation.notAfter_trans SchemaViolation.notAfter_total _).imp
    SchemaViolation.notAfter_iff.mp

theorem filter_sortedViolations (p : SchemaViolation → Bool) :
    (sortedViolations schema v).filter p
      = ((violations schema v).filter p).mergeSort SchemaViolation.notAfter :=
  filter_mergeSort SchemaViolation.notAfter_trans SchemaViolation.notAfter_total p _

/-- Violations with the same path keep the order of the schema. -/
theorem filter_sortedViolations_steps (steps : List String) :
    (sortedViolations schema v).filter (fun x => decide (x.steps = steps))
      = (violations schema v).filter fun x => decide (x.steps = steps) := by
  rw [filter_sortedViolations]
  refine List.mergeSort_of_pairwise (List.pairwise_of_forall_mem_list fun x hx y hy => ?_)
  have hx' := of_decide_eq_true (List.mem_filter.mp hx).2
  have hy' := of_decide_eq_true (List.mem_filter.mp hy).2
  rw [SchemaViolation.notAfter_iff, hx', hy']
  exact List.lt_irrefl steps

/-- What is picked out of a report about the value of a part is sorted there already. -/
theorem mergeSort_map_under (step : Value) (xs : List SchemaViolation) :
    (xs.map (under step)).mergeSort SchemaViolation.notAfter
      = (xs.mergeSort SchemaViolation.notAfter).map (under step) :=
  (List.map_mergeSort fun x _ y _ => (SchemaViolation.notAfter_under step x y).symm).symm

end Order

/-! ### Fields and items -/

/-- The violations in the part of a field that a path leads to are those of the field's own value.
No other field plays a part, and a field without a schema has no violations. -/
theorem filter_fieldViolations {fields : List (String × Schema)}
    (hnames : (fields.map Prod.fst).Nodup) (es : List (Value × Value)) (name : String)
    (path : List Value) :
    (fieldViolations fields es).filter (isUnder (.str name :: path))
      = (field? name es).elim [] fun v =>
          ((violations ((fields.lookup name).getD []) v).filter (isUnder path)).map
            (under (.str name)) := by
  induction fields with
  | nil => cases h : field? name es <;> simp [fieldViolations, violations]
  | cons f fields ih =>
    obtain ⟨name', schema⟩ := f
    rw [List.map_cons, List.nodup_cons] at hnames
    rw [fieldViolations, List.filter_append, ih hnames.2]
    by_cases hname : name = name'
    · subst hname
      -- The name does not come again.
      have hlookup : fields.lookup name = none :=
        List.lookup_eq_none_iff.mpr fun f hf =>
          bne_iff_ne.mpr fun h => hnames.1 (List.mem_map.mpr ⟨f, hf, h.symm⟩)
      cases field? name es with
      | none => rfl
      | some v =>
        simp [hlookup, violations, SchemaViolation.filter_map_under]
    · have hlookup : ((name', schema) :: fields).lookup name = fields.lookup name := by
        rw [List.lookup_cons, beq_eq_false_iff_ne.mpr hname]
      rw [hlookup]
      cases field? name' es with
      | none => rfl
      | some v =>
        rw [SchemaViolation.filter_map_under_of_ne (by simpa using hname), List.nil_append]

/-- Going through the items of a list with their positions, of which only one counts. -/
theorem flatMap_zipIdx_single {α β : Type} (us : List α) (f : α → List β) (n i : Nat) :
    ((us.zipIdx n).flatMap fun u => if u.2 = n + i then f u.1 else []) = us[i]?.elim [] f := by
  induction us generalizing n i with
  | nil => rfl
  | cons u us ih =>
    rw [List.zipIdx_cons, List.flatMap_cons]
    cases i with
    | zero =>
      have hrest : ((us.zipIdx (n + 1)).flatMap fun w => if w.2 = n + 0 then f w.1 else []) = [] :=
        List.flatMap_eq_nil_iff.mpr fun w hw => by
          have hle := List.le_snd_of_mem_zipIdx hw
          rw [if_neg (by omega)]
      rw [hrest]
      simp
    | succ i =>
      have hrest := ih (n + 1) i
      rw [Nat.add_right_comm n 1 i] at hrest
      rw [if_neg (by simp), List.nil_append, List.getElem?_cons_succ, ← hrest]
      rfl

/-- The violations in the part of an item that a path leads to are those of the item itself. -/
theorem filter_itemViolations (schema : Schema) (vs : List Value) (i : Nat) (path : List Value) :
    (ruleViolations (.items schema) (.seq vs)).filter (isUnder (.int i :: path))
      = (items vs)[i]?.elim [] fun v =>
          ((violations schema v).filter (isUnder path)).map (under (.int i)) := by
  rw [ruleViolations, List.filter_flatMap, ← flatMap_zipIdx_single _ _ 0 i]
  refine List.flatMap_congr fun u _ => ?_
  obtain ⟨v, j⟩ := u
  by_cases hj : j = i
  · subst hj
    simp [SchemaViolation.filter_map_under]
  · have hij : Value.int i ≠ .int j := fun h => hj (Int.ofNat_inj.mp (Value.int.inj h)).symm
    simpa [hj] using SchemaViolation.filter_map_under_of_ne hij path (violations schema v)

/-! ### Pipelines -/

/-- The schema of a field of a pipeline. -/
def fieldSchema (name : String) : Schema := (pipelineFields.lookup name).getD []

/-- What is reported in the part of a pipeline to which a path leads. -/
def reportedUnder (path : List Value) (v : Value) : List SchemaViolation :=
  (sortedViolations pipeline v).filter (isUnder path)

section Pipeline

variable (es : List (Value × Value))

theorem nodup_pipelineFields : (pipelineFields.map Prod.fst).Nodup := by decide +kernel

/-- A violation of a whole document has no path, and all others are in a field. -/
theorem filter_pipelineViolations (name : String) (path : List Value) :
    (violations pipeline (.map es)).filter (isUnder (.str name :: path))
      = (field? name es).elim [] fun v =>
          ((violations (fieldSchema name) v).filter (isUnder path)).map (under (.str name)) := by
  have hrequired : (ruleViolations (.required ["kind", "type", "name"]) (.map es)).filter
      (isUnder (.str name :: path)) = [] := by
    rw [ruleViolations, List.filter_map, List.map_eq_nil_iff, List.filter_eq_nil_iff]
    simp [isUnder, SchemaViolation.here]
  have hall : violations pipeline (.map es)
      = ruleViolations (.required ["kind", "type", "name"]) (.map es)
        ++ fieldViolations pipelineFields es := by
    simp [pipeline, violations, ruleViolations, SchemaType.holds]
  rw [hall, List.filter_append, hrequired, List.nil_append,
    filter_fieldViolations nodup_pipelineFields]
  rfl

/-- A report says about a field what the schema of the field says about its value alone. -/
theorem reportedUnder_field (name : String) :
    reportedUnder [.str name] (.map es)
      = (field? name es).elim [] fun v =>
          (sortedViolations (fieldSchema name) v).map (under (.str name)) := by
  rw [reportedUnder, filter_sortedViolations, filter_pipelineViolations]
  cases field? name es with
  | none => simp
  | some v =>
    have hself : (violations (fieldSchema name) v).filter (isUnder [])
        = violations (fieldSchema name) v :=
      List.filter_eq_self.mpr fun x _ => SchemaViolation.isUnder_nil x
    rw [Option.elim_some, Option.elim_some, hself, mergeSort_map_under, sortedViolations]

/-- A report says about a step what the schema of steps says about the step alone. -/
theorem reportedUnder_step {vs : List Value} (h : field? "steps" es = some (.seq vs)) (i : Nat) :
    reportedUnder [.str "steps", .int i] (.map es)
      = (items vs)[i]?.elim [] fun v =>
          (sortedViolations step v).map fun x => (x.under (.int i)).under (.str "steps") := by
  have hsteps : violations (fieldSchema "steps") (.seq vs)
      = ruleViolations (.items step) (.seq vs) := by
    show ruleViolations (.type [.array]) (.seq vs) ++ (ruleViolations (.items step) (.seq vs) ++ [])
      = _
    rw [List.append_nil]
    rfl
  rw [reportedUnder, filter_sortedViolations, filter_pipelineViolations, h, Option.elim_some,
    hsteps, filter_itemViolations, mergeSort_map_under]
  cases (items vs)[i]? with
  | none => simp
  | some v =>
    have hself : (violations step v).filter (isUnder []) = violations step v :=
      List.filter_eq_self.mpr fun x _ => SchemaViolation.isUnder_nil x
    rw [Option.elim_some, Option.elim_some, hself, mergeSort_map_under, List.map_map,
      sortedViolations]
    rfl

/-- Fields with distinct names keep their schemas exactly when every field of a mapping keeps the
schema that is found under its name. -/
theorem forall_fields_iff {fields : List (String × Schema)} (hnames : (fields.map Prod.fst).Nodup) :
    (∀ f ∈ fields, ∀ v, field? f.1 es = some v → accepts f.2 v = true) ↔
      ∀ name v, field? name es = some v → accepts ((fields.lookup name).getD []) v = true := by
  constructor
  · intro h name v hv
    cases hlookup : fields.lookup name with
    | none => exact accepts_nil v
    | some schema =>
      obtain ⟨before, after, rfl, -⟩ := List.lookup_eq_some_iff.mp hlookup
      exact h (name, schema) (by simp) v hv
  · intro h f hf v hv
    obtain ⟨before, after, rfl⟩ := List.append_of_mem hf
    rw [List.map_append, List.map_cons, List.nodup_middle, List.nodup_cons] at hnames
    have hlookup : (before ++ f :: after).lookup f.1 = some f.2 :=
      List.lookup_eq_some_iff.mpr ⟨before, after, rfl, fun g hg =>
        bne_iff_ne.mpr fun heq => hnames.1
          (List.mem_append_left _ (List.mem_map.mpr ⟨g, hg, heq.symm⟩))⟩
    simpa [hlookup] using h f.1 v hv

/-- A document without violations has the required fields, and each of its fields and steps is one
without violations. -/
theorem accepts_pipeline_iff :
    accepts pipeline (.map es) = true ↔
      (∀ name ∈ ["kind", "type", "name"], hasField name es = true) ∧
      (∀ name v, field? name es = some v → accepts (fieldSchema name) v = true) := by
  rw [pipeline, accepts_requiredObject_iff]
  simp only [Value.map.injEq, exists_eq_left', forall_fields_iff es nodup_pipelineFields,
    Value.hasField_eq_isSome, Option.isSome_iff_exists, fieldSchema]

/-- The steps of a pipeline are a list of steps each of which is one without violations. -/
theorem accepts_steps_iff {v : Value} :
    accepts (fieldSchema "steps") v = true ↔
      ∃ vs, v = .seq vs ∧ ∀ w ∈ items vs, accepts step w = true :=
  accepts_arrayOf_iff

/-! ### Checks -/

theorem sortedViolations_eq_nil_iff {schema : Schema} {v : Value} :
    sortedViolations schema v = [] ↔ accepts schema v = true := by
  rw [← report_eq_nil_iff, report, List.map_eq_nil_iff]

/-- A check that can write its messages fails with all of them. -/
theorem check_of_isReportable {schema : Schema} {v : Value} (h : isReportable schema v = true)
    (hreport : report schema v ≠ []) (place : String) :
    check schema v place = .error (reportFault place (report schema v)) := by
  rw [check, h]
  cases hcons : report schema v with
  | nil => exact absurd hcons hreport
  | cons error errors => rfl

/-- What it means that a pipeline is reported on completely, locally and in order. -/
structure IsExactlyReported (place : String) : Prop where
  /-- What is reported in a field is what the schema of the field reports about its value. -/
  in_field : ∀ name, reportedUnder [.str name] (.map es)
    = (field? name es).elim [] fun v =>
        (sortedViolations (fieldSchema name) v).map (under (.str name))
  /-- What is reported in a field is the same in all documents with the same value there. -/
  in_field_eq : ∀ name es', field? name es = field? name es' →
    reportedUnder [.str name] (.map es) = reportedUnder [.str name] (.map es')
  /-- What is reported in a step is what the schema of steps reports about the step. -/
  in_step : ∀ vs, field? "steps" es = some (.seq vs) → ∀ i : Nat,
    reportedUnder [.str "steps", .int i] (.map es)
      = (items vs)[i]?.elim [] fun v =>
          (sortedViolations step v).map fun x => (x.under (.int i)).under (.str "steps")
  /-- What is reported in a step is the same in all documents with the same step there. -/
  in_step_eq : ∀ vs, field? "steps" es = some (.seq vs) →
    ∀ es' vs', field? "steps" es' = some (.seq vs') → ∀ i : Nat, (items vs)[i]? = (items vs')[i]? →
      reportedUnder [.str "steps", .int i] (.map es)
        = reportedUnder [.str "steps", .int i] (.map es')
  /-- Nothing is reported exactly when the required fields are there and each field is valid. -/
  valid : sortedViolations pipeline (.map es) = [] ↔
    (∀ name ∈ ["kind", "type", "name"], hasField name es = true) ∧
    ∀ name v, field? name es = some v → accepts (fieldSchema name) v = true
  /-- The steps are valid exactly when they are a list and each of them is valid. -/
  valid_steps : ∀ v, accepts (fieldSchema "steps") v = true ↔
    ∃ vs, v = .seq vs ∧ ∀ w ∈ items vs, accepts step w = true
  /-- Every violation is reported once. -/
  perm : (sortedViolations pipeline (.map es)).Perm (violations pipeline (.map es))
  /-- No violation is reported before one with a smaller path. -/
  sorted : (sortedViolations pipeline (.map es)).Pairwise fun x y => ¬ y.steps < x.steps
  /-- Violations with the same path are reported in the order of the schema. -/
  stable : ∀ steps, (sortedViolations pipeline (.map es)).filter (fun x => decide (x.steps = steps))
    = (violations pipeline (.map es)).filter fun x => decide (x.steps = steps)
  /-- A check passes exactly when nothing is reported. -/
  passes : check pipeline (.map es) place = .ok () ↔ sortedViolations pipeline (.map es) = []
  /-- A check that can write the report fails with all of it. -/
  fails : isReportable pipeline (.map es) = true → sortedViolations pipeline (.map es) ≠ [] →
    ∃ message, check pipeline (.map es) place
      = .error (.malformed message ((sortedViolations pipeline (.map es)).map SchemaViolation.text))
  /-- A check that cannot write the report fails without it. -/
  fails_unwritable : isReportable pipeline (.map es) = false →
    check pipeline (.map es) place = .error .invalidValue

/-- Every document that is checked as a pipeline is reported on completely, locally and in order. A
check fails with the report, unless a message shows a number of too many digits. -/
theorem pipeline_report_exact (place : String) : IsExactlyReported es place where
  in_field := reportedUnder_field es
  in_field_eq name es' hsame := by rw [reportedUnder_field, reportedUnder_field, hsame]
  in_step vs hvs := reportedUnder_step es hvs
  in_step_eq vs hvs es' vs' hvs' i hsame := by
    rw [reportedUnder_step es hvs, reportedUnder_step es' hvs', hsame]
  valid := sortedViolations_eq_nil_iff.trans (accepts_pipeline_iff es)
  valid_steps v := accepts_steps_iff
  perm := sortedViolations_perm _ _
  sorted := sortedViolations_sorted _ _
  stable := filter_sortedViolations_steps _ _
  passes := (check_eq_ok_iff _ _ place).trans sortedViolations_eq_nil_iff.symm
  fails hreportable hsome :=
    ⟨_, check_of_isReportable hreportable (fun h => hsome (List.map_eq_nil_iff.mp h)) place⟩
  fails_unwritable h := check_of_not_isReportable h place

end Pipeline

/-- A step that is no mapping is reported at its position, whatever the step before it is. -/
theorem pipeline_report_exact_secondStep :
    field? "steps" [(.str "steps", .seq [.null, .int 3])] = some (.seq [.null, .int 3]) ∧
    reportedUnder [.str "steps", .int 1] (.map [(.str "steps", .seq [.null, .int 3])])
      = [⟨[.str "steps", .int 1], "3 is not of type 'object'", [.int 3]⟩] := by
  refine ⟨rfl, ?_⟩
  have hstep : sortedViolations step (.int 3) = [⟨[], "3 is not of type 'object'", [.int 3]⟩] :=
    List.mergeSort_singleton _
  have hreport := (pipeline_report_exact [(.str "steps", .seq [.null, .int 3])] "").in_step
    [.null, .int 3] rfl 1
  exact hreport.trans (congrArg _ hstep)

/-- A check of a document with a violation whose message shows a number of too many digits fails
with another fault than the report. -/
theorem check_name_tooManyDigits :
    sortedViolations pipeline (.map [(.str "name", .int Number.writableBound)]) ≠ [] ∧
    ∀ message errors,
      check pipeline (.map [(.str "name", .int Number.writableBound)]) "pipeline"
        ≠ .error (.malformed message errors) := by
  have hreportable :
      isReportable pipeline (.map [(.str "name", .int Number.writableBound)]) = false := by
    decide +kernel
  have hcheck := check_of_not_isReportable hreportable "pipeline"
  refine ⟨fun hnone => ?_, fun message errors => ?_⟩
  · rw [(check_eq_ok_iff _ _ _).mpr (sortedViolations_eq_nil_iff.mp hnone)] at hcheck
    cases hcheck
  · rw [hcheck]
    exact fun h => nomatch h

/-- Position 10 comes before position 2. -/
example : (under (.int 10) (.here "a")).notAfter (under (.int 2) (.here "b")) = true ∧
    (under (.int 2) (.here "b")).notAfter (under (.int 10) (.here "a")) = false := by
  decide +kernel

end Schema

end PipelineManifest
