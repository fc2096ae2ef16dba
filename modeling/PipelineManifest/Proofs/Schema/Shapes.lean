import PipelineManifest.Proofs.Schema.Rules
import PipelineManifest.Schema.Manifest

/-!
# `PipelineManifest.Proofs.Schema.Shapes`: the values that the schemas of manifests accept

Each schema of a manifest, read off as a shape of values. Where a shape is needed to build a
document as well as to decode one, it is an equivalence.

* `accepts_string_iff`, `accepts_version_iff`, `accepts_stringList_iff`, `accepts_boolean_iff`,
  `accepts_depth_iff`: plain values.
* `accepts_variableValue_iff`: scalars, and mappings that name a secret.
* `accepts_conditions_iff`: mappings from the names of subjects to conditions.
* `accepts_object_iff`, `accepts_requiredObject_iff`, `accepts_closedObject_iff`: mappings whose
  fields keep their schemas.
-/

set_option autoImplicit false

namespace PipelineManifest.Schema

open Value (field? entries items hasField)

/-! ### Texts, numbers and switches -/

theorem accepts_string_iff {v : Value} : accepts string v = true ↔ ∃ s, v = .str s := by
  rw [string, accepts_singleton, accepts_type]
  cases v <;> simp [SchemaType.holds]

theorem accepts_null_iff {v : Value} : accepts [.type [.null]] v = true ↔ v = .null := by
  rw [accepts_singleton, accepts_type]
  cases v <;> simp [SchemaType.holds]

theorem accepts_boolean_iff {v : Value} :
    accepts [.type [.boolean]] v = true ↔ ∃ b, v = .bool b := by
  rw [accepts_singleton, accepts_type]
  cases v <;> simp [SchemaType.holds]

theorem accepts_version_iff {v : Value} :
    accepts version v = true ↔ (∃ s, v = .str s) ∨ (∃ i, v = .int i) ∨ ∃ x, v = .float x := by
  rw [version, accepts_singleton, accepts_type]
  cases v <;> simp [SchemaType.holds]

theorem accepts_nonEmptyString_iff {v : Value} :
    accepts [.type [.string], .nonEmpty] v = true ↔ ∃ s, v = .str s ∧ s ≠ "" := by
  rw [accepts_cons, accepts_singleton, accepts_type]
  cases v <;> simp [SchemaType.holds, accepts_nonEmpty]

theorem accepts_const_iff {text : String} {v : Value} :
    accepts [.const text] v = true ↔ v = .str text := by
  rw [accepts_singleton, accepts_const]
  cases v <;> simp [Value.str?]

/-- The items of a sequence that are texts are written there as texts: a reference to the
sequence itself would stand for a sequence. -/
theorem detachedItems_eq_map_str_iff (before vs : List Value) (ss : List String) :
    Value.detachedItems .seq before vs = ss.map .str ↔ vs = ss.map .str := by
  induction vs generalizing before ss with
  | nil => rfl
  | cons v vs ih =>
    cases ss with
    | nil => simp [Value.detachedItems]
    | cons s ss =>
      simp only [Value.detachedItems, List.map_cons, List.cons.injEq, ih]
      refine and_congr_left fun _ => ?_
      cases v <;> simp [Value.detach]
      split <;> simp

theorem items_eq_map_str_iff {vs : List Value} {ss : List String} :
    items vs = ss.map .str ↔ vs = ss.map .str :=
  detachedItems_eq_map_str_iff [] vs ss

/-- A list of values that are all texts. -/
theorem exists_map_str_iff {vs : List Value} :
    (∀ v ∈ vs, ∃ s, v = .str s) ↔ ∃ ss : List String, vs = ss.map .str := by
  constructor
  · intro h
    induction vs with
    | nil => exact ⟨[], rfl⟩
    | cons v vs ih =>
      obtain ⟨s, rfl⟩ := h v List.mem_cons_self
      obtain ⟨ss, rfl⟩ := ih fun w hw => h w (List.mem_cons_of_mem _ hw)
      exact ⟨s :: ss, rfl⟩
  · rintro ⟨ss, rfl⟩ v hv
    obtain ⟨s, -, rfl⟩ := List.mem_map.mp hv
    exact ⟨s, rfl⟩

theorem accepts_stringList_iff {v : Value} :
    accepts stringList v = true ↔ ∃ ss : List String, v = .seq (ss.map .str) := by
  rw [stringList, accepts_cons, accepts_singleton, accepts_type]
  cases v with
  | seq vs =>
    simp only [accepts_items, List.any_cons, SchemaType.holds, List.any_nil, Bool.or_false,
      Bool.true_and, List.all_eq_true, accepts_string_iff, Value.seq.injEq]
    rw [exists_map_str_iff]
    simp only [items_eq_map_str_iff]
  | _ => simp [SchemaType.holds]

theorem accepts_stringOrList_iff {v : Value} :
    accepts stringOrList v = true
      ↔ (∃ s, v = .str s) ∨ ∃ ss : List String, v = .seq (ss.map .str) := by
  rw [stringOrList, accepts_singleton, accepts_anyOf]
  simp [accepts_string_iff, accepts_stringList_iff]

/-- A depth is a whole number that is not negative, whichever way it is held. -/
def IsDepth (v : Value) : Prop :=
  ∃ n : Int, 0 ≤ n ∧ (v = .int n ∨ ∃ x, v = .float x ∧ x.toInt? = some n)

/-- The denominator of the exact value of a number is positive. -/
theorem ratio?_den_pos {x : Number.Binary64} {a : Int} {b : Nat} (h : x.ratio? = some (a, b)) :
    0 < b := by
  cases x with
  | nan => cases h
  | infinity s => cases h
  | finite s m e =>
    simp only [Number.Binary64.ratio?, Option.some.injEq, Prod.mk.injEq] at h
    rw [← h.2]
    split
    · exact Nat.one_pos
    · exact Nat.two_pow_pos _

/-- A number that is whole is less than zero exactly when its whole value is. -/
theorem compareInt?_zero_eq_lt_iff {x : Number.Binary64} {n : Int} (h : x.toInt? = some n) :
    x.compareInt? 0 = some .lt ↔ n < 0 := by
  unfold Number.Binary64.toInt? at h
  cases hr : x.ratio? with
  | none => simp [hr] at h
  | some r =>
    obtain ⟨a, b⟩ := r
    have hb : (0 : Int) < b := Int.natCast_pos.mpr (ratio?_den_pos hr)
    simp only [hr, Option.ite_none_right_eq_some, Option.some.injEq] at h
    obtain ⟨hmod, hn⟩ := h
    have ha : a = b * n := by
      rw [← hn]
      exact (Int.mul_ediv_cancel' (Int.dvd_of_emod_eq_zero hmod)).symm
    have hcompare : x.compareInt? 0 = some (Number.compareRatios a b 0 1) := by
      cases x with
      | nan => cases hr
      | infinity s => cases hr
      | finite s m e => simp only [Number.Binary64.compareInt?, hr]
    rw [hcompare, Number.compareRatios, Option.some.injEq, Int.compare_eq_lt, ha]
    constructor
    · intro hlt
      rcases Int.lt_or_le n 0 with hneg | hnonneg
      · exact hneg
      · have hprod := Int.mul_nonneg (Int.le_of_lt hb) hnonneg
        omega
    · intro hneg
      have hprod := Int.mul_neg_of_pos_of_neg hb hneg
      omega

theorem accepts_depth_iff {v : Value} :
    accepts [.type [.integer], .minimum 0] v = true ↔ IsDepth v := by
  rw [accepts_cons, accepts_singleton, accepts_type, accepts_minimum]
  cases v with
  | int i => simp [SchemaType.holds, IsDepth, Value.isLessThan]
  | float x =>
    cases hx : x.toInt? with
    | none => simp [SchemaType.holds, IsDepth, hx]
    | some n =>
      have hlt := compareInt?_zero_eq_lt_iff hx
      simp [SchemaType.holds, IsDepth, Value.isLessThan, hx, hlt]
  | _ => simp [SchemaType.holds, IsDepth]

/-! ### Mappings -/

/-- The keys that a condition does not know are those of the entries that a schema does not
know. -/
theorem unknownKeys_eq_map (known : List String) (es : List (Value × Value)) :
    Condition.unknownKeys known es = (otherEntries known es).map Prod.fst := by
  rw [Condition.unknownKeys, otherEntries, List.filter_map]
  rfl

/-- In a mapping without unknown keys every key is a known text. -/
theorem otherEntries_eq_nil_iff {known : List String} {es : List (Value × Value)} :
    otherEntries known es = [] ↔ ∀ e ∈ es, ∃ name ∈ known, e.1 = .str name := by
  simp [otherEntries, List.filter_eq_nil_iff, Value.sameKey_str_iff]

/-- A mapping whose fields keep their schemas, whatever else it holds. -/
theorem accepts_object_iff {fields : List (String × Schema)} {v : Value} :
    accepts [.type [.object], .properties fields] v = true
      ↔ ∃ es, v = .map es ∧ ∀ f ∈ fields, ∀ w, field? f.1 es = some w → accepts f.2 w = true := by
  rw [accepts_cons, accepts_singleton, accepts_type]
  cases v with
  | map es =>
    simp only [accepts_properties, List.any_cons, SchemaType.holds, List.any_nil, Bool.or_false,
      Bool.true_and, List.all_eq_true, Option.all_eq_true, Value.map.injEq, exists_eq_left']
  | _ => simp [SchemaType.holds]

/-- A mapping with some required fields, whose fields keep their schemas. -/
theorem accepts_requiredObject_iff {names : List String} {fields : List (String × Schema)}
    {v : Value} :
    accepts [.type [.object], .required names, .properties fields] v = true
      ↔ ∃ es, v = .map es ∧ (∀ name ∈ names, ∃ w, field? name es = some w) ∧
        ∀ f ∈ fields, ∀ w, field? f.1 es = some w → accepts f.2 w = true := by
  rw [accepts_cons, accepts_cons, accepts_singleton, accepts_type]
  cases v with
  | map es =>
    simp only [accepts_required, accepts_properties, Value.hasField_eq_isSome, List.any_cons,
      SchemaType.holds, List.any_nil, Bool.or_false, Bool.true_and, Bool.and_eq_true,
      List.all_eq_true, Option.isSome_iff_exists, Option.all_eq_true, Value.map.injEq,
      exists_eq_left']
  | _ => simp [SchemaType.holds]

/-- A mapping whose fields keep their schemas, and which has no other keys. -/
theorem accepts_closedObject_iff {fields : List (String × Schema)} {known : List String}
    {v : Value} :
    accepts [.type [.object], .properties fields, .noOthers known] v = true
      ↔ ∃ es, v = .map es ∧
        (∀ f ∈ fields, ∀ w, field? f.1 es = some w → accepts f.2 w = true) ∧
        otherEntries known es = [] := by
  rw [accepts_cons, accepts_cons, accepts_singleton, accepts_type]
  cases v with
  | map es =>
    simp only [accepts_properties, accepts_noOthers, List.any_cons, SchemaType.holds,
      List.any_nil, Bool.or_false, Bool.true_and, Bool.and_eq_true, List.all_eq_true,
      Option.all_eq_true, List.isEmpty_iff, Value.map.injEq, exists_eq_left']
  | _ => simp [SchemaType.holds]

/-- A mapping all of whose values keep a schema. -/
theorem accepts_allOf_iff {schema : Schema} {v : Value} :
    accepts [.type [.object], .others [] schema] v = true
      ↔ ∃ es, v = .map es ∧ ∀ e ∈ entries es, accepts schema e.2 = true := by
  rw [accepts_cons, accepts_singleton, accepts_type]
  cases v with
  | map es => simp [accepts_others, SchemaType.holds, otherEntries]
  | _ => simp [SchemaType.holds]

/-- A sequence all of whose items keep a schema. -/
theorem accepts_arrayOf_iff {schema : Schema} {v : Value} :
    accepts [.type [.array], .items schema] v = true
      ↔ ∃ vs, v = .seq vs ∧ ∀ w ∈ items vs, accepts schema w = true := by
  rw [accepts_cons, accepts_singleton, accepts_type]
  cases v with
  | seq vs => simp [accepts_items, SchemaType.holds]
  | _ => simp [SchemaType.holds]

/-- The values that stand for variables. -/
inductive IsVariable : Value → Prop
  | null : IsVariable .null
  | bool (b : Bool) : IsVariable (.bool b)
  | int (i : Int) : IsVariable (.int i)
  | float (x : Number.Binary64) : IsVariable (.float x)
  | str (s : String) : IsVariable (.str s)
  | secret {es : List (Value × Value)} {s : String} (only : otherEntries ["from_secret"] es = [])
      (name : field? "from_secret" es = some (.str s)) : IsVariable (.map es)

theorem accepts_variableValue_iff {v : Value} :
    accepts variableValue v = true ↔ IsVariable v := by
  rw [variableValue, accepts_singleton, accepts_anyOf, List.any_cons, List.any_cons, List.any_nil,
    Bool.or_false, accepts_singleton, accepts_type, accepts_cons, accepts_cons, accepts_cons,
    accepts_singleton, accepts_type]
  constructor
  · intro h
    cases v with
    | null => exact .null
    | bool b => exact .bool b
    | int i => exact .int i
    | float x => exact .float x
    | str s => exact .str s
    | map es =>
      simp only [accepts_required, accepts_properties, accepts_noOthers,
        Value.hasField_eq_isSome] at h
      cases hf : field? "from_secret" es with
      | none => simp [SchemaType.holds, hf] at h
      | some w =>
        simp only [SchemaType.holds, hf, List.any_cons, List.any_nil, List.all_cons, List.all_nil,
          Option.all_some, Option.isSome_some, Bool.or_false, Bool.or_self, Bool.false_or,
          Bool.true_and, Bool.and_true, Bool.and_eq_true, List.isEmpty_iff,
          accepts_string_iff] at h
        obtain ⟨⟨s, rfl⟩, honly⟩ := h
        exact .secret honly hf
    | _ => simp [SchemaType.holds] at h
  · intro h
    cases h with
    | secret only name =>
      simp [accepts_required, accepts_properties, accepts_noOthers, Value.hasField_eq_isSome,
        name, only, SchemaType.holds, accepts_string_iff]
    | _ => simp [SchemaType.holds]

/-- The values that stand for conditions. -/
theorem accepts_condition_iff {v : Value} :
    accepts condition v = true
      ↔ v = .null ∨ accepts stringOrList v = true ∨
        ∃ es, v = .map es ∧
          (∀ name ∈ ["include", "exclude"], ∀ w, field? name es = some w →
            accepts stringOrList w = true) ∧
          otherEntries ["include", "exclude"] es = [] := by
  rw [condition, accepts_singleton, accepts_anyOf]
  simp only [List.any_cons, List.any_nil, Bool.or_false, Bool.or_eq_true, accepts_null_iff,
    accepts_closedObject_iff]
  simp

/-- The values that stand for the conditions of a trigger or a step: nothing, or a mapping from
the names of subjects. -/
theorem accepts_conditions_iff {v : Value} :
    accepts conditions v = true
      ↔ v = .null ∨ ∃ es, v = .map es ∧
        (∀ s ∈ Subject.all, ∀ w, field? s.name es = some w → accepts condition w = true) ∧
        otherEntries (Subject.all.map Subject.name) es = [] := by
  rw [conditions, accepts_cons, accepts_cons, accepts_singleton, accepts_type]
  cases v with
  -- The rules about mappings say nothing about null.
  | null => exact iff_of_true rfl (.inl rfl)
  | map es =>
    simp [SchemaType.holds, accepts_properties, accepts_noOthers, Option.all_eq_true]
  | _ => simp [SchemaType.holds]

end PipelineManifest.Schema
