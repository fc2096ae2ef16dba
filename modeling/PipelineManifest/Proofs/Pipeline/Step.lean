import PipelineManifest.Pipeline.Step
import PipelineManifest.Proofs.Condition
import PipelineManifest.Proofs.Settings

/-!
# `PipelineManifest.Proofs.Pipeline.Step`: steps that are read and written

A step that the schema accepts is decoded, and its fields hold values of the right kinds. Its data
alone is never a reason for a fault; the environment is read from the source, and its keys and its
variables become texts, which they do unless one of them is a number that is too long. Such a step
is written without the fields that are not given, and is read back as the same step: what is left
out of a written step is what the decoder puts in place of a missing field.

* `Step.WellTyped`: the kinds of values that the fields of a step hold.
* `Step.completed`, `Step.exists_draft_of_accepts`: an accepted step, but for its environment.
* `Step.decode_of_accepts`: an accepted step is decoded.
* `Step.decode_written`: a written step is read back.
* `Step.accepts_written`: a written step is accepted.
-/

set_option autoImplicit false

namespace PipelineManifest

open Value (areWritable field? orEmpty whenWritable)

namespace Value

@[simp] theorem orData_map (es : List (Value × Value)) (data : Value) :
    (map es).orData data = map es := rfl

@[simp] theorem elementsOrNone_none : elementsOrNone none = .ok [] := rfl

@[simp] theorem elementsOrNone_seq (vs : List Value) :
    elementsOrNone (some (seq vs)) = .ok (items vs) := by
  cases vs <;> rfl

theorem items_map_str (ss : List String) : items (ss.map .str) = ss.map .str :=
  Schema.items_eq_map_str_iff.mpr rfl

theorem elementsOrNone_of_accepts {v : Option Value}
    (h : ∀ w, v = some w → Schema.stringList.accepts w = true) :
    ∃ ss : List String, elementsOrNone v = .ok (ss.map .str) := by
  cases v with
  | none => exact ⟨[], rfl⟩
  | some w =>
    obtain ⟨ss, rfl⟩ := Schema.accepts_stringList_iff.mp (h w rfl)
    exact ⟨ss, by rw [elementsOrNone_seq, items_map_str]⟩

/-- A list of texts that is left out where it is empty is read back. -/
theorem elementsOrNone_given (ss : List String) :
    elementsOrNone (if (seq (ss.map .str)).isTruthy then some (seq (ss.map .str)) else none)
      = .ok (ss.map .str) := by
  cases ss with
  | nil => rfl
  | cons s ss =>
    have htruthy : (seq ((s :: ss).map .str)).isTruthy = true := rfl
    rw [if_pos htruthy, elementsOrNone_seq, items_map_str]

end Value

/-! ### Failure policies -/

namespace Failure

theorem decode_of_accepts {v : Option Value}
    (h : ∀ w, v = some w →
      Schema.accepts [.oneOf ["", "fail", "ignore", "never"]] w = true) :
    ∃ f, decode v = .ok f := by
  cases v with
  | none => exact ⟨fail, rfl⟩
  | some w =>
    have hw := h w rfl
    rw [Schema.accepts_singleton, Schema.accepts_oneOf] at hw
    cases w with
    | str s =>
      simp only [Value.str?, List.any_cons, List.any_nil, Bool.or_false, Bool.or_eq_true,
        decide_eq_true_eq, Option.some.injEq] at hw
      rcases hw with rfl | rfl | rfl | rfl
      · exact ⟨fail, rfl⟩
      · exact ⟨fail, rfl⟩
      · exact ⟨ignore, rfl⟩
      · exact ⟨never, rfl⟩
    | _ => simp [Value.str?] at hw

/-- A policy as it is written: `fail` is not. -/
def toValue (f : Failure) : Value := .str (if f = fail then "" else f.name)

theorem decode_given (f : Failure) :
    decode (if f.toValue.isTruthy then some f.toValue else none) = .ok f := by
  cases f <;> rfl

theorem accepts_toValue (f : Failure) :
    Schema.accepts [.oneOf ["", "fail", "ignore", "never"]] f.toValue = true := by
  rw [Schema.accepts_singleton, Schema.accepts_oneOf]
  cases f <;> rfl

end Failure

namespace Conditions

theorem decodeField_of_accepts {v : Option Value}
    (hwf : ∀ w, v = some w → w.isWellFormed = true)
    (h : ∀ w, v = some w → Schema.conditions.accepts w = true) (place : String) :
    ∃ cs, decode (v.getD .null) place = .ok cs := by
  cases v with
  | none => exact ⟨none, rfl⟩
  | some w =>
    exact decode_of_accepts (Value.hasDistinctKeys_of_isWellFormed (hwf w rfl)) (h w rfl) place

/-- Conditions that are left out where they list no pattern are read back. -/
theorem decode_given (cs : Conditions) (place : String) :
    decode ((if cs.toValue.isTruthy then some cs.toValue else Option.none).getD .null) place
      = .ok cs := by
  cases h : cs.toValue.isTruthy with
  | true => exact cs.decode_toValue place
  | false =>
    have hempty : cs.toValue = .map [] := by
      rw [toValue_eq, Value.isTruthy, Bool.not_eq_false'] at h
      rw [toValue_eq, List.isEmpty_iff.mp h]
    have hnone : decode (.map []) place = .ok none := rfl
    rw [← hempty, decode_toValue] at hnone
    exact hnone.symm

end Conditions

namespace Step

/-- The fields of a step with their schemas. -/
def schemas : List (String × Schema) := [
  ("name", Schema.string),
  ("shell", Schema.string),
  ("detach", [.type [.boolean]]),
  ("depends_on", Schema.stringList),
  ("commands", Schema.stringList),
  ("environment", [.type [.object], .others [] Schema.variableValue]),
  ("failure", [.oneOf ["", "fail", "ignore", "never"]]),
  ("when", Schema.conditions)]

theorem schema_eq : Schema.step = [.type [.object], .properties schemas] := rfl

/-- A step whose fields hold values of the right kinds. Its variables, its policy and its
conditions do by their types. The keys of its environment can be named in messages. -/
structure WellTyped (s : Step) : Prop where
  name : s.name.IsText
  shell : ∃ text, s.shell = .str text ∧ text ≠ ""
  detach : s.detach.IsSwitch
  dependsOn : s.dependsOn.IsTexts
  commands : s.commands.IsTexts
  environment : ∀ e ∈ s.environment, e.1.isScalar = true
  keys : ∀ e ∈ s.environment, e.1.isWritable = true

/-! ### Accepted steps -/

/-- What becomes a text of an entry of an environment: its key, which messages name, and what its
variable is read from. -/
def spelledEntry (e : Value × Value) : List Value := e.1 :: Variable.spelled e.2

/-- The scalars of an environment that become texts. -/
def spelledEnvironment (section? : Option Value) : List Value :=
  match orEmpty section? with
  | .map es => (Value.entries es).flatMap spelledEntry
  | _ => []

/-- The scalars of a step that become texts. -/
def spelled : Value → List Value
  | .map es => spelledEnvironment (field? "environment" es)
  | _ => []

theorem decodeEntry_of_accepts (index : Nat) {e : Value × Value}
    (h : Schema.variableValue.accepts e.2 = true) :
    ∃ var, decodeEntry index e = whenWritable (spelledEntry e) var ∧ var.1 = e.1 := by
  obtain ⟨x, hx⟩ := Variable.decode_of_accepts h (place index ++ ".environment." ++ e.1.text)
  refine ⟨(e.1, x), ?_, rfl⟩
  rw [decodeEntry, Value.toText_eq, spelledEntry, ← List.singleton_append]
  refine Value.whenWritable_bind ?_
  rw [hx]
  exact Value.whenWritable_map (Prod.mk e.1)

theorem decodeEnvironment_of_accepts (index : Nat) {section? : Option Value}
    (hwf : ∀ v, section? = some v → v.isWellFormed = true)
    (h : ∀ v, section? = some v →
      Schema.accepts [.type [.object], .others [] Schema.variableValue] v = true) :
    ∃ es vars, orEmpty section? = .map es ∧
      decodeEnvironment index (Value.entries es) = whenWritable (spelledEnvironment section?) vars ∧
      (∀ e ∈ vars, e.1.isScalar = true) ∧ ∀ e ∈ vars, e.1 ∈ spelledEnvironment section? := by
  cases section? with
  | none => exact ⟨[], [], rfl, rfl, by simp, by simp⟩
  | some v =>
    obtain ⟨es, rfl, hvalues⟩ := Schema.accepts_allOf_iff.mp (h v rfl)
    have hspelled : spelledEnvironment (some (.map es))
        = (Value.entries es).flatMap spelledEntry := by
      rw [spelledEnvironment, Value.orEmpty_map]
    obtain ⟨vars, hvars, hkeys⟩ := Value.exists_mapM_whenWritable
      fun e he => decodeEntry_of_accepts index (hvalues e he)
    rw [hspelled]
    refine ⟨es, vars, Value.orEmpty_map es, hvars, fun e he => ?_, fun e he => ?_⟩
    · obtain ⟨f, hf, hkey⟩ := hkeys e he
      rw [hkey]
      exact (Value.isWellFormed_of_mem_entries (hwf _ rfl) hf).1
    · obtain ⟨f, hf, hkey⟩ := hkeys e he
      exact List.mem_flatMap.mpr ⟨f, hf, hkey ▸ List.mem_cons_self⟩

/-- A step with the environment that is read from the entries of its source. -/
def completed (s : Step) (index : Nat) (fs : List (Value × Value)) : Outcome Step := do
  let entries ← (orEmpty (field? "environment" fs)).fields
  let environment ← decodeEnvironment index entries
  return { s with environment }

/-- A step whose data is accepted is decoded but for its environment, whatever its source is. -/
theorem exists_draft_of_accepts {data : Value} (hwf : data.isWellFormed = true)
    (h : Schema.step.accepts data = true) {shell : String} (hshell : shell ≠ "") (index : Nat) :
    ∃ s : Step, s.WellTyped ∧ ∀ source fs, source.orData data = .map fs →
      decode data shell index source = s.completed index fs := by
  rw [schema_eq] at h
  obtain ⟨es, rfl, hfields⟩ := Schema.accepts_object_iff.mp h
  have hfield : ∀ name schema, (name, schema) ∈ schemas → ∀ w, field? name es = some w →
      Schema.accepts schema w = true := fun _ _ hf w hw => hfields _ hf w hw
  have hname : ((field? "name" es).getD (.str "")).IsText :=
    Value.getD_field? ⟨"", rfl⟩ fun w hw =>
      Schema.accepts_string_iff.mp (hfield "name" Schema.string (by simp [schemas]) w hw)
  have hown : ∃ text,
      ((field? "shell" es).filter Value.isTruthy).getD (.str shell) = .str text ∧ text ≠ "" := by
    cases hf : field? "shell" es with
    | none => exact ⟨shell, rfl, hshell⟩
    | some w =>
      obtain ⟨text, rfl⟩ :=
        Schema.accepts_string_iff.mp (hfield "shell" Schema.string (by simp [schemas]) w hf)
      by_cases htext : text = ""
      · subst htext
        exact ⟨shell, rfl, hshell⟩
      · exact ⟨text, by simp [Option.filter, Value.isTruthy, htext], htext⟩
  have hdetach : ((field? "detach" es).getD (.bool false)).IsSwitch :=
    Value.getD_field? ⟨false, rfl⟩ fun w hw =>
      Schema.accepts_boolean_iff.mp (hfield "detach" [.type [.boolean]] (by simp [schemas]) w hw)
  obtain ⟨dependsOn, hdependsOn⟩ := Value.elementsOrNone_of_accepts fun w hw =>
    hfield "depends_on" Schema.stringList (by simp [schemas]) w hw
  obtain ⟨commands, hcommands⟩ := Value.elementsOrNone_of_accepts fun w hw =>
    hfield "commands" Schema.stringList (by simp [schemas]) w hw
  obtain ⟨failure, hfailure⟩ := Failure.decode_of_accepts fun w hw =>
    hfield "failure" _ (by simp [schemas]) w hw
  obtain ⟨conditions, hconditions⟩ := Conditions.decodeField_of_accepts
    (fun w hw => Value.isWellFormed_of_field? hwf hw)
    (hfield "when" Schema.conditions (by simp [schemas])) (place index ++ ".when")
  refine ⟨{
    name := (field? "name" es).getD (.str "")
    shell := ((field? "shell" es).filter Value.isTruthy).getD (.str shell)
    detach := (field? "detach" es).getD (.bool false)
    dependsOn := .seq (dependsOn.map .str), commands := .seq (commands.map .str)
    failure, when := conditions },
    ⟨hname, hown, hdetach, ⟨dependsOn, rfl⟩, ⟨commands, rfl⟩, by simp, by simp⟩,
    fun source fs hfs => ?_⟩
  simp only [decode, completed, hfs, Value.getD, Value.get_map, Outcome.ok_bind, hdependsOn,
    hcommands, hfailure, hconditions, Outcome.pure_eq_ok]

/-- An accepted step is decoded with itself as its source, if its environment can be written. -/
theorem decode_of_accepts {data : Value} (hwf : data.isWellFormed = true)
    (h : Schema.step.accepts data = true) {shell : String} (hshell : shell ≠ "") (index : Nat) :
    ∃ s, decode data shell index data = whenWritable (spelled data) s ∧
      (areWritable (spelled data) = true → s.WellTyped) := by
  obtain ⟨s, hs, hdecode⟩ := exists_draft_of_accepts hwf h hshell index
  rw [schema_eq] at h
  obtain ⟨es, rfl, hfields⟩ := Schema.accepts_object_iff.mp h
  have hwf' : ∀ w, field? "environment" es = some w → w.isWellFormed = true := fun w hw =>
    Value.isWellFormed_of_field? hwf hw
  obtain ⟨fs, environment, hfs, henvironment, hscalar, hmem⟩ :=
    decodeEnvironment_of_accepts index hwf' (hfields ("environment", _) (by simp [schemas]))
  refine ⟨{ s with environment }, ?_, fun hwritable => ?_⟩
  · rw [hdecode _ es (Value.orData_map es _), completed, hfs, Value.fields_map, Outcome.ok_bind,
      henvironment]
    exact Value.whenWritable_map fun environment => { s with environment }
  · exact { hs with
      environment := hscalar
      keys := fun e he => Value.areWritable_iff.mp hwritable e.1 (hmem e he) }

/-! ### Written steps -/

/-- The fields of a step that are written if they are given. -/
def fields (s : Step) : List (String × Value) := [
  ("shell", s.shell), ("detach", s.detach), ("depends_on", s.dependsOn),
  ("commands", s.commands), ("environment", environmentValue s.environment),
  ("failure", s.failure.toValue), ("when", s.when.toValue)]

/-- The entries of a written step. -/
def entries (s : Step) : List (Value × Value) :=
  (.str "name", s.name) :: givenEntries s.fields

variable {s : Step}

theorem listEntries_of_isTexts {v : Value} (h : v.IsTexts) (name : String) :
    listEntries name v = .ok (if v.isTruthy then [(.str name, v)] else []) := by
  obtain ⟨ss, rfl⟩ := h
  rw [listEntries]
  split
  · simp [Value.elements, Value.items_map_str]
  · rfl

/-- A step of the right kinds is written as its entries. -/
theorem toValue_eq (h : s.WellTyped) : s.toValue = .ok (.map s.entries) := by
  have hdetach : (if s.detach.isTruthy then [(Value.str "detach", Value.bool true)] else [])
      = if s.detach.isTruthy then [(Value.str "detach", s.detach)] else [] := by
    obtain ⟨b, hb⟩ := h.detach
    rw [hb]
    cases b <;> rfl
  have henvironment : (if s.environment.isEmpty then []
        else [(Value.str "environment", environmentValue s.environment)])
      = if (environmentValue s.environment).isTruthy
        then [(Value.str "environment", environmentValue s.environment)] else [] := by
    cases s.environment <;> rfl
  have hfailure : (if s.failure = .fail then [] else [(Value.str "failure", .str s.failure.name)])
      = if s.failure.toValue.isTruthy then [(Value.str "failure", s.failure.toValue)] else [] := by
    cases s.failure <;> rfl
  have hwhen : (if s.when.toList.isEmpty then [] else [(Value.str "when", s.when.toValue)])
      = if s.when.toValue.isTruthy then [(Value.str "when", s.when.toValue)] else [] := by
    rw [Conditions.toValue]
    cases s.when.toList <;> rfl
  simp only [toValue, listEntries_of_isTexts h.dependsOn, listEntries_of_isTexts h.commands,
    Outcome.ok_bind, Outcome.pure_eq_ok, hdetach, henvironment, hfailure, hwhen, entries, fields,
    givenEntries_cons, givenEntries_nil, List.cons_append, List.nil_append, List.append_assoc,
    List.append_nil]

theorem isTree_environmentValue {environment : List (Value × Variable)}
    (h : ∀ e ∈ environment, e.1.isScalar = true) :
    (environmentValue environment).isTree = true := by
  rw [environmentValue, Value.isTree]
  induction environment with
  | nil => rfl
  | cons e environment ih =>
    simp only [List.map_cons, Value.areTreeEntries, Variable.isTree_toValue, Bool.and_true,
      Value.isTree_of_isScalar (h e List.mem_cons_self), Bool.true_and]
    exact ih fun f hf => h f (List.mem_cons_of_mem _ hf)

theorem accepts_environmentValue {environment : List (Value × Variable)}
    (h : ∀ e ∈ environment, e.1.isScalar = true) :
    Schema.accepts [.type [.object], .others [] Schema.variableValue]
      (environmentValue environment) = true := by
  refine Schema.accepts_allOf_iff.mpr ⟨_, rfl, fun e he => ?_⟩
  have htree := isTree_environmentValue h
  rw [environmentValue, Value.isTree] at htree
  rw [Value.entries_of_areTreeEntries _ htree] at he
  obtain ⟨f, -, rfl⟩ := List.mem_map.mp he
  exact f.2.accepts_toValue

theorem WellTyped.isTree (h : s.WellTyped) : ∀ x ∈ s.fields, x.2.isTree = true := by
  simp only [fields, List.mem_cons, List.not_mem_nil, or_false]
  rintro x (rfl | rfl | rfl | rfl | rfl | rfl | rfl)
  · obtain ⟨text, htext, -⟩ := h.shell
    rw [htext]
    rfl
  · obtain ⟨b, hb⟩ := h.detach
    rw [hb]
    rfl
  · exact h.dependsOn.isTree
  · exact h.commands.isTree
  · exact isTree_environmentValue h.environment
  · rfl
  · exact s.when.isTree_toValue

theorem isTree_entries (h : s.WellTyped) : (Value.map s.entries).isTree = true := by
  have hgiven := Value.isTree_given h.isTree
  rw [Value.isTree] at hgiven
  simp only [entries, Value.isTree, Value.areTreeEntries, h.name.isTree, hgiven, Bool.and_self]

theorem field?_name (h : s.WellTyped) : field? "name" s.entries = some s.name := by
  rw [Value.field?_of_isTree (isTree_entries h), entries, Value.lookup?_str_cons, if_pos rfl]

/-- What is found of the other fields in a written step. -/
theorem field?_entries (h : s.WellTyped) {name : String} {v : Value} (hv : (name, v) ∈ s.fields) :
    field? name s.entries = if v.isTruthy then some v else none := by
  have hname : "name" ≠ name := by
    rintro rfl
    simp [fields] at hv
  rw [Value.field?_of_isTree (isTree_entries h), entries, Value.lookup?_str_cons, if_neg hname,
    ← Value.field?_of_isTree (Value.isTree_given h.isTree),
    Value.field?_given (by simp [fields]) h.isTree hv]

theorem decodeEnvironment_map (index : Nat) {environment : List (Value × Variable)}
    (h : ∀ e ∈ environment, e.1.isWritable = true) :
    decodeEnvironment index (environment.map fun (key, x) => (key, x.toValue))
      = .ok environment := by
  induction environment with
  | nil => rfl
  | cons e environment ih =>
    obtain ⟨key, x⟩ := e
    obtain ⟨hkey, hrest⟩ := List.forall_mem_cons.mp h
    unfold decodeEnvironment at ih ⊢
    rw [List.map_cons, List.mapM_cons, ih hrest]
    simp only [decodeEntry, Value.toText_of_isWritable hkey, Variable.decode_toValue,
      Outcome.ok_bind, Outcome.pure_eq_ok]

/-- What a step is written as is read back as the same step. -/
theorem decode_written (h : s.WellTyped) (shell : String) (index : Nat) :
    decode (.map s.entries) shell index (.map s.entries) = .ok s := by
  have hfield : ∀ name v, (name, v) ∈ s.fields →
      field? name s.entries = if v.isTruthy then some v else none :=
    fun name v hv => field?_entries h hv
  have henvironment : orEmpty (field? "environment" s.entries)
      = environmentValue s.environment := by
    rw [hfield "environment" (environmentValue s.environment) (by simp [fields])]
    exact Value.orEmpty_given _
  have hentries : (environmentValue s.environment).fields
      = .ok (s.environment.map fun (key, x) => (key, x.toValue)) := by
    have htree := isTree_environmentValue h.environment
    rw [environmentValue, Value.isTree] at htree
    rw [environmentValue, Value.fields_map, Value.entries_of_areTreeEntries _ htree]
  have hshell : ((field? "shell" s.entries).filter Value.isTruthy).getD (.str shell) = s.shell := by
    obtain ⟨text, htext, hne⟩ := h.shell
    rw [hfield "shell" s.shell (by simp [fields]), htext]
    simp [Option.filter, Value.isTruthy, hne]
  have hdetach : (field? "detach" s.entries).getD (.bool false) = s.detach := by
    rw [hfield "detach" s.detach (by simp [fields])]
    exact Value.getD_given fun hf => h.detach.eq_bool_isTruthy.trans (hf ▸ rfl)
  obtain ⟨dependsOn, hdependsOn⟩ := h.dependsOn
  obtain ⟨commands, hcommands⟩ := h.commands
  have hdependsOn' : Value.elementsOrNone (field? "depends_on" s.entries)
      = .ok (dependsOn.map .str) := by
    rw [hfield "depends_on" s.dependsOn (by simp [fields]), hdependsOn]
    exact Value.elementsOrNone_given dependsOn
  have hcommands' : Value.elementsOrNone (field? "commands" s.entries)
      = .ok (commands.map .str) := by
    rw [hfield "commands" s.commands (by simp [fields]), hcommands]
    exact Value.elementsOrNone_given commands
  simp only [decode, Value.orData_map, Value.getD, Value.get_map, Outcome.ok_bind, henvironment,
    hentries, decodeEnvironment_map index h.keys, field?_name h, Option.getD_some, hshell, hdetach,
    hdependsOn', hcommands', hfield "failure" s.failure.toValue (by simp [fields]),
    Failure.decode_given, hfield "when" s.when.toValue (by simp [fields]), Conditions.decode_given,
    Outcome.pure_eq_ok]
  obtain ⟨name, shell, detach, _, _, environment, failure, conditions⟩ := s
  cases hdependsOn
  cases hcommands
  rfl

/-- The values of a written step keep the schemas of their fields. -/
theorem accepts_written (h : s.WellTyped) : Schema.step.accepts (.map s.entries) = true := by
  rw [schema_eq]
  refine Schema.accepts_object_iff.mpr ⟨s.entries, rfl, ?_⟩
  have hgiven : ∀ name v, (name, v) ∈ s.fields → ∀ schema : Schema, schema.accepts v = true →
      ∀ w, field? name s.entries = some w → schema.accepts w = true := by
    intro name v hv schema hschema w hw
    rw [field?_entries h hv, Option.ite_none_right_eq_some, Option.some.injEq] at hw
    rw [← hw.2]
    exact hschema
  have hshell : Schema.string.accepts s.shell = true := by
    obtain ⟨text, htext, -⟩ := h.shell
    exact Schema.accepts_string_iff.mpr ⟨text, htext⟩
  intro f hf
  simp only [schemas, List.mem_cons, List.not_mem_nil, or_false] at hf
  rcases hf with rfl | rfl | rfl | rfl | rfl | rfl | rfl | rfl
  · intro w hw
    rw [field?_name h, Option.some.injEq] at hw
    rw [← hw]
    exact Schema.accepts_string_iff.mpr h.name
  · exact hgiven "shell" s.shell (by simp [fields]) _ hshell
  · exact hgiven "detach" s.detach (by simp [fields]) _ (Schema.accepts_boolean_iff.mpr h.detach)
  · exact hgiven "depends_on" s.dependsOn (by simp [fields]) _
      (Schema.accepts_stringList_iff.mpr h.dependsOn)
  · exact hgiven "commands" s.commands (by simp [fields]) _
      (Schema.accepts_stringList_iff.mpr h.commands)
  · exact hgiven "environment" (environmentValue s.environment) (by simp [fields]) _
      (accepts_environmentValue h.environment)
  · exact hgiven "failure" s.failure.toValue (by simp [fields]) _ s.failure.accepts_toValue
  · exact hgiven "when" s.when.toValue (by simp [fields]) _ s.when.accepts_toValue

/-- A step of the right kinds is equal to itself. -/
theorem equal_self (h : s.WellTyped) : s.equal s = true := by
  have hshell : s.shell.equal s.shell = true := by
    obtain ⟨text, htext, -⟩ := h.shell
    rw [htext]
    exact Value.equal_str_self text
  have henvironment : equalEnvironments s.environment s.environment = true := by
    rw [equalEnvironments, Bool.and_eq_true, List.all_eq_true]
    refine ⟨by simp, fun e he => List.any_eq_true.mpr ⟨e, he, ?_⟩⟩
    simp [Value.sameKey_self (h.environment e he)]
  rw [equal, h.name.equal_self, hshell, h.detach.equal_self, h.dependsOn.equal_self,
    h.commands.equal_self, henvironment]
  simp

end Step

end PipelineManifest
