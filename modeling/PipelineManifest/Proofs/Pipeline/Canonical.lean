import PipelineManifest.Proofs.Pipeline.Fields
import PipelineManifest.Proofs.Pipeline.Form
import PipelineManifest.Proofs.Pipeline.WriteBack

/-!
# `PipelineManifest.Proofs.Pipeline.Canonical`: what a document is read and written as

A pipeline that is read from a document and written again is the canonical form of the document.
Field by field, what the decoder reads and the writer then leaves out or keeps is the form of that
field; the tables of fields are the same, so the fields come in the same order.

* `Form.givenEntries_eq_fields`: what is written field by field is the table of the fields.
* `Variable.given_decodeField`, `Condition.given_of_decode`, `Conditions.given_of_decode`,
  `Failure.given_of_decode`: the parts that are more than a value.
* `Server.given_entries` and its likes: the sections.
* `Step.map_entries_eq_step`, `Pipeline.map_entries_eq_canonical`: steps and pipelines.
* `toValue_decode_eq_canonical`: reading and writing a document.
-/

set_option autoImplicit false

namespace PipelineManifest

open Value (field? orEmpty)

variable {es : List (Value × Value)}

namespace Form

/-! ### Tables -/

@[simp] theorem fields_nil : fields [] es = [] := rfl

theorem fields_cons (name : String) (form : Form) (table : List (String × Form)) :
    fields ((name, form) :: table) es
      = (((field? name es).bind form).map fun v => (Value.str name, v)).toList
        ++ fields table es := by
  rw [fields, List.filterMap_cons, fields]
  cases (field? name es).bind form <;> rfl

/-- A mapping without entries has no fields. -/
theorem fields_empty (table : List (String × Form)) : fields table [] = [] := by
  induction table with
  | nil => rfl
  | cons f table ih => rw [fields_cons, ih]; rfl

/-- A value that was written for a field of a table. -/
def Writes (es : List (Value × Value)) (x : String × Value) (f : String × Form) : Prop :=
  x.1 = f.1 ∧ given x.2 = (field? f.1 es).bind f.2

/-- Values that are written if they are given are the fields of a table, if each of them is. -/
theorem givenEntries_eq_fields {xs : List (String × Value)} {table : List (String × Form)}
    (h : List.Forall₂ (Writes es) xs table) : givenEntries xs = fields table es := by
  induction h with
  | nil => rfl
  | @cons x f xs table hx _ ih =>
    obtain ⟨name, v⟩ := x
    obtain ⟨rfl, hv⟩ : name = f.1 ∧ given v = _ := hx
    rw [givenEntries_cons, fields_cons, ih, ← hv, given]
    cases v.isTruthy <;> rfl

/-- A field that falls back on a value without content. -/
theorem given_getD {fallback : Value} (h : fallback.isTruthy = false) (o : Option Value) :
    given (o.getD fallback) = o.bind given := by
  cases o with
  | none => simp [given, h]
  | some v => rfl

/-- A section that is left out, or a mapping of which `es` are the entries. -/
inductive IsSection : Option Value → List (Value × Value) → Prop
  | none : IsSection none []
  | some (es : List (Value × Value)) : IsSection (some (.map es)) es

/-- An accepted section, with its fields. -/
theorem isSection_of_accepts {schemas : List (String × Schema)} {section? : Option Value}
    (h : ∀ v, section? = some v →
      Schema.accepts [.type [.object], .properties schemas] v = true) :
    ∃ es, IsSection section? es ∧ orEmpty section? = .map es ∧
      ∀ f ∈ schemas, ∀ w, field? f.1 es = some w → Schema.accepts f.2 w = true := by
  cases section? with
  | none => exact ⟨[], .none, rfl, fun f _ w hw => by cases hw⟩
  | some v =>
    obtain ⟨es, rfl, hes⟩ := Schema.accepts_object_iff.mp (h v rfl)
    exact ⟨es, .some es, Value.orEmpty_map es, hes⟩

/-- An accepted mapping of any entries. -/
theorem isSection_of_acceptsAll {schema : Schema} {section? : Option Value}
    (h : ∀ v, section? = some v →
      Schema.accepts [.type [.object], .others [] schema] v = true) :
    ∃ es, IsSection section? es ∧ orEmpty section? = .map es := by
  cases section? with
  | none => exact ⟨[], .none, rfl⟩
  | some v =>
    obtain ⟨es, rfl, -⟩ := Schema.accepts_allOf_iff.mp (h v rfl)
    exact ⟨es, .some es, Value.orEmpty_map es⟩

theorem given_section {section? : Option Value} (h : IsSection section? es)
    (table : List (String × Form)) :
    given (.map (fields table es)) = section?.bind (sectionOf table) := by
  cases h with
  | none => rw [fields_empty]; rfl
  | some es => rfl

/-- A section whose entries are written field by field. -/
theorem given_section_of_writes {section? : Option Value} {xs : List (String × Value)}
    {table : List (String × Form)} (hes : IsSection section? es)
    (h : List.Forall₂ (Writes es) xs table) :
    given (.map (givenEntries xs)) = section?.bind (sectionOf table) := by
  rw [givenEntries_eq_fields h, given_section hes]

/-- A mapping whose values take a form. -/
theorem given_eachValue {section? : Option Value} (h : IsSection section? es)
    (form : Value → Value) :
    given (.map ((Value.entries es).map fun e => (e.1, form e.2)))
      = section?.bind (eachValue form) := by
  cases h with
  | none => rfl
  | some es => rfl

/-- A list that is read item by item. -/
theorem given_items {o : Option Value} {vs : List Value}
    (h : ∀ w, o = some w → Schema.stringList.accepts w = true)
    (hvs : Value.elementsOrNone o = .ok vs) : given (.seq vs) = o.bind given := by
  cases o with
  | none =>
    cases hvs
    rfl
  | some w =>
    obtain ⟨ss, rfl⟩ := Schema.accepts_stringList_iff.mp (h w rfl)
    rw [Value.elementsOrNone_seq, Value.items_map_str] at hvs
    cases hvs
    rfl

end Form

/-! ### Variables -/

namespace Variable

open Form (variableValue serverVariable)

/-- What a variable is written as is the form of what it was read from. -/
theorem toValue_of_decode {v : Value} {place : String} {x : Variable}
    (h : decode v place = .ok x) : x.toValue = variableValue v := by
  cases v with
  | null | bool b | float y | str s =>
    cases h
    rfl
  | int i =>
    rw [decode_int, Value.whenWritable_eq_ok_iff] at h
    rw [← h.2]
    rfl
  | map es =>
    simp only [decode, decodeSecret] at h
    split at h
    · cases h
    · rename_i name hname
      cases h
      have hfield : field? "from_secret" es = some (.str name) := hname
      simp only [variableValue, hfield]
      rfl
    · cases h
  | _ => cases h

theorem isPresent_iff (x : Variable) :
    x.isPresent = true ↔ x.toValue ∉ [.null, .str "", Form.secret ""] := by
  cases x <;> simp [isPresent, toValue, Form.secret, secretField]

/-- A variable of the server that is written if it is present. -/
theorem given_decodeField {o : Option Value} {place : String} {x : Variable}
    (h : decodeField o place = .ok x) :
    (if x.isPresent then some x.toValue else none) = o.bind serverVariable := by
  have hvalue := toValue_of_decode h
  cases o with
  | none =>
    cases h
    rfl
  | some v =>
    rw [Option.getD_some] at hvalue
    rw [Option.bind_some, serverVariable, ← hvalue]
    by_cases hx : x.isPresent = true
    · rw [if_pos hx, if_neg ((isPresent_iff x).mp hx)]
    · rw [if_neg hx, if_pos (not_not.mp ((isPresent_iff x).not.mp hx))]

end Variable

/-! ### Sections -/

theorem Server.given_entries {section? : Option Value} {s : Server}
    (haccepts : ∀ v, section? = some v → Schema.server.accepts v = true)
    (h : decode section? = .ok s) :
    Form.given (.map s.entries) = section?.bind (Form.sectionOf [
      ("host", Form.serverVariable), ("user", Form.serverVariable),
      ("password", Form.serverVariable), ("ssh_key", Form.serverVariable)]) := by
  obtain ⟨es, hes, hmap, -⟩ := Form.isSection_of_accepts fun v hv => accepts_schemas (haccepts v hv)
  rw [decode, hmap] at h
  simp only [Value.get_map, Outcome.ok_bind] at h
  obtain ⟨host, hhost, h⟩ := Outcome.bind_eq_ok_iff.mp h
  obtain ⟨user, huser, h⟩ := Outcome.bind_eq_ok_iff.mp h
  obtain ⟨password, hpassword, h⟩ := Outcome.bind_eq_ok_iff.mp h
  obtain ⟨sshKey, hsshKey, h⟩ := Outcome.bind_eq_ok_iff.mp h
  cases h
  rw [← Form.given_section hes]
  refine congrArg (fun es => Form.given (.map es)) ?_
  simp only [Form.fields_cons, Form.fields_nil, ← Variable.given_decodeField hhost,
    ← Variable.given_decodeField huser, ← Variable.given_decodeField hpassword,
    ← Variable.given_decodeField hsshKey, entries, fields, List.filter_cons]
  cases host.isPresent <;> cases user.isPresent <;> cases password.isPresent <;>
    cases sshKey.isPresent <;> rfl

theorem Workspace.given_entries {section? : Option Value} {w : Workspace}
    (haccepts : ∀ v, section? = some v →
      Schema.accepts [.type [.object], .properties schemas] v = true)
    (h : decode section? = .ok w) :
    Form.given (.map w.entries) = section?.bind (Form.sectionOf [("path", Form.given)]) := by
  obtain ⟨es, hes, hmap, -⟩ := Form.isSection_of_accepts haccepts
  rw [decode, hmap] at h
  cases h
  exact Form.given_section_of_writes hes (.cons ⟨rfl, Form.given_getD rfl _⟩ .nil)

theorem Platform.given_entries {section? : Option Value} {p : Platform}
    (haccepts : ∀ v, section? = some v →
      Schema.accepts [.type [.object], .properties schemas] v = true)
    (h : decode section? = .ok p) :
    Form.given (.map p.entries) = section?.bind (Form.sectionOf [
      ("os", Form.given), ("arch", Form.given), ("variant", Form.given),
        ("version", Form.text)]) := by
  obtain ⟨es, hes, hmap, -⟩ := Form.isSection_of_accepts haccepts
  rw [decode, hmap] at h
  simp only [Value.getD, Value.get_map, Outcome.ok_bind, Outcome.pure_eq_ok] at h
  obtain ⟨text, htext, h⟩ := Outcome.bind_eq_ok_iff.mp h
  cases h
  have hversion : Form.given (.str text) = (field? "version" es).bind Form.text := by
    rw [Value.toScalarText_eq, Value.whenWritable_eq_ok_iff] at htext
    rw [← htext.2]
    cases field? "version" es <;> rfl
  exact Form.given_section_of_writes hes (.cons ⟨rfl, Form.given_getD rfl _⟩
    (.cons ⟨rfl, Form.given_getD rfl _⟩ (.cons ⟨rfl, Form.given_getD rfl _⟩
      (.cons ⟨rfl, hversion⟩ .nil))))

theorem Clone.given_entries {section? : Option Value} {c : Clone}
    (haccepts : ∀ v, section? = some v →
      Schema.accepts [.type [.object], .properties schemas] v = true)
    (h : decode section? = .ok c) :
    Form.given (.map c.entries) = section?.bind (Form.sectionOf [
      ("depth", Form.given), ("disable", Form.given), ("skip_verify", Form.given)]) := by
  obtain ⟨es, hes, hmap, hfields⟩ := Form.isSection_of_accepts haccepts
  rw [decode, hmap] at h
  cases h
  have hswitch (name : String) (hname : (name, ([.type [.boolean]] : Schema)) ∈ schemas) :
      Form.given (.bool ((field? name es).getD (.bool false)).isTruthy)
        = (field? name es).bind Form.given := by
    have hfallback : (Value.bool false).isTruthy = false := rfl
    rw [← Form.given_getD hfallback]
    have hbool : ((field? name es).getD (.bool false)).IsSwitch :=
      Value.getD_field? ⟨false, rfl⟩ fun w hw =>
        Schema.accepts_boolean_iff.mp (hfields _ hname w hw)
    rw [← hbool.eq_bool_isTruthy]
  exact Form.given_section_of_writes hes (.cons ⟨rfl, Form.given_getD rfl _⟩
    (.cons ⟨rfl, hswitch "disable" (by simp [schemas])⟩
      (.cons ⟨rfl, hswitch "skip_verify" (by simp [schemas])⟩ .nil)))

/-! ### Conditions -/

namespace Condition

open Form (texts condition)

/-- A list of texts that is written unless it is empty. -/
def givenTexts (ss : List String) : Option Value :=
  if ss.isEmpty then none else some (textsValue ss)

/-- The texts that a value stands for. -/
theorem givenTexts_of_decodeTexts {v : Value} {place : String} {ss : List String}
    (haccepts : v = .null ∨ Schema.stringOrList.accepts v = true)
    (h : decodeTexts v place = .ok ss) : givenTexts ss = texts v := by
  rcases haccepts with rfl | haccepts
  · cases h
    rfl
  · rcases Schema.accepts_stringOrList_iff.mp haccepts with ⟨s, rfl⟩ | ⟨ts, rfl⟩
    · cases h
      rfl
    · rw [show Value.seq (ts.map .str) = textsValue ts from rfl, decodeTexts_textsValue] at h
      obtain rfl : ts = ss := Except.ok.inj h
      cases ts <;> rfl

/-- The entries of a condition, as far as they are written. -/
theorem given_entries (c : Condition) :
    Form.given (.map c.entries) = if c.isEmpty then none else some c.toValue := by
  obtain ⟨included, excluded⟩ := c
  cases included <;> cases excluded <;> rfl

theorem entries_eq (c : Condition) :
    c.entries = ((givenTexts c.included).map fun v => (Value.str "include", v)).toList
      ++ ((givenTexts c.excluded).map fun v => (Value.str "exclude", v)).toList := by
  obtain ⟨included, excluded⟩ := c
  cases included <;> cases excluded <;> rfl

/-- A condition is written as the form of what it was read from. -/
theorem given_of_decode {v : Value} {place : String} {c : Condition}
    (haccepts : Schema.condition.accepts v = true) (h : decode v place = .ok c) :
    (if c.isEmpty then none else some c.toValue) = condition v := by
  rw [← given_entries, entries_eq]
  rcases Schema.accepts_condition_iff.mp haccepts with rfl | hlist | ⟨es, rfl, hfields, hothers⟩
  · cases h
    rfl
  · -- A text or a list of texts says what is included.
    obtain ⟨ss, hss, rfl⟩ : ∃ ss, decodeTexts v place = .ok ss ∧ c = { included := ss } := by
      rcases Schema.accepts_stringOrList_iff.mp hlist with ⟨s, rfl⟩ | ⟨ts, rfl⟩
      · cases h
        exact ⟨_, rfl, rfl⟩
      · obtain ⟨ss, hss, h⟩ := Outcome.bind_eq_ok_iff.mp h
        cases h
        exact ⟨ss, hss, rfl⟩
    have htexts := givenTexts_of_decodeTexts (.inr hlist) hss
    have hform : condition v = (texts v).map fun vs => .map [(.str "include", vs)] := by
      rcases Schema.accepts_stringOrList_iff.mp hlist with ⟨s, rfl⟩ | ⟨ts, rfl⟩ <;> rfl
    rw [hform, ← htexts]
    cases givenTexts ss <;> rfl
  · simp only [decode, Schema.unknownKeys_eq_map, hothers, List.map_nil, List.isEmpty_nil,
      Bool.not_true, Bool.false_eq_true, if_false] at h
    obtain ⟨included, hincluded, h⟩ := Outcome.bind_eq_ok_iff.mp h
    obtain ⟨excluded, hexcluded, h⟩ := Outcome.bind_eq_ok_iff.mp h
    cases h
    have hfield (name : String) (hname : name ∈ ["include", "exclude"]) (ss : List String)
        (hss : decodeTexts ((field? name es).getD .null) (place ++ "." ++ name) = .ok ss) :
        givenTexts ss = (field? name es).bind texts := by
      cases hf : field? name es with
      | none =>
        rw [hf] at hss
        exact givenTexts_of_decodeTexts (.inl rfl) hss
      | some w =>
        rw [hf] at hss
        exact givenTexts_of_decodeTexts (.inr (hfields name hname w hf)) hss
    rw [hfield "include" (by simp) included hincluded,
      hfield "exclude" (by simp) excluded hexcluded]
    simp only [condition, Form.fields_cons, Form.fields_nil, List.append_nil]

end Condition

namespace Conditions

/-- The conditions that list a pattern, subject by subject. -/
theorem entries_eq_filterMap (cs : Conditions) :
    cs.entries = Subject.all.filterMap fun s =>
      (if (cs.on s).isEmpty then Option.none else some (cs.on s).toValue).map fun v =>
        (Value.str s.name, v) := by
  rw [entries, toList]
  induction Subject.all with
  | nil => rfl
  | cons s ss ih =>
    rw [List.map_cons, List.filter_cons, List.filterMap_cons, ← ih]
    cases (cs.on s).isEmpty <;> rfl

/-- Conditions are written as the form of what they were read from. -/
theorem given_of_decode {o : Option Value} {place : String} {cs : Conditions}
    (hwf : ∀ v, o = some v → v.isWellFormed = true)
    (haccepts : ∀ v, o = some v → Schema.conditions.accepts v = true)
    (h : decode (o.getD .null) place = .ok cs) :
    Form.given cs.toValue = o.bind Form.conditions := by
  cases o with
  | none =>
    cases h
    rfl
  | some v =>
    rcases Schema.accepts_conditions_iff.mp (haccepts v rfl) with rfl | ⟨es, rfl, hfields, hothers⟩
    · cases h
      rfl
    · simp only [Option.getD_some, decode, Schema.unknownKeys_eq_map, hothers, List.map_nil,
        List.isEmpty_nil, Bool.not_true, Bool.false_eq_true, if_false] at h
      have hdistinct : Value.areDistinct ((Value.entries es).map Prod.fst) = true := by
        rw [Value.keys_entries]
        exact (Value.isWellFormed_map_iff.mp (hwf _ rfl)).1
      have hon (s : Subject) :
          (if (cs.on s).isEmpty then Option.none else some (cs.on s).toValue)
            = (field? s.name es).bind Form.condition := by
        rcases on_of_decodeEntries hdistinct h s with ⟨hnone, hempty⟩ | ⟨v, place', hv, hc⟩
        · rw [field?, hnone, hempty]
          rfl
        · rw [field?, hv]
          exact Condition.given_of_decode (hfields s (Subject.mem_all s) v hv) hc
      have hentries : cs.entries
          = Form.fields (Subject.all.map fun s => (s.name, Form.condition)) es := by
        rw [entries_eq_filterMap, Form.fields, List.filterMap_map]
        refine List.filterMap_congr fun s _ => ?_
        rw [hon]
        rfl
      rw [toValue_eq, hentries]
      rfl

end Conditions

/-! ### Steps -/

theorem Failure.given_of_decode {o : Option Value} {f : Failure}
    (haccepts : ∀ w, o = some w →
      Schema.accepts [.oneOf ["", "fail", "ignore", "never"]] w = true)
    (h : decode o = .ok f) : Form.given f.toValue = o.bind Form.failure := by
  cases o with
  | none =>
    cases h
    rfl
  | some w =>
    have hw := haccepts w rfl
    rw [Schema.accepts_singleton, Schema.accepts_oneOf] at hw
    cases w with
    | str s =>
      simp only [Value.str?, List.any_cons, List.any_nil, Bool.or_false, Bool.or_eq_true,
        decide_eq_true_eq, Option.some.injEq] at hw
      rcases hw with rfl | rfl | rfl | rfl
      all_goals
        cases h
        rfl
    | _ => simp [Value.str?] at hw

namespace Step

/-- The entries of an environment, each with its variable. -/
theorem environmentValue_of_decode {index : Nat} {vars : List (Value × Value)}
    {environment : List (Value × Variable)} (h : decodeEnvironment index vars = .ok environment) :
    environmentValue environment = .map (vars.map fun e => (e.1, Form.variableValue e.2)) := by
  refine congrArg Value.map ?_
  rw [decodeEnvironment] at h
  induction vars generalizing environment with
  | nil =>
    cases h
    rfl
  | cons e vars ih =>
    obtain ⟨x, rest, hx, hrest, rfl⟩ := Outcome.mapM_cons_eq_ok_iff.mp h
    obtain ⟨key, -, hx⟩ := Outcome.bind_eq_ok_iff.mp hx
    obtain ⟨var, hvar, hx⟩ := Outcome.bind_eq_ok_iff.mp hx
    cases hx
    rw [List.map_cons, List.map_cons, ih hrest, ← Variable.toValue_of_decode hvar]

/-- A step is written as the form of what it was read from. -/
theorem map_entries_eq_step {data : Value} {shell : String} {index : Nat} {s : Step}
    (hwf : data.isWellFormed = true) (haccepts : Schema.step.accepts data = true)
    (h : decode data shell index data = .ok s) (hwt : s.WellTyped) :
    .map s.entries = Form.step shell data := by
  obtain ⟨es, fs, rfl, hsource, reads⟩ := reads_of_decode h
  cases hsource
  rw [schema_eq] at haccepts
  obtain ⟨_, ⟨⟩, hfields⟩ := Schema.accepts_object_iff.mp haccepts
  have hfield : ∀ name schema, (name, schema) ∈ schemas → ∀ w, field? name es = some w →
      Schema.accepts schema w = true := fun _ _ hf w hw => hfields _ hf w hw
  obtain ⟨dependsOn, hdependsOn, hdependsOn'⟩ := reads.dependsOn
  obtain ⟨commands, hcommands, hcommands'⟩ := reads.commands
  obtain ⟨vars, hvars, henvironment⟩ := reads.environment
  -- The shell is the only field that falls back on something with content.
  have hshell : s.shell = ((field? "shell" es).bind Form.given).getD (.str shell) := by
    rw [reads.shell]
    cases field? "shell" es with
    | none => rfl
    | some w => cases hw : w.isTruthy <;> simp [Option.filter, Form.given, hw]
  have htruthy : s.shell.isTruthy = true := by
    obtain ⟨text, htext, hne⟩ := hwt.shell
    simp [htext, Value.isTruthy, hne]
  have henvironmentForm : Form.given (environmentValue s.environment)
      = (field? "environment" es).bind Form.environment := by
    obtain ⟨fs, hfs, hmap⟩ := Form.isSection_of_acceptsAll
      (hfield "environment" [.type [.object], .others [] Schema.variableValue] (by simp [schemas]))
    rw [hmap, Value.fields_map] at hvars
    cases hvars
    rw [environmentValue_of_decode henvironment]
    exact Form.given_eachValue hfs Form.variableValue
  have hgiven : givenEntries s.fields
      = (.str "shell", s.shell) :: Form.fields Form.stepTable es := by
    rw [fields, givenEntries_cons, if_pos htruthy]
    refine congrArg ((Value.str "shell", s.shell) :: ·) (Form.givenEntries_eq_fields ?_)
    refine .cons ⟨rfl, ?_⟩ (.cons ⟨rfl, ?_⟩ (.cons ⟨rfl, ?_⟩ (.cons ⟨rfl, ?_⟩ (.cons ⟨rfl, ?_⟩
      (.cons ⟨rfl, ?_⟩ .nil)))))
    · rw [reads.detach]
      exact Form.given_getD rfl _
    · rw [hdependsOn']
      exact Form.given_items (hfield "depends_on" Schema.stringList (by simp [schemas])) hdependsOn
    · rw [hcommands']
      exact Form.given_items (hfield "commands" Schema.stringList (by simp [schemas])) hcommands
    · exact henvironmentForm
    · exact Failure.given_of_decode (hfield "failure" _ (by simp [schemas])) reads.failure
    · exact Conditions.given_of_decode (fun w hw => Value.isWellFormed_of_field? hwf hw)
        (hfield "when" Schema.conditions (by simp [schemas])) reads.when
  rw [entries, hgiven, reads.name, hshell]
  rfl

end Step

/-! ### Pipelines -/

namespace Pipeline

/-- The shell of steps that name none depends on the platform of the document. -/
theorem defaultShell_eq_shell {p : Platform}
    (haccepts : ∀ v, field? "platform" es = some v →
      Schema.accepts [.type [.object], .properties Platform.schemas] v = true)
    (h : Platform.decode (field? "platform" es) = .ok p) : defaultShell p.os = Form.shell es := by
  obtain ⟨fs, hfs, hmap, -⟩ := Form.isSection_of_accepts haccepts
  rw [Platform.decode, hmap] at h
  simp only [Value.getD, Value.get_map, Outcome.ok_bind, Outcome.pure_eq_ok] at h
  obtain ⟨_, -, h⟩ := Outcome.bind_eq_ok_iff.mp h
  cases h
  have hos : Form.os? es = field? "os" fs := by
    rw [Form.os?]
    generalize field? "platform" es = platform? at hfs
    cases hfs with
    | none => rfl
    | some fs => rfl
  -- An operating system that is no text is not Windows, whatever it is.
  have hwindows : ((field? "os" fs).getD (.str "")).str? = some "windows"
      ↔ field? "os" fs = some (.str "windows") := by
    cases field? "os" fs with
    | none => simp [Value.str?]
    | some w => cases w <;> simp [Value.str?]
  rw [Form.shell, hos, defaultShell]
  simp only [hwindows]

/-- Steps that are read one after the other are written as their forms. -/
theorem map_entries_of_decodeSteps {shell : String} {vs : List Value}
    (h : ∀ v ∈ Value.items vs, v.isWellFormed = true ∧ Schema.step.accepts v = true)
    {rest : List Value} {index : Nat} (hrest : (Value.items vs).drop index = rest) {ss : List Step}
    (hss : decodeSteps shell (.seq vs) index rest = .ok ss) (hwt : ∀ s ∈ ss, s.WellTyped) :
    (ss.map fun s => Value.map s.entries) = rest.map (Form.step shell) := by
  induction rest generalizing index ss with
  | nil =>
    cases hss
    rfl
  | cons v rest ih =>
    obtain ⟨hv, hnext⟩ := getElem?_of_drop_eq_cons hrest
    obtain ⟨hwf, haccepts⟩ := h v (List.mem_of_getElem? hv)
    rw [decodeSteps, Value.element_seq hv, Outcome.ok_bind] at hss
    obtain ⟨s, hs, hss⟩ := Outcome.bind_eq_ok_iff.mp hss
    obtain ⟨ts, hts, hss⟩ := Outcome.bind_eq_ok_iff.mp hss
    cases hss
    rw [List.map_cons, List.map_cons,
      Step.map_entries_eq_step hwf haccepts hs (hwt s List.mem_cons_self),
      ih hnext hts fun t ht => hwt t (List.mem_cons_of_mem _ ht)]

/-- The steps that a form has are those of its document. -/
theorem form_steps {vs : List Value} (h : (field? "steps" es).getD (.seq []) = .seq vs) :
    Form.steps es = Value.items vs := by
  rw [Form.steps]
  cases hf : field? "steps" es with
  | none =>
    rw [hf] at h
    cases h
    rfl
  | some w =>
    rw [hf] at h
    cases h
    rfl

/-- The text of a version. -/
theorem given_decodeVersion {o : Option Value}
    (haccepts : ∀ v, o = some v → Schema.version.accepts v = true) {version : Value}
    (h : decodeVersion o = .ok version) : Form.given version = o.bind Form.text := by
  cases o with
  | none =>
    cases h
    rfl
  | some v =>
    rw [decodeVersion_of_version (haccepts v rfl), Value.whenWritable_eq_ok_iff] at h
    rw [← h.2]
    rfl

/-- The entries of a node selector, each with its text. -/
theorem given_decodeNode {o : Option Value} {node : Value}
    (haccepts : ∀ v, o = some v →
      Schema.accepts [.type [.object], .others [] [.type [.string, .number, .boolean]]] v = true)
    (h : decodeNode o = .ok node) :
    Form.given node = o.bind (Form.eachValue fun v => .str v.scalarText) := by
  obtain ⟨fs, hfs, hmap⟩ := Form.isSection_of_acceptsAll haccepts
  rw [decodeNode, hmap, Value.fields_map, Outcome.ok_bind] at h
  obtain ⟨entries, hentries, h⟩ := Outcome.bind_eq_ok_iff.mp h
  cases h
  have htexts : entries = (Value.entries fs).map fun e => (e.1, .str e.2.scalarText) := by
    refine Outcome.eq_map_of_mapM_eq_ok (fun e _ f hf => ?_) hentries
    obtain ⟨text, htext, hf⟩ := Outcome.bind_eq_ok_iff.mp hf
    cases hf
    rw [Value.toScalarText_eq, Value.whenWritable_eq_ok_iff] at htext
    rw [htext.2]
  rw [htexts]
  exact Form.given_eachValue hfs fun v => .str v.scalarText

/-- A pipeline that was read from an accepted document is written as its canonical form. -/
theorem map_entries_eq_canonical {data : Value} {p : Pipeline} (hwf : data.isWellFormed = true)
    (haccepts : Schema.pipeline.accepts data = true) (h : decode data .null = .ok p)
    (hwt : p.WellTyped) : .map p.entries = canonical data := by
  obtain ⟨es, fs, rfl, hsource, reads⟩ := reads_of_decode h
  cases hsource
  obtain ⟨hrequired, hfield⟩ := fields_of_accepts haccepts
  obtain ⟨kind, hkind⟩ := hrequired "kind" (by simp)
  obtain ⟨type, htype⟩ := hrequired "type" (by simp)
  obtain ⟨dependsOn, hdependsOn, hdependsOn'⟩ := reads.dependsOn
  have hplatform : ∀ v, field? "platform" es = some v →
      Schema.accepts [.type [.object], .properties Platform.schemas] v = true :=
    hfield "platform" [.type [.object], .properties Platform.schemas]
      (by simp [Schema.pipelineFields, Platform.schemas])
  -- Kind, type and name are there; the other fields follow in the order of the table.
  have hgiven : [(Value.str "kind", p.kind), (.str "type", p.type), (.str "name", p.name)]
      ++ givenEntries p.fields = Form.fields Form.pipelineTable es := by
    rw [reads.kind, reads.type, hkind, htype, Option.getD_some, Option.getD_some,
      Form.pipelineTable, Form.fields_cons, Form.fields_cons, Form.fields_cons, hkind, htype,
      reads.name]
    refine congrArg (fun l => [(Value.str "kind", kind), (.str "type", type), (.str "name", p.name)]
      ++ l) (Form.givenEntries_eq_fields ?_)
    refine .cons ⟨rfl, ?_⟩ (.cons ⟨rfl, ?_⟩ (.cons ⟨rfl, ?_⟩ (.cons ⟨rfl, ?_⟩ (.cons ⟨rfl, ?_⟩
      (.cons ⟨rfl, ?_⟩ (.cons ⟨rfl, ?_⟩ (.cons ⟨rfl, ?_⟩ .nil)))))))
    · exact given_decodeVersion (hfield "version" Schema.version (by simp [Schema.pipelineFields]))
        reads.version
    · rw [hdependsOn']
      exact Form.given_items
        (hfield "depends_on" Schema.stringList (by simp [Schema.pipelineFields])) hdependsOn
    · exact given_decodeNode (hfield "node" _ (by simp [Schema.pipelineFields])) reads.node
    · exact Server.given_entries (hfield "server" Schema.server (by simp [Schema.pipelineFields]))
        reads.server
    · exact Workspace.given_entries (hfield "workspace"
        [.type [.object], .properties Workspace.schemas]
        (by simp [Schema.pipelineFields, Workspace.schemas])) reads.workspace
    · exact Platform.given_entries hplatform reads.platform
    · exact Clone.given_entries (hfield "clone" [.type [.object], .properties Clone.schemas]
        (by simp [Schema.pipelineFields, Clone.schemas])) reads.clone
    · exact Conditions.given_of_decode (fun w hw => Value.isWellFormed_of_field? hwf hw)
        (hfield "trigger" Schema.conditions (by simp [Schema.pipelineFields])) reads.trigger
  obtain ⟨vs, hform, helements, hsource, -, hvs⟩ := exists_steps_of_accepts
    (fun w hw => Value.isWellFormed_of_field? hwf hw)
    (hfield "steps" [.type [.array], .items Schema.step] (by simp [Schema.pipelineFields]))
  have hsteps : p.stepValues = (Form.steps es).map (Form.step (Form.shell es)) := by
    obtain ⟨ds, hds, hsteps⟩ := reads.steps
    rw [helements] at hds
    cases hds
    rw [hsource, defaultShell_eq_shell hplatform reads.platform] at hsteps
    rw [form_steps hform]
    exact map_entries_of_decodeSteps hvs rfl hsteps hwt.steps
  rw [entries, hgiven, hsteps]
  rfl

end Pipeline

/-- A document that the schema accepts is read as a pipeline, which is written as the canonical form
of the document, unless a scalar that becomes a text is a number too long to be written; then the
document is not read at all. -/
theorem toValue_decode_eq_canonical {data : Value} (hwf : data.isWellFormed = true)
    (h : Schema.report Schema.pipeline data = []) :
    ((∀ v ∈ Pipeline.spelled data, v.isWritable = true) →
      ∃ p, Pipeline.decode data .null = .ok p ∧ p.toValue = .ok (canonical data)) ∧
    ∀ v ∈ Pipeline.spelled data, v.isWritable = false →
      (Pipeline.decode data .null >>= Pipeline.toValue) = .error .invalidValue := by
  have haccepts := (Schema.report_eq_nil_iff _ _).mp h
  obtain ⟨p, hdecode, hwt⟩ := Pipeline.decode_of_accepts hwf haccepts
  refine ⟨fun hwritable => ?_, fun v hv hlong => ?_⟩
  · have hwt := hwt (Value.areWritable_iff.mpr hwritable)
    have hp := hdecode.trans (Value.whenWritable_of_forall hwritable)
    refine ⟨p, hp, ?_⟩
    rw [Pipeline.toValue_eq hwt, Pipeline.map_entries_eq_canonical hwf haccepts hp hwt]
  · rw [hdecode, Value.whenWritable_of_mem hv hlong, Outcome.error_bind]

/-- A pipeline whose step has a variable that is the least number too long to be written. -/
def longEntry : Value := .map [
  (.str "kind", .str "pipeline"), (.str "type", .str "ssh"), (.str "name", .str "n"),
  (.str "steps", .seq [.map [
    (.str "name", .str "t"), (.str "environment", .map [(.str "N", .int Number.writableBound)])]])]

/-- The schema accepts the variable, and yet the canonical form is not what comes out. -/
theorem toValue_decode_longEntry :
    longEntry.isWellFormed = true ∧ Schema.report Schema.pipeline longEntry = [] ∧
      (Pipeline.decode longEntry .null >>= Pipeline.toValue) ≠ .ok (canonical longEntry) := by
  have haccepts : longEntry.isWellFormed = true ∧ Schema.pipeline.accepts longEntry = true := by
    decide +kernel
  refine ⟨haccepts.1, (Schema.report_eq_nil_iff _ _).mpr haccepts.2, ?_⟩
  rw [Pipeline.decode_of_not_areWritable haccepts.1 haccepts.2 (by decide +kernel),
    Outcome.error_bind]
  exact nofun

/-- A pipeline for Windows that is written in many short ways: a trigger that is one text, a number
as a variable, an empty password, a variable without a value, and a key that nobody knows. -/
def shortData : Value := .map [
  (.str "steps", .seq [
    .map [(.str "commands", .seq [.str "b", .str "a"]), (.str "failure", .str "ignore"),
      (.str "environment", .map [(.str "N", .int 7), (.str "E", .null)])],
    .map [(.str "name", .str "t"), (.str "shell", .str "sh"), (.str "detach", .bool false)]]),
  (.str "colour", .str "red"),
  (.str "trigger", .map [(.str "branch", .str "main"), (.str "action", .null)]),
  (.str "platform", .map [(.str "os", .str "windows")]),
  (.str "server", .map [
    (.str "password", .str ""), (.str "host", .map [(.str "from_secret", .str "h")])]),
  (.str "version", .int 2),
  (.str "name", .str "n"), (.str "type", .str "ssh"), (.str "kind", .str "pipeline")]

/-- The long way. -/
def shortCanonical : Value := .map [
  (.str "kind", .str "pipeline"), (.str "type", .str "ssh"), (.str "name", .str "n"),
  (.str "version", .str "2"),
  (.str "server", .map [(.str "host", .map [(.str "from_secret", .str "h")])]),
  (.str "platform", .map [(.str "os", .str "windows")]),
  (.str "trigger", .map [(.str "branch", .map [(.str "include", .seq [.str "main"])])]),
  (.str "steps", .seq [
    .map [(.str "name", .str ""), (.str "shell", .str "powershell"),
      (.str "commands", .seq [.str "b", .str "a"]),
      (.str "environment", .map [(.str "N", .str "7"), (.str "E", .null)]),
      (.str "failure", .str "ignore")],
    .map [(.str "name", .str "t"), (.str "shell", .str "sh")]])]

theorem canonical_shortData : canonical shortData = shortCanonical := by
  decide +kernel

theorem toValue_decode_eq_canonical_short :
    ∃ p, Pipeline.decode shortData .null = .ok p ∧ p.toValue = .ok shortCanonical := by
  rw [← canonical_shortData]
  exact (toValue_decode_eq_canonical (by decide +kernel)
    ((Schema.report_eq_nil_iff _ _).mpr (by decide +kernel))).1 (by decide +kernel)

end PipelineManifest
