import PipelineManifest.Proofs.Pipeline.Decode

/-!
# `PipelineManifest.Proofs.Pipeline.WriteBack`: pipelines that are written and read back

A pipeline whose fields hold values of the right kinds is written without the fields that are not
given. The written pipeline is accepted by the schema, and is read back as the same pipeline but
for two things: a variable of the server that is empty is absent afterwards, and a depth of zero is
a whole number afterwards. Neither changes what the pipeline is written as, nor what the lint rules
say about it.

* `Pipeline.toValue_eq`: what a pipeline is written as.
* `Pipeline.decode_written`: what it is read back as, `Pipeline.readBack`.
* `Pipeline.accepts_written`, `Pipeline.lint_readBack`, `Pipeline.toValue_readBack`: the schema, the
  lint rules and the writer about it.
* `Pipeline.readBack_equal_iff`: when nothing has changed.
-/

set_option autoImplicit false

namespace PipelineManifest.Pipeline

open Value (field? orEmpty)

/-- The fields of a pipeline that are written if they are given. -/
def fields (p : Pipeline) : List (String × Value) := [
  ("version", p.version), ("depends_on", p.dependsOn), ("node", p.node),
  ("server", .map p.server.entries), ("workspace", .map p.workspace.entries),
  ("platform", .map p.platform.entries), ("clone", .map p.clone.entries),
  ("trigger", p.trigger.toValue)]

/-- The steps of a written pipeline. -/
def stepValues (p : Pipeline) : List Value := p.steps.map fun s => .map s.entries

/-- The entries of a written pipeline. -/
def entries (p : Pipeline) : List (Value × Value) :=
  [(.str "kind", p.kind), (.str "type", p.type), (.str "name", p.name)]
    ++ givenEntries p.fields ++ [(.str "steps", .seq p.stepValues)]

variable {p : Pipeline}

/-! ### Writing -/

theorem WellTyped.isTree_node (h : p.WellTyped) : p.node.isTree = true := by
  obtain ⟨es, hes, hentries⟩ := h.node
  rw [hes, Value.isTree]
  clear hes
  induction es with
  | nil => rfl
  | cons e es ih =>
    obtain ⟨hkey, htext⟩ := hentries e List.mem_cons_self
    simp only [Value.areTreeEntries, Value.isTree_of_isScalar hkey, htext.isTree, Bool.and_self,
      Bool.true_and]
    exact ih fun f hf => hentries f (List.mem_cons_of_mem _ hf)

theorem WellTyped.isTree (h : p.WellTyped) : ∀ x ∈ p.fields, x.2.isTree = true := by
  simp only [fields, List.mem_cons, List.not_mem_nil, or_false]
  rintro x (rfl | rfl | rfl | rfl | rfl | rfl | rfl | rfl)
  · exact h.version.isTree
  · exact h.dependsOn.isTree
  · exact h.isTree_node
  · exact p.server.isTree_entries
  · exact Workspace.isTree_entries h.workspace
  · exact Platform.isTree_entries h.platform
  · exact Clone.isTree_entries h.clone
  · exact p.trigger.isTree_toValue

theorem nodeEntries_node (h : p.WellTyped) {es : List (Value × Value)} (hes : p.node = .map es) :
    nodeEntries p.node = .ok es := by
  have htree := h.isTree_node
  rw [hes, Value.isTree] at htree
  rw [hes, nodeEntries, Value.entries_of_areTreeEntries es htree]
  rfl

theorem sectionEntry_eq (name : String) (es : List (Value × Value)) :
    sectionEntry name es = if (Value.map es).isTruthy then [(.str name, .map es)] else [] := by
  cases es <;> rfl

/-- A pipeline of the right kinds is written as its entries. -/
theorem toValue_eq (h : p.WellTyped) : p.toValue = .ok (.map p.entries) := by
  obtain ⟨es, hes, -⟩ := h.node
  have htrigger : (if p.trigger.toList.isEmpty then []
        else [(Value.str "trigger", p.trigger.toValue)])
      = if p.trigger.toValue.isTruthy then [(Value.str "trigger", p.trigger.toValue)] else [] := by
    rw [Conditions.toValue]
    cases p.trigger.toList <;> rfl
  have hsteps : p.steps.mapM Step.toValue = .ok p.stepValues :=
    Outcome.mapM_ok fun s hs => Step.toValue_eq (h.steps s hs)
  simp only [toValue, Step.listEntries_of_isTexts h.dependsOn, nodeEntries_node h hes, hsteps,
    Outcome.ok_bind, Outcome.pure_eq_ok, htrigger, sectionEntry_eq, entries, fields,
    givenEntries_cons, givenEntries_nil, List.cons_append, List.nil_append, List.append_assoc,
    List.append_nil]
  -- An empty node is not written, so its entries do not matter.
  split
  · rw [hes]
  · rfl

/-! ### Looking up what is written -/

theorem isTree_entries (h : p.WellTyped) : (Value.map p.entries).isTree = true := by
  have hgiven := Value.isTree_given h.isTree
  have hsteps : Value.areTrees p.stepValues = true :=
    Value.areTrees_map fun s hs => Step.isTree_entries (h.steps s hs)
  obtain ⟨name, hname, -⟩ := h.name
  rw [Value.isTree] at hgiven
  simp only [entries, Value.isTree, Value.areTreeEntries_append, Value.areTreeEntries, h.kind,
    h.type, hname, hgiven, hsteps, Bool.and_self]

/-- What is found of the fields that are always written. -/
theorem field?_always (h : p.WellTyped) {name : String} {v : Value}
    (hv : (name, v) ∈ [("kind", p.kind), ("type", p.type), ("name", p.name)]) :
    field? name p.entries = some v := by
  rw [Value.field?_of_isTree (isTree_entries h), entries]
  simp only [List.mem_cons, Prod.mk.injEq, List.not_mem_nil, or_false] at hv
  rcases hv with ⟨rfl, rfl⟩ | ⟨rfl, rfl⟩ | ⟨rfl, rfl⟩
  · simp
  · simp
  · simp

/-- What is found of the fields that are written if they are given. -/
theorem field?_entries (h : p.WellTyped) {name : String} {v : Value} (hv : (name, v) ∈ p.fields) :
    field? name p.entries = if v.isTruthy then some v else none := by
  have hgiven : Value.lookup? (.str name) (givenEntries p.fields)
      = if v.isTruthy then some v else none := by
    rw [← Value.field?_of_isTree (Value.isTree_given h.isTree)]
    exact Value.field?_given (by simp [fields]) h.isTree hv
  have hname : "kind" ≠ name ∧ "type" ≠ name ∧ "name" ≠ name ∧ "steps" ≠ name := by
    refine ⟨?_, ?_, ?_, ?_⟩ <;>
    · rintro rfl
      simp [fields] at hv
  rw [Value.field?_of_isTree (isTree_entries h), entries, Value.lookup?_append,
    Value.lookup?_append, hgiven]
  simp [hname]

theorem field?_steps (h : p.WellTyped) : field? "steps" p.entries = some (.seq p.stepValues) := by
  have hgiven : Value.lookup? (.str "steps") (givenEntries p.fields) = none :=
    Value.lookup?_given_eq_none (by simp [fields])
  rw [Value.field?_of_isTree (isTree_entries h), entries, Value.lookup?_append,
    Value.lookup?_append, hgiven]
  simp

/-! ### Reading back -/

/-- What a pipeline is read back as after it has been written. -/
def readBack (p : Pipeline) : Pipeline :=
  { p with server := p.server.orAbsent, clone := p.clone.wholeZero }

theorem items_stepValues (h : p.WellTyped) : Value.items p.stepValues = p.stepValues :=
  Value.items_of_areTrees _ (Value.areTrees_map fun s hs => Step.isTree_entries (h.steps s hs))

/-- Written steps are read back one after the other. -/
theorem decodeSteps_written (shell : String) {ss : List Step} (h : ∀ s ∈ ss, s.WellTyped)
    (hitems : Value.items p.stepValues = p.stepValues) (index : Nat)
    (hrest : p.stepValues.drop index = ss.map fun s => .map s.entries) :
    decodeSteps shell (.seq p.stepValues) index (ss.map fun s => .map s.entries) = .ok ss := by
  induction ss generalizing index with
  | nil => rfl
  | cons s ss ih =>
    obtain ⟨hs, hnext⟩ := getElem?_of_drop_eq_cons hrest
    rw [List.map_cons, decodeSteps, Value.element_seq (hitems.symm ▸ hs), Outcome.ok_bind,
      Step.decode_written (h s List.mem_cons_self), Outcome.ok_bind,
      ih (fun t ht => h t (List.mem_cons_of_mem _ ht)) _ hnext]
    rfl

theorem decodeNode_given (h : p.WellTyped) :
    decodeNode (if p.node.isTruthy then some p.node else none) = .ok p.node := by
  obtain ⟨es, hes, htexts⟩ := h.node
  have htree := h.isTree_node
  rw [hes, Value.isTree] at htree
  have hmap : es.mapM (fun e => do return (e.1, Value.str (← e.2.toScalarText)))
      = (.ok (es.map id) : Outcome (List (Value × Value))) := by
    refine Outcome.mapM_ok fun e he => ?_
    obtain ⟨key, v⟩ := e
    obtain ⟨s, rfl⟩ := (htexts _ he).2
    rfl
  rw [hes, decodeNode, Value.orEmpty_given, Value.fields_map,
    Value.entries_of_areTreeEntries es htree, Outcome.ok_bind, hmap, List.map_id]
  rfl

theorem decodeVersion_given (h : p.WellTyped) :
    decodeVersion (if p.version.isTruthy then some p.version else none) = .ok p.version := by
  obtain ⟨s, hs⟩ := h.version
  rw [hs]
  cases hv : (Value.str s).isTruthy with
  | true => rfl
  | false =>
    have hempty : s = "" := by simpa [Value.isTruthy] using hv
    rw [hempty]
    rfl

/-- What a pipeline is written as is read back as `readBack`. -/
theorem decode_written (h : p.WellTyped) : decode (.map p.entries) .null = .ok p.readBack := by
  have hfield : ∀ name v, (name, v) ∈ p.fields →
      field? name p.entries = if v.isTruthy then some v else none :=
    fun name v hv => field?_entries h hv
  have hkind : field? "kind" p.entries = some p.kind := field?_always h (by simp)
  have htype : field? "type" p.entries = some p.type := field?_always h (by simp)
  have hname : field? "name" p.entries = some p.name := field?_always h (by simp)
  obtain ⟨dependsOn, hdependsOn⟩ := h.dependsOn
  have hdependsOn' : Value.elementsOrNone (field? "depends_on" p.entries)
      = .ok (dependsOn.map .str) := by
    rw [hfield "depends_on" p.dependsOn (by simp [fields]), hdependsOn]
    exact Value.elementsOrNone_given dependsOn
  have hsteps : decodeSteps (defaultShell p.platform.os) (.seq p.stepValues) 0 p.stepValues
      = .ok p.steps :=
    decodeSteps_written _ h.steps (items_stepValues h) 0 rfl
  simp only [decode, Value.orData_null, Value.getD, Value.get_map, Outcome.ok_bind,
    hfield "platform" (.map p.platform.entries) (by simp [fields]),
    Platform.decode_written h.platform,
    hfield "version" p.version (by simp [fields]), decodeVersion_given h, field?_steps h,
    orNoItems_seq, hkind, htype, Option.getD_some, requiredField, hname, hdependsOn',
    hfield "node" p.node (by simp [fields]), decodeNode_given h,
    hfield "server" (.map p.server.entries) (by simp [fields]), Server.decode_written,
    hfield "workspace" (.map p.workspace.entries) (by simp [fields]),
    Workspace.decode_written h.workspace,
    hfield "clone" (.map p.clone.entries) (by simp [fields]), Clone.decode_written h.clone,
    hfield "trigger" p.trigger.toValue (by simp [fields]), Conditions.decode_given,
    Value.elementsOrNone_seq, items_stepValues h, hsteps, Outcome.pure_eq_ok]
  obtain ⟨kind, type, name, version, _, node, server, workspace, platform, clone, trigger,
    steps⟩ := p
  cases hdependsOn
  rfl

/-! ### The schema and the lint rules -/

theorem accepts_node (h : p.WellTyped) :
    Schema.accepts [.type [.object], .others [] [.type [.string, .number, .boolean]]] p.node
      = true := by
  obtain ⟨es, hes, htexts⟩ := h.node
  have htree := h.isTree_node
  rw [hes, Value.isTree] at htree
  refine Schema.accepts_allOf_iff.mpr ⟨es, hes, fun e he => ?_⟩
  rw [Value.entries_of_areTreeEntries es htree] at he
  obtain ⟨s, hs⟩ := (htexts e he).2
  rw [hs]
  rfl

theorem accepts_steps (h : p.WellTyped) :
    Schema.accepts [.type [.array], .items Schema.step] (.seq p.stepValues) = true := by
  refine Schema.accepts_arrayOf_iff.mpr ⟨_, rfl, fun v hv => ?_⟩
  rw [items_stepValues h] at hv
  obtain ⟨s, hs, rfl⟩ := List.mem_map.mp hv
  exact Step.accepts_written (h.steps s hs)

/-- The schema accepts what a pipeline is written as. -/
theorem accepts_written (h : p.WellTyped) : Schema.pipeline.accepts (.map p.entries) = true := by
  have hkind : field? "kind" p.entries = some p.kind := field?_always h (by simp)
  have htype : field? "type" p.entries = some p.type := field?_always h (by simp)
  have hname : field? "name" p.entries = some p.name := field?_always h (by simp)
  have hsome : ∀ name v, field? name p.entries = some v → ∀ schema : Schema,
      schema.accepts v = true → ∀ w, field? name p.entries = some w → schema.accepts w = true := by
    intro name v hv schema hschema w hw
    rw [hv, Option.some.injEq] at hw
    rw [← hw]
    exact hschema
  have hgiven : ∀ name v, (name, v) ∈ p.fields → ∀ schema : Schema, schema.accepts v = true →
      ∀ w, field? name p.entries = some w → schema.accepts w = true := by
    intro name v hv schema hschema w hw
    rw [field?_entries h hv, Option.ite_none_right_eq_some, Option.some.injEq] at hw
    rw [← hw.2]
    exact hschema
  refine Schema.accepts_requiredObject_iff.mpr ⟨p.entries, rfl, ?_, ?_⟩
  · intro name hmem
    simp only [List.mem_cons, List.not_mem_nil, or_false] at hmem
    rcases hmem with rfl | rfl | rfl
    · exact ⟨_, hkind⟩
    · exact ⟨_, htype⟩
    · exact ⟨_, hname⟩
  · intro f hf
    simp only [Schema.pipelineFields, List.mem_cons, List.not_mem_nil, or_false] at hf
    rcases hf with rfl | rfl | rfl | rfl | rfl | rfl | rfl | rfl | rfl | rfl | rfl | rfl
    · exact hsome _ _ hkind _ (Schema.accepts_const_iff.mpr h.kind)
    · exact hsome _ _ htype _ (Schema.accepts_const_iff.mpr h.type)
    · exact hsome _ _ hname _ (Schema.accepts_nonEmptyString_iff.mpr h.name)
    · exact hgiven "version" p.version (by simp [fields]) _
        (Schema.accepts_version_iff.mpr (.inl h.version))
    · exact hgiven "depends_on" p.dependsOn (by simp [fields]) _
        (Schema.accepts_stringList_iff.mpr h.dependsOn)
    · exact hgiven "node" p.node (by simp [fields]) _ (accepts_node h)
    · exact hgiven "server" (.map p.server.entries) (by simp [fields]) _ p.server.accepts_written
    · exact hgiven "workspace" (.map p.workspace.entries) (by simp [fields]) _
        (Workspace.accepts_written h.workspace)
    · exact hgiven "platform" (.map p.platform.entries) (by simp [fields]) _
        (Platform.accepts_written h.platform)
    · exact hgiven "clone" (.map p.clone.entries) (by simp [fields]) _
        (Clone.accepts_written h.clone)
    · exact hgiven "trigger" p.trigger.toValue (by simp [fields]) _ p.trigger.accepts_toValue
    · exact hsome _ _ (field?_steps h) _ (accepts_steps h)

/-- The lint rules look only at whether a variable is present. -/
theorem lint_readBack (p : Pipeline) : p.readBack.lint = p.lint := by
  have hserver : checkServer p.server.orAbsent = checkServer p.server := by
    simp only [checkServer, Server.orAbsent, Variable.isPresent_orAbsent]
  simp only [lint, readBack, hserver]

theorem wellTyped_readBack (h : p.WellTyped) : p.readBack.WellTyped :=
  { h with clone := Clone.wellTyped_wholeZero h.clone }

/-- A pipeline that was read back is written like the one it was read back from. -/
theorem toValue_readBack (h : p.WellTyped) : p.readBack.toValue = p.toValue := by
  have hentries : p.readBack.entries = p.entries := by
    simp only [entries, fields, stepValues, readBack, Server.entries_orAbsent,
      Clone.entries_wholeZero]
  rw [toValue_eq (wellTyped_readBack h), toValue_eq h, hentries]

/-! ### Equality -/

/-- A pipeline without the empty variables of its server. -/
def withoutEmpty (p : Pipeline) : Pipeline := { p with server := p.server.orAbsent }

theorem equalNodes_self (h : p.WellTyped) : equalNodes p.node p.node = true := by
  obtain ⟨es, hes, hentries⟩ := h.node
  simp only [hes, equalNodes, decide_true, Bool.true_and, List.all_eq_true]
  intro e he
  obtain ⟨hkey, htext⟩ := hentries e he
  refine List.any_eq_true.mpr ⟨e, he, ?_⟩
  rw [Value.sameKey_self hkey, htext.equal_self]
  rfl

theorem equalSteps_self {ss : List Step} (h : ∀ s ∈ ss, s.WellTyped) : equalSteps ss ss = true := by
  induction ss with
  | nil => rfl
  | cons s ss ih =>
    rw [equalSteps, Step.equal_self (h s List.mem_cons_self),
      ih fun t ht => h t (List.mem_cons_of_mem _ ht)]
    rfl

/-- A pipeline that was read back differs at most in its server from the one that was written. -/
theorem readBack_equal_server_iff (h : p.WellTyped) (s : Server) :
    p.readBack.equal { p with server := s } = true ↔ p.server.orAbsent = s := by
  obtain ⟨name, hname, -⟩ := h.name
  have hnameEqual : p.name.equal p.name = true := by
    rw [hname]
    exact Value.equal_str_self name
  have hkindEqual : p.kind.equal p.kind = true := by
    rw [h.kind]
    exact Value.equal_str_self _
  have htypeEqual : p.type.equal p.type = true := by
    rw [h.type]
    exact Value.equal_str_self _
  simp only [equal, readBack, hkindEqual, htypeEqual, hnameEqual, h.version.equal_self,
    h.dependsOn.equal_self, equalNodes_self h, Workspace.equal_self h.workspace,
    Platform.equal_self h.platform, Clone.wholeZero_equal h.clone, equalSteps_self h.steps,
    decide_true, Bool.and_true, Bool.true_and]
  exact decide_eq_true_iff

/-- Without its empty variables a pipeline is equal to what it is read back as. -/
theorem readBack_equal_withoutEmpty (h : p.WellTyped) :
    p.readBack.equal p.withoutEmpty = true :=
  (readBack_equal_server_iff h _).mpr rfl

/-- A pipeline is equal to what it is read back as if no variable of its server is empty. -/
theorem readBack_equal_iff (h : p.WellTyped) :
    p.readBack.equal p = true
      ↔ ∀ f ∈ p.server.fields, f.2 ≠ .literal "" ∧ f.2 ≠ .secret "" :=
  (readBack_equal_server_iff h p.server).trans Server.orAbsent_eq_self_iff

end PipelineManifest.Pipeline
