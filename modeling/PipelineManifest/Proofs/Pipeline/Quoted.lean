import PipelineManifest.Proofs.Yaml.Parts

/-!
# `PipelineManifest.Proofs.Pipeline.Quoted`: documents whose spelled scalars are in quotes

Some fields of a pipeline keep the spelling of their scalars: the version, the node, the platform,
the server, and the environments of steps. Nothing is lost when these scalars are put in quotes,
which makes texts of them; only null has no quotes. The keys of the node and of the environments
belong to what is spelled.

* `Layout.quoted`: a document with these scalars in quotes.
* `Layout.spelled`: its data. In it these scalars are the texts that are written in the file.
* `Layout.keysAgree`: whether the keys of the node and of the environments are the same keys as they
  are written exactly when they stand for the same.
* `Layout.field?_mapEntries`, `Layout.eq_map_of_data_mapEntries`: what the quoted sections hold.
-/

set_option autoImplicit false

namespace PipelineManifest.Yaml

namespace Written

/-- A scalar in quotes, which is a text; null is left as it is. -/
def quote (w : Written) : Written := if w.tag = .null then w else ⟨.text, w.text⟩

/-- What a scalar in quotes stands for is its spelling. -/
theorem resolve_quote (w : Written) : w.quote.resolve = w.spell := by
  rw [quote, spell]
  split
  · rename_i h
    rw [resolve, h]
    rfl
  · rfl

/-- A scalar is put in quotes once. -/
theorem quote_quote (w : Written) : w.quote.quote = w.quote := by
  by_cases h : w.tag = .null
  · have hw : w.quote = w := if_pos h
    rw [hw, hw]
  · have hw : w.quote = ⟨.text, w.text⟩ := if_neg h
    rw [hw]
    rfl

theorem isUntagged_quote {w : Written} (h : w.isUntagged = true) : w.quote.isUntagged = true := by
  rw [quote]
  split
  · exact h
  · rfl

theorem eq_of_isField {w : Written} {name : String} (h : w.isField name = true) :
    w = ⟨.text, name⟩ := by
  obtain ⟨tag, text⟩ := w
  rw [isField, Bool.and_eq_true, decide_eq_true_eq, decide_eq_true_eq] at h
  obtain ⟨rfl, rfl⟩ := h
  rfl

end Written

namespace Layout

/-! ### Quoting -/

/-- A scalar in quotes; containers are left as they are. -/
def quoteScalar : Layout → Layout
  | scalar w => scalar w.quote
  | ℓ => ℓ

/-- The entries of a mapping with their keys changed by `key`, and with their values, taken out,
changed by `value`. -/
def changedEntries (key : Written → Written) (value : Written → Layout → Layout)
    (entries : List (Written × Layout)) : List (Written × Layout) :=
  entries.map fun e => (key e.1, value e.1 (part entries e))

/-- A mapping with changed entries. -/
def mapEntries (key : Written → Written) (value : Written → Layout → Layout) : Layout → Layout
  | map entries => map (changedEntries key value entries)
  | ℓ => ℓ

/-- A section with its values in quotes. -/
def quotedSection : Layout → Layout := mapEntries id fun _ p => p.quoteScalar

/-- A section with its keys and its values in quotes. -/
def quotedTable : Layout → Layout := mapEntries Written.quote fun _ p => p.quoteScalar

/-- A field of a step with what is spelled in it in quotes. -/
def quotedStepField (w : Written) (p : Layout) : Layout :=
  if w.isField "environment" then p.quotedTable else p

/-- A step with what is spelled in it in quotes. -/
def quotedStep : Layout → Layout := mapEntries id quotedStepField

/-- The steps with what is spelled in them in quotes. -/
def quotedSteps : Layout → Layout
  | seq items => seq ((itemParts items).map quotedStep)
  | ℓ => ℓ

/-- A field of a pipeline with what is spelled in it in quotes. -/
def quotedField (w : Written) (p : Layout) : Layout :=
  if w.isField "version" then p.quoteScalar
  else if w.isField "node" then p.quotedTable
  else if w.isField "platform" || w.isField "server" then p.quotedSection
  else if w.isField "steps" then p.quotedSteps
  else p

/-- A document with what is spelled in it in quotes. -/
def quoted : Layout → Layout := mapEntries id quotedField

/-- The data of a document in which the spelled scalars are the texts that are written. -/
def spelled (ℓ : Layout) : Value := ℓ.quoted.data

/-! ### Keys -/

/-- Whether the keys of some entries are the same keys as they are written exactly when they stand
for the same. -/
def sameKeys (entries : List (Written × Layout)) : Bool :=
  entries.all fun e => entries.all fun f =>
    Value.sameKey e.1.resolve f.1.resolve == Value.sameKey e.1.spell f.1.spell

/-- `sameKeys` for the entries of a section, which may be left out. -/
def tableAgrees : Option Layout → Bool
  | some (map entries) => sameKeys entries
  | _ => true

/-- `sameKeys` for the environments of all steps. -/
def stepsAgree : Option Layout → Bool
  | some (seq items) => (itemParts items).all fun p => tableAgrees (p.field? "environment")
  | _ => true

/-- `sameKeys` for the node and for the environments of all steps. -/
def keysAgree (ℓ : Layout) : Bool := tableAgrees (ℓ.field? "node") && stepsAgree (ℓ.field? "steps")

/-! ### Sound layouts -/

theorem isSound_quoteScalar {ℓ : Layout} {depth : Nat} (h : ℓ.isSound depth = true) :
    ℓ.quoteScalar.isSound depth = true := by
  cases ℓ with
  | scalar w => exact Written.isUntagged_quote h
  | _ => exact h

theorem isSound_mapEntries {key : Written → Written} {value : Written → Layout → Layout}
    (hkey : ∀ w, w.isUntagged = true → (key w).isUntagged = true)
    (hvalue : ∀ w p, p.isSound 0 = true → (value w p).isSound 0 = true) {ℓ : Layout}
    (h : ℓ.isSound 0 = true) : (mapEntries key value ℓ).isSound 0 = true := by
  cases ℓ with
  | map entries =>
    rw [mapEntries, changedEntries, isSound_map_iff]
    intro f hf
    obtain ⟨e, he, rfl⟩ := List.mem_map.mp hf
    exact ⟨hkey _ (isSound_map_iff.mp h e he).1,
      isSound_of_le (Nat.zero_le 1) _ (hvalue _ _ (isSound_part h he))⟩
  | _ => exact h

theorem isSound_quotedTable {ℓ : Layout} (h : ℓ.isSound 0 = true) :
    ℓ.quotedTable.isSound 0 = true :=
  isSound_mapEntries (fun _ => Written.isUntagged_quote) (fun _ _ => isSound_quoteScalar) h

theorem isSound_quotedSection {ℓ : Layout} (h : ℓ.isSound 0 = true) :
    ℓ.quotedSection.isSound 0 = true :=
  isSound_mapEntries (fun _ hw => hw) (fun _ _ => isSound_quoteScalar) h

theorem isSound_quotedStepField {w : Written} {p : Layout} (h : p.isSound 0 = true) :
    (quotedStepField w p).isSound 0 = true := by
  rw [quotedStepField]
  split
  · exact isSound_quotedTable h
  · exact h

theorem isSound_quotedStep {ℓ : Layout} (h : ℓ.isSound 0 = true) :
    ℓ.quotedStep.isSound 0 = true :=
  isSound_mapEntries (fun _ hw => hw) (fun _ _ => isSound_quotedStepField) h

theorem isSound_quotedSteps {ℓ : Layout} (h : ℓ.isSound 0 = true) :
    ℓ.quotedSteps.isSound 0 = true := by
  cases ℓ with
  | seq items =>
    rw [quotedSteps, isSound_seq_iff]
    intro q hq
    obtain ⟨p, hp, rfl⟩ := List.mem_map.mp hq
    exact isSound_of_le (Nat.zero_le 1) _ (isSound_quotedStep (isSound_of_mem_itemParts h p hp))
  | _ => exact h

theorem isSound_quotedField {w : Written} {p : Layout} (h : p.isSound 0 = true) :
    (quotedField w p).isSound 0 = true := by
  rw [quotedField]
  split
  · exact isSound_quoteScalar h
  split
  · exact isSound_quotedTable h
  split
  · exact isSound_quotedSection h
  split
  · exact isSound_quotedSteps h
  · exact h

theorem isSound_quoted {ℓ : Layout} (h : ℓ.isSound 0 = true) : ℓ.quoted.isSound 0 = true :=
  isSound_mapEntries (fun _ hw => hw) (fun _ _ => isSound_quotedField) h

/-! ### What the quoted sections hold -/

/-- The fields of a changed mapping are the changed fields. -/
theorem field?_mapEntries {value : Written → Layout → Layout}
    (hvalue : ∀ w p, p.isSound 0 = true → (value w p).isSound 0 = true) {ℓ : Layout}
    (h : ℓ.isSound 0 = true) (name : String) :
    (mapEntries id value ℓ).field? name = (ℓ.field? name).map (value ⟨.text, name⟩) := by
  cases ℓ with
  | map entries =>
    rw [mapEntries, changedEntries, field?, field?, ← List.map_reverse, List.find?_map,
      Option.map_map, Option.map_map]
    show (entries.reverse.find? fun e => e.1.isField name).map _ = _
    cases hfound : entries.reverse.find? fun e => e.1.isField name with
    | none => rfl
    | some e =>
      have he : e ∈ entries := List.mem_reverse.mp (List.mem_of_find?_eq_some hfound)
      have hname : e.1.isField name = true := by simpa using List.find?_some hfound
      have hsound := hvalue e.1 _ (isSound_part h he)
      rw [Option.map_some, Option.map_some, Function.comp_apply, Function.comp_apply,
        part_of_isSound _ hsound, Written.eq_of_isField hname]
  | _ => rfl

theorem itemParts_quotedSteps {items : List Layout} (h : (seq items).isSound 0 = true) :
    itemParts ((itemParts items).map quotedStep) = (itemParts items).map quotedStep := by
  refine itemParts_of_isSound fun q hq => ?_
  obtain ⟨p, hp, rfl⟩ := List.mem_map.mp hq
  exact isSound_quotedStep (isSound_of_mem_itemParts h p hp)

/-! ### Quoting twice -/

theorem quoteScalar_quoteScalar (p : Layout) : p.quoteScalar.quoteScalar = p.quoteScalar := by
  cases p with
  | scalar w => exact congrArg scalar w.quote_quote
  | _ => rfl

/-- A change of the entries that does nothing more the second time, on keys and on parts. -/
theorem mapEntries_mapEntries {key : Written → Written} {value : Written → Layout → Layout}
    (hkey : ∀ w, key (key w) = key w)
    (hsound : ∀ w p, p.isSound 0 = true → (value w p).isSound 0 = true)
    (hvalue : ∀ w p, p.isSound 0 = true → value (key w) (value w p) = value w p) {ℓ : Layout}
    (h : ℓ.isSound 0 = true) :
    mapEntries key value (mapEntries key value ℓ) = mapEntries key value ℓ := by
  cases ℓ with
  | map entries =>
    rw [mapEntries, mapEntries, changedEntries, changedEntries, List.map_map]
    refine congrArg map (List.map_congr_left fun e he => ?_)
    have hp := isSound_part h he
    have hpart := part_of_isSound (changedEntries key value entries)
      (e := (key e.1, value e.1 (part entries e))) (hsound e.1 _ hp)
    rw [changedEntries] at hpart
    rw [Function.comp_apply, hkey, hpart, hvalue e.1 _ hp]
  | _ => rfl

theorem quotedTable_quotedTable {p : Layout} (h : p.isSound 0 = true) :
    p.quotedTable.quotedTable = p.quotedTable :=
  mapEntries_mapEntries Written.quote_quote (fun _ _ => isSound_quoteScalar)
    (fun _ p _ => quoteScalar_quoteScalar p) h

theorem quotedSection_quotedSection {p : Layout} (h : p.isSound 0 = true) :
    p.quotedSection.quotedSection = p.quotedSection :=
  mapEntries_mapEntries (fun _ => rfl) (fun _ _ => isSound_quoteScalar)
    (fun _ p _ => quoteScalar_quoteScalar p) h

theorem quotedStepField_quotedStepField (w : Written) {p : Layout} (h : p.isSound 0 = true) :
    quotedStepField w (quotedStepField w p) = quotedStepField w p := by
  rw [quotedStepField, quotedStepField]
  split
  · exact quotedTable_quotedTable h
  · rfl

theorem quotedStep_quotedStep {p : Layout} (h : p.isSound 0 = true) :
    p.quotedStep.quotedStep = p.quotedStep :=
  mapEntries_mapEntries (fun _ => rfl) (fun _ _ => isSound_quotedStepField)
    (fun w _ => quotedStepField_quotedStepField w) h

theorem quotedSteps_quotedSteps {p : Layout} (h : p.isSound 0 = true) :
    p.quotedSteps.quotedSteps = p.quotedSteps := by
  cases p with
  | seq items =>
    rw [quotedSteps, quotedSteps, itemParts_quotedSteps h, List.map_map]
    refine congrArg seq (List.map_congr_left fun q hq => ?_)
    exact quotedStep_quotedStep (isSound_of_mem_itemParts h q hq)
  | _ => rfl

theorem quotedField_quotedField (w : Written) {p : Layout} (h : p.isSound 0 = true) :
    quotedField w (quotedField w p) = quotedField w p := by
  simp only [quotedField]
  split
  · exact quoteScalar_quoteScalar p
  split
  · exact quotedTable_quotedTable h
  split
  · exact quotedSection_quotedSection h
  split
  · exact quotedSteps_quotedSteps h
  · rfl

/-- What is in quotes is not put in quotes again. -/
theorem quoted_quoted {ℓ : Layout} (h : ℓ.isSound 0 = true) : ℓ.quoted.quoted = ℓ.quoted :=
  mapEntries_mapEntries (fun _ => rfl) (fun _ _ => isSound_quotedField)
    (fun w _ => quotedField_quotedField w) h

/-! ### Readings -/

/-- The entries of the data of a mapping. -/
def dataEntries (entries : List (Written × Layout)) : List (Value × Value) :=
  Value.ofEntries (readEntries Written.resolve entries)

/-- The entries of the source of a mapping. -/
def sourceEntries (entries : List (Written × Layout)) : List (Value × Value) :=
  Value.ofEntries (readEntries Written.spell entries)

theorem data_map (entries : List (Written × Layout)) :
    (map entries).data = .map (dataEntries entries) := rfl

theorem source_map (entries : List (Written × Layout)) :
    (map entries).source = .map (sourceEntries entries) := rfl

theorem data_seq (ℓs : List Layout) : (seq ℓs).data = .seq (readItems Written.resolve ℓs) := rfl

theorem source_seq (ℓs : List Layout) : (seq ℓs).source = .seq (readItems Written.spell ℓs) := rfl

theorem items_data (ℓs : List Layout) :
    Value.items (readItems Written.resolve ℓs) = (itemParts ℓs).map data :=
  items_read Written.isScalar_resolve ℓs

theorem items_source (ℓs : List Layout) :
    Value.items (readItems Written.spell ℓs) = (itemParts ℓs).map source :=
  items_read Written.isScalar_spell ℓs

theorem isWellFormed_data (ℓ : Layout) : ℓ.data.isWellFormed = true :=
  isWellFormed_read Written.isScalar_resolve ℓ

/-- Only a mapping is read as a mapping. -/
theorem eq_map_of_data {ℓ : Layout} {es : List (Value × Value)} (h : ℓ.data = .map es) :
    ∃ entries, ℓ = map entries ∧ es = dataEntries entries := by
  cases ℓ with
  | scalar w =>
    have hw := w.isScalar_resolve
    rw [show w.resolve = .map es from h] at hw
    cases hw
  | seq items => cases h
  | map entries => exact ⟨entries, rfl, (Value.map.inj h).symm⟩
  | back n => cases h

/-- Only a sequence is read as a sequence. -/
theorem eq_seq_of_data {ℓ : Layout} {vs : List Value} (h : ℓ.data = .seq vs) :
    ∃ items, ℓ = seq items ∧ vs = readItems Written.resolve items := by
  cases ℓ with
  | scalar w =>
    have hw := w.isScalar_resolve
    rw [show w.resolve = .seq vs from h] at hw
    cases hw
  | seq items => exact ⟨items, rfl, (Value.seq.inj h).symm⟩
  | map entries => cases h
  | back n => cases h

/-- What is no container is read from a scalar. -/
theorem eq_scalar_of_data {ℓ : Layout} (h : ℓ.data.isScalar = true) : ∃ w, ℓ = scalar w := by
  cases ℓ with
  | scalar w => exact ⟨w, rfl⟩
  | _ => cases h

/-- The fields of the data are the data of the fields. -/
theorem field?_data (entries : List (Written × Layout)) (name : String) :
    Value.field? name (dataEntries entries) = ((map entries).field? name).map data :=
  field?_read Written.isScalar_resolve fun e _ => e.1.sameKey_resolve name

/-- The fields of the source are the sources of the fields. -/
theorem field?_source {entries : List (Written × Layout)} (h : (map entries).isSound 0 = true)
    {name : String} (hname : Tag.ofPlain name = .text) :
    Value.field? name (sourceEntries entries) = ((map entries).field? name).map source :=
  field?_read Written.isScalar_spell fun e he =>
    Written.sameKey_spell (isSound_map_iff.mp h e he).1 hname

/-- The fields of the data of a changed mapping are the data of the changed fields. -/
theorem field?_data_changed {value : Written → Layout → Layout}
    (hvalue : ∀ w p, p.isSound 0 = true → (value w p).isSound 0 = true)
    {entries : List (Written × Layout)} (h : (map entries).isSound 0 = true) (name : String) :
    Value.field? name (dataEntries (changedEntries id value entries))
      = ((map entries).field? name).map fun p => (value ⟨.text, name⟩ p).data := by
  have hfield := field?_mapEntries hvalue h name
  rw [mapEntries] at hfield
  rw [field?_data, hfield, Option.map_map]
  rfl

/-- Only a mapping has changed entries. -/
theorem eq_map_of_data_mapEntries {key : Written → Written} {value : Written → Layout → Layout}
    {ℓ : Layout} {es : List (Value × Value)} (h : (mapEntries key value ℓ).data = .map es) :
    ∃ entries, ℓ = map entries ∧ es = dataEntries (changedEntries key value entries) := by
  cases ℓ with
  | map entries => exact ⟨entries, rfl, (Value.map.inj h).symm⟩
  | _ =>
    obtain ⟨entries, heq, -⟩ := eq_map_of_data h
    cases heq

/-- The parts of a mapping that are left when its entries are entered under the spellings of their
keys. -/
def leftParts (entries : List (Written × Layout)) : List (Value × Layout) :=
  Value.ofEntries (entries.map fun e => (e.1.spell, part entries e))

theorem isSound_of_mem_leftParts {entries : List (Written × Layout)}
    (h : (map entries).isSound 0 = true) : ∀ e ∈ leftParts entries, e.2.isSound 0 = true := by
  intro e he
  obtain ⟨-, f, hf, heq⟩ := Value.mem_of_mem_ofEntries he
  obtain ⟨x, hx, rfl⟩ := List.mem_map.mp hf
  rw [← heq]
  exact isSound_part h hx

/-- The entries of the source are those that are left. -/
theorem entries_source (entries : List (Written × Layout)) :
    Value.entries (sourceEntries entries)
      = (leftParts entries).map fun e => (e.1, e.2.source) := by
  rw [sourceEntries, entries_read Written.isScalar_spell, leftParts, ← Value.ofEntries_map,
    List.map_map]
  rfl

/-- The entries of a quoted table are the same ones, in quotes. -/
theorem entries_quotedTable {entries : List (Written × Layout)}
    (h : (map entries).isSound 0 = true) :
    Value.entries (dataEntries (changedEntries Written.quote (fun _ p => p.quoteScalar) entries))
      = (leftParts entries).map fun e => (e.1, e.2.quoteScalar.data) := by
  rw [dataEntries, entries_read Written.isScalar_resolve, changedEntries, leftParts,
    ← Value.ofEntries_map fun p : Layout => p.quoteScalar.data, List.map_map, List.map_map]
  refine congrArg Value.ofEntries (List.map_congr_left fun e he => ?_)
  rw [Function.comp_apply, Function.comp_apply, Written.resolve_quote,
    part_of_isSound _ (isSound_quoteScalar (isSound_part h he))]
  rfl

/-- Where the keys agree, the entries that are left are also those of the data. -/
theorem mem_entries_data {entries : List (Written × Layout)} (h : sameKeys entries = true) :
    ∀ e ∈ leftParts entries, ∃ k, (k, e.2.data) ∈ Value.entries (dataEntries entries) := by
  have hsame : ∀ e ∈ entries, ∀ f ∈ entries,
      Value.sameKey e.1.resolve f.1.resolve = Value.sameKey e.1.spell f.1.spell := by
    simpa [sameKeys] using h
  intro e he
  rw [leftParts, Value.ofEntries_eq_map_kept (fun e : Written × Layout => e.1.spell),
    ← Value.kept_congr hsame] at he
  obtain ⟨p, hp, rfl⟩ := List.mem_map.mp he
  refine ⟨p.1.1.resolve, ?_⟩
  rw [dataEntries, entries_read Written.isScalar_resolve,
    Value.ofEntries_eq_map_kept (fun e : Written × Layout => e.1.resolve)]
  exact List.mem_map.mpr ⟨p, hp, rfl⟩

end Layout

end PipelineManifest.Yaml
