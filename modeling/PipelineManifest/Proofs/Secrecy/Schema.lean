import PipelineManifest.Proofs.Schema.Rules
import PipelineManifest.Proofs.Secrecy.Agreement
import PipelineManifest.Schema.Manifest

/-!
# `PipelineManifest.Proofs.Secrecy.Schema`: messages of a schema say nothing of credentials

The message about a broken rule may show the value that breaks it in full. A schema overlooks a
difference between two values if it reports the same about both. A rule about a container overlooks
every difference inside the parts of the container that the schema of the part overlooks: the
container itself is shown only if it is of the wrong type, and then the two values are the same. A
credential keeps the schema of its place, whatever it is.

* `Rule.Overlooks`, `Schema.Overlooks`: the same is reported about related values.
* `overlooks_properties`, `overlooks_items` and so on: the rules about containers.
* `overlooks_pipeline`, `overlooks_secret`: what differs between documents that agree is
  overlooked.
* `Overlooks.check`: then the check of both documents comes out alike, message by message.
-/

set_option autoImplicit false

namespace PipelineManifest

open Value (AtFields EntriesAgree ItemsAgree MapsAgree Swappable)

/-- A rule is broken in the same places, with the same messages, by values that are related. -/
def Rule.Overlooks (r : Rule) (R : Value → Value → Prop) : Prop :=
  ∀ v w, R v w → Schema.ruleViolations r v = Schema.ruleViolations r w

namespace Schema

/-- The same violations are found in values that are related. -/
def Overlooks (schema : Schema) (R : Value → Value → Prop) : Prop :=
  ∀ v w, R v w → violations schema v = violations schema w

section

variable {schema : Schema} {R : Value → Value → Prop} {S : Value → Value → Value → Prop}

theorem overlooks_of_rules (h : ∀ r ∈ schema, r.Overlooks R) : Overlooks schema R := by
  intro v w hvw
  induction schema with
  | nil => rfl
  | cons r rs ih =>
    obtain ⟨hr, hrs⟩ := List.forall_mem_cons.mp h
    rw [violations, violations, hr v w hvw, ih hrs]

/-- Values that all keep the schema break no rule. -/
theorem overlooks_swappable {P : Value → Prop} (h : ∀ v, P v → accepts schema v = true) :
    Overlooks schema (Swappable P) := by
  rintro v w (rfl | ⟨hv, hw⟩)
  · rfl
  · rw [List.isEmpty_iff.mp (h v hv), List.isEmpty_iff.mp (h w hw)]

/-! ### Rules about mappings -/

/-- For a rule about mappings only mappings need a look. -/
theorem overlooks_of_maps {r : Rule}
    (h : ∀ es fs, EntriesAgree S (Value.entries es) (Value.entries fs) →
      ruleViolations r (.map es) = ruleViolations r (.map fs)) : r.Overlooks (MapsAgree S) := by
  intro v w hvw
  cases hvw with
  | same v => rfl
  | map hes => exact h _ _ hes

theorem overlooks_objectType {types : List SchemaType} (h : .object ∈ types) :
    (Rule.type types).Overlooks (MapsAgree S) := by
  refine overlooks_of_maps fun es fs _ => ?_
  have hholds : ∀ gs, (types.any (·.holds (.map gs))) = true := fun gs =>
    List.any_eq_true.mpr ⟨.object, h, rfl⟩
  rw [ruleViolations, ruleViolations, if_pos (hholds es), if_pos (hholds fs)]

theorem overlooks_required (names : List String) :
    (Rule.required names).Overlooks (MapsAgree S) := by
  refine overlooks_of_maps fun es fs h => ?_
  -- A required field is missed by its key, and keys are the same on both sides.
  have hfield : ∀ name, Value.hasField name es = Value.hasField name fs := fun name => by
    have hkeys := congrArg (List.any · fun k => Value.sameKey k (.str name))
      (Value.keys_of_entriesAgree h)
    rwa [List.any_map, List.any_map] at hkeys
  simp only [ruleViolations, hfield]

theorem keys_otherEntries (known : List String) (es : List (Value × Value)) :
    (otherEntries known es).map Prod.fst
      = (es.map Prod.fst).filter fun k => !known.any fun name => Value.sameKey k (.str name) := by
  rw [otherEntries, List.filter_map]
  rfl

/-- Of fields that must not be there the keys are shown. -/
theorem overlooks_noOthers (known : List String) :
    (Rule.noOthers known).Overlooks (MapsAgree S) := by
  refine overlooks_of_maps fun es fs h => ?_
  have hkeys : (otherEntries known es).map Prod.fst = (otherEntries known fs).map Prod.fst := by
    rw [keys_otherEntries, keys_otherEntries, Value.keys_of_entriesAgree h]
  have hempty := isEmpty_eq_of_length_eq (by simpa using congrArg List.length hkeys)
  simp only [ruleViolations, hempty, hkeys]

theorem overlooks_properties {fields : List (String × Schema)}
    (h : ∀ f ∈ fields, Overlooks f.2 (S (.str f.1))) :
    (Rule.properties fields).Overlooks (MapsAgree S) := by
  refine overlooks_of_maps fun es fs hes => ?_
  show fieldViolations fields es = fieldViolations fields fs
  induction fields with
  | nil => rfl
  | cons f fields ih =>
    obtain ⟨name, schema⟩ := f
    obtain ⟨hname, hfields⟩ := List.forall_mem_cons.mp h
    rw [fieldViolations, fieldViolations, ih hfields]
    have hget := hes.lookup? name
    rw [Value.field?, Value.field?]
    -- Either the field is missing in both mappings, or its two values are related.
    revert hget
    generalize Value.lookup? (.str name) (Value.entries es) = o,
      Value.lookup? (.str name) (Value.entries fs) = o'
    intro hget
    cases hget with
    | none => rfl
    | some hvw => simp only [hname _ _ hvw]

/-- The same where all fields but some are the same. -/
theorem overlooks_properties_atFields {fields : List (String × Schema)}
    {places : List (String × (Value → Value → Prop))}
    (h : ∀ g ∈ places, ∀ f ∈ fields, f.1 = g.1 → Overlooks f.2 g.2) :
    (Rule.properties fields).Overlooks (MapsAgree (AtFields places)) := by
  refine overlooks_properties fun f hf => ?_
  rintro v w (rfl | ⟨g, hg, hkey, hvw⟩)
  · rfl
  · exact h g hg f hf (Value.str.inj hkey) v w hvw

theorem overlooks_others (known : List String) (h : ∀ k, Overlooks schema (S k)) :
    (Rule.others known schema).Overlooks (MapsAgree S) := by
  refine overlooks_of_maps fun es fs hes => ?_
  rw [ruleViolations, ruleViolations, otherEntries, otherEntries]
  revert hes
  generalize Value.entries es = es, Value.entries fs = fs
  intro hes
  -- Which entries are looked at is a matter of their keys.
  induction hes with
  | nil => rfl
  | @cons e f es fs hef _ ih =>
    obtain ⟨hkey, hvw⟩ := hef
    rw [List.filter_cons, List.filter_cons, ← hkey]
    split
    · rw [List.flatMap_cons, List.flatMap_cons, ih, h _ _ _ hvw, hkey]
    · exact ih

/-! ### Rules about sequences -/

theorem overlooks_of_seqs {r : Rule}
    (h : ∀ vs ws, List.Forall₂ R (Value.items vs) (Value.items ws) →
      ruleViolations r (.seq vs) = ruleViolations r (.seq ws)) : r.Overlooks (ItemsAgree R) := by
  intro v w hvw
  cases hvw with
  | same v => rfl
  | seq hvs => exact h _ _ hvs

theorem overlooks_arrayType : (Rule.type [.array]).Overlooks (ItemsAgree R) :=
  overlooks_of_seqs fun _ _ _ => rfl

theorem overlooks_items (h : Overlooks schema R) :
    (Rule.items schema).Overlooks (ItemsAgree R) := by
  refine overlooks_of_seqs fun vs ws hvs => ?_
  have hfrom : ∀ {vs ws : List Value} (i : Nat), List.Forall₂ R vs ws →
      (vs.zipIdx i).flatMap (fun p =>
          (violations schema p.1).map (SchemaViolation.under (.int p.2)))
        = (ws.zipIdx i).flatMap fun p =>
          (violations schema p.1).map (SchemaViolation.under (.int p.2)) := by
    intro vs ws i hvs
    induction hvs generalizing i with
    | nil => rfl
    | cons hvw _ ih =>
      rw [List.zipIdx_cons, List.zipIdx_cons, List.flatMap_cons, List.flatMap_cons, ih,
        h _ _ hvw]
  exact hfrom 0 hvs

end

/-! ### The schemas of documents -/

/-- A variable may be any plain value. -/
theorem accepts_variableValue_of_isPlain {v : Value} (h : v.IsPlain) :
    accepts variableValue v = true := by
  cases v <;> first | rfl | exact h.elim

theorem overlooks_server : Overlooks server Value.ServersAgree := by
  -- The password and the key are the only fields that can differ, and their schema takes both.
  have hvalue : Overlooks variableValue (Swappable Value.IsCredential) :=
    overlooks_swappable fun v hv => accepts_variableValue_of_isPlain hv.1
  refine overlooks_of_rules ?_
  simp only [server, List.forall_mem_cons]
  refine ⟨overlooks_objectType (by simp), overlooks_properties_atFields ?_,
    overlooks_noOthers _, by simp⟩
  simp [hvalue]

/-- Any plain value may stand in an environment. -/
theorem overlooks_environment :
    Overlooks [.type [.object], .others [] variableValue] Value.EnvironmentsAgree := by
  have hvalue : Overlooks variableValue (Swappable Value.IsPlain) :=
    overlooks_swappable fun _ hv => accepts_variableValue_of_isPlain hv
  refine overlooks_of_rules ?_
  simp only [List.forall_mem_cons]
  exact ⟨overlooks_objectType (by simp), overlooks_others [] fun _ => hvalue, by simp⟩

theorem overlooks_step : Overlooks step Value.StepsAgree := by
  refine overlooks_of_rules ?_
  simp only [step, List.forall_mem_cons]
  refine ⟨overlooks_objectType (by simp), overlooks_properties_atFields ?_, by simp⟩
  simp [overlooks_environment]

theorem overlooks_steps :
    Overlooks [.type [.array], .items step] (ItemsAgree Value.StepsAgree) := by
  refine overlooks_of_rules ?_
  simp only [List.forall_mem_cons]
  exact ⟨overlooks_arrayType, overlooks_items overlooks_step, by simp⟩

theorem overlooks_pipeline : Overlooks pipeline Value.PipelinesAgree := by
  refine overlooks_of_rules ?_
  simp only [pipeline, List.forall_mem_cons]
  refine ⟨overlooks_objectType (by simp), overlooks_required _,
    overlooks_properties_atFields ?_, by simp⟩
  simp [pipelineFields, overlooks_server, overlooks_steps]

theorem overlooks_secret : Overlooks secret Value.SecretsAgree := by
  have hvalue : Overlooks string (Swappable fun v => ∃ s, v = .str s) :=
    overlooks_swappable fun v ⟨s, hs⟩ => by
      rw [hs]
      rfl
  refine overlooks_of_rules ?_
  simp only [secret, List.forall_mem_cons]
  refine ⟨overlooks_objectType (by simp), overlooks_required _,
    overlooks_properties_atFields ?_, by simp⟩
  simp [hvalue]

/-- What a schema overlooks does not show in a check: neither in the messages nor in whether they
can be written. -/
theorem Overlooks.check {schema : Schema} {R : Value → Value → Prop} {v w : Value}
    (h : Overlooks schema R) (hvw : R v w) (place : String) :
    check schema v place = check schema w place := by
  rw [Schema.check, Schema.check, isReportable, isReportable, report, report, sortedViolations,
    sortedViolations, h v w hvw]

end Schema

end PipelineManifest
