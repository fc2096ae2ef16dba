import PipelineManifest.Proofs.Pipeline.AsWritten
import PipelineManifest.Proofs.Pipeline.Fields
import PipelineManifest.Proofs.Yaml.Sourced
import PipelineManifest.Proofs.Yaml.Untagged

/-!
# `PipelineManifest.Proofs.Spelling`: pipelines keep the spelling of their texts

A document is read twice, as data and as source, and the decoder of pipelines reads from both. It
reads the same pipeline from the data alone, if the spelled scalars of the document are put in
quotes first. So what the two searches of the graph find fits together, through merge entries,
anchors and keys that are given twice, and a scalar such as `0123` or `yes` needs no quotes where a
text is meant.

* `decode_sourced`: a pipeline is decoded from data and source as from the spelled document.
-/

set_option autoImplicit false

namespace PipelineManifest

open Yaml (ComposeState Graph Layout NodeId SourcedValue composeDocument)

/-- The data and the source of a document without explicit tags are the readings of its layout. -/
theorem readings_of_sourced {g : Graph} {root : NodeId} {v : SourcedValue} {ℓ : Layout}
    (hg : g.IsUntagged) (hv : g.sourced root = .ok v) (hℓ : g.layout root = .ok ℓ) :
    ℓ.isSound 0 = true ∧ v.data = ℓ.data ∧ v.source = ℓ.source := by
  obtain ⟨ℓ', hℓ', hread⟩ := Graph.sourced_eq_read hg hv
  have heq : ℓ' = ℓ := Except.ok.inj (hℓ'.symm.trans hℓ)
  rw [← heq]
  exact hread

/-- Take a document without explicit tags whose data the schema accepts, and in whose node and
environments two keys are the same exactly when they are spelled in the same way. Then the schema
accepts the spelled document, and the same pipeline is decoded from data and source as from the
spelled document alone. Each of its fields is read from one field of data or source, the spelled
ones as they are written. So if the data alone is decoded, which takes numbers that are not too long
to be written, the pipeline is the one of the data with its spelled fields as they are written. The
document with all spelled scalars in quotes has this pipeline too, and so has every document that
differs only in which of them are in quotes. -/
theorem decode_sourced {g : Graph} {root : NodeId} {v : SourcedValue} {ℓ : Layout}
    (hg : g.IsUntagged) (hv : g.sourced root = .ok v) (hℓ : g.layout root = .ok ℓ)
    (hkeys : ℓ.keysAgree = true) (h : Schema.report Schema.pipeline v.data = []) :
    v.data = ℓ.data ∧ v.source = ℓ.source ∧
    Schema.report Schema.pipeline ℓ.spelled = [] ∧
    ∃ p, Pipeline.decode v.data v.source = .ok p ∧
      Pipeline.decode ℓ.spelled .null = .ok p ∧
      (∃ es fs, v.data = .map es ∧ v.source = .map fs ∧ p.Reads es fs) ∧
      p = p.asWritten ℓ ∧
      (∀ p₀, Pipeline.decode v.data .null = .ok p₀ → p = p₀.asWritten ℓ) ∧
      Pipeline.decode ℓ.quoted.data ℓ.quoted.source = .ok p ∧
      ∀ {g' : Graph} {root' : NodeId} {v' : SourcedValue} {ℓ' : Layout},
        g'.IsUntagged → g'.sourced root' = .ok v' → g'.layout root' = .ok ℓ' →
        ℓ'.quoted = ℓ.quoted → Pipeline.decode v'.data v'.source = .ok p := by
  obtain ⟨hsound, hdata, hsource⟩ := readings_of_sourced hg hv hℓ
  rw [Schema.report_eq_nil_iff, hdata] at h
  have hspelled := Layout.accepts_quoted hsound hkeys h
  obtain ⟨p, hp, hsame⟩ := Layout.decode_asWritten hsound hkeys h
  have hone : Pipeline.decode ℓ.spelled .null = .ok (p.asWritten ℓ) :=
    (Layout.decode_quoted hsound hspelled).symm.trans hp
  -- What is the same in quotes is the same pipeline.
  have hquotes : ∀ ℓ' : Layout, ℓ'.isSound 0 = true → ℓ'.quoted = ℓ.quoted →
      Pipeline.decode ℓ'.data ℓ'.source = .ok (p.asWritten ℓ) := by
    intro ℓ' hsound' hquoted
    have hsame : ℓ'.spelled = ℓ.spelled := congrArg Layout.data hquoted
    rw [Layout.decode_quoted hsound' (hsame ▸ hspelled), hsame]
    exact hone
  obtain ⟨es, fs, hes, hfs, reads⟩ := Pipeline.reads_of_decode hp
  rw [hdata, hsource]
  refine ⟨rfl, rfl, (Schema.report_eq_nil_iff _ _).mpr hspelled, p.asWritten ℓ, hp, hone,
    ⟨es, fs, hes, ?_, reads⟩, (Layout.asWritten_asWritten p ℓ).symm,
    fun p₀ hp₀ => (hsame p₀ hp₀).symm,
    hquotes ℓ.quoted (Layout.isSound_quoted hsound) (Layout.quoted_quoted hsound), ?_⟩
  · obtain ⟨entries, rfl, -⟩ := Layout.eq_map_of_data hes
    exact hfs
  · intro g' root' v' ℓ' hg' hv' hℓ' hquoted
    obtain ⟨hsound', hdata', hsource'⟩ := readings_of_sourced hg' hv' hℓ'
    rw [hdata', hsource']
    exact hquotes ℓ' hsound' hquoted

/-- A pipeline whose texts are not in quotes, although they have the forms of numbers and booleans.
The environment of its step takes an entry from elsewhere. -/
def unquotedText : String := String.intercalate "\n" [
  "kind: pipeline",
  "type: ssh",
  "name: build",
  "version: 1.10",
  "node: \x7b010: no\x7d",
  "server: \x7bhost: h, user: u, password: 0123\x7d",
  "shared: &shared \x7bMASK: 0x1F\x7d",
  "steps:",
  "- name: test",
  "  environment: \x7b<<: *shared, VERBOSE: yes\x7d"]

theorem decode_sourced_unquoted :
    ∃ s v p, composeDocument true (ComposeState.start unquotedText) = .ok (some 0, s) ∧
      s.graph.sourced 0 = .ok v ∧ Pipeline.decode v.data v.source = .ok p ∧
      p.version = .str "1.10" ∧ p.server.password = .literal "0123" := by
  have hrun : ((ComposeState.start unquotedText).tokens.all (!·.isTag) &&
      (composeDocument true (ComposeState.start unquotedText)).toOption.any fun r =>
        r.1 = some 0 &&
        (r.2.graph.sourced 0).toOption.any (fun v =>
          (Schema.report Schema.pipeline v.data).isEmpty) &&
        (r.2.graph.layout 0).toOption.any fun ℓ =>
          ℓ.keysAgree && ℓ.textAt "version" = "1.10"
            && (ℓ.sectionAt "server").variableAt "password" = .literal "0123") = true := by
    decide +kernel
  rw [Bool.and_eq_true] at hrun
  obtain ⟨⟨root?, s⟩, hcompose, hfound⟩ := Outcome.exists_of_any hrun.2
  have htokens : ∀ t ∈ (ComposeState.start unquotedText).tokens, t.isTag = false := by
    simpa using hrun.1
  simp only [Bool.and_eq_true, decide_eq_true_eq] at hfound
  obtain ⟨⟨rfl, hsourced⟩, hlayout⟩ := hfound
  obtain ⟨v, hv, hreport⟩ := Outcome.exists_of_any hsourced
  obtain ⟨ℓ, hℓ, hfacts⟩ := Outcome.exists_of_any hlayout
  simp only [Bool.and_eq_true, decide_eq_true_eq] at hfacts
  obtain ⟨⟨hkeys, hversion⟩, hpassword⟩ := hfacts
  obtain ⟨hs, -⟩ := Yaml.keeps_composeDocument true _ _ s
    ⟨htokens, Graph.IsUntagged.empty⟩ hcompose
  obtain ⟨-, -, -, p, hp, -, -, heq, -⟩ :=
    decode_sourced hs.graph hv hℓ hkeys (List.isEmpty_iff.mp hreport)
  refine ⟨s, v, p, hcompose, hv, hp, ?_, ?_⟩
  · rw [heq, ← hversion]
    rfl
  · rw [heq, ← hpassword]
    rfl

end PipelineManifest
