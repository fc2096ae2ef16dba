import Mathlib.Data.List.TakeWhile
import PipelineManifest.Proofs.Yaml.Mirror
import PipelineManifest.Proofs.Yaml.Scanning

/-!
# `PipelineManifest.Proofs.Yaml.Defects`: how reading an untagged document fails

A scalar without a tag is read in the way that suits its form, so a number is not empty, a time has
the form of a time and a word for a boolean is one. A key that is a container comes to light when
the data is read, before the source is looked at. So both readings of a document in which no tag is
written have only defects that do not take one.

* `failsPlainly_read?`: a text is read in the way that suits its form.
* `Node.IsTidy`, `Graph.IsTidy`: documents as they come from texts without tags.
* `Heap.satisfies_explore`: how the search for containers fails.
* `Graph.IsTidy.failsPlainly_sourced`, `failsPlainly_readStream`: how a document and a text fail.
-/

set_option autoImplicit false

namespace PipelineManifest.Yaml

open Outcome (Satisfies)

/-! ### Scalars -/

/-- The words that stand for booleans by themselves are among those that are read as booleans. -/
theorem isOk_readBoolean : ∀ w ∈ booleanWords, (readBoolean w.toList).isOk = true := by
  decide

theorem failsPlainly_integerOf (n : Option Int) : FailsPlainly (integerOf n) := by
  cases n <;> trivial

/-- What stands for a whole number can have too many digits, but is not empty. -/
theorem failsPlainly_readSize {d : Char} {ds : List Char} : FailsPlainly (readSize (d :: ds)) := by
  -- The first case is the empty text, the only one whose defect takes a tag.
  rw [readSize.eq_def]
  split
  · rename_i h
    cases h
  · trivial
  · exact failsPlainly_integerOf _
  · exact failsPlainly_integerOf _
  · exact failsPlainly_integerOf _
  · split
    · refine Satisfies.bind (Outcome.satisfies_mapM (Q := fun _ => True) fun _ _ => ?_)
        fun _ _ => trivial
      exact failsPlainly_integerOf _
    · exact failsPlainly_integerOf _

theorem exists_of_isSpacedNumber {cs : List Char} (h : isSpacedNumber cs = true) :
    ∃ d ds, cs = d :: ds ∧ d.isDigit = true := by
  cases cs with
  | nil => cases h
  | cons d ds =>
    rw [isSpacedNumber, Bool.and_eq_true] at h
    exact ⟨d, ds, rfl, h.1⟩

/-- A text starts as the first of its parts, unless that is empty. -/
theorem exists_of_splitAtAll {sep d : Char} {cs ds : List Char} {parts : List (List Char)}
    (h : splitAtAll sep cs = (d :: ds) :: parts) : ∃ es, cs = d :: es := by
  cases cs with
  | nil => cases h
  | cons c cs =>
    rw [splitAtAll] at h
    split at h
    · cases h
    · split at h
      · cases h
      · cases h
        exact ⟨cs, rfl⟩

theorem exists_of_isSexagesimal {first : List Char → Bool} {cs : List Char}
    (hfirst : ∀ part, first part = true → ∃ d ds, part = d :: ds ∧ d.isDigit = true)
    (h : isSexagesimal first cs = true) : ∃ d ds, cs = d :: ds ∧ d.isDigit = true := by
  rw [isSexagesimal] at h
  split at h
  · rename_i part parts hparts
    rw [Bool.and_eq_true, Bool.and_eq_true] at h
    obtain ⟨d, ds, rfl, hd⟩ := hfirst part h.1.1
    obtain ⟨es, rfl⟩ := exists_of_splitAtAll hparts
    exact ⟨d, es, rfl, hd⟩
  · cases h

/-- What has the form of a whole number starts with a digit after its sign. -/
theorem exists_digit_of_isIntegerForm {cs : List Char} (h : isIntegerForm cs = true) :
    ∃ d ds, afterSign cs = d :: ds ∧ d.isDigit = true := by
  have hplain : ∀ part : List Char, (isSpacedNumber part && part.headD '0' ≠ '0') = true →
      ∃ d ds, part = d :: ds ∧ d.isDigit = true := fun part hpart =>
    exists_of_isSpacedNumber (Bool.and_eq_true_iff.mp hpart).1
  rw [isIntegerForm] at h
  dsimp only at h
  split at h
  · rename_i heq
    exact ⟨'0', [], heq, by decide⟩
  · rename_i rest heq
    exact ⟨'0', 'b' :: rest, heq, by decide⟩
  · rename_i rest heq
    exact ⟨'0', 'x' :: rest, heq, by decide⟩
  · rename_i rest _ _ _ heq
    exact ⟨'0', rest, heq, by decide⟩
  · rcases (Bool.or_eq_true _ _).mp h with h | h
    · exact hplain _ h
    · exact exists_of_isSexagesimal hplain h

/-- Without separators something is left of a number that starts with a digit after its sign. -/
theorem exists_of_signOf {cs : List Char} {d : Char} {ds : List Char}
    (h : afterSign cs = d :: ds) (hd : d.isDigit = true) :
    ∃ negative es, signOf (cs.filter (· ≠ '_')) = .ok (negative, d :: es) := by
  have hne : ∀ c, c.isDigit = false → d ≠ c := by
    rintro c hc rfl
    rw [hc] at hd
    cases hd
  have hkept : (d :: ds).filter (· ≠ '_') = d :: ds.filter (· ≠ '_') :=
    List.filter_cons_of_pos (decide_eq_true (hne '_' (by decide)))
  -- The sign is taken off before the separators in the form, and after them in the reading.
  rw [afterSign.eq_def] at h
  split at h
  · rw [List.filter_cons_of_pos (by decide), h, hkept]
    exact ⟨false, _, rfl⟩
  · rw [List.filter_cons_of_pos (by decide), h, hkept]
    exact ⟨true, _, rfl⟩
  · rw [h, hkept, signOf]
    refine ⟨decide (d = '-'), ds.filter (· ≠ '_'), ?_⟩
    rw [if_neg]
    simp [hne '-' (by decide), hne '+' (by decide)]

theorem failsPlainly_readInteger {cs : List Char} (h : isIntegerForm cs = true) :
    FailsPlainly (readInteger cs) := by
  obtain ⟨d, ds, hcs, hd⟩ := exists_digit_of_isIntegerForm h
  obtain ⟨negative, es, hsign⟩ := exists_of_signOf hcs hd
  rw [readInteger, hsign]
  exact Satisfies.bind failsPlainly_readSize fun _ _ => trivial

theorem failsPlainly_sexagesimalFloat (weight : Int) (sum : Number.Binary64)
    (xs : List Number.Binary64) : FailsPlainly (sexagesimalFloat weight sum xs) := by
  induction xs generalizing weight sum with
  | nil => trivial
  | cons x xs ih =>
    rw [sexagesimalFloat]
    split
    · trivial
    · exact ih _ _

theorem failsPlainly_floatOf (x : Option Number.Binary64) : FailsPlainly (floatOf x) := by
  cases x <;> trivial

theorem mem_of_mem_afterSign {cs : List Char} {c : Char} (h : c ∈ afterSign cs) : c ∈ cs := by
  rw [afterSign.eq_def] at h
  split at h
  · exact List.mem_cons_of_mem _ h
  · exact List.mem_cons_of_mem _ h
  · exact h

/-- A text that goes on after the last character before a point has a point. -/
theorem mem_of_length_takeWhile {cs : List Char} {c : Char}
    (h : (cs.takeWhile (· ≠ c)).length < cs.length) : c ∈ cs := by
  by_contra hc
  have hall : cs.takeWhile (· ≠ c) = cs := by
    rw [List.takeWhile_eq_self_iff]
    intro x hx
    rw [decide_eq_true_eq]
    rintro rfl
    exact hc hx
  rw [hall] at h
  exact absurd h (Nat.lt_irrefl _)

/-- A number is not empty if it has a point. -/
theorem failsPlainly_readFloatNumber {cs : List Char} (h : isFloatForm cs = true) :
    FailsPlainly (readFloatNumber cs) := by
  have hpoint : '.' ∈ cs := by
    rw [isFloatForm] at h
    exact mem_of_mem_afterSign (mem_of_length_takeWhile
      (of_decide_eq_true (Bool.and_eq_true_iff.mp h).1))
  -- The point is no separator, so it is left when the separators are gone.
  have hsign : FailsPlainly (signOf ((cs.filter (· ≠ '_')).map Char.toLower)) := by
    cases hrest : (cs.filter (· ≠ '_')).map Char.toLower with
    | nil =>
      have hmem : '.' ∈ cs.filter (· ≠ '_') := List.mem_filter.mpr ⟨hpoint, by decide⟩
      rw [List.map_eq_nil_iff.mp hrest] at hmem
      cases hmem
    | cons c rest => trivial
  refine hsign.bind fun (negative, cs) => ?_
  dsimp only
  split
  · trivial
  split
  · trivial
  split
  · refine Satisfies.bind (Outcome.satisfies_mapM (Q := fun _ => True) fun _ _ => ?_) fun _ _ => ?_
    · exact failsPlainly_floatOf _
    · exact (failsPlainly_sexagesimalFloat _ _ _).bind fun _ => trivial
  · exact (failsPlainly_floatOf _).bind fun _ => trivial

theorem failsPlainly_readTime {cs : List Char} (h : isTimeForm cs = true) :
    FailsPlainly (readTime cs) := by
  rw [isTimeForm] at h
  cases hform : TimeForm.ofText? cs with
  | none =>
    rw [hform] at h
    cases h
  | some form =>
    rw [readTime, hform]
    dsimp only
    split
    · split
      · trivial
      · split <;> trivial
    · trivial

/-- A text is read in the way that suits its form. A line feed at its end would not be part of the
form, but it would be read. -/
theorem failsPlainly_read? {text : String} (htext : text.toList.getLast? ≠ some '\n')
    {r : Except Defect Value} (h : (Tag.ofPlain text).read? text = some r) : FailsPlainly r := by
  have hform : dropFinalBreak text.toList = text.toList := by
    rw [dropFinalBreak, if_neg htext]
  have hword : String.ofList text.toList = text := String.ofList_toList
  rw [Tag.ofPlain] at h
  rw [hform, hword] at h
  -- One case for each form, in the order in which they are tried; the marks are not read at all.
  split at h
  · rename_i hboolean
    cases h
    -- There are so few words that all of them can be tried.
    have hok := isOk_readBoolean text (List.contains_iff_mem.mp hboolean)
    cases hread : readBoolean text.toList with
    | ok v => trivial
    | error d =>
      rw [hread] at hok
      cases hok
  split at h
  · rename_i hfloat
    cases h
    exact failsPlainly_readFloatNumber hfloat
  split at h
  · rename_i hinteger
    cases h
    exact failsPlainly_readInteger hinteger
  split at h
  · cases h
  split at h
  · cases h
    trivial
  split at h
  · rename_i htime
    cases h
    exact failsPlainly_readTime htime
  split at h
  · cases h
  · cases h
    trivial

/-! ### Tidy documents -/

/-- Whether a node is as it comes from a text without tags: a scalar is a text, or what its form
says and not followed by a line feed, and a collection is a plain one. -/
def Node.IsTidy : Node → Prop
  | .scalar tag text => tag = .text ∨ tag = Tag.ofPlain text ∧ text.toList.getLast? ≠ some '\n'
  | .sequence tag _ => tag = .sequence
  | .mapping tag _ => tag = .mapping

namespace Node.IsTidy

theorem isUntagged {n : Node} (h : n.IsTidy) : n.IsUntagged := by
  cases n with
  | scalar tag text => exact h.imp id And.left
  | sequence tag items => exact h
  | mapping tag es => exact h

theorem refines {m n : Node} (hm : m.IsTidy) (h : m.Refines n) : n.IsTidy := by
  cases h with
  | scalar ht text =>
    cases ht with
    | same => exact hm
    | named => exact .inl rfl
  | sequence ht items | mapping ht es es' =>
    cases ht with
    | same => exact hm
    | named => cases hm

/-- What a scalar stands for is read in the way that suits its form. -/
theorem failsPlainly_read? {tag : Tag} {text : String} (h : (Node.scalar tag text).IsTidy) :
    FailsPlainly ((tag.read? text).getD (.error .rejected)) := by
  rcases h with rfl | ⟨rfl, htext⟩
  · trivial
  · cases hread : (Tag.ofPlain text).read? text with
    | none => trivial
    | some r => exact Yaml.failsPlainly_read? htext hread

end Node.IsTidy

/-- What there may be in a text without tags. -/
def TextRule.tidy : TextRule where
  token t := t.isTag = false ∧ t.IsTidy
  node n := n.IsTidy
  defect d := d.IsPlain
  not_tag _ h := nomatch h.1
  scalar text plain h := by
    cases plain with
    | true => exact .inr ⟨rfl, h.2⟩
    | false => exact .inl rfl
  sequence _ := rfl
  mapping _ := rfl
  nothing := .inr ⟨rfl, by simp⟩
  unused := .inl rfl
  rejected := trivial

/-- Whether all nodes of a document are as they come from a text without tags. -/
abbrev Graph.IsTidy (g : Graph) : Prop := g.Obeys .tidy

namespace Graph

theorem IsTidy.isUntagged {g : Graph} (hg : g.IsTidy) : g.IsUntagged := fun id => (hg id).isUntagged

theorem IsTidy.flattensTo {busy : Option NodeId} {g g' : Graph} (hg : g.IsTidy)
    (h : FlattensTo busy g g') : g'.IsTidy := fun id => (hg id).refines (h.refines id)

/-! ### Merge entries -/

/-- What is merged is a mapping, or the text breaks a rule. -/
theorem failsPlainly_flattenEach {flattenOne : Graph → NodeId → Except Defect Graph}
    (hone : ∀ g id, FailsPlainly (flattenOne g id)) (g : Graph) (ids : List NodeId) :
    FailsPlainly (flattenEach flattenOne g ids) := by
  induction ids generalizing g with
  | nil => trivial
  | cons id ids ih =>
    rw [flattenEach]
    split
    · trivial
    · exact (hone g id).bind fun g => (ih g).bind fun _ => trivial

theorem failsPlainly_flattenFrom (fuel : Nat) (g : Graph) (id : NodeId)
    (merged : List (NodeId × NodeId)) : FailsPlainly (flattenFrom fuel g id merged) := by
  induction fuel generalizing g id merged with
  | zero => trivial
  | succ fuel ih =>
    rw [flattenFrom]
    split
    · trivial
    · dsimp only
      split
      · trivial
      · exact (failsPlainly_flattenEach (fun g id => ih g id []) _ _).bind fun p => ih p.1 id _

theorem failsPlainly_flatten (g : Graph) (id : NodeId) : FailsPlainly (g.flatten id) := by
  rw [flatten]
  split
  · exact failsPlainly_flattenFrom _ g id []
  · trivial

/-! ### The data -/

variable {g : Graph}

theorem IsTidy.failsPlainly_slot (hg : g.IsTidy) (id : NodeId) : FailsPlainly (g.slot id) := by
  by_cases hscalar : ∃ tag text, g.node id = .scalar tag text
  · obtain ⟨tag, text, hn⟩ := hscalar
    have hid := hg id
    rw [hn] at hid
    rw [slot_of_scalar hg.isUntagged hn]
    exact Satisfies.map (Node.IsTidy.failsPlainly_read? hid) fun _ _ => trivial
  · rw [slot_of_not_scalar hg.isUntagged fun tag text hn => hscalar ⟨tag, text, hn⟩]
    trivial

theorem IsTidy.failsPlainly_entrySlot (hg : g.IsTidy) (e : NodeId × NodeId) :
    FailsPlainly (g.entrySlot e) := by
  refine (hg.failsPlainly_slot e.1).bind fun s => ?_
  cases s with
  | leaf key => exact (hg.failsPlainly_slot e.2).bind fun _ => trivial
  | node id => trivial

theorem IsTidy.failsPlainly_shape (hg : g.IsTidy) (id : NodeId) : FailsPlainly (g.shape id) := by
  cases hn : g.node id with
  | scalar tag text =>
    rw [shape_of_scalar hn]
    trivial
  | sequence tag items =>
    rw [shape_of_sequence hg.isUntagged hn]
    exact Satisfies.bind (Outcome.satisfies_mapM fun x _ => hg.failsPlainly_slot x) fun _ _ =>
      trivial
  | mapping tag es =>
    rw [shape_of_mapping hg.isUntagged hn]
    exact Satisfies.bind (Outcome.satisfies_mapM fun e _ => hg.failsPlainly_entrySlot e)
      fun _ _ => trivial

theorem IsTidy.satisfies_flatten (hg : g.IsTidy) (id : NodeId) :
    Satisfies Defect.IsPlain IsTidy (g.flatten id) := by
  cases hflatten : g.flatten id with
  | error d => exact (failsPlainly_flatten g id).of_eq_error hflatten
  | ok g' => exact hg.flattensTo (flattensTo_flatten hflatten)

theorem IsTidy.satisfies_expand (hg : g.IsTidy) (id : NodeId) :
    Satisfies Defect.IsPlain (fun p => p.1.IsTidy) (g.expand id) := by
  have hshape : ∀ g : Graph, g.IsTidy →
      Satisfies Defect.IsPlain (fun p => p.1.IsTidy) (do return (g, ← g.shape id)) :=
    fun g hg => Satisfies.bind (hg.failsPlainly_shape id) fun _ _ => hg
  rw [expand]
  split
  · exact (hg.satisfies_flatten id).bind hshape
  · exact Satisfies.bind (x := pure g) (P := IsTidy) hg hshape

end Graph

/-! ### The search -/

namespace Heap

variable {expand : Graph → NodeId → Except Defect (Graph × Shape)} {E : Defect → Prop}
  {I : Graph → Prop}

/-- The search fails as the reading of a single container does, and keeps of the graph what the
reading keeps. -/
theorem satisfies_explore
    (hexpand : ∀ g id, I g → Satisfies E (fun p => I p.1) (expand g id))
    (fuel : Nat) {queue seen : List NodeId} {g : Graph} {h : Heap} (hg : I g) :
    Satisfies E (fun p => I p.1) (explore expand fuel queue seen g h) := by
  induction fuel generalizing queue seen g h with
  | zero => exact hg
  | succ fuel ih =>
    cases queue with
    | nil => exact hg
    | cons id queue =>
      rw [explore]
      exact (hexpand g id hg).bind fun p hp => ih hp

end Heap

namespace Graph

variable {g : Graph}

theorem IsTidy.failsPlainly_dataHeap (hg : g.IsTidy) (root : NodeId) :
    FailsPlainly (g.dataHeap root) := by
  refine (hg.failsPlainly_slot root).bind fun start => ?_
  refine Satisfies.bind (Heap.satisfies_explore (I := IsTidy) (fun g id hg => ?_) _ hg)
    fun _ _ => trivial
  exact hg.satisfies_expand id

/-! ### The source -/

/-- Once the data of a document has been read, its source is read too: the data has no container as
a key. -/
theorem failsPlainly_sourceHeap {g' : Graph} {root : NodeId} {h : Heap} {start : Slot}
    (hg : g.IsUntagged) (hdata : g.dataHeap root = .ok (g', h, start)) :
    FailsPlainly (g'.sourceHeap root) := by
  obtain ⟨heap, hsource, -⟩ := exists_sourceHeap (hasScalarKeys_of_dataHeap hg hdata)
  rw [hsource]
  trivial

/-- Both readings of a document without tags fail only by defects that do not take one. -/
theorem IsTidy.failsPlainly_sourced (hg : g.IsTidy) (root : NodeId) :
    FailsPlainly (g.sourced root) := by
  rw [sourced]
  cases hdata : g.dataHeap root with
  | error d => exact (hg.failsPlainly_dataHeap root).of_eq_error hdata
  | ok p =>
    obtain ⟨g', h, start⟩ := p
    exact (failsPlainly_sourceHeap hg.isUntagged hdata).bind fun _ => trivial

end Graph

/-! ### Texts -/

theorem failsPlainly_documentsFrom (fuel : Nat) (first : Bool) {s : ComposeState}
    (hs : s.Obeys .tidy) : FailsPlainly (documentsFrom fuel first s) := by
  induction fuel generalizing first s with
  | zero => trivial
  | succ fuel ih =>
    rw [documentsFrom]
    refine Satisfies.bind (follows_composeDocument first s hs) fun p hp => ?_
    obtain ⟨root?, s'⟩ := p
    cases root? with
    | none => trivial
    | some root =>
      exact (Graph.IsTidy.failsPlainly_sourced hp.1.graph root).bind fun _ =>
        (ih false hp.1).bind fun _ => trivial

/-- The state at the start of a text, seen from its tokens. -/
theorem TokenStream.IsPlain.obeys_tidy {stream : TokenStream} (h : stream.IsPlain)
    (htags : ∀ t ∈ stream.tokens, t.isTag = false) :
    ComposeState.Obeys .tidy { tokens := stream.tokens, defect := stream.defect } :=
  ⟨fun t ht => ⟨htags t ht, h.tokens t ht⟩, h.defect, Graph.Obeys.empty⟩

/-- The state at the start of a text without tags is as it must be. -/
theorem obeys_tidy_start {text : String}
    (htext : ∀ t ∈ (ComposeState.start text).tokens, t.isTag = false) :
    (ComposeState.start text).Obeys .tidy := by
  have hscan := isPlain_scan text.toList
  rw [ComposeState.start] at htext ⊢
  generalize Token.scan text.toList = stream at hscan htext ⊢
  exact hscan.obeys_tidy htext

theorem failsPlainly_checkCharacters (text : String) : FailsPlainly (checkCharacters text) := by
  rw [checkCharacters]
  split <;> trivial

/-- A text without tags fails to be read only by defects that do not take one. -/
theorem failsPlainly_readStream {text : String}
    (htext : ∀ t ∈ (ComposeState.start text).tokens, t.isTag = false) :
    FailsPlainly (readStream text) := by
  have hs := obeys_tidy_start htext
  rw [readStream]
  -- Nothing more is needed of the state, and it is better not to look into it.
  generalize ComposeState.start text = s at hs ⊢
  exact (failsPlainly_checkCharacters text).bind fun _ => failsPlainly_documentsFrom _ true hs

end PipelineManifest.Yaml
