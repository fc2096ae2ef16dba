import PipelineManifest.Proofs.Outcome
import PipelineManifest.Yaml.Object.Data

/-!
# `PipelineManifest.Proofs.Yaml.Flatten`: what replacing merge entries leaves alone

While the containers of a document are read, the merge entries of its mappings are replaced, one
mapping after the other, and with those of a mapping also those of the mappings that are merged into
it. What has been read of the document before must not change by that. It does not: a mapping
without merge entries keeps its entries, and of all nodes only those that are the default mark get
another tag.

* `Node.IsUntagged`, `Graph.IsUntagged`: documents without explicit tags.
* `Node.Refines`: how a node may change.
* `Graph.IsSettled`: mappings without merge entries.
* `Graph.FlattensTo`: how a graph may change.
* `Graph.flattensTo_flatten`: replacing the merge entries of a mapping changes a graph in this way.
-/

set_option autoImplicit false

namespace PipelineManifest.Yaml

/-! ### Documents without explicit tags -/

/-- Whether a node has the tag that it gets by itself: a scalar is a text or what its form says, and
a collection is a plain one. -/
def Node.IsUntagged : Node → Prop
  | .scalar tag text => tag = .text ∨ tag = Tag.ofPlain text
  | .sequence tag _ => tag = .sequence
  | .mapping tag _ => tag = .mapping

/-- Whether no node of a document has an explicit tag. -/
def Graph.IsUntagged (g : Graph) : Prop := ∀ id, (g.node id).IsUntagged

/-- No form of a scalar stands for a container. -/
theorem isContainerTag_ofPlain (text : String) :
    Graph.isContainerTag (Tag.ofPlain text) = false := by
  simp only [Tag.ofPlain]
  split
  · rfl
  split
  · rfl
  split
  · rfl
  split
  · rfl
  split
  · rfl
  split
  · rfl
  split <;> rfl

theorem Node.isContainerTag_of_isUntagged {tag : Tag} {text : String}
    (h : (Node.scalar tag text).IsUntagged) : Graph.isContainerTag tag = false := by
  rcases h with rfl | rfl
  · rfl
  · exact isContainerTag_ofPlain text

/-! ### Changes of a node -/

/-- How a tag may change while merge entries are replaced: the default mark becomes a text. -/
inductive Tag.Refines : Tag → Tag → Prop
  | same (t : Tag) : Refines t t
  | named : Refines .default .text

/-- How a node may change while merge entries are replaced: a default mark becomes a text, and a
mapping gets other entries. -/
inductive Node.Refines : Node → Node → Prop
  | scalar {t t' : Tag} (h : t.Refines t') (text : String) :
    Refines (.scalar t text) (.scalar t' text)
  | sequence {t t' : Tag} (h : t.Refines t') (items : List NodeId) :
    Refines (.sequence t items) (.sequence t' items)
  | mapping {t t' : Tag} (h : t.Refines t') (es es' : List (NodeId × NodeId)) :
    Refines (.mapping t es) (.mapping t' es')

namespace Tag.Refines

variable {t t' t'' : Tag}

theorem trans (h : t.Refines t') (h' : t'.Refines t'') : t.Refines t'' := by
  cases h with
  | same => exact h'
  | named => cases h' with | same => exact .named

theorem eq_of_ne_default (h : t.Refines t') (ht : t ≠ .default) : t' = t := by
  cases h with
  | same => rfl
  | named => exact absurd rfl ht

/-- No tag becomes the mark of a merge entry. -/
theorem ne_merge (h : t.Refines t') (ht : t ≠ .merge) : t' ≠ .merge := by
  cases h with
  | same => exact ht
  | named => exact nofun

end Tag.Refines

namespace Node.Refines

variable {m n o : Node}

theorem refl (n : Node) : n.Refines n := by
  cases n with
  | scalar t text => exact .scalar (.same t) text
  | sequence t items => exact .sequence (.same t) items
  | mapping t es => exact .mapping (.same t) es es

theorem trans (h : m.Refines n) (h' : n.Refines o) : m.Refines o := by
  cases h with
  | scalar ht text => cases h' with | scalar ht' => exact .scalar (ht.trans ht') text
  | sequence ht items => cases h' with | sequence ht' => exact .sequence (ht.trans ht') items
  | mapping ht es => cases h' with | mapping ht' _ es' => exact .mapping (ht.trans ht') es es'

/-- A default mark may be named, whatever node has it. -/
theorem withTag (h : n.tag = .default) : n.Refines (n.withTag .text) := by
  cases n with
  | scalar t text =>
    cases h
    exact .scalar .named text
  | sequence t items =>
    cases h
    exact .sequence .named items
  | mapping t es =>
    cases h
    exact .mapping .named es es

theorem isUntagged (h : m.Refines n) (hm : m.IsUntagged) : n.IsUntagged := by
  cases h with
  | scalar ht text =>
    cases ht with
    | same => exact hm
    | named => exact .inl rfl
  | sequence ht items | mapping ht es es' =>
    cases ht with
    | same => exact hm
    | named => cases hm

theorem tag (h : m.Refines n) : m.tag.Refines n.tag := by
  cases h with
  | scalar ht | sequence ht | mapping ht => exact ht

/-- A scalar that is not the default mark stays what it is. -/
theorem scalar_eq {tag : Tag} {text : String} (h : (Node.scalar tag text).Refines n)
    (htag : tag ≠ .default) : n = .scalar tag text := by
  cases h with
  | scalar ht => rw [ht.eq_of_ne_default htag]

theorem sequence_eq {tag : Tag} {items : List NodeId} (h : (Node.sequence tag items).Refines n)
    (htag : tag ≠ .default) : n = .sequence tag items := by
  cases h with
  | sequence ht => rw [ht.eq_of_ne_default htag]

/-- A container does not become a scalar. -/
theorem ne_scalar (h : m.Refines n) (hm : ∀ tag text, m ≠ .scalar tag text) :
    ∀ tag text, n ≠ .scalar tag text := by
  cases h with
  | scalar ht text => exact absurd rfl (hm _ _)
  | sequence ht items | mapping ht es es' => exact nofun

end Node.Refines

namespace Graph

/-! ### Replacing a node -/

theorem node_set (g : Graph) (id x : NodeId) (n : Node) :
    (g.set id n).node x = if x = id ∧ id < g.size then n else g.node x := by
  rw [node, set, node, size, Array.getD_eq_getD_getElem?, Array.getD_eq_getD_getElem?,
    Array.getElem?_setIfInBounds]
  by_cases hx : id = x
  · subst hx
    by_cases hid : id < g.nodes.size
    · simp [hid]
    · simp [hid]
  · simp [hx, Ne.symm hx]

theorem node_set_of_ne {g : Graph} {id x : NodeId} (n : Node) (h : x ≠ id) :
    (g.set id n).node x = g.node x := by
  rw [node_set, if_neg fun hx => h hx.1]

/-- What is no scalar is a node of the graph. -/
theorem lt_size_of_node {g : Graph} {id : NodeId}
    (h : ∀ tag text, g.node id ≠ .scalar tag text) : id < g.size := by
  by_cases hid : id < g.size
  · exact hid
  · have hout : g.node id = .scalar .text "" := by
      rw [node, Array.getD_eq_getD_getElem?, Array.getElem?_eq_none (Nat.le_of_not_lt hid)]
      rfl
    exact absurd hout (h _ _)

/-! ### Changes of a graph -/

theorem isMapping_iff {g : Graph} {id : NodeId} :
    g.isMapping id = true ↔ ∃ tag es, g.node id = .mapping tag es := by
  rw [isMapping]
  cases g.node id <;> simp

theorem entries_of_mapping {g : Graph} {id : NodeId} {tag : Tag} {es : List (NodeId × NodeId)}
    (h : g.node id = .mapping tag es) : g.entries id = es := by
  rw [entries, h]

/-- Whether a node is a mapping without merge entries. -/
def IsSettled (g : Graph) (id : NodeId) : Prop :=
  g.isMapping id = true ∧ ∀ e ∈ g.entries id, g.tag e.1 ≠ .merge

/-- How a graph may change while merge entries are replaced; `busy` is the mapping whose entries
are being replaced, if there is one. -/
structure FlattensTo (busy : Option NodeId) (g g' : Graph) : Prop where
  size : g'.size = g.size
  refines : ∀ id, (g.node id).Refines (g'.node id)
  settled : ∀ id, busy ≠ some id → g.IsSettled id → g'.entries id = g.entries id

namespace FlattensTo

variable {busy : Option NodeId} {g g' g'' : Graph}

theorem refl (g : Graph) : FlattensTo busy g g := ⟨rfl, fun _ => .refl _, fun _ _ _ => rfl⟩

/-- A mapping stays a mapping. -/
theorem isMapping (h : FlattensTo busy g g') {id : NodeId} (hid : g.isMapping id = true) :
    g'.isMapping id = true := by
  obtain ⟨tag, es, hn⟩ := isMapping_iff.mp hid
  have hrefines := h.refines id
  rw [hn] at hrefines
  generalize hn' : g'.node id = n at hrefines
  cases hrefines with
  | mapping ht _ es' => exact isMapping_iff.mpr ⟨_, es', hn'⟩

/-- A sequence keeps its items. -/
theorem exists_sequence (h : FlattensTo busy g g') {id : NodeId} {tag : Tag} {items : List NodeId}
    (hn : g.node id = .sequence tag items) : ∃ tag', g'.node id = .sequence tag' items := by
  have hrefines := h.refines id
  rw [hn] at hrefines
  generalize g'.node id = n at hrefines
  cases hrefines with
  | sequence => exact ⟨_, rfl⟩

/-- A settled mapping stays settled. -/
theorem isSettled (h : FlattensTo busy g g') {id : NodeId} (hid : g.IsSettled id)
    (hbusy : busy ≠ some id) : g'.IsSettled id := by
  refine ⟨h.isMapping hid.1, fun e he => ?_⟩
  rw [h.settled id hbusy hid] at he
  exact (h.refines e.1).tag.ne_merge (hid.2 e he)

/-- A settled mapping that is not the default mark stays what it is. -/
theorem node_eq (h : FlattensTo busy g g') {id : NodeId} (hid : g.IsSettled id)
    (hbusy : busy ≠ some id) (htag : g.tag id ≠ .default) : g'.node id = g.node id := by
  obtain ⟨tag, es, hn⟩ := isMapping_iff.mp hid.1
  have hentries := h.settled id hbusy hid
  have hrefines := h.refines id
  rw [Graph.tag, hn] at htag
  rw [entries, entries, hn] at hentries
  rw [hn] at hrefines ⊢
  generalize g'.node id = n at hentries hrefines
  cases hrefines with
  | mapping ht _ es' => rw [ht.eq_of_ne_default htag, show es' = es from hentries]

theorem trans (h : FlattensTo busy g g') (h' : FlattensTo busy g' g'') :
    FlattensTo busy g g'' where
  size := h'.size.trans h.size
  refines id := (h.refines id).trans (h'.refines id)
  settled id hbusy hid :=
    (h'.settled id hbusy (h.isSettled hid hbusy)).trans (h.settled id hbusy hid)

theorem isUntagged (h : FlattensTo busy g g') (hg : g.IsUntagged) : g'.IsUntagged :=
  fun id => (h.refines id).isUntagged (hg id)

/-- What leaves all settled mappings alone leaves those alone that are not busy. -/
theorem whileBusy (h : FlattensTo none g g') : FlattensTo busy g g' :=
  ⟨h.size, h.refines, fun id _ => h.settled id (by simp)⟩

/-- It does no harm that the entries of a mapping are replaced which is not settled. -/
theorem of_not_isSettled {id : NodeId} (h : FlattensTo (some id) g g') (hid : ¬ g.IsSettled id) :
    FlattensTo none g g' := by
  refine ⟨h.size, h.refines, fun x _ hx => h.settled x ?_ hx⟩
  rintro heq
  cases heq
  exact hid hx

end FlattensTo

/-- In a document without explicit tags only scalars are marks. -/
theorem IsUntagged.node_of_mark {g : Graph} (hg : g.IsUntagged) {id : NodeId}
    (h : g.tag id = .merge ∨ g.tag id = .default) :
    ∃ text, g.node id = .scalar (g.tag id) text := by
  have hid := hg id
  rw [tag] at h ⊢
  cases hn : g.node id with
  | scalar t text => exact ⟨text, rfl⟩
  | sequence t items =>
    rw [hn] at h hid
    rw [Node.tag, show t = .sequence from hid] at h
    rcases h with h | h <;> cases h
  | mapping t es =>
    rw [hn] at h hid
    rw [Node.tag, show t = .mapping from hid] at h
    rcases h with h | h <;> cases h

/-- Naming a default mark does not touch the entries of a mapping, not even if the mapping is the
mark. -/
theorem flattensTo_nameDefault (g : Graph) (key : NodeId) :
    FlattensTo none g (g.nameDefault key) := by
  rw [nameDefault]
  split
  · rename_i htag
    refine ⟨size_set _ _ _, fun id => ?_, fun id _ _ => ?_⟩
    · rw [node_set]
      split
      · rename_i hid
        rw [hid.1]
        exact .withTag htag
      · exact .refl _
    · rw [entries, entries, node_set]
      by_cases hid : id = key ∧ key < g.size
      · rw [if_pos hid, hid.1]
        cases g.node key <;> rfl
      · rw [if_neg hid]
  · exact .refl g

theorem flattensTo_nameDefaults (g : Graph) (es : List (NodeId × NodeId)) :
    FlattensTo none g (g.nameDefaults es) := by
  induction es generalizing g with
  | nil => exact .refl g
  | cons e es ih => exact (flattensTo_nameDefault g e.1).trans (ih _)

theorem flattensTo_setEntries (g : Graph) (id : NodeId) (es : List (NodeId × NodeId)) :
    FlattensTo (some id) g (g.setEntries id es) := by
  rw [setEntries]
  split
  · rename_i tag old hn
    refine ⟨size_set _ _ _, fun x => ?_, fun x hx _ => ?_⟩
    · rw [node_set]
      split
      · rename_i hx
        rw [hx.1, hn]
        exact .mapping (.same tag) old es
      · exact .refl _
    · have hne : x ≠ id := fun h => hx (congrArg some h.symm)
      rw [entries, entries, node_set_of_ne _ hne]
  · exact .refl g

/-! ### Replacing merge entries -/

theorem flattensTo_flattenEach {flattenOne : Graph → NodeId → Except Defect Graph}
    (hone : ∀ g id g', flattenOne g id = .ok g' → FlattensTo none g g')
    {g g' : Graph} {ids : List NodeId} {lists : List (List (NodeId × NodeId))}
    (h : flattenEach flattenOne g ids = .ok (g', lists)) : FlattensTo none g g' := by
  induction ids generalizing g g' lists with
  | nil =>
    cases h
    exact .refl g
  | cons id ids ih =>
    rw [flattenEach] at h
    split at h
    · cases h
    · obtain ⟨g₁, hfirst, h⟩ := Outcome.bind_eq_ok_iff.mp h
      obtain ⟨⟨g₂, rest⟩, hrest, h⟩ := Outcome.bind_eq_ok_iff.mp h
      cases h
      exact (hone g id g₁ hfirst).trans (ih hrest)

/-- The entry that is replaced next is a merge entry. -/
theorem not_isSettled_of_findIdx? {g : Graph} {id : NodeId} {i : Nat}
    (h : (g.entries id).findIdx? g.isMerge = some i) : ¬ g.IsSettled id := by
  intro hid
  obtain ⟨hi, hmerge, -⟩ := List.findIdx?_eq_some_iff_getElem.mp h
  rw [isMerge, decide_eq_true_eq] at hmerge
  exact hid.2 _ (List.getElem_mem hi) hmerge

/-- Replacing the merge entries of a mapping leaves all other settled mappings alone, and the
mapping itself as well if it is settled and nothing has been merged into it yet. The induction is on
the fuel: the mappings that are merged are rid of their own merge entries with less. -/
theorem flattensTo_flattenFrom (fuel : Nat) {g g' : Graph} {id : NodeId}
    {merged : List (NodeId × NodeId)} (h : flattenFrom fuel g id merged = .ok g') :
    FlattensTo (some id) g g' ∧ (merged = [] → FlattensTo none g g') := by
  induction fuel generalizing g g' id merged with
  | zero => cases h
  | succ fuel ih =>
    rw [flattenFrom] at h
    split at h
    -- No merge entry is left: keys are named, and what was merged is put before the entries.
    · have hnamed := flattensTo_nameDefaults g (g.entries id)
      cases h
      split
      · exact ⟨hnamed.whileBusy, fun _ => hnamed⟩
      · rename_i hmerged
        refine ⟨hnamed.whileBusy.trans (flattensTo_setEntries _ _ _), ?_⟩
        rintro rfl
        exact absurd rfl hmerged
    -- A merge entry goes, and the mappings that it names come first; all this is written to `id`.
    · rename_i i hi
      have herased := flattensTo_setEntries g id ((g.entries id).eraseIdx i)
      dsimp only at h
      split at h
      · cases h
      · rename_i sources _
        obtain ⟨⟨g₁, lists⟩, heach, h⟩ := Outcome.bind_eq_ok_iff.mp h
        have hsources := flattensTo_flattenEach (fun _ _ _ h₂ => (ih h₂).2 rfl) heach
        have hall := (herased.trans hsources.whileBusy).trans (ih h).1
        exact ⟨hall, fun _ => hall.of_not_isSettled (not_isSettled_of_findIdx? hi)⟩

/-- Replacing the merge entries of a mapping leaves all settled mappings alone. -/
theorem flattensTo_flatten {g g' : Graph} {id : NodeId} (h : g.flatten id = .ok g') :
    FlattensTo none g g' := by
  rw [flatten] at h
  split at h
  · exact (flattensTo_flattenFrom _ h).2 rfl
  · cases h
    exact .refl g

end Graph

end PipelineManifest.Yaml
