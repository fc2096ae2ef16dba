import PipelineManifest.Proofs.Outcome
import PipelineManifest.Proofs.Yaml.Flatten
import PipelineManifest.Yaml.Stream

/-!
# `PipelineManifest.Proofs.Yaml.Untagged`: texts without tags

A text in which no tag is written has documents without explicit tags. The nodes are made while the
tokens are read, and a node gets a tag of its own only from a token that is a tag. The same is true
of other properties of tokens that their nodes take over, so it is shown for all of them at once.

* `TextRule`: which tokens, nodes and defects there may be.
* `ComposeState.Obeys`, `Compose.Follows`: the invariant of reading, and a reading that keeps it.
* `followAt`, `follows_composeDocument`: reading a node and a document.
* `ComposeState.IsUntagged`, `keeps_composeDocument`: the invariant that no tag is left and no node
  has one.
* `exists_graph_of_readStream`: the documents of a text without tags.
-/

set_option autoImplicit false

namespace PipelineManifest.Yaml

open Outcome (Satisfies)

/-- Whether a token is a tag. -/
def Token.isTag : Token → Bool
  | .tag _ => true
  | _ => false

/-! ### Rules -/

/-- A rule for texts without tags: what tokens, nodes and defects there may be. A node that is made
of tokens that are allowed is allowed. -/
structure TextRule where
  token : Token → Prop
  node : Node → Prop
  defect : Defect → Prop
  not_tag : ∀ t, ¬ token (.tag t)
  scalar : ∀ text plain, token (.scalar text plain) →
    node (.scalar (scalarTag none plain text) text)
  sequence : ∀ items, node (.sequence .sequence items)
  mapping : ∀ es, node (.mapping .mapping es)
  /-- Something that is left out is null. -/
  nothing : node (.scalar .null "")
  /-- A name that is not in use stands for an empty text. -/
  unused : node (.scalar .text "")
  rejected : defect .rejected

/-- Whether the nodes of a graph are as a rule has them. -/
def Graph.Obeys (r : TextRule) (g : Graph) : Prop := ∀ id, r.node (g.node id)

namespace Graph.Obeys

variable {r : TextRule} {g : Graph} {n : Node}

protected theorem set (hg : g.Obeys r) (id : NodeId) (hn : r.node n) : (g.set id n).Obeys r := by
  intro x
  rw [node_set]
  split
  · exact hn
  · exact hg x

protected theorem add (hg : g.Obeys r) (hn : r.node n) : (g.add n).2.Obeys r := by
  intro x
  rw [node, Array.getD_eq_getD_getElem?, Graph.add, Array.getElem?_push]
  split
  · exact hn
  · rw [← Array.getD_eq_getD_getElem?]
    exact hg x

protected theorem empty : Graph.empty.Obeys r := fun _ => r.unused

end Graph.Obeys

/-- Whether a state is as a rule has it: the tokens that are left, what stops them, and the nodes so
far. -/
structure ComposeState.Obeys (r : TextRule) (s : ComposeState) : Prop where
  tokens : ∀ t ∈ s.tokens, r.token t
  defect : ∀ d, s.defect = some d → r.defect d
  graph : s.graph.Obeys r

namespace Compose

variable {α β : Type} {r : TextRule}

/-- Whether a reading keeps a rule, fails only as the rule has it, and gives only results of which
`P` holds. -/
def Follows (r : TextRule) (m : Compose α) (P : α → Prop) : Prop :=
  ∀ s, s.Obeys r → Satisfies r.defect (fun p => p.2.Obeys r ∧ P p.1) (m s)

variable {m : Compose α} {P Q : α → Prop} {R : β → Prop}

theorem follows_pure {a : α} (h : P a) : Follows r (pure a) P := fun _ hs => ⟨hs, h⟩

/-- One reading after the other. -/
theorem follows_bind {f : α → Compose β} (hm : Follows r m P) (hf : ∀ a, P a → Follows r (f a) R) :
    Follows r (m >>= f) R := fun s hs =>
  Satisfies.bind (hm s hs) fun p hp => hf p.1 hp.2 p.2 hp.1

theorem follows_reject : Follows r (reject : Compose α) P := fun _ _ => r.rejected

theorem follows_reject_bind (f : α → Compose β) : Follows r (reject >>= f) R :=
  fun _ _ => r.rejected

theorem follows_get : Follows r get fun s => s.Obeys r := fun _ hs => ⟨hs, hs⟩

theorem follows_modify {f : ComposeState → ComposeState}
    (h : ∀ s : ComposeState, s.Obeys r → (f s).Obeys r) : Follows r (modify f) fun _ => True :=
  fun s hs => ⟨h s hs, trivial⟩

/-! ### Tokens -/

/-- The next token is one that the rule allows, or there is none because of a defect that it
allows. -/
theorem follows_peek : Follows r peek r.token := by
  refine follows_bind follows_get fun s hs => ?_
  split
  · rename_i t ts htokens
    exact follows_pure (hs.tokens t (by rw [htokens]; exact List.mem_cons_self))
  · intro s' hs'
    cases hdefect : s.defect with
    | none => exact r.rejected
    | some d => exact hs.defect d hdefect

theorem follows_drop : Follows r drop fun _ => True :=
  follows_modify fun _ hs =>
    ⟨fun t ht => hs.tokens t (List.mem_of_mem_tail ht), hs.defect, hs.graph⟩

theorem follows_dropIf (t : Token) : Follows r (dropIf t) fun _ => True := by
  refine follows_bind follows_peek fun _ _ => ?_
  split
  · exact follows_bind follows_drop fun _ _ => follows_pure trivial
  · exact follows_pure trivial

theorem follows_anchor? : Follows r anchor? fun _ => True := by
  refine follows_bind follows_peek fun _ _ => ?_
  split
  · exact follows_bind follows_drop fun _ _ => follows_pure trivial
  · exact follows_pure trivial

/-- No tag is found. -/
theorem follows_tag? : Follows r tag? (· = none) := by
  refine follows_bind follows_peek fun t ht => ?_
  split
  · exact absurd ht (r.not_tag _)
  · exact follows_pure rfl

theorem follows_properties : Follows r properties fun p => p.2 = none := by
  refine follows_bind follows_anchor? fun anchor _ => ?_
  split
  · exact follows_bind follows_tag? fun _ ht => follows_pure ht
  · refine follows_bind follows_tag? fun t ht => ?_
    subst ht
    exact follows_pure rfl

/-! ### Nodes -/

theorem follows_add {n : Node} (hn : r.node n) : Follows r (add n) fun _ => True := fun _ hs =>
  ⟨⟨hs.tokens, hs.defect, hs.graph.add hn⟩, trivial⟩

theorem follows_fill (id : NodeId) {n : Node} (hn : r.node n) :
    Follows r (fill id n) fun _ => True :=
  follows_modify fun _ hs => ⟨hs.tokens, hs.defect, hs.graph.set id hn⟩

theorem follows_name (anchor : Option String) (id : NodeId) :
    Follows r (name anchor id) fun _ => True := by
  cases anchor with
  | none => exact follows_pure trivial
  | some a => exact follows_modify fun _ hs => ⟨hs.tokens, hs.defect, hs.graph⟩

theorem follows_nothing : Follows r nothing fun _ => True := follows_add r.nothing

end Compose

open Compose

/-! ### Descent -/

section Contents

variable {r : TextRule} (anchor : Option String)

theorem follows_sequence {items : Compose (List NodeId)} (h : Follows r items fun _ => True) :
    Follows r (composeNode.sequence anchor none items) fun _ => True := by
  refine follows_bind (follows_add (r.sequence [])) fun id _ => ?_
  refine follows_bind (follows_name anchor id) fun _ _ => ?_
  refine follows_bind h fun _ _ => ?_
  exact follows_bind (follows_fill id (r.sequence _)) fun _ _ => follows_pure trivial

theorem follows_mapping {entries : Compose (List (NodeId × NodeId))}
    (h : Follows r entries fun _ => True) :
    Follows r (composeNode.mapping anchor none entries) fun _ => True := by
  refine follows_bind (follows_add (r.mapping [])) fun id _ => ?_
  refine follows_bind (follows_name anchor id) fun _ _ => ?_
  refine follows_bind h fun _ _ => ?_
  exact follows_bind (follows_fill id (r.mapping _)) fun _ _ => follows_pure trivial

theorem follows_emptyScalar : Follows r (composeNode.emptyScalar anchor none) fun _ => True := by
  have hadd : Follows r (do
      let id ← Compose.add (.scalar (scalarTag none true "") "")
      Compose.name anchor id
      return id) fun _ => True :=
    follows_bind (follows_add r.nothing) fun id _ =>
      follows_bind (follows_name anchor id) fun _ _ => follows_pure trivial
  rw [composeNode.emptyScalar]
  split
  · exact follows_reject_bind _
  · exact hadd

end Contents

/-- Whether all readings of nodes and their parts with some fuel follow a rule. -/
structure FollowAt (r : TextRule) (fuel : Nat) : Prop where
  node : ∀ block dashes, Follows r (composeNode fuel block dashes) fun _ => True
  part : ∀ dashes ends, Follows r (composePart fuel dashes ends) fun _ => True
  blockItems : Follows r (composeBlockItems fuel) fun _ => True
  dashItems : Follows r (composeDashItems fuel) fun _ => True
  blockEntries : Follows r (composeBlockEntries fuel) fun _ => True
  flowPart : ∀ ends, Follows r (composeFlowPart fuel ends) fun _ => True
  flowPair : ∀ close, Follows r (composeFlowPair fuel close) fun _ => True
  flowItems : ∀ first, Follows r (composeFlowItems fuel first) fun _ => True
  flowEntries : ∀ first, Follows r (composeFlowEntries fuel first) fun _ => True

namespace FollowAt

variable {r : TextRule} {fuel : Nat}

theorem node_succ (h : FollowAt r fuel) (block dashes : Bool) :
    Follows r (composeNode (fuel + 1) block dashes) fun _ => True := by
  rw [composeNode]
  refine follows_bind follows_peek fun t _ => ?_
  split
  · refine follows_bind follows_drop fun _ _ => follows_bind follows_get fun s _ => ?_
    split
    · exact follows_pure trivial
    · exact follows_reject
  · refine follows_bind follows_properties fun p hp => ?_
    obtain ⟨anchor, written⟩ := p
    subst hp
    -- Where no tag is written, there is no handle that could be unknown.
    refine follows_bind (P := (· = none)) (follows_pure rfl) fun tag htag => ?_
    subst htag
    extract_lets contents
    have hcontents : Follows r (contents ()) fun _ => True := by
      refine follows_bind follows_peek fun next hnext => ?_
      split
      -- The only place where a token becomes a node.
      · refine follows_bind follows_drop fun _ _ => ?_
        refine follows_bind (follows_add (r.scalar _ _ hnext)) fun id _ => ?_
        exact follows_bind (follows_name anchor id) fun _ _ => follows_pure trivial
      · exact follows_bind follows_drop fun _ _ => follows_sequence anchor (h.flowItems true)
      · exact follows_bind follows_drop fun _ _ => follows_mapping anchor (h.flowEntries true)
      · split
        · exact follows_sequence anchor h.dashItems
        · exact follows_emptyScalar anchor
      · split
        · exact follows_bind follows_drop fun _ _ => follows_sequence anchor h.blockItems
        · exact follows_emptyScalar anchor
      · split
        · exact follows_bind follows_drop fun _ _ => follows_mapping anchor h.blockEntries
        · exact follows_emptyScalar anchor
      · exact follows_emptyScalar anchor
    split
    -- A name may be in use already, and then the node is rejected before its contents are read.
    · refine follows_bind follows_get fun s _ => ?_
      split
      · exact follows_reject_bind _
      · exact hcontents
    · exact hcontents

theorem part_succ (h : FollowAt r fuel) (dashes : Bool) (ends : Token → Bool) :
    Follows r (composePart (fuel + 1) dashes ends) fun _ => True := by
  rw [composePart]
  refine follows_bind follows_peek fun _ _ => ?_
  split
  · exact follows_nothing
  · exact h.node true dashes

theorem blockItems_succ (h : FollowAt r fuel) :
    Follows r (composeBlockItems (fuel + 1)) fun _ => True := by
  rw [composeBlockItems]
  refine follows_bind (follows_dropIf _) fun _ _ => ?_
  split
  · refine follows_bind (h.part _ _) fun _ _ => ?_
    exact follows_bind h.blockItems fun _ _ => follows_pure trivial
  · refine follows_bind (follows_dropIf _) fun _ _ => ?_
    split
    · exact follows_pure trivial
    · exact follows_reject

theorem dashItems_succ (h : FollowAt r fuel) :
    Follows r (composeDashItems (fuel + 1)) fun _ => True := by
  rw [composeDashItems]
  refine follows_bind (follows_dropIf _) fun _ _ => ?_
  split
  · refine follows_bind (h.part _ _) fun _ _ => ?_
    exact follows_bind h.dashItems fun _ _ => follows_pure trivial
  · exact follows_pure trivial

theorem blockEntries_succ (h : FollowAt r fuel) :
    Follows r (composeBlockEntries (fuel + 1)) fun _ => True := by
  rw [composeBlockEntries]
  refine follows_bind (follows_dropIf _) fun _ _ => ?_
  split
  · refine follows_bind (h.part _ _) fun key _ => follows_bind (follows_dropIf _) fun _ _ => ?_
    have hrest : ∀ value, Follows r (do
        return (key, value) :: (← composeBlockEntries fuel)) fun _ => True := fun _ =>
      follows_bind h.blockEntries fun _ _ => follows_pure trivial
    split
    · exact follows_bind (h.part _ _) fun _ _ => hrest _
    · exact follows_bind follows_nothing fun _ _ => hrest _
  · refine follows_bind (follows_dropIf _) fun _ _ => ?_
    split
    · exact follows_pure trivial
    · exact follows_reject

theorem flowPart_succ (h : FollowAt r fuel) (ends : Token → Bool) :
    Follows r (composeFlowPart (fuel + 1) ends) fun _ => True := by
  rw [composeFlowPart]
  refine follows_bind follows_peek fun _ _ => ?_
  split
  · exact follows_nothing
  · exact h.node false false

theorem flowPair_succ (h : FollowAt r fuel) (close : Token) :
    Follows r (composeFlowPair (fuel + 1) close) fun _ => True := by
  rw [composeFlowPair]
  refine follows_bind (h.flowPart _) fun _ _ => follows_bind (follows_dropIf _) fun _ _ => ?_
  split
  · exact follows_bind (h.flowPart _) fun _ _ => follows_pure trivial
  · exact follows_bind follows_nothing fun _ _ => follows_pure trivial

theorem flowItems_succ (h : FollowAt r fuel) (first : Bool) :
    Follows r (composeFlowItems (fuel + 1) first) fun _ => True := by
  rw [composeFlowItems]
  refine follows_bind (follows_dropIf _) fun _ _ => ?_
  split
  · exact follows_pure trivial
  extract_lets items
  have hitems : Follows r (items ()) fun _ => True := by
    refine follows_bind (follows_dropIf _) fun _ _ => ?_
    split
    -- A pair among the items of a list is a mapping of its own.
    · refine follows_bind (follows_add (r.mapping [])) fun id _ => ?_
      refine follows_bind (h.flowPair _) fun _ _ => ?_
      refine follows_bind (follows_fill id (r.mapping _)) fun _ _ => ?_
      exact follows_bind (h.flowItems false) fun _ _ => follows_pure trivial
    · refine follows_bind (follows_dropIf _) fun _ _ => ?_
      split
      · exact follows_pure trivial
      · refine follows_bind (h.node false false) fun _ _ => ?_
        exact follows_bind (h.flowItems false) fun _ _ => follows_pure trivial
  split
  · refine follows_bind (follows_dropIf _) fun _ _ => ?_
    split
    · exact follows_reject_bind _
    · exact hitems
  · exact hitems

theorem flowEntries_succ (h : FollowAt r fuel) (first : Bool) :
    Follows r (composeFlowEntries (fuel + 1) first) fun _ => True := by
  rw [composeFlowEntries]
  refine follows_bind (follows_dropIf _) fun _ _ => ?_
  split
  · exact follows_pure trivial
  extract_lets entries
  have hentries : Follows r (entries ()) fun _ => True := by
    refine follows_bind (follows_dropIf _) fun _ _ => ?_
    split
    · refine follows_bind (h.flowPair _) fun _ _ => ?_
      exact follows_bind (h.flowEntries false) fun _ _ => follows_pure trivial
    · refine follows_bind (follows_dropIf _) fun _ _ => ?_
      split
      · exact follows_pure trivial
      · refine follows_bind (h.node false false) fun _ _ => ?_
        refine follows_bind follows_nothing fun _ _ => ?_
        exact follows_bind (h.flowEntries false) fun _ _ => follows_pure trivial
  split
  · refine follows_bind (follows_dropIf _) fun _ _ => ?_
    split
    · exact follows_reject_bind _
    · exact hentries
  · exact hentries

end FollowAt

/-- All readings of nodes keep a state without tags. The induction is on the fuel: every reading
calls the others with less. -/
theorem followAt {r : TextRule} (fuel : Nat) : FollowAt r fuel := by
  induction fuel with
  | zero =>
    exact {
      node := fun _ _ => follows_reject
      part := fun _ _ => follows_reject
      blockItems := follows_reject
      dashItems := follows_reject
      blockEntries := follows_reject
      flowPart := fun _ => follows_reject
      flowPair := fun _ => follows_reject
      flowItems := fun _ => follows_reject
      flowEntries := fun _ => follows_reject }
  | succ fuel ih =>
    exact {
      node := ih.node_succ
      part := ih.part_succ
      blockItems := ih.blockItems_succ
      dashItems := ih.dashItems_succ
      blockEntries := ih.blockEntries_succ
      flowPart := ih.flowPart_succ
      flowPair := ih.flowPair_succ
      flowItems := ih.flowItems_succ
      flowEntries := ih.flowEntries_succ }

/-! ### Documents -/

section Documents

variable {r : TextRule}

theorem follows_composeDirectives (versioned : Bool) (handles : List (String × String))
    (fuel : Nat) : Follows r (composeDirectives versioned handles fuel) fun _ => True := by
  induction fuel generalizing versioned handles with
  | zero => exact follows_reject
  | succ fuel ih =>
    rw [composeDirectives]
    refine follows_bind follows_peek fun _ _ => ?_
    split
    · extract_lets rest
      have hrest : Follows r (rest ()) fun _ => True := follows_bind follows_drop fun _ _ => ih _ _
      split
      · exact follows_reject_bind _
      · exact hrest
    · extract_lets rest
      have hrest : Follows r (rest ()) fun _ => True := follows_bind follows_drop fun _ _ => ih _ _
      split
      · exact follows_reject_bind _
      · exact hrest
    · exact follows_bind follows_drop fun _ _ => ih _ _
    · exact follows_pure trivial

theorem follows_dropEnds (fuel : Nat) : Follows r (dropEnds fuel) fun _ => True := by
  induction fuel with
  | zero => exact follows_reject
  | succ fuel ih =>
    rw [dropEnds]
    refine follows_bind (follows_dropIf _) fun _ _ => ?_
    split
    · exact ih
    · exact follows_pure trivial

theorem follows_composeStart (fuel : Nat) : Follows r (composeStart fuel) fun _ => True := by
  rw [composeStart]
  refine follows_bind (follows_dropEnds fuel) fun _ _ => follows_bind follows_peek fun _ _ => ?_
  split
  · exact follows_pure trivial
  refine follows_bind (follows_composeDirectives false [] fuel) fun handles _ => ?_
  refine follows_bind (follows_dropIf _) fun _ _ => ?_
  extract_lets rest
  have hrest : Follows r (rest ()) fun _ => True :=
    follows_bind (follows_modify fun _ hs => ⟨hs.tokens, hs.defect, hs.graph⟩) fun _ _ =>
      follows_pure trivial
  split
  · exact follows_reject_bind _
  · exact hrest

/-- The nodes of a document are as a rule has them, if the tokens are from which it is read. -/
theorem follows_composeDocument (first : Bool) :
    Follows r (composeDocument first) fun _ => True := by
  rw [composeDocument]
  refine follows_bind follows_get fun s _ => ?_
  refine follows_bind (follows_modify fun _ hs =>
    ⟨hs.tokens, hs.defect, Graph.Obeys.empty⟩) fun _ _ => ?_
  refine follows_bind follows_peek fun _ _ => ?_
  extract_lets marked finish contents
  have hfinish : ∀ root, Follows r (finish root) fun _ => True := fun _ =>
    follows_bind (follows_bind (R := fun _ => True) (follows_dropIf _) fun _ _ =>
      follows_pure trivial)
      fun _ _ => follows_pure trivial
  have hcontents : Follows r (contents ()) fun _ => True := by
    refine follows_bind follows_peek fun _ _ => ?_
    split
    · exact follows_bind follows_nothing fun root _ => hfinish root
    · exact follows_bind ((followAt _).node true false) fun root _ => hfinish root
  split
  · refine follows_bind (follows_composeStart _) fun _ _ => ?_
    split
    · exact follows_pure trivial
    · exact hcontents
  · exact hcontents

end Documents

/-! ### Texts without tags -/

theorem Graph.IsUntagged.empty : Graph.empty.IsUntagged := fun _ => .inl rfl

/-- Whether a state has no tags: none is left to be read, and no node so far has an explicit one. -/
structure ComposeState.IsUntagged (s : ComposeState) : Prop where
  tokens : ∀ t ∈ s.tokens, t.isTag = false
  graph : s.graph.IsUntagged

/-- A scalar without a tag gets one by itself. -/
theorem isUntagged_scalarTag (plain : Bool) (text : String) :
    (Node.scalar (scalarTag none plain text) text).IsUntagged := by
  cases plain with
  | true => exact .inr rfl
  | false => exact .inl rfl

/-- No tag may be written; nothing else is asked. -/
def TextRule.untagged : TextRule where
  token t := t.isTag = false
  node n := n.IsUntagged
  defect _ := True
  not_tag _ h := nomatch h
  scalar text plain _ := isUntagged_scalarTag plain text
  sequence _ := rfl
  mapping _ := rfl
  nothing := .inr rfl
  unused := .inl rfl
  rejected := trivial

/-- Whether a reading keeps a state without tags, and gives only results of which `P` holds. -/
def Compose.Keeps {α : Type} (m : Compose α) (P : α → Prop) : Prop :=
  ∀ s a s', s.IsUntagged → m s = .ok (a, s') → s'.IsUntagged ∧ P a

/-- The nodes of a document have no explicit tags, if none is left to be read. -/
theorem keeps_composeDocument (first : Bool) : Keeps (composeDocument first) fun _ => True := by
  intro s a s' hs h
  have hrule : s.Obeys .untagged := ⟨hs.tokens, fun _ _ => trivial, hs.graph⟩
  obtain ⟨hs', -⟩ := (follows_composeDocument first s hrule).of_eq_ok h
  exact ⟨⟨hs'.tokens, hs'.graph⟩, trivial⟩

/-- The documents of a text in which no tag is left are read from graphs without explicit tags. -/
theorem exists_graph_of_documentsFrom (fuel : Nat) (first : Bool) {s : ComposeState}
    (hs : s.IsUntagged) {vs : List SourcedValue} (h : documentsFrom fuel first s = .ok vs) :
    ∀ v ∈ vs, ∃ g : Graph, ∃ root, g.IsUntagged ∧ g.sourced root = .ok v := by
  induction fuel generalizing first s vs with
  | zero =>
    cases h
    simp
  | succ fuel ih =>
    rw [documentsFrom] at h
    obtain ⟨⟨root?, s'⟩, hdocument, h⟩ := Outcome.bind_eq_ok_iff.mp h
    obtain ⟨hs', -⟩ := keeps_composeDocument first s root? s' hs hdocument
    cases root? with
    | none =>
      cases h
      simp
    | some root =>
      obtain ⟨v, hv, h⟩ := Outcome.bind_eq_ok_iff.mp h
      obtain ⟨rest, hrest, h⟩ := Outcome.bind_eq_ok_iff.mp h
      cases h
      exact List.forall_mem_cons.mpr ⟨⟨s'.graph, root, hs'.graph, hv⟩, ih false hs' hrest⟩

/-- Every document of a text without tags is read from a graph without explicit tags. -/
theorem exists_graph_of_readStream {text : String}
    (htext : ∀ t ∈ (ComposeState.start text).tokens, t.isTag = false) {vs : List SourcedValue}
    (h : readStream text = .ok vs) :
    ∀ v ∈ vs, ∃ g : Graph, ∃ root, g.IsUntagged ∧ g.sourced root = .ok v := by
  have hs : (ComposeState.start text).IsUntagged := ⟨htext, Graph.IsUntagged.empty⟩
  rw [readStream] at h
  obtain ⟨_, -, h⟩ := Outcome.bind_eq_ok_iff.mp h
  exact exists_graph_of_documentsFrom ((ComposeState.start text).tokens.length + 1) true hs h

end PipelineManifest.Yaml
