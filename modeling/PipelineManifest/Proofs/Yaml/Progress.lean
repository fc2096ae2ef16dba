import PipelineManifest.Proofs.Outcome
import PipelineManifest.Yaml.Stream

/-!
# `PipelineManifest.Proofs.Yaml.Progress`: every document takes tokens

The documents of a text are read one after the other, with as much fuel as there are tokens. That is
enough because every document takes a token at least: the mark at its start, or a part of its
contents. No reading of a part puts tokens back, so none of what follows can undo this.

* `Compose.Takes`: a reading takes a number of tokens at least.
* `TakeAt`, `takeAt`: the readings of nodes and their parts put no token back, and a node takes one
  unless it is a sequence whose dashes stand in the column of its key.
* `takes_composeStart_bind`: the start of a document takes its mark.
* `length_lt_of_composeDocument`: a document takes a token.
-/

set_option autoImplicit false

namespace PipelineManifest.Yaml

namespace Compose

variable {α β : Type} {m : Compose α} {f : α → Compose β} {n k : Nat}

/-- Whether a reading takes at least `n` tokens whenever it succeeds. -/
def Takes (n : Nat) (m : Compose α) : Prop :=
  ∀ s a s', m s = .ok (a, s') → s'.tokens.length + n ≤ s.tokens.length

/-- The same, where a token is known to be left. -/
def TakesNext (n : Nat) (m : Compose α) : Prop :=
  ∀ s a s', s.tokens ≠ [] → m s = .ok (a, s') → s'.tokens.length + n ≤ s.tokens.length

theorem Takes.next (h : Takes n m) : TakesNext n m := fun s a s' _ hm => h s a s' hm

theorem Takes.of_le (h : Takes n m) (hk : k ≤ n) : Takes k m :=
  fun s a s' hm => Nat.le_trans (Nat.add_le_add_left hk _) (h s a s' hm)

theorem bind_apply_eq_ok_iff {s s' : ComposeState} {b : β} :
    (m >>= f) s = .ok (b, s') ↔ ∃ a s₁, m s = .ok (a, s₁) ∧ f a s₁ = .ok (b, s') := by
  have h : (m >>= f) s = (m s >>= fun p => f p.1 p.2) := rfl
  rw [h, Outcome.bind_eq_ok_iff, Prod.exists]

theorem takes_pure (a : α) : Takes 0 (pure a : Compose α) := by
  rintro s b s' ⟨⟩
  exact Nat.le_refl _

theorem takes_reject : Takes n (reject : Compose α) := fun _ _ _ h => nomatch h

theorem takes_reject_bind : Takes n (reject >>= f) := fun _ _ _ h => nomatch h

/-- One reading after the other, where the first takes nothing for certain. -/
theorem takes_then (hm : Takes 0 m) (hf : ∀ a, Takes n (f a)) : Takes n (m >>= f) := by
  intro s b s' h
  obtain ⟨a, s₁, ha, hb⟩ := bind_apply_eq_ok_iff.mp h
  exact Nat.le_trans (hf a s₁ b s' hb) (hm s a s₁ ha)

/-- One reading after the other, where the rest takes nothing for certain. -/
theorem takes_before (hm : Takes n m) (hf : ∀ a, Takes 0 (f a)) : Takes n (m >>= f) := by
  intro s b s' h
  obtain ⟨a, s₁, ha, hb⟩ := bind_apply_eq_ok_iff.mp h
  exact Nat.le_trans (Nat.add_le_add_right (hf a s₁ b s' hb) n) (hm s a s₁ ha)

theorem takes_get : Takes 0 (get : Compose ComposeState) := by
  rintro s a s' ⟨⟩
  exact Nat.le_refl _

theorem takes_modify {g : ComposeState → ComposeState} (h : ∀ s, (g s).tokens = s.tokens) :
    Takes 0 (modify g : Compose Unit) := by
  rintro s a s' ⟨⟩
  rw [h]
  exact Nat.le_refl _

/-! ### Tokens -/

/-- Looking at the next token shows that there is one. -/
theorem takes_peek_bind {f : Token → Compose β} (hf : ∀ t, TakesNext n (f t)) :
    Takes n (peek >>= f) := by
  intro s b s' h
  obtain ⟨t, s₁, ht, hb⟩ := bind_apply_eq_ok_iff.mp h
  obtain ⟨s₂, s₃, hget, ht⟩ := bind_apply_eq_ok_iff.mp ht
  cases hget
  cases htokens : s.tokens with
  | nil =>
    rw [htokens] at ht
    cases ht
  | cons u us =>
    rw [htokens] at ht
    cases ht
    rw [← htokens]
    exact hf t s b s' (by rw [htokens]; simp) hb

theorem takes_peek : Takes 0 peek := by
  have h : Takes 0 (peek >>= pure) := takes_peek_bind fun t => (takes_pure t).next
  rwa [bind_pure] at h

theorem takes_drop : Takes 0 drop := by
  rintro s a s' ⟨⟩
  simp

/-- A token that is left is taken away. -/
theorem takesNext_drop_bind {f : Unit → Compose β} (hf : Takes (n - 1) (f ())) :
    TakesNext n (drop >>= f) := by
  intro s b s' hs h
  obtain ⟨⟨⟩, s₁, ⟨⟩, hb⟩ := bind_apply_eq_ok_iff.mp h
  have hrest := hf _ b s' hb
  have hpos := List.length_pos_iff.mpr hs
  simp only [List.length_tail] at hrest
  omega

theorem takesNext_drop_return_bind (a : α) (hf : Takes (n - 1) (f a)) :
    TakesNext n ((do drop; return a) >>= f) := by
  rw [bind_assoc]
  exact takesNext_drop_bind hf

/-- Taking the next token away if it is the given one takes it, or nothing. -/
theorem takes_dropIf_bind {t : Token} {f : Bool → Compose β} (htrue : Takes (n - 1) (f true))
    (hfalse : Takes n (f false)) : Takes n (dropIf t >>= f) := by
  unfold dropIf
  rw [bind_assoc]
  refine takes_peek_bind fun u => ?_
  split
  · exact takesNext_drop_return_bind true htrue
  · exact hfalse.next

theorem takes_dropIf (t : Token) : Takes 0 (dropIf t) := by
  have h : Takes 0 (dropIf t >>= pure) := takes_dropIf_bind (takes_pure true) (takes_pure false)
  rwa [bind_pure] at h

/-! ### Anchors and tags -/

theorem takes_anchor?_bind {f : Option String → Compose β} (hsome : ∀ a, Takes (n - 1) (f (some a)))
    (hnone : Takes n (f none)) : Takes n (anchor? >>= f) := by
  unfold anchor?
  rw [bind_assoc]
  refine takes_peek_bind fun t => ?_
  split
  · exact takesNext_drop_return_bind _ (hsome _)
  · exact hnone.next

theorem takes_tag?_bind {f : Option WrittenTag → Compose β}
    (hsome : ∀ t, Takes (n - 1) (f (some t))) (hnone : Takes n (f none)) :
    Takes n (tag? >>= f) := by
  unfold tag?
  rw [bind_assoc]
  refine takes_peek_bind fun t => ?_
  split
  · exact takesNext_drop_return_bind _ (hsome _)
  · exact hnone.next

/-- Anchor and tag take a token, unless there is neither of them. -/
theorem takes_properties_bind {f : Option String × Option WrittenTag → Compose β}
    (hf : ∀ p k, k = n - 1 ∨ k = n ∧ p = (none, none) → Takes k (f p)) :
    Takes n (properties >>= f) := by
  have hsome (p : Option String × Option WrittenTag) : Takes (n - 1) (f p) := hf p _ (.inl rfl)
  unfold properties
  rw [bind_assoc]
  refine takes_anchor?_bind (fun a => ?_) ?_
  · show Takes (n - 1) ((tag? >>= fun t => pure (some a, t)) >>= f)
    rw [bind_assoc]
    exact takes_tag?_bind (fun t => (hsome _).of_le (Nat.sub_le _ _)) (hsome _)
  · show Takes n ((tag? >>= _) >>= f)
    rw [bind_assoc]
    refine takes_tag?_bind (fun t => ?_) (hf _ n (.inr ⟨rfl, rfl⟩))
    show Takes (n - 1) ((anchor? >>= fun a => pure (a, some t)) >>= f)
    rw [bind_assoc]
    exact takes_anchor?_bind (fun a => (hsome _).of_le (Nat.sub_le _ _)) (hsome _)

/-- A node without a tag has no text of a tag. -/
theorem takes_tagText?_bind {written : Option WrittenTag} {f : Option String → Compose β}
    (hf : ∀ tag, (written = none → tag = none) → Takes n (f tag)) :
    Takes n (tagText? written >>= f) := by
  cases written with
  | none => exact hf none fun _ => rfl
  | some t =>
    have htext : Takes 0 (tagText t) := by
      unfold tagText
      split
      · exact takes_pure _
      · refine takes_then takes_get fun s => ?_
        split
        · exact takes_pure _
        · exact takes_reject
    rw [tagText?, bind_assoc]
    exact takes_then htext fun text => hf (some text) fun h => nomatch h

/-! ### Nodes -/

theorem takes_add (node : Node) : Takes 0 (add node) := by
  rintro s a s' ⟨⟩
  exact Nat.le_refl _

theorem takes_fill (id : NodeId) (node : Node) : Takes 0 (fill id node) :=
  takes_modify fun _ => rfl

theorem takes_name (anchor : Option String) (id : NodeId) : Takes 0 (name anchor id) := by
  cases anchor with
  | none => exact takes_pure ()
  | some a => exact takes_modify fun _ => rfl

theorem takes_nothing : Takes 0 nothing := takes_add _

end Compose

open Compose

/-! ### Descent -/

section Contents

variable (anchor tag : Option String)

theorem takes_sequence {items : Compose (List NodeId)} (h : Takes 0 items) :
    Takes 0 (composeNode.sequence anchor tag items) :=
  takes_then (takes_add _) fun id => takes_then (takes_name anchor id) fun _ =>
    takes_then h fun _ => takes_then (takes_fill id _) fun _ => takes_pure id

theorem takes_mapping {entries : Compose (List (NodeId × NodeId))} (h : Takes 0 entries) :
    Takes 0 (composeNode.mapping anchor tag entries) :=
  takes_then (takes_add _) fun id => takes_then (takes_name anchor id) fun _ =>
    takes_then h fun _ => takes_then (takes_fill id _) fun _ => takes_pure id

theorem takes_emptyScalar : Takes 0 (composeNode.emptyScalar anchor tag) := by
  have hadd : Takes 0 (do
      let id ← Compose.add (.scalar (scalarTag tag true "") "")
      Compose.name anchor id
      return id) :=
    takes_then (takes_add _) fun id => takes_then (takes_name anchor id) fun _ => takes_pure id
  rw [composeNode.emptyScalar]
  split
  · exact takes_reject_bind
  · exact hadd

/-- There is no node without contents, anchor and tag. -/
theorem takes_emptyScalar_none (n : Nat) : Takes n (composeNode.emptyScalar none none) :=
  takes_reject_bind

end Contents

/-- What the readings of nodes and their parts take with some fuel: nothing is put back, and a node
takes a token, unless it is a sequence whose dashes stand in the column of its key. -/
structure TakeAt (fuel : Nat) : Prop where
  node : ∀ block dashes, Takes (if dashes then 0 else 1) (composeNode fuel block dashes)
  part : ∀ dashes ends, Takes 0 (composePart fuel dashes ends)
  blockItems : Takes 0 (composeBlockItems fuel)
  dashItems : Takes 0 (composeDashItems fuel)
  blockEntries : Takes 0 (composeBlockEntries fuel)
  flowPart : ∀ ends, Takes 0 (composeFlowPart fuel ends)
  flowPair : ∀ close, Takes 0 (composeFlowPair fuel close)
  flowItems : ∀ first, Takes 0 (composeFlowItems fuel first)
  flowEntries : ∀ first, Takes 0 (composeFlowEntries fuel first)

namespace TakeAt

variable {fuel : Nat}

theorem node_zero (h : TakeAt fuel) (block dashes : Bool) :
    Takes 0 (composeNode fuel block dashes) :=
  (h.node block dashes).of_le (Nat.zero_le _)

/-- Behind its anchor and tag, `k` tokens are left to be taken: one if there is neither of them. -/
theorem node_succ (h : TakeAt fuel) (block dashes : Bool) :
    Takes (if dashes then 0 else 1) (composeNode (fuel + 1) block dashes) := by
  generalize hn : (if dashes then 0 else 1) = n
  have hone : n - 1 = 0 := by
    rw [← hn]
    split <;> rfl
  rw [composeNode]
  refine takes_peek_bind fun t => ?_
  split
  · -- An alias is a token of its own.
    refine takesNext_drop_bind ?_
    rw [hone]
    refine takes_then takes_get fun s => ?_
    split
    · exact takes_pure _
    · exact takes_reject
  · refine Takes.next (takes_properties_bind fun p k hk => ?_)
    obtain ⟨anchor, written⟩ := p
    refine takes_tagText?_bind fun tag htag => ?_
    have hk1 : k - 1 = 0 := by
      rcases hk with rfl | ⟨rfl, -⟩ <;> omega
    -- Without anchor and tag there has to be something, so an empty scalar is refused.
    have hempty : Takes k (composeNode.emptyScalar anchor tag) := by
      rcases hk with rfl | ⟨-, hp⟩
      · rw [hone]
        exact takes_emptyScalar anchor tag
      · obtain ⟨rfl, rfl⟩ := Prod.mk.inj hp
        rw [htag rfl]
        exact takes_emptyScalar_none k
    -- Contents that are there start with a token, and this one is taken.
    have htaken {α : Type} {m : Compose α} (hm : Takes 0 m) :
        TakesNext k (do drop; m) := takesNext_drop_bind (by rwa [hk1])
    extract_lets contents
    have hcontents : Takes k (contents ()) := by
      refine takes_peek_bind fun next => ?_
      split
      · exact htaken (takes_then (takes_add _) fun id => takes_then (takes_name anchor id)
          fun _ => takes_pure id)
      · exact htaken (takes_sequence anchor tag (h.flowItems true))
      · exact htaken (takes_mapping anchor tag (h.flowEntries true))
      · split
        · -- With dashes allowed nothing has to be taken here.
          have hzero : k = 0 := by
            simp only [*, if_true] at hn
            omega
          rw [hzero]
          exact (takes_sequence anchor tag h.dashItems).next
        · exact hempty.next
      · split
        · exact htaken (takes_sequence anchor tag h.blockItems)
        · exact hempty.next
      · split
        · exact htaken (takes_mapping anchor tag h.blockEntries)
        · exact hempty.next
      · exact hempty.next
    split
    · refine takes_then takes_get fun s => ?_
      split
      · exact takes_reject_bind
      · exact hcontents
    · exact hcontents

theorem part_succ (h : TakeAt fuel) (dashes : Bool) (ends : Token → Bool) :
    Takes 0 (composePart (fuel + 1) dashes ends) := by
  rw [composePart]
  refine takes_then takes_peek fun t => ?_
  split
  · exact takes_nothing
  · exact h.node_zero true dashes

theorem blockItems_succ (h : TakeAt fuel) : Takes 0 (composeBlockItems (fuel + 1)) := by
  rw [composeBlockItems]
  refine takes_then (takes_dropIf _) fun dash => ?_
  split
  · exact takes_then (h.part _ _) fun _ => takes_then h.blockItems fun _ => takes_pure _
  · refine takes_then (takes_dropIf _) fun last => ?_
    split
    · exact takes_pure _
    · exact takes_reject

theorem dashItems_succ (h : TakeAt fuel) : Takes 0 (composeDashItems (fuel + 1)) := by
  rw [composeDashItems]
  refine takes_then (takes_dropIf _) fun dash => ?_
  split
  · exact takes_then (h.part _ _) fun _ => takes_then h.dashItems fun _ => takes_pure _
  · exact takes_pure _

theorem blockEntries_succ (h : TakeAt fuel) : Takes 0 (composeBlockEntries (fuel + 1)) := by
  rw [composeBlockEntries]
  refine takes_then (takes_dropIf _) fun hasKey => ?_
  split
  · refine takes_then (h.part _ _) fun key => takes_then (takes_dropIf _) fun hasValue => ?_
    have hrest (value : NodeId) : Takes 0 (do
        return (key, value) :: (← composeBlockEntries fuel)) :=
      takes_then h.blockEntries fun _ => takes_pure _
    split
    · exact takes_then (h.part _ _) hrest
    · exact takes_then takes_nothing hrest
  · refine takes_then (takes_dropIf _) fun last => ?_
    split
    · exact takes_pure _
    · exact takes_reject

theorem flowPart_succ (h : TakeAt fuel) (ends : Token → Bool) :
    Takes 0 (composeFlowPart (fuel + 1) ends) := by
  rw [composeFlowPart]
  refine takes_then takes_peek fun t => ?_
  split
  · exact takes_nothing
  · exact h.node_zero false false

theorem flowPair_succ (h : TakeAt fuel) (close : Token) :
    Takes 0 (composeFlowPair (fuel + 1) close) := by
  rw [composeFlowPair]
  refine takes_then (h.flowPart _) fun key => takes_then (takes_dropIf _) fun hasValue => ?_
  split
  · exact takes_then (h.flowPart _) fun _ => takes_pure _
  · exact takes_then takes_nothing fun _ => takes_pure _

theorem flowItems_succ (h : TakeAt fuel) (first : Bool) :
    Takes 0 (composeFlowItems (fuel + 1) first) := by
  rw [composeFlowItems]
  refine takes_then (takes_dropIf _) fun last => ?_
  split
  · exact takes_pure _
  extract_lets items
  have hrest (id : NodeId) : Takes 0 (do return id :: (← composeFlowItems fuel false)) :=
    takes_then (h.flowItems false) fun _ => takes_pure _
  have hitems : Takes 0 (items ()) := by
    refine takes_then (takes_dropIf _) fun hasKey => ?_
    split
    · exact takes_then (takes_add _) fun id => takes_then (h.flowPair _) fun _ =>
        takes_then (takes_fill id _) fun _ => hrest id
    · refine takes_then (takes_dropIf _) fun last => ?_
      split
      · exact takes_pure _
      · exact takes_then (h.node_zero false false) hrest
  split
  · refine takes_then (takes_dropIf _) fun comma => ?_
    split
    · exact takes_reject_bind
    · exact hitems
  · exact hitems

theorem flowEntries_succ (h : TakeAt fuel) (first : Bool) :
    Takes 0 (composeFlowEntries (fuel + 1) first) := by
  rw [composeFlowEntries]
  refine takes_then (takes_dropIf _) fun last => ?_
  split
  · exact takes_pure _
  extract_lets entries
  have hrest (e : NodeId × NodeId) : Takes 0 (do return e :: (← composeFlowEntries fuel false)) :=
    takes_then (h.flowEntries false) fun _ => takes_pure _
  have hentries : Takes 0 (entries ()) := by
    refine takes_then (takes_dropIf _) fun hasKey => ?_
    split
    · exact takes_then (h.flowPair _) hrest
    · refine takes_then (takes_dropIf _) fun last => ?_
      split
      · exact takes_pure _
      · exact takes_then (h.node_zero false false) fun key =>
          takes_then takes_nothing fun value => hrest (key, value)
  split
  · refine takes_then (takes_dropIf _) fun comma => ?_
    split
    · exact takes_reject_bind
    · exact hentries
  · exact hentries

end TakeAt

/-- No reading puts a token back. The induction is on the fuel: every reading calls the others with
less. -/
theorem takeAt (fuel : Nat) : TakeAt fuel := by
  induction fuel with
  | zero =>
    exact {
      node := fun _ _ => takes_reject
      part := fun _ _ => takes_reject
      blockItems := takes_reject
      dashItems := takes_reject
      blockEntries := takes_reject
      flowPart := fun _ => takes_reject
      flowPair := fun _ => takes_reject
      flowItems := fun _ => takes_reject
      flowEntries := fun _ => takes_reject }
  | succ fuel ih =>
    exact {
      node := ih.node_succ
      part := ih.part_succ
      blockItems := ih.blockItems_succ
      dashItems := ih.dashItems_succ
      blockEntries := ih.blockEntries_succ
      flowPart := ih.flowPart_succ
      flowPair := ih.flowPair_succ
      flowItems := ih.flowItems_succ
      flowEntries := ih.flowEntries_succ }

/-! ### Documents -/

theorem takes_composeDirectives (versioned : Bool) (handles : List (String × String))
    (fuel : Nat) : Takes 0 (composeDirectives versioned handles fuel) := by
  induction fuel generalizing versioned handles with
  | zero => exact takes_reject
  | succ fuel ih =>
    have hrest (versioned : Bool) (handles : List (String × String)) :
        Takes 0 (do drop; composeDirectives versioned handles fuel) :=
      takes_then takes_drop fun _ => ih versioned handles
    rw [composeDirectives]
    refine takes_then takes_peek fun t => ?_
    split
    · extract_lets rest
      split
      · exact takes_reject_bind
      · exact hrest _ _
    · extract_lets rest
      split
      · exact takes_reject_bind
      · exact hrest _ _
    · exact hrest _ _
    · exact takes_pure _

theorem takes_dropEnds (fuel : Nat) : Takes 0 (dropEnds fuel) := by
  induction fuel with
  | zero => exact takes_reject
  | succ fuel ih =>
    rw [dropEnds]
    refine takes_then (takes_dropIf _) fun hasEnd => ?_
    split
    · exact ih
    · exact takes_pure ()

/-- What starts a document takes the mark, if there is a document. -/
theorem takes_composeStart_bind {α : Type} (fuel : Nat) {f : Bool → Compose α} {n : Nat}
    (htrue : Takes (n - 1) (f true)) (hfalse : Takes n (f false)) :
    Takes n (composeStart fuel >>= f) := by
  rw [composeStart, bind_assoc]
  refine takes_then (takes_dropEnds fuel) fun _ => ?_
  rw [bind_assoc]
  refine takes_then takes_peek fun t => ?_
  split
  · exact hfalse
  rw [bind_assoc]
  refine takes_then (takes_composeDirectives false [] fuel) fun handles => ?_
  rw [bind_assoc]
  refine takes_dropIf_bind ?_ takes_reject_bind
  show Takes (n - 1) ((do
    modify fun s => { s with handles := handles ++ defaultHandles }
    return true) >>= f)
  rw [bind_assoc]
  exact takes_then (takes_modify fun _ => rfl) fun _ => htrue

/-- A reading that has to find something. -/
def Compose.found {α : Type} : Option α → Compose α
  | some a => return a
  | none => reject

/-- A document that is there takes its mark, or a token of its contents. -/
theorem takes_composeDocument_found (first : Bool) :
    Takes 1 (composeDocument first >>= found) := by
  rw [composeDocument, bind_assoc]
  refine takes_then takes_get fun s => ?_
  rw [bind_assoc]
  refine takes_then (takes_modify fun _ => rfl) fun _ => ?_
  rw [bind_assoc]
  refine takes_then takes_peek fun t => ?_
  extract_lets marked finish contents
  have hfinish (root : NodeId) : Takes 0 (finish root >>= found) := by
    show Takes 0 ((discard (dropIf .documentEnd) >>= fun _ => pure (some root)) >>= found)
    rw [bind_assoc]
    refine takes_then ?_ fun _ => takes_pure root
    exact takes_then (takes_dropIf _) fun _ => takes_pure ()
  have hnode (fuel : Nat) : Takes 1 ((composeNode fuel true false >>= finish) >>= found) := by
    rw [bind_assoc]
    exact takes_before ((takeAt fuel).node true false) hfinish
  -- Only behind a mark may the contents be left out.
  have hcontents (k : Nat) (hk : k ≤ 1) (hmarked : marked = true → k = 0) :
      Takes k (contents () >>= found) := by
    show Takes k ((peek >>= fun next =>
      if marked && endsDocument next then nothing >>= finish
      else composeNode (8 * s.tokens.length + 16) true false >>= finish) >>= found)
    rw [bind_assoc]
    refine takes_then takes_peek fun next => ?_
    split
    · rename_i hnothing
      rw [hmarked (Bool.and_eq_true_iff.mp hnothing).1, bind_assoc]
      exact takes_then takes_nothing hfinish
    · exact (hnode _).of_le hk
  split
  · rw [bind_assoc]
    exact takes_composeStart_bind _ (hcontents 0 (by omega) fun _ => rfl) takes_reject
  · rename_i hunmarked
    exact hcontents 1 (by omega) fun h => absurd h hunmarked

/-- A document that is there takes a token. -/
theorem length_lt_of_composeDocument {first : Bool} {s s' : ComposeState} {root : NodeId}
    (h : composeDocument first s = .ok (some root, s')) :
    s'.tokens.length < s.tokens.length :=
  takes_composeDocument_found first s root s' (bind_apply_eq_ok_iff.mpr ⟨some root, s', h, rfl⟩)

end PipelineManifest.Yaml
