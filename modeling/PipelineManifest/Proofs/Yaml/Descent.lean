import Mathlib.Data.Finset.Card
import Mathlib.Logic.Relation
import PipelineManifest.Proofs.Yaml.Sourced

/-!
# `PipelineManifest.Proofs.Yaml.Descent`: the source by descent

The source of a document is collected level by level (`Graph.sourceHeap`): a container is put into a
queue when it is met, and expanded later. The textbook traversal goes down instead. It expands a
container at once, with a memo that has the container before it has anything of its contents, so
that a reference to it from inside finds it. This module defines the descent and says what it finds.
`Proofs/Yaml/Mirror.lean` proves that both traversals find the same.

The descent follows no structure, since a container may be reached from itself. What gets less is
the number of containers that the memo does not have (`Graph.unmet`): a container that is expanded
has just been put into the memo, and nothing is taken out of it.

* `Heap.Extension`: a memo with all that another has.
* `Graph.descend`: the traversal.
* `Graph.Reaches`, `Graph.HasScalarKeys`: the nodes that are reached, and what is asked of them.
* `Graph.Found`: what a traversal adds to the memo, with one lemma for each step.
* `Graph.DescendsBelow`: the induction on `Graph.unmet`, with a step for sequences and one for
  mappings.
* `Graph.descend_eq_ok`: all that is reached is found, each container once.
-/

set_option autoImplicit false

namespace PipelineManifest.Yaml

namespace Heap

/-- The heap with more containers. -/
def append (h : Heap) (new : List (NodeId × Shape)) : Heap := ⟨h.shapes ++ new⟩

/-- The heap with another shape for a container that it has. -/
def fill (h : Heap) (id : NodeId) (s : Shape) : Heap :=
  ⟨h.shapes.map fun e => if e.1 = id then (id, s) else e⟩

@[simp] theorem ids_append (h : Heap) (new : List (NodeId × Shape)) :
    (h.append new).ids = h.ids ++ new.map Prod.fst := by
  simp [append, ids]

@[simp] theorem append_nil (h : Heap) : h.append [] = h := by
  simp [append]

theorem append_append (h : Heap) (new new' : List (NodeId × Shape)) :
    (h.append new).append new' = h.append (new ++ new') := by
  simp [append]

@[simp] theorem ids_fill (h : Heap) (id : NodeId) (s : Shape) : (h.fill id s).ids = h.ids := by
  rw [ids, fill, List.map_map]
  refine List.map_congr_left fun e _ => ?_
  rw [Function.comp_apply]
  split
  · rename_i he
    exact he.symm
  · rfl

/-- Filling in a container that came between others changes its shape and no other. -/
theorem fill_append {h : Heap} {id : NodeId} {new : List (NodeId × Shape)} (hid : id ∉ h.ids)
    (hnew : id ∉ new.map Prod.fst) (s₀ s : Shape) :
    ((h.append [(id, s₀)]).append new).fill id s = h.append ((id, s) :: new) := by
  have hother : ∀ es : List (NodeId × Shape), id ∉ es.map Prod.fst →
      es.map (fun e => if e.1 = id then (id, s) else e) = es := by
    intro es hes
    calc es.map (fun e => if e.1 = id then (id, s) else e)
        = es.map fun e => e := List.map_congr_left fun e he =>
          if_neg fun heq : e.1 = id => hes (heq ▸ List.mem_map_of_mem he)
      _ = es := List.map_id' es
  rw [append_append, fill, append, List.map_append, hother _ hid, List.singleton_append,
    List.map_cons, hother _ hnew, if_pos rfl, append]

/-- A heap with all containers that another has. -/
abbrev Extension (h : Heap) : Type := { h' : Heap // h.ids ⊆ h'.ids }

namespace Extension

variable {h : Heap}

/-- A heap extends itself. -/
def refl (h : Heap) : Extension h := ⟨h, List.Subset.refl _⟩

/-- An extension of an extension. -/
def trans (e : Extension h) (e' : Extension e.1) : Extension h :=
  ⟨e'.1, fun _ hx => e'.2 (e.2 hx)⟩

/-- What extends a heap with one container more, once the container is filled in. -/
def filled {id : NodeId} {s₀ : Shape} (e : Extension (h.append [(id, s₀)])) (s : Shape) :
    Extension h :=
  ⟨e.1.fill id s, by
    intro x hx
    rw [ids_fill]
    exact e.2 (by simp [hx])⟩

end Extension

end Heap

namespace Graph

/-- Whether a node is a sequence or a mapping. -/
def isContainer (g : Graph) (id : NodeId) : Bool :=
  match g.node id with
  | .scalar .. => false
  | _ => true

theorem isContainer_iff {g : Graph} {id : NodeId} :
    g.isContainer id = true ↔ ∀ tag text, g.node id ≠ .scalar tag text := by
  rw [isContainer]
  cases g.node id <;> simp

theorem isContainer_of_sequence {g : Graph} {id : NodeId} {tag : Tag} {items : List NodeId}
    (h : g.node id = .sequence tag items) : g.isContainer id = true := by
  rw [isContainer, h]

theorem isContainer_of_mapping {g : Graph} {id : NodeId} {tag : Tag} {es : List (NodeId × NodeId)}
    (h : g.node id = .mapping tag es) : g.isContainer id = true := by
  rw [isContainer, h]

/-- A scalar is a value of its own in every reading. -/
theorem slotBy_of_not_isContainer {ρ : Written → Value} {g : Graph} {id : NodeId}
    (h : g.isContainer id = false) : slotBy ρ g id = .leaf (ρ (g.written id)) := by
  cases hn : g.node id with
  | scalar tag text => rw [slotBy_of_scalar hn, written, hn]
  | sequence tag items =>
    rw [isContainer_of_sequence hn] at h
    cases h
  | mapping tag es =>
    rw [isContainer_of_mapping hn] at h
    cases h

/-- How many containers of a graph a memo does not have. -/
def unmet (g : Graph) (memo : Heap) : Nat :=
  ((Finset.range g.size).filter fun id => g.isContainer id = true ∧ id ∉ memo.ids).card

/-- A memo that has more misses less. -/
theorem unmet_le {g : Graph} {memo : Heap} (e : memo.Extension) : g.unmet e.1 ≤ g.unmet memo := by
  refine Finset.card_le_card (Finset.monotone_filter_right _ ?_)
  intro id _ ⟨hcontainer, hid⟩
  exact ⟨hcontainer, fun hmem => hid (e.2 hmem)⟩

/-- A container that is put into the memo is missed no longer. -/
theorem unmet_append_lt {g : Graph} {memo : Heap} {id : NodeId} (s : Shape)
    (hcontainer : g.isContainer id = true) (hid : id ∉ memo.ids) :
    g.unmet (memo.append [(id, s)]) < g.unmet memo := by
  have hlt : id < g.size := lt_size_of_node (isContainer_iff.mp hcontainer)
  refine Finset.card_lt_card ((Finset.ssubset_iff_of_subset ?_).mpr ⟨id, ?_, ?_⟩)
  · refine Finset.monotone_filter_right _ ?_
    intro x _ ⟨hx, hmet⟩
    exact ⟨hx, fun hmem => hmet (by simp [hmem])⟩
  · simp [hcontainer, hid, hlt]
  · simp

/-! ### The traversal -/

mutual

/-- What stands for a node, and the memo with all containers that are reached from it. -/
def descend (g : Graph) (memo : Heap) (id : NodeId) : Except Defect (Slot × memo.Extension) :=
  if _ : id ∈ memo.ids then .ok (.node id, .refl memo)
  else
    match _ : g.node id with
    | .sequence _ items => do
      -- The memo has the container while its contents are read.
      let (slots, found) ← descendItems g (memo.append [(id, .seq [])]) items
      .ok (.node id, found.filled (.seq slots))
    | .mapping _ es => do
      let (entries, found) ← descendEntries g (memo.append [(id, .map [])]) es
      .ok (.node id, found.filled (.map entries))
    | .scalar tag text => .ok (.leaf (if tag = .null then .null else .str text), .refl memo)
termination_by (g.unmet memo, 0)
decreasing_by
  · exact .left _ _ (unmet_append_lt _ (isContainer_of_sequence ‹_›) ‹id ∉ memo.ids›)
  · exact .left _ _ (unmet_append_lt _ (isContainer_of_mapping ‹_›) ‹id ∉ memo.ids›)

/-- `descend` on the items of a sequence, each with the memo that the one before it leaves. -/
def descendItems (g : Graph) (memo : Heap) :
    List NodeId → Except Defect (List Slot × memo.Extension)
  | [] => .ok ([], .refl memo)
  | id :: ids => do
    let (slot, found) ← descend g memo id
    let (slots, found') ← descendItems g found.1 ids
    .ok (slot :: slots, found.trans found')
termination_by ids => (g.unmet memo, ids.length)
decreasing_by
  · exact .right _ (by simp)
  · exact Prod.Lex.right' _ (unmet_le found) (by simp)

/-- `descend` on the entries of a mapping. The value of an entry comes before its key, which must
be a scalar. -/
def descendEntries (g : Graph) (memo : Heap) :
    List (NodeId × NodeId) → Except Defect (List (Value × Slot) × memo.Extension)
  | [] => .ok ([], .refl memo)
  | (k, v) :: es => do
    let (value, found) ← descend g memo v
    let (key, found') ← descend g found.1 k
    match key with
    | .node _ => .error .noText
    | .leaf key =>
      let (entries, found'') ← descendEntries g found'.1 es
      .ok ((key, value) :: entries, found.trans (found'.trans found''))
termination_by es => (g.unmet memo, es.length)
decreasing_by
  · exact .right _ (by simp)
  · exact Prod.Lex.right' _ (unmet_le found) (by simp)
  · exact Prod.Lex.right' _ (unmet_le (found.trans found')) (by simp)

end

section Equations

variable {g : Graph} {memo : Heap} {id : NodeId} {tag : Tag}

/-- A container that the memo has is not expanded again. -/
theorem descend_of_mem (hid : id ∈ memo.ids) :
    g.descend memo id = .ok (.node id, .refl memo) := by
  rw [descend, dif_pos hid]

theorem descend_of_scalar {text : String} (hid : id ∉ memo.ids)
    (h : g.node id = .scalar tag text) :
    g.descend memo id = .ok (g.sourceSlot id, .refl memo) := by
  rw [descend, dif_neg hid, sourceSlot, h]

theorem descend_of_sequence {items : List NodeId} (hid : id ∉ memo.ids)
    (h : g.node id = .sequence tag items) :
    g.descend memo id = do
      let (slots, found) ← g.descendItems (memo.append [(id, .seq [])]) items
      return (.node id, found.filled (.seq slots)) := by
  rw [descend, dif_neg hid, h]
  rfl

theorem descend_of_mapping {es : List (NodeId × NodeId)} (hid : id ∉ memo.ids)
    (h : g.node id = .mapping tag es) :
    g.descend memo id = do
      let (entries, found) ← g.descendEntries (memo.append [(id, .map [])]) es
      return (.node id, found.filled (.map entries)) := by
  rw [descend, dif_neg hid, h]
  rfl

end Equations

/-! ### What is reached -/

/-- The nodes that a node refers to. -/
def children (g : Graph) (id : NodeId) : List NodeId :=
  match g.node id with
  | .scalar .. => []
  | .sequence _ items => items
  | .mapping _ es => es.flatMap fun e => [e.1, e.2]

/-- Whether a node is reached from another one. -/
def Reaches (g : Graph) : NodeId → NodeId → Prop :=
  Relation.ReflTransGen fun x y => y ∈ g.children x

/-- Whether no container is a key of a mapping that is reached from a node. -/
def HasScalarKeys (g : Graph) (root : NodeId) : Prop :=
  ∀ id, g.Reaches root id → ∀ e ∈ g.entries id, g.isContainer e.1 = false

section Reaches

variable {g : Graph} {id : NodeId} {tag : Tag}

theorem children_of_sequence {items : List NodeId} (h : g.node id = .sequence tag items) :
    g.children id = items := by
  rw [children, h]

theorem children_of_mapping {es : List (NodeId × NodeId)} (h : g.node id = .mapping tag es) :
    g.children id = es.flatMap fun e => [e.1, e.2] := by
  rw [children, h]

/-- What refers to a node is a container. -/
theorem isContainer_of_mem_children {x : NodeId} (h : x ∈ g.children id) :
    g.isContainer id = true := by
  rw [isContainer_iff]
  intro tag text hn
  rw [children, hn] at h
  cases h

theorem Reaches.refl (g : Graph) (id : NodeId) : g.Reaches id id := Relation.ReflTransGen.refl

theorem Reaches.of_mem_children {x y : NodeId} (hx : x ∈ g.children id) (h : g.Reaches x y) :
    g.Reaches id y :=
  Relation.ReflTransGen.head hx h

theorem HasScalarKeys.of_mem_children {x : NodeId} (h : g.HasScalarKeys id)
    (hx : x ∈ g.children id) : g.HasScalarKeys x :=
  fun y hy => h y (hy.of_mem_children hx)

/-- What has the node from which the traversal starts, and with a container all containers that it
refers to, has all containers that are reached. -/
theorem mem_of_reaches {root : NodeId} {ids : List NodeId}
    (hroot : g.isContainer root = true → root ∈ ids)
    (hclosed : ∀ x ∈ ids, ∀ y ∈ g.children x, g.isContainer y = true → y ∈ ids)
    (hreach : g.Reaches root id) (hid : g.isContainer id = true) : id ∈ ids := by
  induction hreach with
  | refl => exact hroot hid
  | tail _ hy ih => exact hclosed _ (ih (isContainer_of_mem_children hy)) _ hy hid

theorem slotBy_eq_node_iff {ρ : Written → Value} {x : NodeId} :
    slotBy ρ g id = .node x ↔ id = x ∧ g.isContainer x = true := by
  rw [isContainer_iff]
  constructor
  · intro h
    obtain ⟨rfl, hn⟩ := slotBy_eq_node h
    exact ⟨rfl, hn⟩
  · rintro ⟨rfl, hn⟩
    exact slotBy_of_not_scalar hn

/-- What the shape of a container refers to are the containers among its children, since its keys
are scalars. -/
theorem mem_references_shapeBy {ρ : Written → Value} {x : NodeId}
    (hkeys : ∀ e ∈ g.entries id, g.isContainer e.1 = false) :
    x ∈ (shapeBy ρ g id).references ↔ x ∈ g.children id ∧ g.isContainer x = true := by
  rw [Shape.mem_references]
  cases hn : g.node id with
  | scalar tag text =>
    rw [shapeBy, children, hn]
    simp [Shape.slots]
  | sequence tag items =>
    rw [slots_shapeBy_of_sequence hn, children_of_sequence hn, List.mem_map]
    simp only [slotBy_eq_node_iff]
    constructor
    · rintro ⟨y, hy, rfl, hx⟩
      exact ⟨hy, hx⟩
    · rintro ⟨hx, hcontainer⟩
      exact ⟨x, hx, rfl, hcontainer⟩
  | mapping tag es =>
    rw [entries_of_mapping hn] at hkeys
    rw [slots_shapeBy_of_mapping hn, children_of_mapping hn, List.mem_map, List.mem_flatMap]
    simp only [slotBy_eq_node_iff, List.mem_cons, List.not_mem_nil, or_false]
    constructor
    · rintro ⟨e, he, rfl, hx⟩
      exact ⟨⟨e, he, .inr rfl⟩, hx⟩
    · rintro ⟨⟨e, he, rfl | rfl⟩, hx⟩
      · rw [hkeys e he] at hx
        cases hx
      · exact ⟨e, he, rfl, hx⟩

end Reaches

/-! ### What is found -/

/-- What a traversal from some nodes adds to a memo. It is enough to say of every container that is
new where it comes from and what it refers to; the rest follows for all of them together. -/
structure Found (g : Graph) (memo : Heap) (starts : List NodeId)
    (new : List (NodeId × Shape)) : Prop where
  /-- Nothing is expanded that the memo has. -/
  fresh : ∀ e ∈ new, e.1 ∉ memo.ids
  /-- Nothing is expanded twice. -/
  nodup : (new.map Prod.fst).Nodup
  container : ∀ e ∈ new, g.isContainer e.1 = true
  reached : ∀ e ∈ new, ∃ s ∈ starts, g.Reaches s e.1
  shape : ∀ e ∈ new, e.2 = shapeBy Written.spell g e.1
  starts : ∀ s ∈ starts, g.isContainer s = true → s ∈ memo.ids ++ new.map Prod.fst
  /-- What is expanded is followed up. -/
  closed : ∀ e ∈ new, ∀ x ∈ g.children e.1, g.isContainer x = true →
    x ∈ memo.ids ++ new.map Prod.fst

namespace Found

variable {g : Graph} {memo : Heap} {xs ys : List NodeId} {new new' : List (NodeId × Shape)}

/-- Where the memo has all containers from which the traversal starts, there is nothing to do. -/
theorem nil (h : ∀ s ∈ xs, g.isContainer s = true → s ∈ memo.ids) : g.Found memo xs [] where
  fresh := by simp
  nodup := List.nodup_nil
  container := by simp
  reached := by simp
  shape := by simp
  starts := by simpa using h
  closed := by simp

/-- One traversal after the other, with the memo that the first one leaves. -/
theorem append (h : g.Found memo xs new) (h' : g.Found (memo.append new) ys new') :
    g.Found memo (xs ++ ys) (new ++ new') := by
  -- What is in the memo after the first traversal is in it after both.
  have hkept : ∀ x ∈ memo.ids ++ new.map Prod.fst, x ∈ memo.ids ++ (new ++ new').map Prod.fst := by
    intro x hx
    rw [List.map_append, ← List.append_assoc]
    exact List.mem_append_left _ hx
  have hmet : (memo.append new).ids ++ new'.map Prod.fst
      = memo.ids ++ (new ++ new').map Prod.fst := by simp
  have hfresh : ∀ e ∈ new', e.1 ∉ memo.ids ∧ e.1 ∉ new.map Prod.fst := by
    intro e he
    have hnot := h'.fresh e he
    rwa [Heap.ids_append, List.mem_append, not_or] at hnot
  constructor
  case fresh => exact List.forall_mem_append.mpr ⟨h.fresh, fun e he => (hfresh e he).1⟩
  case nodup =>
    rw [List.map_append, List.nodup_append]
    refine ⟨h.nodup, h'.nodup, ?_⟩
    intro x hx y hy heq
    obtain ⟨e, he, hey⟩ := List.mem_map.mp hy
    rw [heq, ← hey] at hx
    exact (hfresh e he).2 hx
  case container => exact List.forall_mem_append.mpr ⟨h.container, h'.container⟩
  case reached =>
    rw [List.forall_mem_append]
    constructor
    · intro e he
      obtain ⟨s, hs, hreach⟩ := h.reached e he
      exact ⟨s, List.mem_append_left _ hs, hreach⟩
    · intro e he
      obtain ⟨s, hs, hreach⟩ := h'.reached e he
      exact ⟨s, List.mem_append_right _ hs, hreach⟩
  case shape => exact List.forall_mem_append.mpr ⟨h.shape, h'.shape⟩
  case starts =>
    rw [List.forall_mem_append]
    constructor
    · intro s hs hcontainer
      exact hkept s (h.starts s hs hcontainer)
    · intro s hs hcontainer
      rw [← hmet]
      exact h'.starts s hs hcontainer
  case closed =>
    rw [List.forall_mem_append]
    constructor
    · intro e he x hx hcontainer
      exact hkept x (h.closed e he x hx hcontainer)
    · intro e he x hx hcontainer
      rw [← hmet]
      exact h'.closed e he x hx hcontainer

/-- The order in which a traversal starts from its nodes does not matter. -/
theorem of_starts (h : g.Found memo xs new) (hxs : ∀ s, s ∈ xs ↔ s ∈ ys) : g.Found memo ys new where
  fresh := h.fresh
  nodup := h.nodup
  container := h.container
  reached e he := by
    obtain ⟨s, hs, hreach⟩ := h.reached e he
    exact ⟨s, (hxs s).mp hs, hreach⟩
  shape := h.shape
  starts s hs := h.starts s ((hxs s).mpr hs)
  closed := h.closed

/-- A container is expanded: it is put into the memo, and then its contents are traversed. -/
theorem expand {id : NodeId} {s₀ : Shape} (hid : id ∉ memo.ids)
    (hcontainer : g.isContainer id = true)
    (h : g.Found (memo.append [(id, s₀)]) (g.children id) new) :
    g.Found memo [id] ((id, shapeBy Written.spell g id) :: new) := by
  have hmet : (memo.append [(id, s₀)]).ids ++ new.map Prod.fst
      = memo.ids ++ ((id, shapeBy Written.spell g id) :: new).map Prod.fst := by simp
  have hfresh : ∀ e ∈ new, e.1 ∉ memo.ids ∧ e.1 ≠ id := by
    intro e he
    simpa using h.fresh e he
  constructor
  case fresh => exact List.forall_mem_cons.mpr ⟨hid, fun e he => (hfresh e he).1⟩
  case nodup =>
    rw [List.map_cons, List.nodup_cons]
    refine ⟨?_, h.nodup⟩
    intro hmem
    obtain ⟨e, he, heq⟩ := List.mem_map.mp hmem
    exact (hfresh e he).2 heq
  case container => exact List.forall_mem_cons.mpr ⟨hcontainer, h.container⟩
  case reached =>
    rw [List.forall_mem_cons]
    refine ⟨⟨id, by simp, .refl g id⟩, ?_⟩
    intro e he
    obtain ⟨s, hs, hreach⟩ := h.reached e he
    exact ⟨id, by simp, hreach.of_mem_children hs⟩
  case shape => exact List.forall_mem_cons.mpr ⟨rfl, h.shape⟩
  case starts =>
    intro s hs _
    rw [List.mem_singleton.mp hs]
    simp
  -- The contents of the container are where the rest of the traversal starts.
  case closed =>
    rw [List.forall_mem_cons, ← hmet]
    exact ⟨h.starts, h.closed⟩

end Found

/-! ### The run -/

section Run

variable {g : Graph} {n : Nat} {memo : Heap} {id : NodeId} {tag : Tag}

/-- Whether the descent from a node succeeds, and finds what it has to. -/
def Descends (g : Graph) (memo : Heap) (id : NodeId) : Prop :=
  ∃ (e : memo.Extension) (new : List (NodeId × Shape)),
    g.descend memo id = .ok (g.sourceSlot id, e) ∧ e.1 = memo.append new ∧ g.Found memo [id] new

/-- The same from every memo that misses fewer than `n` containers. -/
def DescendsBelow (g : Graph) (n : Nat) : Prop :=
  ∀ (memo : Heap) (id : NodeId), g.unmet memo < n → (∀ x ∈ memo.ids, g.isContainer x = true) →
    g.HasScalarKeys id → g.Descends memo id

/-- What stands for a scalar does not depend on the memo, which has containers only. -/
theorem descend_of_not_isContainer (hmemo : ∀ x ∈ memo.ids, g.isContainer x = true)
    (h : g.isContainer id = false) :
    g.descend memo id = .ok (.leaf (g.written id).spell, .refl memo) := by
  have hid : id ∉ memo.ids := by
    intro hmem
    rw [hmemo id hmem] at h
    cases h
  cases hn : g.node id with
  | scalar tag text =>
    rw [descend_of_scalar hid hn, sourceSlot_eq, slotBy_of_not_isContainer h]
  | sequence tag items =>
    rw [isContainer_of_sequence hn] at h
    cases h
  | mapping tag es =>
    rw [isContainer_of_mapping hn] at h
    cases h

/-- A memo goes on to have nothing but containers. -/
theorem isContainer_of_mem_append {new : List (NodeId × Shape)}
    (hmemo : ∀ x ∈ memo.ids, g.isContainer x = true)
    (hnew : ∀ e ∈ new, g.isContainer e.1 = true) :
    ∀ x ∈ (memo.append new).ids, g.isContainer x = true := by
  intro x hx
  rw [Heap.ids_append, List.mem_append] at hx
  rcases hx with hx | hx
  · exact hmemo x hx
  · obtain ⟨e, he, rfl⟩ := List.mem_map.mp hx
    exact hnew e he

/-- What the memo has when a container has been traversed: the container comes first of what is
new. -/
theorem filled_eq {s₀ : Shape} {starts : List NodeId} {new : List (NodeId × Shape)}
    (hid : id ∉ memo.ids) {e : Heap.Extension (memo.append [(id, s₀)])}
    (he : e.1 = (memo.append [(id, s₀)]).append new)
    (h : g.Found (memo.append [(id, s₀)]) starts new) (s : Shape) :
    (e.filled s).1 = memo.append ((id, s) :: new) := by
  have hnew : id ∉ new.map Prod.fst := by
    intro hmem
    obtain ⟨f, hf, rfl⟩ := List.mem_map.mp hmem
    exact h.fresh f hf (by simp)
  show e.1.fill id s = _
  rw [he]
  exact Heap.fill_append hid hnew s₀ s

theorem DescendsBelow.items (h : g.DescendsBelow n) (hn : g.unmet memo < n)
    (hmemo : ∀ x ∈ memo.ids, g.isContainer x = true) {ids : List NodeId}
    (hkeys : ∀ id ∈ ids, g.HasScalarKeys id) :
    ∃ (e : memo.Extension) (new : List (NodeId × Shape)),
      g.descendItems memo ids = .ok (ids.map g.sourceSlot, e) ∧ e.1 = memo.append new ∧
        g.Found memo ids new := by
  induction ids generalizing memo with
  | nil =>
    refine ⟨.refl memo, [], ?_, (Heap.append_nil memo).symm, .nil (by simp)⟩
    rw [descendItems]
    rfl
  | cons id ids ih =>
    obtain ⟨hid, hids⟩ := List.forall_mem_cons.mp hkeys
    obtain ⟨e, new, hfirst, he, hfound⟩ := h memo id hn hmemo hid
    have hmemo' : ∀ x ∈ e.1.ids, g.isContainer x = true := by
      rw [he]
      exact isContainer_of_mem_append hmemo hfound.container
    obtain ⟨e', new', hrest, he', hfound'⟩ := ih ((unmet_le e).trans_lt hn) hmemo' hids
    refine ⟨e.trans e', new ++ new', ?_, ?_, ?_⟩
    · rw [descendItems]
      exact Outcome.bind_eq_ok_iff.mpr ⟨_, hfirst, Outcome.bind_eq_ok_iff.mpr ⟨_, hrest, rfl⟩⟩
    · show e'.1 = _
      rw [he', he, Heap.append_append]
    · exact hfound.append (he ▸ hfound')

theorem DescendsBelow.entries (h : g.DescendsBelow n) (hn : g.unmet memo < n)
    (hmemo : ∀ x ∈ memo.ids, g.isContainer x = true) {es : List (NodeId × NodeId)}
    (hkeys : ∀ e ∈ es, g.isContainer e.1 = false ∧ g.HasScalarKeys e.2) :
    ∃ (e : memo.Extension) (new : List (NodeId × Shape)),
      g.descendEntries memo es
        = .ok (es.map fun e => ((g.written e.1).spell, g.sourceSlot e.2), e) ∧
        e.1 = memo.append new ∧ g.Found memo (es.flatMap fun e => [e.1, e.2]) new := by
  induction es generalizing memo with
  | nil =>
    refine ⟨.refl memo, [], ?_, (Heap.append_nil memo).symm, .nil (by simp)⟩
    rw [descendEntries]
    rfl
  | cons entry es ih =>
    obtain ⟨k, v⟩ := entry
    obtain ⟨⟨hk, hv⟩, hes⟩ := List.forall_mem_cons.mp hkeys
    obtain ⟨e, new, hvalue, he, hfound⟩ := h memo v hn hmemo hv
    have hmemo' : ∀ x ∈ e.1.ids, g.isContainer x = true := by
      rw [he]
      exact isContainer_of_mem_append hmemo hfound.container
    -- The key is a scalar, so the memo is the one that the value leaves.
    have hkey := descend_of_not_isContainer hmemo' hk
    have hnone : g.Found e.1 [k] [] := by
      refine .nil ?_
      intro s hs hcontainer
      rw [List.mem_singleton.mp hs, hk] at hcontainer
      cases hcontainer
    obtain ⟨e', new', hrest, he', hfound'⟩ := ih ((unmet_le e).trans_lt hn) hmemo' hes
    refine ⟨e.trans ((Heap.Extension.refl e.1).trans e'), new ++ new', ?_, ?_, ?_⟩
    · rw [descendEntries]
      refine Outcome.bind_eq_ok_iff.mpr ⟨_, hvalue, Outcome.bind_eq_ok_iff.mpr ⟨_, hkey, ?_⟩⟩
      exact Outcome.bind_eq_ok_iff.mpr ⟨_, hrest, rfl⟩
    · show e'.1 = _
      rw [he', he, Heap.append_append]
    -- The value has been traversed before its key, but the key comes first in the list.
    · have hboth := hnone.append (Heap.append_nil e.1 ▸ hfound')
      refine (hfound.append (he ▸ hboth)).of_starts ?_
      intro s
      simp only [List.mem_append, List.mem_cons, List.flatMap_cons]
      tauto

/-- A container that the memo has is found there. -/
theorem descends_of_mem (hid : id ∈ memo.ids) (hcontainer : g.isContainer id = true) :
    g.Descends memo id := by
  have hslot : g.sourceSlot id = .node id := by
    rw [sourceSlot_eq, slotBy_of_not_scalar (isContainer_iff.mp hcontainer)]
  refine ⟨.refl memo, [], ?_, (Heap.append_nil memo).symm, .nil ?_⟩
  · rw [descend_of_mem hid, hslot]
  · intro s hs _
    rw [List.mem_singleton.mp hs]
    exact hid

/-- From a scalar nothing is reached. -/
theorem descends_of_scalar {text : String} (hid : id ∉ memo.ids)
    (hnode : g.node id = .scalar tag text) : g.Descends memo id := by
  refine ⟨.refl memo, [], descend_of_scalar hid hnode, (Heap.append_nil memo).symm, .nil ?_⟩
  intro s hs hcontainer
  rw [List.mem_singleton.mp hs] at hcontainer
  exact absurd hnode (isContainer_iff.mp hcontainer tag text)

/-- A container is put into the memo before its contents are traversed, so their memo misses
less. -/
theorem unmet_append_lt_of_lt_succ (s : Shape) (hcontainer : g.isContainer id = true)
    (hid : id ∉ memo.ids) (hn : g.unmet memo < n + 1) : g.unmet (memo.append [(id, s)]) < n :=
  (unmet_append_lt s hcontainer hid).trans_le (Nat.le_of_lt_succ hn)

/-- The step at a sequence that the memo does not have. -/
theorem DescendsBelow.sequence (h : g.DescendsBelow n) (hn : g.unmet memo < n + 1)
    (hmemo : ∀ x ∈ memo.ids, g.isContainer x = true) (hkeys : g.HasScalarKeys id)
    (hid : id ∉ memo.ids) {items : List NodeId} (hnode : g.node id = .sequence tag items) :
    g.Descends memo id := by
  have hcontainer : g.isContainer id = true := isContainer_of_sequence hnode
  have hchildren : g.children id = items := children_of_sequence hnode
  have hmemo' : ∀ x ∈ (memo.append [(id, .seq [])]).ids, g.isContainer x = true :=
    isContainer_of_mem_append hmemo (by simpa using hcontainer)
  have hparts : ∀ x ∈ items, g.HasScalarKeys x := by
    intro x hx
    rw [← hchildren] at hx
    exact hkeys.of_mem_children hx
  obtain ⟨e, new, hitems, he, hfound⟩ :=
    h.items (unmet_append_lt_of_lt_succ _ hcontainer hid hn) hmemo' hparts
  have hshape : Shape.seq (items.map g.sourceSlot) = shapeBy Written.spell g id := by
    rw [shapeBy, hnode, funext (sourceSlot_eq g)]
  refine ⟨e.filled (.seq (items.map g.sourceSlot)), _, ?_, filled_eq hid he hfound _, ?_⟩
  · rw [descend_of_sequence hid hnode, sourceSlot, hnode]
    exact Outcome.bind_eq_ok_iff.mpr ⟨_, hitems, rfl⟩
  · rw [hshape]
    rw [← hchildren] at hfound
    exact .expand hid hcontainer hfound

/-- The step at a mapping that the memo does not have. -/
theorem DescendsBelow.mapping (h : g.DescendsBelow n) (hn : g.unmet memo < n + 1)
    (hmemo : ∀ x ∈ memo.ids, g.isContainer x = true) (hkeys : g.HasScalarKeys id)
    (hid : id ∉ memo.ids) {es : List (NodeId × NodeId)} (hnode : g.node id = .mapping tag es) :
    g.Descends memo id := by
  have hcontainer : g.isContainer id = true := isContainer_of_mapping hnode
  have hchildren : g.children id = es.flatMap fun e => [e.1, e.2] := children_of_mapping hnode
  have hmemo' : ∀ x ∈ (memo.append [(id, .map [])]).ids, g.isContainer x = true :=
    isContainer_of_mem_append hmemo (by simpa using hcontainer)
  -- The keys of this mapping are scalars, and so are those of all mappings below it.
  have hparts : ∀ e ∈ es, g.isContainer e.1 = false ∧ g.HasScalarKeys e.2 := by
    intro e he
    have hvalue : e.2 ∈ g.children id := by
      rw [hchildren]
      exact List.mem_flatMap.mpr ⟨e, he, by simp⟩
    rw [← entries_of_mapping hnode] at he
    exact ⟨hkeys id (.refl g id) e he, hkeys.of_mem_children hvalue⟩
  obtain ⟨e, new, hentries, he, hfound⟩ :=
    h.entries (unmet_append_lt_of_lt_succ _ hcontainer hid hn) hmemo' hparts
  have hshape : Shape.map (es.map fun e => ((g.written e.1).spell, g.sourceSlot e.2))
      = shapeBy Written.spell g id := by
    rw [shapeBy, hnode, funext (sourceSlot_eq g)]
  refine ⟨e.filled (.map (es.map fun e => ((g.written e.1).spell, g.sourceSlot e.2))), _, ?_,
    filled_eq hid he hfound _, ?_⟩
  · rw [descend_of_mapping hid hnode, sourceSlot, hnode]
    exact Outcome.bind_eq_ok_iff.mpr ⟨_, hentries, rfl⟩
  · rw [hshape]
    rw [← hchildren] at hfound
    exact .expand hid hcontainer hfound

/-- The descent succeeds from every memo. The induction is on the number of containers that the memo
misses. -/
theorem descendsBelow (g : Graph) (n : Nat) : g.DescendsBelow n := by
  induction n with
  | zero =>
    intro memo id hn
    exact absurd hn (Nat.not_lt_zero _)
  | succ n ih =>
    intro memo id hn hmemo hkeys
    by_cases hid : id ∈ memo.ids
    · exact descends_of_mem hid (hmemo id hid)
    cases hnode : g.node id with
    | scalar tag text => exact descends_of_scalar hid hnode
    | sequence tag items => exact ih.sequence hn hmemo hkeys hid hnode
    | mapping tag es => exact ih.mapping hn hmemo hkeys hid hnode

/-- The traversal from a node succeeds, and it finds all that is reached. -/
theorem descend_eq_ok {root : NodeId} (hkeys : g.HasScalarKeys root) :
    ∃ (e : Heap.empty.Extension) (new : List (NodeId × Shape)),
      g.descend .empty root = .ok (g.sourceSlot root, e) ∧ e.1 = ⟨new⟩ ∧
        g.Found .empty [root] new := by
  have hmemo : ∀ x ∈ Heap.empty.ids, g.isContainer x = true := by simp [Heap.ids, Heap.empty]
  exact descendsBelow g (g.unmet .empty + 1) .empty root (Nat.lt_succ_self _) hmemo hkeys

end Run

end Graph

end PipelineManifest.Yaml
