import PipelineManifest.Proofs.Yaml.Flatten
import PipelineManifest.Yaml.Object.Source

/-!
# `PipelineManifest.Proofs.Yaml.Explore`: the containers that are reached

The containers of a document are collected by a search through its graph, which may change the graph
while it goes on. The search is complete: in the end it has a shape for every container that one of
its shapes refers to, and each is still what the graph says in the end.

* `Heap.Explored`: the invariant of the search.
* `Heap.Expansion`: what is asked of the reading of a single container.
* `Heap.explore_spec`, `Heap.ofSlot_spec`: the search is complete.
* `Heap.exists_explore`, `Heap.exists_ofSlot`: it succeeds where all that is reached can be read.
-/

set_option autoImplicit false

namespace PipelineManifest.Yaml

/-- No value comes twice once the ones that come again are left out. The induction is on the length,
because all later copies of a value go at once. -/
theorem nodup_eraseDups (n : Nat) (xs : List NodeId) (h : xs.length ≤ n) : xs.eraseDups.Nodup := by
  induction n generalizing xs with
  | zero =>
    rw [List.length_eq_zero_iff.mp (Nat.le_zero.mp h)]
    exact List.nodup_nil
  | succ n ih =>
    cases xs with
    | nil => exact List.nodup_nil
    | cons x xs =>
      rw [List.eraseDups_cons, List.nodup_cons]
      refine ⟨?_, ih _ ?_⟩
      · rw [List.mem_eraseDups, List.mem_filter]
        simp
      · have hfilter := List.length_filter_le (fun y => !y == x) xs
        rw [List.length_cons] at h
        omega

theorem Shape.nodup_references (s : Shape) : s.references.Nodup :=
  nodup_eraseDups _ _ (Nat.le_refl _)

theorem Shape.mem_references {s : Shape} {id : NodeId} :
    id ∈ s.references ↔ Slot.node id ∈ s.slots := by
  rw [references, List.mem_eraseDups, List.mem_filterMap]
  constructor
  · rintro ⟨slot, hslot, hid⟩
    cases slot with
    | leaf v => cases hid
    | node x =>
      cases hid
      exact hslot
  · intro h
    exact ⟨_, h, rfl⟩

namespace Heap

/-- The names of the containers in a heap. -/
def ids (h : Heap) : List NodeId := h.shapes.map Prod.fst

/-- The state of the search: the containers in the heap have been read, and those in the queue have
been met. No container is met twice, and none is lost. -/
structure Explored (shapeOf : NodeId → Shape → Prop) (size : Nat) (h : Heap)
    (queue : List NodeId) : Prop where
  nodup : (h.ids ++ queue).Nodup
  bound : ∀ id ∈ h.ids ++ queue, id < size
  shape : ∀ e ∈ h.shapes, shapeOf e.1 e.2
  references : ∀ e ∈ h.shapes, ∀ ref ∈ e.2.references, ref ∈ h.ids ++ queue

/-- There are no more containers than nodes. -/
theorem Explored.length_le {shapeOf : NodeId → Shape → Prop} {size : Nat} {h : Heap}
    {queue : List NodeId} (hexplored : Explored shapeOf size h queue) :
    h.ids.length + queue.length ≤ size := by
  have hsubset : h.ids ++ queue ⊆ List.range size := fun id hid =>
    List.mem_range.mpr (hexplored.bound id hid)
  have hlength := hexplored.nodup.length_le_of_subset hsubset
  rwa [List.length_append, List.length_range] at hlength

theorem Explored.imp {shapeOf shapeOf' : NodeId → Shape → Prop} {size : Nat} {h : Heap}
    {queue : List NodeId} (hexplored : Explored shapeOf size h queue)
    (himp : ∀ id s, shapeOf id s → shapeOf' id s) : Explored shapeOf' size h queue where
  nodup := hexplored.nodup
  bound := hexplored.bound
  shape e he := himp e.1 e.2 (hexplored.shape e he)
  references := hexplored.references

/-- A reading of single containers that may change the graph: it keeps an invariant, and what has
been read stays true. -/
structure Expansion (expand : Graph → NodeId → Except Defect (Graph × Shape))
    (invariant : Graph → Prop) (later : Graph → Graph → Prop)
    (shapeOf : Graph → NodeId → Shape → Prop) : Prop where
  step : ∀ g id g' s, invariant g → expand g id = .ok (g', s) →
    invariant g' ∧ later g g' ∧ shapeOf g' id s
  stable : ∀ g g' id s, invariant g → later g g' → shapeOf g id s → shapeOf g' id s
  references : ∀ g id s, invariant g → shapeOf g id s → ∀ ref ∈ s.references, ref < g.size
  size : ∀ g g', later g g' → g'.size = g.size
  refl : ∀ g, later g g
  trans : ∀ g g' g'', later g g' → later g' g'' → later g g''

variable {expand : Graph → NodeId → Except Defect (Graph × Shape)} {invariant : Graph → Prop}
  {later : Graph → Graph → Prop} {shapeOf : Graph → NodeId → Shape → Prop}

/-- One step of the search keeps its invariant: the container moves from the queue into the heap,
and those that it refers to and that have not been met are put into the queue. -/
theorem Explored.next {size : Nat} {shapeOf shapeOf' : NodeId → Shape → Prop} {h : Heap}
    {id : NodeId} {queue : List NodeId} {s : Shape}
    (hexplored : Explored shapeOf size h (id :: queue))
    (hstable : ∀ x t, shapeOf x t → shapeOf' x t) (hs : shapeOf' id s)
    (hbound : ∀ ref ∈ s.references, ref < size) :
    Explored shapeOf' size ⟨h.shapes ++ [(id, s)]⟩
      (queue ++ s.references.filter fun ref => !(h.ids ++ id :: queue).contains ref) := by
  have hids : ids ⟨h.shapes ++ [(id, s)]⟩ = h.ids ++ [id] := by simp [ids]
  -- What has been met is what had been met before, and what is new.
  have hmet : ∀ new : List NodeId,
      ids ⟨h.shapes ++ [(id, s)]⟩ ++ (queue ++ new) = (h.ids ++ id :: queue) ++ new := by
    intro new
    simp [hids]
  refine ⟨?_, ?_, ?_, ?_⟩
  -- What is put into the queue has not been met, and no container is referred to twice.
  · rw [hmet, List.nodup_append]
    refine ⟨hexplored.nodup, s.nodup_references.filter _, ?_⟩
    rintro x hx y hy rfl
    have hnew := (List.mem_filter.mp hy).2
    simp only [Bool.not_eq_true', List.contains_eq_mem, decide_eq_false_iff_not] at hnew
    exact hnew hx
  · rw [hmet]
    intro x hx
    rcases List.mem_append.mp hx with hx | hx
    · exact hexplored.bound x hx
    · exact hbound x (List.mem_filter.mp hx).1
  · intro e he
    rcases List.mem_append.mp he with he | he
    · exact hstable _ _ (hexplored.shape e he)
    · rw [List.mem_singleton.mp he]
      exact hs
  · intro e he ref href
    rw [hmet, List.mem_append]
    rcases List.mem_append.mp he with he | he
    · exact .inl (hexplored.references e he ref href)
    · rw [List.mem_singleton.mp he] at href
      -- A container that has been met before is not put into the queue again.
      by_cases hold : ref ∈ h.ids ++ id :: queue
      · exact .inl hold
      · exact .inr (List.mem_filter.mpr ⟨href, by simpa using hold⟩)

/-- The search is complete. Every step moves a container into the heap, and there are no more
containers than nodes, so the fuel does not run out before the queue is empty. -/
theorem explore_spec (hexpand : Expansion expand invariant later shapeOf) (fuel : Nat)
    {queue : List NodeId} {g g' : Graph} {h h' : Heap} (hg : invariant g)
    (hexplored : Explored (shapeOf g) g.size h queue) (hfuel : g.size < fuel + h.ids.length)
    (hresult : explore expand fuel queue (h.ids ++ queue) g h = .ok (g', h')) :
    invariant g' ∧ later g g' ∧ Explored (shapeOf g') g'.size h' [] ∧
      ∀ id ∈ h.ids ++ queue, id ∈ h'.ids := by
  induction fuel generalizing queue g h with
  | zero =>
    -- More containers than nodes have been met.
    have hlength := hexplored.length_le
    omega
  | succ fuel ih =>
    cases queue with
    | nil =>
      cases hresult
      exact ⟨hg, hexpand.refl _, hexplored, fun id hid => by simpa using hid⟩
    | cons id queue =>
      rw [explore] at hresult
      obtain ⟨⟨g₁, s⟩, hstep, hresult⟩ := Outcome.bind_eq_ok_iff.mp hresult
      obtain ⟨hg₁, hlater, hs⟩ := hexpand.step g id g₁ s hg hstep
      have hsize := hexpand.size g g₁ hlater
      -- The graph may have changed, but not in its size nor in what has been read of it.
      have hnext := hexplored.next (fun x t => hexpand.stable g g₁ x t hg hlater) hs
        (hsize ▸ hexpand.references g₁ id s hg₁ hs)
      rw [← hsize] at hnext
      have hids : ids ⟨h.shapes ++ [(id, s)]⟩ = h.ids ++ [id] := by simp [ids]
      have hmet : (h.ids ++ id :: queue) ++ s.references.filter
            (fun ref => !(h.ids ++ id :: queue).contains ref)
          = ids ⟨h.shapes ++ [(id, s)]⟩ ++ (queue ++ s.references.filter
            fun ref => !(h.ids ++ id :: queue).contains ref) := by
        simp [hids]
      have hless : g₁.size < fuel + (ids ⟨h.shapes ++ [(id, s)]⟩).length := by
        rw [hids, List.length_append, List.length_singleton, hsize]
        omega
      obtain ⟨hg', hlater', hfinal, hkept⟩ := ih hg₁ hnext hless (hmet ▸ hresult)
      refine ⟨hg', hexpand.trans g g₁ g' hlater hlater', hfinal, fun x hx => ?_⟩
      refine hkept x ?_
      rw [← hmet]
      exact List.mem_append_left _ hx

/-- All containers that are reached from a slot are read. -/
theorem ofSlot_spec (hexpand : Expansion expand invariant later shapeOf) {g g' : Graph} {h : Heap}
    {slot : Slot} (hg : invariant g) (hslot : ∀ id, slot = .node id → id < g.size)
    (hresult : ofSlot expand g slot = .ok (g', h)) :
    invariant g' ∧ later g g' ∧ Explored (shapeOf g') g'.size h [] ∧
      ∀ id, slot = .node id → id ∈ h.ids := by
  have hstart : Explored (shapeOf g) g.size .empty slot.id?.toList := by
    cases slot with
    | leaf v =>
      exact ⟨List.nodup_nil, by simp [ids, empty, Slot.id?], by simp [empty], by simp [empty]⟩
    | node id =>
      refine ⟨by simp [ids, empty, Slot.id?], ?_, by simp [empty], by simp [empty]⟩
      intro x hx
      have hx : x = id := by simpa [ids, empty, Slot.id?] using hx
      rw [hx]
      exact hslot id rfl
  obtain ⟨hg', hlater, hfinal, hkept⟩ := explore_spec hexpand (g.size + 1) hg hstart
    (by simp [ids, empty]) hresult
  refine ⟨hg', hlater, hfinal, ?_⟩
  rintro id rfl
  exact hkept id (by simp [ids, empty, Slot.id?])

/-- A search that leaves the graph as it is succeeds where every container that is reached can be
read, and it stays among them. -/
theorem exists_explore {g : Graph} {P : NodeId → Prop}
    (hexpand : ∀ id, P id → ∃ s, expand g id = .ok (g, s) ∧ ∀ ref ∈ s.references, P ref)
    (fuel : Nat) {queue : List NodeId} (seen : List NodeId) {h : Heap} (hh : ∀ id ∈ h.ids, P id)
    (hqueue : ∀ id ∈ queue, P id) :
    ∃ h', explore expand fuel queue seen g h = .ok (g, h') ∧ ∀ id ∈ h'.ids, P id := by
  induction fuel generalizing queue seen h with
  | zero => exact ⟨h, rfl, hh⟩
  | succ fuel ih =>
    cases queue with
    | nil => exact ⟨h, rfl, hh⟩
    | cons id queue =>
      obtain ⟨hid, hqueue⟩ := List.forall_mem_cons.mp hqueue
      obtain ⟨s, hs, hreferences⟩ := hexpand id hid
      have hids : ids ⟨h.shapes ++ [(id, s)]⟩ = h.ids ++ [id] := by simp [ids]
      have hread : ∀ x ∈ ids ⟨h.shapes ++ [(id, s)]⟩, P x := by
        rw [hids]
        exact List.forall_mem_append.mpr ⟨hh, by simpa using hid⟩
      have hmet : ∀ x ∈ queue ++ s.references.filter (fun ref => !seen.contains ref), P x :=
        List.forall_mem_append.mpr
          ⟨hqueue, fun ref href => hreferences ref (List.mem_filter.mp href).1⟩
      obtain ⟨h', hresult, hh'⟩ := ih _ hread hmet
      refine ⟨h', ?_, hh'⟩
      rw [explore]
      exact Outcome.bind_eq_ok_iff.mpr ⟨_, hs, hresult⟩

theorem exists_ofSlot {g : Graph} {P : NodeId → Prop}
    (hexpand : ∀ id, P id → ∃ s, expand g id = .ok (g, s) ∧ ∀ ref ∈ s.references, P ref)
    {slot : Slot} (hslot : ∀ id, slot = .node id → P id) :
    ∃ h, ofSlot expand g slot = .ok (g, h) ∧ ∀ id ∈ h.ids, P id := by
  refine exists_explore hexpand (g.size + 1) slot.id?.toList (by simp [ids, empty]) fun id hid => ?_
  cases slot with
  | leaf v => cases hid
  | node x =>
    rw [List.mem_singleton.mp hid]
    exact hslot x rfl

end Heap

end PipelineManifest.Yaml
