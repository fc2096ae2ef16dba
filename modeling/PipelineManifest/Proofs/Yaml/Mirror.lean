import Mathlib.Data.List.Forall2
import Mathlib.Data.List.Perm.Basic
import PipelineManifest.Proofs.Value.Same
import PipelineManifest.Proofs.Yaml.Descent
import PipelineManifest.Proofs.Yaml.Untagged

/-!
# `PipelineManifest.Proofs.Yaml.Mirror`: the source is the image of the graph

The source of a document mirrors its graph. Every container that is reached is expanded once. A
sequence has the images of its items in their order; a mapping has an entry for each key, in the
place where the key comes first and with the image of the value that comes last. The image of a node
does not depend on where the node is referred to, so what is shared in the graph is shared in the
source, and what is cyclic is cyclic.

Nothing of this depends on the order in which containers are met. So it is enough for a heap to have
the containers that are reached, once each and with their shapes (`Heap.Covers`): two such heaps are
permutations of each other, and every slot has one value in both. The level-by-level search
(`Graph.sourceHeap`) leads to such a heap, and so does the descent (`Graph.descend`).

* `Graph.Image`, `Graph.EntriesImage`, `Heap.Mirrors`: the image of a graph.
* `Heap.Covers`: heaps with all containers that are reached.
* `Heap.value_eq_of_shape?`, `Heap.Covers.value_eq`: what a heap does not depend on.
* `Graph.exists_sourceHeap`, `Graph.exists_descend`: both traversals succeed.
* `Graph.hasScalarKeys_of_dataHeap`: the keys of a document whose data has been read are scalars.
* `Graph.ReadsField`: what stands for a field in the data and in the source.
* `Graph.sourceHeap_mirrors`: the source is the image of the graph.
-/

set_option autoImplicit false

namespace PipelineManifest.Yaml

/-! ### Images -/

namespace Graph

/-- The image of a node in the source. A container is its own name, whatever refers to it. -/
inductive Image (g : Graph) (id : NodeId) : Slot → Prop
  | null {text : String} (h : g.node id = .scalar .null text) : Image g id (.leaf .null)
  | text {tag : Tag} {text : String} (h : g.node id = .scalar tag text) (htag : tag ≠ .null) :
    Image g id (.leaf (.str text))
  | container (h : g.isContainer id = true) : Image g id (.node id)

/-- The image of the entries of a mapping. -/
structure EntriesImage (g : Graph) (es : List (NodeId × NodeId)) (image : List (Value × Slot)) :
    Prop where
  /-- The keys are the images of the key nodes, in the order in which they come first. -/
  keys : ∃ ks, List.Forall₂ (fun e k => g.Image e.1 (.leaf k)) es ks ∧
    image.map Prod.fst = Value.distinct ks
  nodup : (image.map Prod.fst).Nodup
  /-- Each key has the image of the value node that comes last under it. -/
  last : ∀ p ∈ image, ∃ before e after, es = before ++ e :: after ∧
    g.Image e.1 (.leaf p.1) ∧ g.Image e.2 p.2 ∧ ∀ f ∈ after, ¬ g.Image f.1 (.leaf p.1)

end Graph

/-- Whether a heap is the image of what is reached from a node. -/
structure Heap.Mirrors (h : Heap) (g : Graph) (root : NodeId) : Prop where
  /-- No container is expanded twice. -/
  nodup : h.ids.Nodup
  /-- What is expanded are the containers that are reached. -/
  mem_ids : ∀ id, id ∈ h.ids ↔ g.isContainer id = true ∧ g.Reaches root id
  sequence : ∀ id tag items, g.Reaches root id → g.node id = .sequence tag items →
    ∃ slots, h.shape? id = some (.seq slots) ∧ List.Forall₂ g.Image items slots
  /-- The heap lists all entries of a mapping; of those with one key a single one is left. -/
  mapping : ∀ id tag es, g.Reaches root id → g.node id = .mapping tag es →
    ∃ entries, h.shape? id = some (.map entries) ∧ g.EntriesImage es (Value.ofEntries entries)

/-- Keys are the same in the source only if they are spelled in the same way. -/
theorem Written.sameKey_spell_spell (w w' : Written) :
    Value.sameKey w.spell w'.spell = true ↔ w.spell = w'.spell := by
  by_cases hw : w.tag = .null
  · have hnull : w.spell = .null := if_pos hw
    rw [hnull, spell]
    split
    · exact iff_of_true rfl rfl
    · exact Value.sameKey_str_iff
  · have hstr : w.spell = .str w.text := if_neg hw
    rw [hstr, Value.sameKey_str_left_iff]
    exact eq_comm

namespace Graph

variable {g : Graph} {id : NodeId}

/-- Every node has one image. -/
theorem image_iff {s : Slot} : g.Image id s ↔ s = slotBy Written.spell g id := by
  constructor
  · intro h
    cases h with
    | null hn => rw [slotBy_of_scalar hn, Written.spell, if_pos rfl]
    | text hn htag => rw [slotBy_of_scalar hn, Written.spell, if_neg htag]
    | container hc => rw [slotBy_of_not_scalar (isContainer_iff.mp hc)]
  · rintro rfl
    cases hn : g.node id with
    | scalar tag text =>
      rw [slotBy_of_scalar hn, Written.spell]
      split
      · rename_i htag
        have htag : tag = .null := htag
        subst htag
        exact .null hn
      · rename_i htag
        exact .text hn htag
    | sequence tag items =>
      rw [slotBy_of_not_scalar (by rw [hn]; simp)]
      exact .container (isContainer_of_sequence hn)
    | mapping tag es =>
      rw [slotBy_of_not_scalar (by rw [hn]; simp)]
      exact .container (isContainer_of_mapping hn)

/-- The image of a key. -/
theorem image_leaf_iff (h : g.isContainer id = false) {k : Value} :
    g.Image id (.leaf k) ↔ k = (g.written id).spell := by
  rw [image_iff, slotBy_of_not_isContainer h, Slot.leaf.injEq]

/-- What is left of the entries of a mapping is their image, if their keys are scalars. -/
theorem entriesImage_ofEntries {es : List (NodeId × NodeId)}
    (hkeys : ∀ e ∈ es, g.isContainer e.1 = false) :
    g.EntriesImage es
      (Value.ofEntries (es.map fun e => ((g.written e.1).spell, slotBy Written.spell g e.2))) := by
  constructor
  case keys =>
    refine ⟨es.map fun e => (g.written e.1).spell, ?_, ?_⟩
    · rw [List.forall₂_map_right_iff, List.forall₂_same]
      intro e he
      exact (image_leaf_iff (hkeys e he)).mpr rfl
    · rw [Value.keys_ofEntries, List.map_map]
      rfl
  case nodup =>
    refine Value.nodup_keys_ofEntries (List.forall_mem_map.mpr ?_)
    intro e _
    exact Value.sameKey_self (Written.isScalar_spell _)
  case last =>
    intro p hp
    have hsame : ∀ q ∈ es.map fun e => ((g.written e.1).spell, slotBy Written.spell g e.2),
        ∀ r ∈ es.map fun e => ((g.written e.1).spell, slotBy Written.spell g e.2),
          Value.sameKey q.1 r.1 = true ↔ q.1 = r.1 := by
      simp only [List.forall_mem_map]
      intro e _ f _
      exact Written.sameKey_spell_spell _ _
    obtain ⟨before, after, heq, hafter⟩ := Value.exists_last_of_mem_ofEntries hsame hp
    -- The entries before and after are those of the nodes before and after.
    obtain ⟨es₁, es₂, rfl, -, hrest⟩ := List.map_eq_append_iff.mp heq
    obtain ⟨e, es₃, rfl, rfl, rfl⟩ := List.map_eq_cons_iff.mp hrest
    refine ⟨es₁, e, es₃, rfl, ?_, image_iff.mpr rfl, ?_⟩
    · exact (image_leaf_iff (hkeys e (by simp))).mpr rfl
    · intro f hf himage
      have hkey := (image_leaf_iff (hkeys f (by simp [hf]))).mp himage
      exact hafter _ (List.mem_map_of_mem hf) hkey.symm

end Graph

/-! ### Heaps with all that is reached -/

namespace Heap

/-- A value depends on the shapes of the containers only, and on how many there are. -/
theorem value_eq_of_shape? {h h' : Heap} (hlength : h.shapes.length = h'.shapes.length)
    (hshape : ∀ id, h.shape? id = h'.shape? id) (s : Slot) : h.value s = h'.value s := by
  have hfrom : ∀ fuel, valueFrom h fuel = valueFrom h' fuel := by
    intro fuel
    induction fuel with
    | zero =>
      funext path s
      cases s <;> rfl
    | succ fuel ih =>
      funext path s
      cases s with
      | leaf v => rfl
      | node id => rw [valueFrom, valueFrom, hshape id, ih]
  rw [value, value, hlength, hfrom]

/-- A container that is not in a heap has no shape there. -/
theorem shape?_eq_none {h : Heap} {id : NodeId} (hid : id ∉ h.ids) : h.shape? id = none := by
  rw [shape?, List.lookup_eq_none_iff]
  rintro ⟨x, s⟩ he
  have hne : id ≠ x := by
    rintro rfl
    exact hid (List.mem_map_of_mem he)
  simpa using hne

/-- Whether a heap has the containers that are reached from a node, once each, with the shapes that
they have as they are written. -/
structure Covers (h : Heap) (g : Graph) (root : NodeId) : Prop where
  nodup : h.ids.Nodup
  mem_ids : ∀ id, id ∈ h.ids ↔ g.isContainer id = true ∧ g.Reaches root id
  shape : ∀ e ∈ h.shapes, e.2 = Graph.shapeBy Written.spell g e.1

namespace Covers

variable {h h' : Heap} {g : Graph} {root : NodeId}

theorem shape?_eq (hh : h.Covers g root) {id : NodeId} (hcontainer : g.isContainer id = true)
    (hreach : g.Reaches root id) : h.shape? id = some (Graph.shapeBy Written.spell g id) := by
  obtain ⟨s, hs, hmem⟩ := exists_shape? ((hh.mem_ids id).mpr ⟨hcontainer, hreach⟩)
  have hshape : s = Graph.shapeBy Written.spell g id := hh.shape _ hmem
  rw [hs, hshape]

theorem mem_shapes_iff (hh : h.Covers g root) (e : NodeId × Shape) :
    e ∈ h.shapes ↔
      (g.isContainer e.1 = true ∧ g.Reaches root e.1) ∧
        e.2 = Graph.shapeBy Written.spell g e.1 := by
  constructor
  · intro he
    exact ⟨(hh.mem_ids e.1).mp (List.mem_map_of_mem he), hh.shape e he⟩
  · rintro ⟨hid, hs⟩
    obtain ⟨f, hf, hfe⟩ := List.mem_map.mp ((hh.mem_ids e.1).mpr hid)
    have hshape : f.2 = e.2 := by rw [hs, hh.shape f hf, hfe]
    rw [← Prod.ext hfe hshape]
    exact hf

/-- Two such heaps have the same containers, at most in another order. -/
theorem perm (hh : h.Covers g root) (hh' : h'.Covers g root) : h.shapes.Perm h'.shapes := by
  rw [List.perm_ext_iff_of_nodup hh.nodup.of_map hh'.nodup.of_map]
  intro e
  rw [hh.mem_shapes_iff, hh'.mem_shapes_iff]

/-- The order does not matter for values. -/
theorem value_eq (hh : h.Covers g root) (hh' : h'.Covers g root) (s : Slot) :
    h.value s = h'.value s := by
  have hlength : h.shapes.length = h'.shapes.length := (hh.perm hh').length_eq
  refine value_eq_of_shape? hlength ?_ s
  intro id
  by_cases hid : g.isContainer id = true ∧ g.Reaches root id
  · rw [hh.shape?_eq hid.1 hid.2, hh'.shape?_eq hid.1 hid.2]
  · rw [shape?_eq_none (mt (hh.mem_ids id).mp hid), shape?_eq_none (mt (hh'.mem_ids id).mp hid)]

/-- Such a heap is the image of the graph. -/
theorem mirrors (hh : h.Covers g root) (hkeys : g.HasScalarKeys root) : h.Mirrors g root where
  nodup := hh.nodup
  mem_ids := hh.mem_ids
  sequence id tag items hreach hn := by
    refine ⟨items.map (Graph.slotBy Written.spell g), ?_, ?_⟩
    · rw [hh.shape?_eq (Graph.isContainer_of_sequence hn) hreach, Graph.shapeBy, hn]
    · rw [List.forall₂_map_right_iff, List.forall₂_same]
      intro x _
      exact Graph.image_iff.mpr rfl
  mapping id tag es hreach hn := by
    have hscalar : ∀ e ∈ es, g.isContainer e.1 = false := by
      intro e he
      rw [← Graph.entries_of_mapping hn] at he
      exact hkeys id hreach e he
    refine ⟨_, ?_, Graph.entriesImage_ofEntries hscalar⟩
    rw [hh.shape?_eq (Graph.isContainer_of_mapping hn) hreach, Graph.shapeBy, hn]

end Covers

end Heap

/-! ### Both traversals -/

namespace Graph

variable {g : Graph} {root : NodeId}

/-- What the descent finds is all that is reached. -/
theorem Found.covers {new : List (NodeId × Shape)} (h : g.Found .empty [root] new) :
    Heap.Covers ⟨new⟩ g root where
  nodup := h.nodup
  mem_ids id := by
    constructor
    · intro hid
      obtain ⟨e, he, rfl⟩ := List.mem_map.mp hid
      obtain ⟨s, hs, hreach⟩ := h.reached e he
      rw [List.mem_singleton.mp hs] at hreach
      exact ⟨h.container e he, hreach⟩
    · rintro ⟨hcontainer, hreach⟩
      have hroot : g.isContainer root = true → root ∈ Heap.empty.ids ++ new.map Prod.fst :=
        h.starts root (by simp)
      refine mem_of_reaches hroot ?_ hreach hcontainer
      intro x hx y hy hcontainer'
      obtain ⟨e, he, rfl⟩ := List.mem_map.mp hx
      exact h.closed e he y hy hcontainer'
  shape := h.shape

/-- The descent succeeds, and has all that is reached. -/
theorem exists_descend (hkeys : g.HasScalarKeys root) :
    ∃ memo, g.descend .empty root = .ok (g.sourceSlot root, memo) ∧ memo.1.Covers g root := by
  obtain ⟨memo, new, hdescend, hmemo, hfound⟩ := descend_eq_ok hkeys
  exact ⟨memo, hdescend, hmemo ▸ hfound.covers⟩

/-- A search that is complete has all that is reached, if the keys of what it has are scalars. -/
theorem mem_ids_of_explored {ρ : Written → Value} {h : Heap}
    (hexplored : Heap.Explored (fun id s => s = shapeBy ρ g id) g.size h [])
    (hroot : g.isContainer root = true → root ∈ h.ids)
    (hkeys : ∀ id ∈ h.ids, ∀ e ∈ g.entries id, g.isContainer e.1 = false) {id : NodeId}
    (hreach : g.Reaches root id) (hid : g.isContainer id = true) : id ∈ h.ids := by
  refine mem_of_reaches hroot ?_ hreach hid
  intro x hx y hy hcontainer
  obtain ⟨e, he, rfl⟩ := List.mem_map.mp hx
  have href : y ∈ e.2.references := by
    rw [hexplored.shape e he, mem_references_shapeBy (hkeys e.1 hx)]
    exact ⟨hy, hcontainer⟩
  simpa using hexplored.references e he y href

/-- A container whose keys are scalars can be read. -/
theorem exists_sourceShape {id : NodeId} (hkeys : ∀ e ∈ g.entries id, g.isContainer e.1 = false) :
    ∃ s, g.sourceShape id = .ok s := by
  rw [sourceShape]
  split
  · exact ⟨_, rfl⟩
  · rename_i tag es hn
    rw [entries_of_mapping hn] at hkeys
    have hentries : ∃ entries, es.mapM g.sourceEntry = .ok entries := by
      rw [Outcome.exists_mapM_iff]
      intro e he
      rw [sourceEntry, sourceSlot_eq, slotBy_of_not_isContainer (hkeys e he)]
      exact ⟨_, rfl⟩
    obtain ⟨entries, hentries⟩ := hentries
    exact ⟨.map entries, Outcome.bind_eq_ok_iff.mpr ⟨entries, hentries, rfl⟩⟩
  · exact ⟨_, rfl⟩

/-- The search succeeds, and has all that is reached. -/
theorem exists_sourceHeap (hkeys : g.HasScalarKeys root) :
    ∃ heap, g.sourceHeap root = .ok (heap, g.sourceSlot root) ∧ heap.Covers g root := by
  -- The search stays among the containers that are reached, and all of them can be read.
  have hexpand : ∀ id, g.isContainer id = true ∧ g.Reaches root id →
      ∃ s, (do return (g, ← g.sourceShape id) : Except Defect (Graph × Shape)) = .ok (g, s) ∧
        ∀ ref ∈ s.references, g.isContainer ref = true ∧ g.Reaches root ref := by
    rintro id ⟨-, hreach⟩
    obtain ⟨s, hs⟩ := exists_sourceShape (hkeys id hreach)
    refine ⟨s, Outcome.bind_eq_ok_iff.mpr ⟨s, hs, rfl⟩, ?_⟩
    intro ref href
    rw [sourceShape_eq_ok hs, mem_references_shapeBy (hkeys id hreach)] at href
    exact ⟨href.2, hreach.tail href.1⟩
  have hstart : ∀ id, g.sourceSlot root = .node id →
      g.isContainer id = true ∧ g.Reaches root id := by
    intro id hid
    rw [sourceSlot_eq, slotBy_eq_node_iff] at hid
    obtain ⟨rfl, hcontainer⟩ := hid
    exact ⟨hcontainer, .refl g root⟩
  have hsearch : ∃ heap, Heap.ofSlot (fun g id => do return (g, ← g.sourceShape id)) g
      (g.sourceSlot root) = .ok (g, heap) ∧
        ∀ id ∈ heap.ids, g.isContainer id = true ∧ g.Reaches root id :=
    Heap.exists_ofSlot hexpand hstart
  obtain ⟨heap, hsearch, hids⟩ := hsearch
  have hsource : g.sourceHeap root = .ok (heap, g.sourceSlot root) :=
    Outcome.bind_eq_ok_iff.mpr ⟨_, hsearch, rfl⟩
  obtain ⟨hslot, hread, hroot⟩ := sourceHeap_spec hsource
  have hexplored := hread.imp fun _ _ hs => sourceShape_eq_ok hs
  have hroot' : g.isContainer root = true → root ∈ heap.ids := by
    intro hc
    exact hroot root (hslot.trans (slotBy_of_not_scalar (isContainer_iff.mp hc)))
  have hscalar : ∀ id ∈ heap.ids, ∀ e ∈ g.entries id, g.isContainer e.1 = false := by
    intro id hid
    exact hkeys id (hids id hid).2
  refine ⟨heap, hsource, by simpa using hexplored.nodup, ?_, hexplored.shape⟩
  intro id
  refine ⟨hids id, ?_⟩
  rintro ⟨hcontainer, hreach⟩
  exact mem_ids_of_explored hexplored hroot' hscalar hreach hcontainer

/-! ### Fields of the data -/

/-- The key of an entry that is read is no container. -/
theorem isContainer_of_entrySlot (hg : g.IsUntagged) {e : NodeId × NodeId} {p : Value × Slot}
    (h : g.entrySlot e = .ok p) : g.isContainer e.1 = false := by
  by_contra hc
  rw [Bool.not_eq_false, isContainer_iff] at hc
  rw [entrySlot, slot_of_not_scalar hg hc] at h
  cases h

/-- The containers of the data have scalar keys. -/
theorem isContainer_key_of_dataHeap {g₀ : Graph} (hg₀ : g₀.IsUntagged) {h : Heap} {start : Slot}
    (hdata : g₀.dataHeap root = .ok (g, h, start)) :
    ∀ id ∈ h.ids, ∀ e ∈ g.entries id, g.isContainer e.1 = false := by
  obtain ⟨hg, -, hexplored, -, -⟩ := dataHeap_spec hg₀ hdata
  intro id hid e he
  obtain ⟨f, hf, rfl⟩ := List.mem_map.mp hid
  cases hn : g.node f.1 with
  | mapping tag es =>
    rw [entries_of_mapping hn] at he
    obtain ⟨p, hp⟩ := exists_entrySlot hg hn (hexplored.shape f hf) e he
    exact isContainer_of_entrySlot hg hp
  | _ =>
    rw [entries, hn] at he
    cases he

/-- The data of a document has all containers that are reached. -/
theorem mem_ids_of_dataHeap {g₀ : Graph} (hg₀ : g₀.IsUntagged) {h : Heap} {start : Slot}
    (hdata : g₀.dataHeap root = .ok (g, h, start)) {id : NodeId} (hreach : g.Reaches root id)
    (hid : g.isContainer id = true) : id ∈ h.ids := by
  obtain ⟨hg, -, hexplored, hslot, hstart⟩ := dataHeap_spec hg₀ hdata
  have hroot : g.isContainer root = true → root ∈ h.ids := by
    intro hc
    exact hstart root (hslot.trans (slotBy_of_not_scalar (isContainer_iff.mp hc)))
  exact mem_ids_of_explored (hexplored.imp fun id s hs => (shape_eq_ok hg hs).1) hroot
    (isContainer_key_of_dataHeap hg₀ hdata) hreach hid

/-- The keys of a document whose data has been read are scalars. -/
theorem hasScalarKeys_of_dataHeap {g₀ : Graph} (hg₀ : g₀.IsUntagged) {h : Heap} {start : Slot}
    (hdata : g₀.dataHeap root = .ok (g, h, start)) : g.HasScalarKeys root := by
  intro id hreach e he
  -- Only a mapping has entries.
  have hcontainer : g.isContainer id = true := by
    rw [isContainer_iff]
    intro tag text hn
    rw [entries, hn] at he
    cases he
  have hid : id ∈ h.ids := mem_ids_of_dataHeap hg₀ hdata hreach hcontainer
  exact isContainer_key_of_dataHeap hg₀ hdata id hid e he

/-- What is found under a name in the data and in the source of a mapping with the entries `es`:
nothing in either, or what stands for the value of the last entry that has the name as its key. -/
inductive ReadsField (g : Graph) (es : List (NodeId × NodeId)) (name : String) :
    Option Slot → Option Slot → Prop
  | absent (h : ∀ e ∈ es, g.node e.1 ≠ .scalar .text name) : ReadsField g es name none none
  | found {before after : List (NodeId × NodeId)} {k v : NodeId} {data source : Slot}
    (hes : es = before ++ (k, v) :: after) (hkey : g.node k = .scalar .text name)
    (hafter : ∀ e ∈ after, g.node e.1 ≠ .scalar .text name)
    (hdata : g.slot v = .ok data) (hsource : g.Image v source) :
    ReadsField g es name (some data) (some source)

/-- A node that names a field. -/
theorem isField_written_iff {id : NodeId} {name : String} :
    (g.written id).isField name = true ↔ g.node id = .scalar .text name := by
  rw [Written.isField, Bool.and_eq_true, decide_eq_true_eq, decide_eq_true_eq, written]
  cases g.node id <;> simp

/-- A lookup in a mapping finds the last entry with the name as its key. -/
theorem lookup?_eq {ρ : Written → Value} {es : List (NodeId × NodeId)} {name : String}
    (hname : ∀ e ∈ es, Value.sameKey (ρ (g.written e.1)) (.str name)
      = (g.written e.1).isField name) :
    Value.lookup? (.str name)
        (Value.ofEntries (es.map fun e => (ρ (g.written e.1), slotBy ρ g e.2)))
      = (es.reverse.find? fun e => (g.written e.1).isField name).map fun e => slotBy ρ g e.2 := by
  rw [Value.lookup?_ofEntries_str, ← List.map_reverse, List.find?_map, Option.map_map]
  refine congrArg (Option.map _) (List.find?_congr ?_)
  intro e he
  exact hname e (List.mem_reverse.mp he)

/-- Data and source of a mapping whose data has been read have the same fields, each with what
stands for one value node. -/
theorem readsField (hg : g.IsUntagged) {es : List (NodeId × NodeId)}
    (hes : ∀ e ∈ es, ∃ p, g.entrySlot e = .ok p) {name : String}
    (hname : Tag.ofPlain name = .text) :
    g.ReadsField es name
      (Value.lookup? (.str name) (Value.ofEntries
        (es.map fun e => ((g.written e.1).resolve, slotBy Written.resolve g e.2))))
      (Value.lookup? (.str name) (Value.ofEntries
        (es.map fun e => ((g.written e.1).spell, slotBy Written.spell g e.2)))) := by
  rw [lookup?_eq fun e _ => Written.sameKey_resolve _ name,
    lookup?_eq fun e _ => Written.sameKey_spell (hg.isUntagged_written e.1) hname]
  cases hfind : es.reverse.find? fun e => (g.written e.1).isField name with
  | none =>
    refine .absent ?_
    intro e he hn
    rw [List.find?_eq_none] at hfind
    exact hfind e (List.mem_reverse.mpr he) (isField_written_iff.mpr hn)
  | some e =>
    obtain ⟨hkey, after, before, hsplit, hafter⟩ := List.find?_eq_some_iff_append.mp hfind
    -- The lookup goes through the entries from the last one on.
    have hes' : es = before.reverse ++ (e.1, e.2) :: after.reverse := by
      rw [← List.reverse_reverse es, hsplit]
      simp
    have hlast : ∀ f ∈ after.reverse, g.node f.1 ≠ .scalar .text name := by
      intro f hf hn
      have hnot := hafter f (List.mem_reverse.mp hf)
      rw [isField_written_iff.mpr hn] at hnot
      cases hnot
    obtain ⟨p, hp⟩ := hes e (by simp [hes'])
    rw [entrySlot] at hp
    obtain ⟨s, hs, hp⟩ := Outcome.bind_eq_ok_iff.mp hp
    cases s with
    | node x => cases hp
    | leaf key =>
      obtain ⟨t, ht, -⟩ := Outcome.bind_eq_ok_iff.mp hp
      rw [(slot_eq_ok hg ht).1] at ht
      exact .found hes' (isField_written_iff.mp hkey) hlast ht (image_iff.mpr rfl)

/-! ### The source -/

/-- Take what is left of a document when its data has been read: merge entries are replaced, and no
container is a key. Whatever is shared or cyclic in it, the source is read, and it is the image of
the graph. Every container that is reached is expanded once, by the descent as well as level by
level, and both find the same. If the document has no explicit tags, then in every mapping that is
reached data and source have, under a name that has the form of a text, what stands for the same
value node. -/
theorem sourceHeap_mirrors (hkeys : g.HasScalarKeys root) :
    ∃ heap slot, g.sourceHeap root = .ok (heap, slot) ∧
      g.Image root slot ∧ heap.Mirrors g root ∧ (∀ id s t, g.Image id s → g.Image id t → s = t) ∧
      heap.value slot = (g.layoutFrom (g.size + 1) [] root).source ∧
      (∃ memo, g.descend .empty root = .ok (slot, memo) ∧ memo.1.shapes.Perm heap.shapes ∧
        memo.1.value slot = heap.value slot) ∧
      ∀ {g₀ : Graph} {dataHeap : Heap} {dataSlot : Slot}, g₀.IsUntagged →
        g₀.dataHeap root = .ok (g, dataHeap, dataSlot) →
        g₀.sourced root = .ok ⟨dataHeap.value dataSlot, heap.value slot⟩ ∧
        ∀ {id : NodeId} {tag : Tag} {es : List (NodeId × NodeId)} {name : String},
          g.Reaches root id → g.node id = .mapping tag es → Tag.ofPlain name = .text →
          ∃ dataEntries entries, dataHeap.shape? id = some (.map dataEntries) ∧
            heap.shape? id = some (.map entries) ∧
            g.ReadsField es name (Value.lookup? (.str name) (Value.ofEntries dataEntries))
              (Value.lookup? (.str name) (Value.ofEntries entries)) := by
  obtain ⟨heap, hsource, hcovers⟩ := exists_sourceHeap hkeys
  obtain ⟨memo, hdescend, hmemo⟩ := exists_descend hkeys
  refine ⟨heap, g.sourceSlot root, hsource, image_iff.mpr (sourceSlot_eq g root),
    hcovers.mirrors hkeys, ?_, sourceHeap_eq_read hsource, ?_, ?_⟩
  · intro id s t hs ht
    rw [image_iff.mp hs, image_iff.mp ht]
  -- Both traversals have all that is reached, so they differ at most in the order.
  · exact ⟨memo, hdescend, hmemo.perm hcovers, hmemo.value_eq hcovers _⟩
  · intro g₀ dataHeap dataSlot hg₀ hdata
    obtain ⟨hg, -, hexplored, -, -⟩ := dataHeap_spec hg₀ hdata
    constructor
    · rw [sourced]
      exact Outcome.bind_eq_ok_iff.mpr ⟨_, hdata, Outcome.bind_eq_ok_iff.mpr ⟨_, hsource, rfl⟩⟩
    · intro id tag es name hreach hn hname
      have hcontainer : g.isContainer id = true := isContainer_of_mapping hn
      have hid : id ∈ dataHeap.ids := mem_ids_of_dataHeap hg₀ hdata hreach hcontainer
      obtain ⟨s, hs, hmem⟩ := Heap.exists_shape? hid
      have hshape : g.shape id = .ok s := hexplored.shape _ hmem
      refine ⟨_, _, ?_, ?_, readsField hg (exists_entrySlot hg hn hshape) hname⟩
      · rw [hs, (shape_eq_ok hg hshape).1, shapeBy, hn]
      · rw [hcovers.shape?_eq hcontainer hreach, shapeBy, hn]

/-- A document in which a mapping is shared and merged into another one, and a list holds itself. -/
def sharedText : String := String.intercalate "\n" [
  "base: &base \x7bport: 022, on: ~\x7d",
  "server: \x7b<<: *base, host: a, port: 0x16, host: b\x7d",
  "loop: &loop [*loop, *base]"]

/-- Its source. The list refers to itself; what has been merged comes first, with the values that
come last. -/
def sharedSource : Value :=
  let base : Value := .map [(.str "port", .str "022"), (.str "on", .null)]
  .map [
    (.str "base", base),
    (.str "server", .map [(.str "port", .str "0x16"), (.str "on", .null), (.str "host", .str "b")]),
    (.str "loop", .seq [.back 0, base])]

theorem sourceHeap_mirrors_shared :
    ∃ s g dataHeap dataSlot heap slot dataEntries entries,
      composeDocument true (ComposeState.start sharedText) = .ok (some 0, s) ∧
      s.graph.dataHeap 0 = .ok (g, dataHeap, dataSlot) ∧ g.sourceHeap 0 = .ok (heap, slot) ∧
      heap.Mirrors g 0 ∧ heap.ids.length = 4 ∧ heap.value slot = sharedSource ∧
      s.graph.sourced 0 = .ok ⟨dataHeap.value dataSlot, sharedSource⟩ ∧
      dataHeap.shape? 8 = some (.map dataEntries) ∧ heap.shape? 8 = some (.map entries) ∧
      g.ReadsField [(3, 4), (5, 6), (10, 11), (12, 13), (14, 15)] "port"
        (Value.lookup? (.str "port") (Value.ofEntries dataEntries))
        (Value.lookup? (.str "port") (Value.ofEntries entries)) := by
  have hrun : ((ComposeState.start sharedText).tokens.all (!·.isTag) &&
      (composeDocument true (ComposeState.start sharedText)).toOption.any fun r =>
        r.1 = some 0 && (r.2.graph.dataHeap 0).toOption.any fun d =>
          d.1.node 0 = .mapping .mapping [(1, 2), (7, 8), (16, 17)] &&
          d.1.node 8 = .mapping .mapping [(3, 4), (5, 6), (10, 11), (12, 13), (14, 15)] &&
          (d.1.sourceHeap 0).toOption.any fun h =>
            h.1.ids.length = 4 && h.1.value h.2 = sharedSource) = true := by
    decide +kernel
  rw [Bool.and_eq_true] at hrun
  obtain ⟨⟨root?, s⟩, hcompose, hfound⟩ := Outcome.exists_of_any hrun.2
  simp only [Bool.and_eq_true, decide_eq_true_eq] at hfound
  obtain ⟨rfl, hfound⟩ := hfound
  obtain ⟨⟨g, dataHeap, dataSlot⟩, hdata, hfound⟩ := Outcome.exists_of_any hfound
  simp only [Bool.and_eq_true, decide_eq_true_eq] at hfound
  obtain ⟨⟨hroot, hserver⟩, hfound⟩ := hfound
  obtain ⟨⟨heap, slot⟩, hsource, hfound⟩ := Outcome.exists_of_any hfound
  simp only [Bool.and_eq_true, decide_eq_true_eq] at hfound
  obtain ⟨hlength, hvalue⟩ := hfound
  have htokens : ∀ t ∈ (ComposeState.start sharedText).tokens, t.isTag = false := by
    simpa using hrun.1
  have huntagged : s.graph.IsUntagged :=
    (keeps_composeDocument true _ _ s ⟨htokens, IsUntagged.empty⟩ hcompose).1.graph
  have hreach : g.Reaches 0 8 :=
    .of_mem_children (by rw [children_of_mapping hroot]; simp) (.refl g 8)
  obtain ⟨heap', slot', hsource', -, hmirrors, -, -, -, hboth⟩ :=
    sourceHeap_mirrors (hasScalarKeys_of_dataHeap huntagged hdata)
  -- There is one source.
  rw [hsource] at hsource'
  cases hsource'
  obtain ⟨hsourced, hfields⟩ := hboth huntagged hdata
  have hname : Tag.ofPlain "port" = .text := by decide
  obtain ⟨dataEntries, entries, hdata', hsource', hport⟩ := hfields hreach hserver hname
  exact ⟨s, g, dataHeap, dataSlot, heap, slot, dataEntries, entries, hcompose, hdata, hsource,
    hmirrors, hlength, hvalue, hvalue ▸ hsourced, hdata', hsource', hport⟩

end Graph

end PipelineManifest.Yaml
