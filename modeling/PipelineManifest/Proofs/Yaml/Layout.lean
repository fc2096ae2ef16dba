import PipelineManifest.Proofs.Value.Entries
import PipelineManifest.Proofs.Yaml.Explore

/-!
# `PipelineManifest.Proofs.Yaml.Layout`: documents with their spelling

The data and the source of a document are read from its graph in two searches. They are two readings
of one tree, its layout, which holds every scalar with its text and its tag: in the data a scalar is
what its text stands for, in the source it is the text itself.

* `Written`, `Written.resolve`, `Written.spell`: a scalar, and what it is in either reading.
* `Layout`, `Layout.read`: a document with its spelling, and its value where scalars are read in a
  given way.
* `Layout.data`, `Layout.source`: the two readings of a document.
* `Graph.layout`: the layout of a document, its merge entries replaced.
* `Heap.valueFrom_slotBy`: a value that is found in a heap is a reading of the layout.
-/

set_option autoImplicit false

namespace PipelineManifest.Yaml

/-! ### Layouts -/

/-- A scalar as it stands in a file, with the tag that it has. -/
structure Written where
  tag : Tag
  text : String
  deriving DecidableEq, Repr, Inhabited

namespace Written

/-- What a scalar stands for. -/
def resolve (w : Written) : Value :=
  match w.tag.read? w.text with
  | some (.ok v) => v
  | _ => .null

/-- A scalar as it is written; only null is null. -/
def spell (w : Written) : Value := if w.tag = .null then .null else .str w.text

end Written

/-- A document with its spelling. As in values, `back n` stands for the container `n` levels above
the one that holds it. The entries of a mapping are listed as they come. -/
inductive Layout where
  | scalar (w : Written)
  | seq (items : List Layout)
  | map (entries : List (Written × Layout))
  | back (levels : Nat)
  deriving Inhabited

namespace Layout

mutual

/-- The value of a layout whose scalars are read by `ρ`. -/
def read (ρ : Written → Value) : Layout → Value
  | scalar w => ρ w
  | seq items => .seq (readItems ρ items)
  | map entries => .map (Value.ofEntries (readEntries ρ entries))
  | back n => .back n

/-- `read` on the items of a sequence. -/
def readItems (ρ : Written → Value) : List Layout → List Value
  | [] => []
  | ℓ :: ℓs => read ρ ℓ :: readItems ρ ℓs

/-- `read` on the entries of a mapping. -/
def readEntries (ρ : Written → Value) : List (Written × Layout) → List (Value × Value)
  | [] => []
  | (w, ℓ) :: es => (ρ w, read ρ ℓ) :: readEntries ρ es

end

/-- What the scalars of a layout stand for. -/
def data (ℓ : Layout) : Value := ℓ.read Written.resolve

/-- The scalars of a layout as they are written. -/
def source (ℓ : Layout) : Value := ℓ.read Written.spell

theorem readItems_eq_map (ρ : Written → Value) (ℓs : List Layout) :
    readItems ρ ℓs = ℓs.map (read ρ) := by
  induction ℓs with
  | nil => rfl
  | cons ℓ ℓs ih => rw [readItems, ih, List.map_cons]

theorem readEntries_eq_map (ρ : Written → Value) (es : List (Written × Layout)) :
    readEntries ρ es = es.map fun e => (ρ e.1, read ρ e.2) := by
  induction es with
  | nil => rfl
  | cons e es ih => rw [readEntries, ih, List.map_cons]

end Layout

namespace Graph

/-- A node that is a scalar. -/
def written (g : Graph) (id : NodeId) : Written :=
  match g.node id with
  | .scalar tag text => ⟨tag, text⟩
  | _ => ⟨.null, ""⟩

/-- The layout of a node inside open containers, which `path` names from the innermost out. A path
has no name twice, so one more than the number of nodes is fuel enough. -/
def layoutFrom (g : Graph) (fuel : Nat) (path : List NodeId) (id : NodeId) : Layout :=
  match g.node id, fuel with
  | .scalar tag text, _ => .scalar ⟨tag, text⟩
  | _, 0 => .scalar ⟨.null, ""⟩
  | .sequence _ items, fuel + 1 =>
    match path.idxOf? id with
    | some levels => .back levels
    | none => .seq (items.map (layoutFrom g fuel (id :: path)))
  | .mapping _ es, fuel + 1 =>
    match path.idxOf? id with
    | some levels => .back levels
    | none => .map (es.map fun e => (g.written e.1, layoutFrom g fuel (id :: path) e.2))

section Equations

variable {g : Graph} {fuel : Nat} {path : List NodeId} {id : NodeId} {tag : Tag}

theorem layoutFrom_of_scalar {text : String} (h : g.node id = .scalar tag text) :
    g.layoutFrom fuel path id = .scalar ⟨tag, text⟩ := by
  rw [layoutFrom.eq_def, h]

theorem layoutFrom_of_back {levels : Nat} (h : ∀ tag text, g.node id ≠ .scalar tag text)
    (hpath : path.idxOf? id = some levels) :
    g.layoutFrom (fuel + 1) path id = .back levels := by
  rw [layoutFrom.eq_def]
  cases hn : g.node id with
  | scalar t text => exact absurd hn (h t text)
  | sequence t items => simp only [hpath]
  | mapping t es => simp only [hpath]

theorem layoutFrom_of_sequence {items : List NodeId} (h : g.node id = .sequence tag items)
    (hpath : path.idxOf? id = none) :
    g.layoutFrom (fuel + 1) path id = .seq (items.map (g.layoutFrom fuel (id :: path))) := by
  rw [layoutFrom.eq_def, h]
  simp only [hpath]

theorem layoutFrom_of_mapping {es : List (NodeId × NodeId)} (h : g.node id = .mapping tag es)
    (hpath : path.idxOf? id = none) :
    g.layoutFrom (fuel + 1) path id
      = .map (es.map fun e => (g.written e.1, g.layoutFrom fuel (id :: path) e.2)) := by
  rw [layoutFrom.eq_def, h]
  simp only [hpath]

end Equations

/-- The layout of the document at `root`, its merge entries replaced. -/
def layout (g : Graph) (root : NodeId) : Except Defect Layout := do
  let (g, _) ← g.dataHeap root
  return g.layoutFrom (g.size + 1) [] root

/-! ### Readings of a graph -/

section Reading

variable (ρ : Written → Value) (g : Graph)

/-- A node in a place of a container, where scalars are read by `ρ`. -/
def slotBy (id : NodeId) : Slot :=
  match g.node id with
  | .scalar tag text => .leaf (ρ ⟨tag, text⟩)
  | _ => .node id

/-- What a container holds, where scalars are read by `ρ`. -/
def shapeBy (id : NodeId) : Shape :=
  match g.node id with
  | .sequence _ items => .seq (items.map (slotBy ρ g))
  | .mapping _ es => .map (es.map fun e => (ρ (g.written e.1), slotBy ρ g e.2))
  | .scalar .. => .seq []

variable {ρ g} {id : NodeId}

theorem slotBy_of_scalar {tag : Tag} {text : String} (h : g.node id = .scalar tag text) :
    slotBy ρ g id = .leaf (ρ ⟨tag, text⟩) := by
  rw [slotBy, h]

theorem slotBy_of_not_scalar (h : ∀ tag text, g.node id ≠ .scalar tag text) :
    slotBy ρ g id = .node id := by
  rw [slotBy]
  split
  · rename_i hn
    exact absurd hn (h _ _)
  · rfl

/-- A slot refers to a node only if it is a container. -/
theorem slotBy_eq_node {x : NodeId} (h : slotBy ρ g id = .node x) :
    x = id ∧ ∀ tag text, g.node id ≠ .scalar tag text := by
  rw [slotBy] at h
  split at h
  · cases h
  · rename_i hn
    cases h
    exact ⟨rfl, hn⟩

theorem slots_shapeBy_of_sequence {tag : Tag} {items : List NodeId}
    (h : g.node id = .sequence tag items) : (shapeBy ρ g id).slots = items.map (slotBy ρ g) := by
  rw [shapeBy, h]
  rfl

theorem slots_shapeBy_of_mapping {tag : Tag} {es : List (NodeId × NodeId)}
    (h : g.node id = .mapping tag es) :
    (shapeBy ρ g id).slots = es.map fun e => slotBy ρ g e.2 := by
  rw [shapeBy, h, Shape.slots, List.map_map]
  rfl

/-- What a container refers to are containers. -/
theorem not_scalar_of_mem_references {x : NodeId} (h : x ∈ (shapeBy ρ g id).references) :
    ∀ tag text, g.node x ≠ .scalar tag text := by
  rw [Shape.mem_references] at h
  have hslot : ∃ y, slotBy ρ g y = .node x := by
    cases hn : g.node id with
    | scalar tag text =>
      rw [shapeBy, hn] at h
      cases h
    | sequence tag items =>
      rw [slots_shapeBy_of_sequence hn] at h
      obtain ⟨y, -, hy⟩ := List.mem_map.mp h
      exact ⟨y, hy⟩
    | mapping tag es =>
      rw [slots_shapeBy_of_mapping hn] at h
      obtain ⟨e, -, hy⟩ := List.mem_map.mp h
      exact ⟨e.2, hy⟩
  obtain ⟨y, hy⟩ := hslot
  obtain ⟨rfl, hn⟩ := slotBy_eq_node hy
  exact hn

end Reading

end Graph

/-! ### Values of a heap -/

theorem idxOf?_map_some (path : List NodeId) (id : NodeId) :
    (path.map some).idxOf? (some id) = path.idxOf? id := by
  induction path with
  | nil => rfl
  | cons x path ih =>
    rw [List.map_cons, List.idxOf?_cons, List.idxOf?_cons, ih]
    rfl

namespace Heap

/-- The shape of a container that is in the heap once. -/
theorem exists_shape? {h : Heap} {id : NodeId} (hid : id ∈ h.ids) :
    ∃ s, h.shape? id = some s ∧ (id, s) ∈ h.shapes := by
  obtain ⟨shapes⟩ := h
  rw [ids] at hid
  induction shapes with
  | nil => cases hid
  | cons e shapes ih =>
    obtain ⟨x, s⟩ := e
    rw [shape?, List.lookup_cons]
    by_cases hx : id = x
    · subst hx
      exact ⟨s, by simp, List.mem_cons_self⟩
    · have hrest : id ∈ shapes.map Prod.fst := by
        rcases List.mem_cons.mp hid with heq | hmem
        · exact absurd heq hx
        · exact hmem
      obtain ⟨t, ht, hmem⟩ := ih hrest
      refine ⟨t, ?_, List.mem_cons_of_mem _ hmem⟩
      have hne : (id == x) = false := by simpa using hx
      rw [hne]
      exact ht

variable {ρ : Written → Value} {g : Graph} {h : Heap}

/-- What is found of a container that is not open yet is its layout, if this is so for the parts of
the container. -/
theorem valueFrom_container {fuel fuel' : Nat} {path : List NodeId} {id : NodeId}
    (hn : ∀ tag text, g.node id ≠ .scalar tag text) (hnew : path.idxOf? id = none)
    (hs : h.shape? id = some (Graph.shapeBy ρ g id))
    (hpart : ∀ x, ((∀ tag text, g.node x ≠ .scalar tag text) →
        Slot.node x ∈ (Graph.shapeBy ρ g id).slots) →
      valueFrom h fuel (some id :: path.map some) (Graph.slotBy ρ g x)
        = (g.layoutFrom fuel' (id :: path) x).read ρ) :
    valueFrom h (fuel + 1) (path.map some) (.node id)
      = (g.layoutFrom (fuel' + 1) path id).read ρ := by
  rw [valueFrom, idxOf?_map_some, hnew]
  cases hnode : g.node id with
  | scalar tag text => exact absurd hnode (hn tag text)
  | sequence tag items =>
    have hslots : (Graph.shapeBy ρ g id).slots = _ := Graph.slots_shapeBy_of_sequence hnode
    have hseq : Graph.shapeBy ρ g id = .seq (items.map (Graph.slotBy ρ g)) := by
      rw [Graph.shapeBy, hnode]
    rw [Graph.layoutFrom_of_sequence hnode hnew, Layout.read, Layout.readItems_eq_map, hs, hseq]
    show Value.seq ((items.map (Graph.slotBy ρ g)).map (valueFrom h fuel _)) = _
    rw [List.map_map, List.map_map]
    refine congrArg Value.seq (List.map_congr_left fun x hx => hpart x fun hxn => ?_)
    rw [hslots]
    exact List.mem_map.mpr ⟨x, hx, Graph.slotBy_of_not_scalar hxn⟩
  | mapping tag es =>
    have hslots : (Graph.shapeBy ρ g id).slots = _ := Graph.slots_shapeBy_of_mapping hnode
    have hmap : Graph.shapeBy ρ g id
        = .map (es.map fun e => (ρ (g.written e.1), Graph.slotBy ρ g e.2)) := by
      rw [Graph.shapeBy, hnode]
    rw [Graph.layoutFrom_of_mapping hnode hnew, Layout.read, Layout.readEntries_eq_map, hs, hmap]
    show Value.map ((Value.ofEntries (es.map fun e =>
        (ρ (g.written e.1), Graph.slotBy ρ g e.2))).map
          fun e => (e.1, valueFrom h fuel _ e.2)) = _
    -- The heap drops entries with the same key before it reads their values, the layout after it.
    rw [← Value.ofEntries_map, List.map_map, List.map_map]
    refine congrArg (fun l => Value.map (Value.ofEntries l)) (List.map_congr_left fun e he => ?_)
    refine congrArg (Prod.mk _) (hpart e.2 fun hxn => ?_)
    rw [hslots]
    exact List.mem_map.mpr ⟨e, he, Graph.slotBy_of_not_scalar hxn⟩

/-- What is found in a heap that was read from a graph is the layout of the graph, read in the same
way. The induction is on the fuel of the value. Neither fuel runs out: both are larger than the
number of containers, and every step enters one that is not on the path yet. -/
theorem valueFrom_slotBy
    (hh : Explored (fun id s => s = Graph.shapeBy ρ g id) g.size h []) (fuel fuel' : Nat)
    {path : List NodeId} (hnodup : path.Nodup) (hpath : ∀ x ∈ path, x ∈ h.ids)
    (hfuel : h.ids.length < fuel + path.length) (hfuel' : g.size < fuel' + path.length)
    (id : NodeId) (hid : (∀ tag text, g.node id ≠ .scalar tag text) → id ∈ h.ids) :
    valueFrom h fuel (path.map some) (Graph.slotBy ρ g id)
      = (g.layoutFrom fuel' path id).read ρ := by
  have hlength := hnodup.length_le_of_subset hpath
  have hsize : h.ids.length ≤ g.size := hh.length_le
  induction fuel generalizing fuel' path id with
  | zero => omega
  | succ fuel ih =>
    obtain ⟨fuel', rfl⟩ : ∃ n, fuel' = n + 1 := ⟨fuel' - 1, by omega⟩
    by_cases hscalar : ∃ tag text, g.node id = .scalar tag text
    -- A scalar needs no fuel, nor does a container that is open.
    · obtain ⟨tag, text, hn⟩ := hscalar
      rw [Graph.slotBy_of_scalar hn, Graph.layoutFrom_of_scalar hn, valueFrom, Layout.read]
    · have hn : ∀ tag text, g.node id ≠ .scalar tag text := fun tag text hn =>
        hscalar ⟨tag, text, hn⟩
      rw [Graph.slotBy_of_not_scalar hn]
      cases hback : path.idxOf? id with
      | some levels =>
        rw [Graph.layoutFrom_of_back hn hback, valueFrom, idxOf?_map_some, hback]
        rfl
      -- A container that is entered makes the path longer by itself, and the fuel less by one.
      | none =>
        obtain ⟨s, hs, hmem⟩ := exists_shape? (hid hn)
        have hshape : s = Graph.shapeBy ρ g id := hh.shape _ hmem
        subst hshape
        refine valueFrom_container hn hback hs fun x hx => ?_
        have hnodup' : (id :: path).Nodup :=
          List.nodup_cons.mpr ⟨List.idxOf?_eq_none_iff.mp hback, hnodup⟩
        have hpath' : ∀ y ∈ id :: path, y ∈ h.ids := List.forall_mem_cons.mpr ⟨hid hn, hpath⟩
        refine ih fuel' hnodup' hpath' ?_ ?_ x (fun hxn => ?_)
          (hnodup'.length_le_of_subset hpath')
        · rw [List.length_cons]
          omega
        · rw [List.length_cons]
          omega
        · simpa using hh.references _ hmem x (Shape.mem_references.mpr (hx hxn))

end Heap

end PipelineManifest.Yaml
