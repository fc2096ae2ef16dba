import PipelineManifest.Value.Equal
import PipelineManifest.Yaml.Cursor
import PipelineManifest.Yaml.Node.Basic

/-!
# `PipelineManifest.Yaml.Object.Basic`: containers that may contain themselves

What the nodes of a document stand for is a heap: for every node that stands for a container
there is one shape, which lists what the container holds. A slot of a shape holds a value that
is no container, or the name of the node that stands for one. Two slots with one name hold the
same container.

* `Slot`, `Shape`, `Heap`: slots, shapes, and the shapes of nodes.
* `Heap.explore`: the heap of all containers that are reached from some nodes, each expanded
  exactly once, in the order in which they are reached.
* `Heap.value`: the value of a slot. A container that is reached from inside itself becomes a
  reference.
-/

set_option autoImplicit false

namespace PipelineManifest.Yaml

/-- A place in a container. -/
inductive Slot where
  | leaf (v : Value)
  | node (id : NodeId)
  deriving Inhabited

/-- What a container holds. The entries of a mapping are listed as they come, also those whose
key comes again; a set keeps the values that are written beside its members. -/
inductive Shape where
  | seq (items : List Slot)
  | pairs (items : List (Slot × Slot))
  | map (entries : List (Value × Slot))
  | set (entries : List (Value × Slot))
  deriving Inhabited

/-- The slots of a shape, in order. -/
def Shape.slots : Shape → List Slot
  | seq items => items
  | pairs items => items.flatMap fun (a, b) => [a, b]
  | map entries | set entries => entries.map Prod.snd

/-- The name that a slot holds. -/
def Slot.id? : Slot → Option NodeId
  | leaf _ => none
  | node id => some id

/-- The names of the containers that a shape refers to, each once, in order. -/
def Shape.references (s : Shape) : List NodeId := (s.slots.filterMap Slot.id?).eraseDups

/-- The shapes of the nodes that stand for containers. -/
structure Heap where
  shapes : List (NodeId × Shape)
  deriving Inhabited

namespace Heap

/-- The heap without containers. -/
def empty : Heap := ⟨[]⟩

/-- The shape of a node. -/
def shape? (h : Heap) (id : NodeId) : Option Shape := h.shapes.lookup id

/-- The heap of the containers in `queue` and all that are reached from them, where `seen` have
been met already. A node is expanded by `expand`, which may change the graph. Every node is
expanded once, so the number of nodes is fuel enough. -/
def explore (expand : Graph → NodeId → Except Defect (Graph × Shape)) :
    (fuel : Nat) → (queue seen : List NodeId) → Graph → Heap → Except Defect (Graph × Heap)
  | 0, _, _, g, h => .ok (g, h)
  | _ + 1, [], _, g, h => .ok (g, h)
  | fuel + 1, id :: queue, seen, g, h => do
    let (g, shape) ← expand g id
    -- Each container is put into the queue when it is met first, and never again.
    let new := shape.references.filter fun ref => !seen.contains ref
    explore expand fuel (queue ++ new) (seen ++ new) g ⟨h.shapes ++ [(id, shape)]⟩

/-- The heap of all containers that are reached from a slot. -/
def ofSlot (expand : Graph → NodeId → Except Defect (Graph × Shape)) (g : Graph) (s : Slot) :
    Except Defect (Graph × Heap) :=
  let start := s.id?.toList
  explore expand (g.size + 1) start start g .empty

/-- The value of a slot inside open containers; `path` names them from the innermost out, where
a pair has no name. A path has no name twice, so the number of shapes is fuel enough. -/
def valueFrom (h : Heap) : (fuel : Nat) → (path : List (Option NodeId)) → Slot → Value
  | _, _, .leaf v => v
  | 0, _, .node _ => .null
  | fuel + 1, path, .node id =>
    match path.idxOf? (some id) with
    | some levels => .back levels
    | none =>
      let inner := some id :: path
      match h.shape? id with
      | some (.seq items) => .seq (items.map (valueFrom h fuel inner))
      | some (.pairs items) =>
        -- A pair is a level of its own, although no node stands for it.
        .seq (items.map fun (a, b) =>
          .tuple [valueFrom h fuel (none :: inner) a, valueFrom h fuel (none :: inner) b])
      | some (.map entries) =>
        .map ((Value.ofEntries entries).map fun (k, s) => (k, valueFrom h fuel inner s))
      | some (.set entries) => .set (Value.distinct (entries.map Prod.fst))
      | none => .null

/-- The value of a slot. -/
def value (h : Heap) (s : Slot) : Value := valueFrom h (h.shapes.length + 1) [] s

end Heap

end PipelineManifest.Yaml
