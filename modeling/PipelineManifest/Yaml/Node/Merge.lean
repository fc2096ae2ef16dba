import PipelineManifest.Yaml.Cursor
import PipelineManifest.Yaml.Node.Basic

/-!
# `PipelineManifest.Yaml.Node.Merge`: merging mappings into mappings

A merge entry of a mapping stands for the entries of another mapping, or of several in a
sequence. Before a mapping is read its merge entries are replaced: the entries they stand for
come first, those of an earlier mapping of a sequence after those of a later one, and the
mapping's own entries last, so that later entries of a key win in this order. The mappings that
are merged are rid of their own merge entries first. In what remains the default mark is a key
like any other.

* `Graph.mergeKeys`: how many merge entries a graph has.
* `Graph.flatten`: the graph with the merge entries of one mapping replaced.
-/

set_option autoImplicit false

namespace PipelineManifest.Yaml.Graph

/-- The entries of a mapping; other nodes have none. -/
def entries (g : Graph) (id : NodeId) : List (NodeId × NodeId) :=
  match g.node id with
  | .mapping _ es => es
  | _ => []

/-- Whether an entry is a merge entry. -/
def isMerge (g : Graph) (e : NodeId × NodeId) : Bool := g.tag e.1 = .merge

/-- How many merge entries a graph has. -/
def mergeKeys (g : Graph) : Nat :=
  g.nodes.foldl (fun n node =>
    match node with
    | .mapping _ es => n + es.countP g.isMerge
    | _ => n) 0

/-- The mapping with other entries. -/
def setEntries (g : Graph) (id : NodeId) (es : List (NodeId × NodeId)) : Graph :=
  match g.node id with
  | .mapping t _ => g.set id (.mapping t es)
  | _ => g

/-- Makes a key that is the default mark a text. -/
def nameDefault (g : Graph) (key : NodeId) : Graph :=
  if g.tag key = .default then g.set key ((g.node key).withTag .text) else g

/-- Makes the keys of some entries that are default marks texts. -/
def nameDefaults (g : Graph) (es : List (NodeId × NodeId)) : Graph :=
  es.foldl (fun g e => g.nameDefault e.1) g

/-- The nodes that a merge entry takes its entries from: a mapping, or the mappings of a
sequence. -/
def mergeSources (g : Graph) (value : NodeId) : Option (List NodeId) :=
  match g.node value with
  | .mapping .. => some [value]
  | .sequence _ items => some items
  | .scalar .. => none

/-- Whether a node is a mapping. -/
def isMapping (g : Graph) (id : NodeId) : Bool :=
  match g.node id with
  | .mapping .. => true
  | _ => false

/-- Rids several mappings of their merge entries with `flattenOne`, and gives the entries of
each. -/
def flattenEach (flattenOne : Graph → NodeId → Except Defect Graph) (g : Graph) :
    List NodeId → Except Defect (Graph × List (List (NodeId × NodeId)))
  | [] => .ok (g, [])
  | id :: ids =>
    if !g.isMapping id then .error .rejected
    else do
      let g ← flattenOne g id
      let entries := g.entries id
      let (g, lists) ← flattenEach flattenOne g ids
      return (g, entries :: lists)

/-- Replaces the merge entries of a mapping, one after the other; `merged` are the entries that
those before stand for. Every step takes one merge entry away for good, so their number is fuel
enough. -/
def flattenFrom : (fuel : Nat) → Graph → NodeId → (merged : List (NodeId × NodeId)) →
    Except Defect Graph
  | 0, _, _, _ => .error .rejected
  | fuel + 1, g, id, merged =>
    match (g.entries id).findIdx? g.isMerge with
    | none =>
      let g := g.nameDefaults (g.entries id)
      .ok (if merged.isEmpty then g else g.setEntries id (merged ++ g.entries id))
    | some i =>
      let value := ((g.entries id).map Prod.snd).getD i 0
      -- The entry is gone before its sources are read, so a mapping that is merged into itself
      -- does not meet it again.
      let g := g.setEntries id ((g.entries id).eraseIdx i)
      match g.mergeSources value with
      | none => .error .rejected
      | some sources => do
        let (g, lists) ← flattenEach (fun g id => flattenFrom fuel g id []) g sources
        flattenFrom fuel g id (merged ++ lists.reverse.flatten)

/-- The graph with the merge entries of one mapping replaced; other nodes have none. -/
def flatten (g : Graph) (id : NodeId) : Except Defect Graph :=
  if g.isMapping id then flattenFrom (g.mergeKeys + 1) g id [] else .ok g

end PipelineManifest.Yaml.Graph
