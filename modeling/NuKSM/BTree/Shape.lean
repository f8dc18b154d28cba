import NuKSM.BTree.Memory

/-! # The shape of a tree, as the memory has it

What a root leads to: its nodes, leaves and records in order, and what makes them a B+ tree. The height of
a tree is the number of pointers between its root and each of its leaves. -/

namespace NuKSM.BTree

def Ptr.node? : Ptr → Option NodeId
  | node a => some a
  | _ => none

def Ptr.record? : Ptr → Option RecId
  | record r => some r
  | _ => none

namespace Node

def usedKeys (n : Node) : List Key := n.keys.take n.numKeys

/-- A leaf has one pointer for each key, an internal node has one more. -/
def usedPointers (n : Node) : List Ptr := n.pointers.take (if n.isLeaf then n.numKeys else n.numKeys + 1)

def children (n : Node) : List NodeId := n.usedPointers.filterMap Ptr.node?

def records (n : Node) : List RecId := n.usedPointers.filterMap Ptr.record?

end Node

section
variable (s : Slab Node)

/-- All nodes from `a` down. -/
def nodesFrom : (height : Nat) → NodeId → List NodeId
  | 0, a => [a]
  | height + 1, a => a :: (s.mem a).children.flatMap (nodesFrom height)

/-- The leaves from left to right. -/
def leavesFrom : (height : Nat) → NodeId → List NodeId
  | 0, a => [a]
  | height + 1, a => (s.mem a).children.flatMap (leavesFrom height)

/-- The records of the leaves. -/
def recordsFrom (height : Nat) (a : NodeId) : List RecId := (leavesFrom s height a).flatMap fun l => (s.mem l).records

/-- The key `k` is in `a` or in a node below it. -/
inductive KeyBelow (k : Key) : NodeId → Prop
  | here {a : NodeId} : k ∈ (s.mem a).usedKeys → KeyBelow k a
  | child {a c : NodeId} : c ∈ (s.mem a).children → KeyBelow k c → KeyBelow k a

end

/-- The fewest keys of a node below the root, by its height. -/
def minKeys (order height : Nat) : Nat := if height = 0 then cut (order - 1) else cut order - 1

/-- What holds of any node by itself. -/
structure ValidKeys (order least : Nat) (parent : Option NodeId) (n : Node) : Prop where
  parent : n.parent = parent
  least : least ≤ n.numKeys
  most : n.numKeys ≤ order - 1
  length : n.usedKeys.length = n.numKeys
  increasing : n.usedKeys.Pairwise (· < ·)

/-- `a` is the root of a valid B+ tree under `parent`, with all leaves at the same depth. -/
def ValidNode (order : Nat) (s : Slab Node) : (height least : Nat) → (parent : Option NodeId) → NodeId → Prop
  | 0, least, parent, a => ValidKeys order least parent (s.mem a) ∧ (s.mem a).isLeaf = true
  | height + 1, least, parent, a => ValidKeys order least parent (s.mem a) ∧ (s.mem a).isLeaf = false ∧
    (∀ i ≤ (s.mem a).numKeys, ∃ c, (s.mem a).pointers[i]? = some (.node c) ∧
      ValidNode order s height (minKeys order height) (some a) c) ∧
    ∀ i k, (s.mem a).usedKeys[i]? = some k →
      (∀ c, (s.mem a).pointers[i]? = some (.node c) → ∀ j, KeyBelow s j c → j < k) ∧
      ∀ c, (s.mem a).pointers[i + 1]? = some (.node c) → ∀ j, KeyBelow s j c → k ≤ j

/-- The root pointer leads to a valid B+ tree, or to nothing. -/
def ValidTree (order : Nat) (s : Slab Node) : Option NodeId → Prop
  | none => True
  | some root => ∃ height, ValidNode order s height 1 none root

end NuKSM.BTree
