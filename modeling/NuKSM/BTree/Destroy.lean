import NuKSM.BTree.Insert

/-! # Destroying a tree: `destroy_tree`

The `free` of the C library does not know the pools. The pointers other than the arrays of a node that it is given are
listed in order. -/

namespace NuKSM.BTree

/-- `destroy_tree_nodes`: the pointers that were given to `free`. -/
def destroyTreeNodes : (fuel : Nat) → NodeId → NodeProg (List Ptr)
  | 0, _ => throw .exhausted
  | fuel + 1, root => do
    let node ← load root
    let freed ← if node.isLeaf then
        Prog.loopUp (fun i freed => do return freed ++ [← getPtr root i]) 0 node.numKeys []
      else
        Prog.loopUp (fun i freed => do
          let p ← getPtr root i
          let c ← p.asNode
          return freed ++ (← destroyTreeNodes fuel c)) 0 (node.numKeys + 1) []
    freeArrays root
    freeNode root
    pure freed

/-- `destroy_tree`: the `NULL` it returns, and the pointers that were given to `free`. -/
def destroyTree (root : Option NodeId) : Prog Heap Fault (Option NodeId × List Ptr) := do
  let root ← Prog.orFault .nullDeref root
  let fuel ← onNodes fuel
  let freed ← onNodes (destroyTreeNodes fuel root)
  pure (none, freed)

end NuKSM.BTree
