import NuKSM.BTree.Memory

/-! # Searching: `find_leaf`, `find`, `find_range`, `print_leaves` -/

namespace NuKSM.BTree

/-- `while (i < num_keys) { if (key >= keys[i]) i++; else break; }` -/
def childIndex (c : NodeId) (key : Key) : NodeProg Nat := do
  let n ← load c
  Prog.scanUp (fun i => do return decide (key ≥ (← getKey c i))) 0 n.numKeys

/-- The loop of `find_leaf`. -/
def descend (key : Key) : (fuel : Nat) → NodeId → NodeProg NodeId
  | 0, _ => throw .exhausted
  | fuel + 1, c => do
    let n ← load c
    if n.isLeaf then pure c
    else do
      let i ← childIndex c key
      let p ← getPtr c i
      let c ← p.asNode
      descend key fuel c

/-- A path from the root has at most as many nodes as were carved. -/
def fuel : NodeProg Nat := do return (← get).brk + 1

def findLeaf (root : Option NodeId) (key : Key) : NodeProg (Option NodeId) :=
  match root with
  | none => pure none
  | some root => do
    let fuel ← fuel
    some <$> descend key fuel root

/-- The record under a key, and the leaf it was looked for in (`*leaf_out`). -/
def find (root : Option NodeId) (key : Key) : NodeProg (Option RecId × Option NodeId) := do
  match ← findLeaf root key with
  | none => pure (none, none)
  | some leaf =>
    let n ← load leaf
    let i ← Prog.scanUp (fun i => do return decide ((← getKey leaf i) ≠ key)) 0 n.numKeys
    if i = n.numKeys then pure (none, some leaf)
    else do
      let p ← getPtr leaf i
      let r ← p.asRecord
      pure (r, some leaf)

/-- The node that a chain pointer leads to, if any. -/
def Ptr.next : Ptr → NodeProg (Option NodeId)
  | .node a => pure (some a)
  | .null => pure none
  | .record _ => throw .badCast

/-- One leaf of `find_range`: `for (; i < num_keys && keys[i] <= key_end; i++)` appends an entry. -/
def collect (n : NodeId) (keyEnd : Key) : (count i : Nat) → List Key × List Ptr → NodeProg (List Key × List Ptr)
  | 0, _, found => pure found
  | count + 1, i, found => do
    let k ← getKey n i
    if k ≤ keyEnd then do
      let p ← getPtr n i
      collect n keyEnd count (i + 1) (found.1 ++ [k], found.2 ++ [p])
    else pure found

/-- The loop of `find_range` along the chain of leaves, from index `i` of leaf `n`. -/
def collectChain (order : Nat) (keyEnd : Key) :
    (fuel : Nat) → Option NodeId → Nat → List Key × List Ptr → NodeProg (List Key × List Ptr)
  | 0, _, _, _ => throw .exhausted
  | _ + 1, none, _, found => pure found
  | fuel + 1, some n, i, found => do
    let node ← load n
    let found ← collect n keyEnd (node.numKeys - i) i found
    let p ← getPtr n (order - 1)
    let next ← p.next
    collectChain order keyEnd fuel next 0 found

/-- `find_range`: the number of entries found, `returned_keys` and `returned_pointers`. -/
def findRange (order : Nat) (root : Option NodeId) (keyStart keyEnd : Key) : NodeProg (Nat × List Key × List Ptr) := do
  match ← findLeaf root keyStart with
  | none => pure (0, [], [])
  | some n =>
    let node ← load n
    let i ← Prog.scanUp (fun i => do return decide ((← getKey n i) < keyStart)) 0 node.numKeys
    if i = node.numKeys then pure (0, [], [])
    else do
      let fuel ← fuel
      let found ← collectChain order keyEnd fuel (some n) i ([], [])
      pure (found.1.length, found.1, found.2)

/-- The descent of `print_leaves` along `pointers[0]`. -/
def leftmost : (fuel : Nat) → NodeId → NodeProg NodeId
  | 0, _ => throw .exhausted
  | fuel + 1, c => do
    let n ← load c
    if n.isLeaf then pure c
    else do
      let p ← getPtr c 0
      let c ← p.asNode
      leftmost fuel c

/-- The walk of `print_leaves` along `pointers[order - 1]`: the leaves it passes, with their keys. -/
def walkLeaves (order : Nat) : (fuel : Nat) → NodeId → NodeProg (List (NodeId × List Key))
  | 0, _ => throw .exhausted
  | fuel + 1, c => do
    let n ← load c
    let keys ← Prog.loopUp (fun i keys => do return keys ++ [← getKey c i]) 0 n.numKeys []
    let p ← getPtr c (order - 1)
    match ← p.next with
    | none => pure [(c, keys)]
    | some next => do
      let rest ← walkLeaves order fuel next
      pure ((c, keys) :: rest)

/-- `print_leaves`; an empty tree has no leaf to print. -/
def printLeaves (order : Nat) (root : Option NodeId) : NodeProg (List (NodeId × List Key)) :=
  match root with
  | none => pure []
  | some root => do
    let fuel ← fuel
    let c ← leftmost fuel root
    walkLeaves order fuel c

end NuKSM.BTree
