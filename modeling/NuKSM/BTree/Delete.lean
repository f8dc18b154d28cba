import NuKSM.BTree.Insert

/-! # Deletion

`coalesce_nodes` calls `delete_entry` on the parent, and `delete_entry` calls `coalesce_nodes`: here the
first takes the second as an argument, whose recursion is bounded by a fuel. -/

namespace NuKSM.BTree

/-- What `get_neighbor_index` returns for a leftmost child: `-1` in a `uint64_t`. -/
def leftmostIndex : Nat := 2 ^ 64 - 1

/-- The index of the key to the left of the pointer to `n` in its parent. -/
def getNeighborIndex (n : NodeId) : NodeProg Nat := do
  let node ← load n
  let parent ← Prog.orFault .nullDeref node.parent
  let p ← load parent
  let i ← Prog.scanUp (fun i => do return decide ((← getPtr parent i) ≠ .node n)) 0 (p.numKeys + 1)
  if i = p.numKeys + 1 then throw .exit else pure ((i + leftmostIndex) % 2 ^ 64)

/-- `while (read(i) != x) i++`; there is no bound but the end of the array. -/
def indexOf {α : Type} [DecidableEq α] (read : Nat → NodeProg α) (x : α) (capacity : Nat) : NodeProg Nat :=
  Prog.scanUp (fun i => do return decide ((← read i) ≠ x)) 0 (capacity + 1)

/-- `for (++i; i < count; i++) a[i - 1] = a[i]`. -/
def closeGap {α : Type} (read : Nat → NodeProg α) (write : Nat → α → NodeProg Unit) (i count : Nat) : NodeProg Unit :=
  Prog.loopUp (fun i _ => do
    let x ← read i
    write (i - 1) x) (i + 1) (count - (i + 1)) ()

def removeEntryFromNode (order : Nat) (n : NodeId) (key : Key) (pointer : Ptr) : NodeProg NodeId := do
  let node ← load n
  let i ← indexOf (getKey n) key (order - 1)
  -- Neither search stops at the last used slot; the C code relies on a hit before it.
  Prog.guardOr .unmet (i < node.numKeys)
  closeGap (getKey n) (setKey n) i node.numKeys
  let numPointers := if node.isLeaf then node.numKeys else node.numKeys + 1
  let i ← indexOf (getPtr n) pointer order
  Prog.guardOr .unmet (i < numPointers)
  closeGap (getPtr n) (setPtr n) i numPointers
  decNumKeys n
  (if node.isLeaf then clearPointers n (node.numKeys - 1) (order - 1) else clearPointers n node.numKeys order)
  pure n

def adjustRoot (root : NodeId) : NodeProg (Option NodeId) := do
  let r ← load root
  if r.numKeys > 0 then pure (some root)
  else if r.isLeaf then do
    freeArrays root
    freeNode root
    pure none
  else do
    let p ← getPtr root 0
    let newRoot ← p.asNode
    setParent newRoot none
    freeArrays root
    freeNode root
    pure (some newRoot)

/-- What calls `delete_entry`: `root`, `n`, `key`, `pointer`. -/
abbrev EntryDeletion := NodeId → NodeId → Key → Ptr → NodeProg (Option NodeId)

/-- The entries of the internal node `n`, and `k_prime` before them, appended to `neighbor`. -/
def appendNode (n neighbor : NodeId) (kPrime : Key) : NodeProg Unit := do
  let m ← load neighbor
  setKey neighbor m.numKeys kPrime
  incNumKeys neighbor
  let node ← load n
  Prog.loopUp (fun j _ => do
    let k ← getKey n j
    setKey neighbor (m.numKeys + 1 + j) k
    let p ← getPtr n j
    setPtr neighbor (m.numKeys + 1 + j) p
    incNumKeys neighbor
    decNumKeys n) 0 node.numKeys ()
  let p ← getPtr n node.numKeys
  setPtr neighbor (m.numKeys + 1 + node.numKeys) p
  let m ← load neighbor
  adoptChildren neighbor (m.numKeys + 1)

/-- The entries of the leaf `n` appended to `neighbor`. -/
def appendLeaf (order : Nat) (n neighbor : NodeId) : NodeProg Unit := do
  let m ← load neighbor
  let node ← load n
  Prog.loopUp (fun j _ => do
    let k ← getKey n j
    setKey neighbor (m.numKeys + j) k
    let p ← getPtr n j
    setPtr neighbor (m.numKeys + j) p
    incNumKeys neighbor) 0 node.numKeys ()
  let p ← getPtr n (order - 1)
  setPtr neighbor (order - 1) p

/-- `coalesce_nodes` after `n` and `neighbor` were swapped where `n` is the leftmost child. -/
def coalesceInto (order : Nat) (deleteEntry : EntryDeletion) (root n neighbor : NodeId) (kPrime : Key) :
    NodeProg (Option NodeId) := do
  let node ← load n
  (if node.isLeaf then appendLeaf order n neighbor else appendNode n neighbor kPrime)
  let node ← load n
  let parent ← Prog.orFault .nullDeref node.parent
  let root ← deleteEntry root parent kPrime (.node n)
  freeArrays n
  freeNode n
  pure root

def coalesceNodes (order : Nat) (deleteEntry : EntryDeletion) (root n neighbor : NodeId) (neighborIndex : Nat)
    (kPrime : Key) : NodeProg (Option NodeId) :=
  if neighborIndex = leftmostIndex then coalesceInto order deleteEntry root neighbor n kPrime
  else coalesceInto order deleteEntry root n neighbor kPrime

/-- `redistribute_nodes` where `n` has a neighbor to the left. -/
def borrowFromLeft (n neighbor : NodeId) (kPrimeIndex : Nat) (kPrime : Key) : NodeProg Unit := do
  let node ← load n
  let m ← load neighbor
  let parent ← Prog.orFault .nullDeref node.parent
  Prog.guardOr .unmet (0 < m.numKeys)
  if node.isLeaf then do
    Prog.loopDown (shiftEntry n) 0 node.numKeys
    let p ← getPtr neighbor (m.numKeys - 1)
    setPtr n 0 p
    setPtr neighbor (m.numKeys - 1) .null
    let k ← getKey neighbor (m.numKeys - 1)
    setKey n 0 k
    let k ← getKey n 0
    setKey parent kPrimeIndex k
  else do
    let p ← getPtr n node.numKeys
    setPtr n (node.numKeys + 1) p
    Prog.loopDown (shiftEntry n) 0 node.numKeys
    let p ← getPtr neighbor m.numKeys
    setPtr n 0 p
    let tmp ← p.asNode
    setParent tmp (some n)
    setPtr neighbor m.numKeys .null
    setKey n 0 kPrime
    let k ← getKey neighbor (m.numKeys - 1)
    setKey parent kPrimeIndex k

/-- `keys[i] = keys[i + 1]; pointers[i] = pointers[i + 1]`. -/
def unshiftEntry (n : NodeId) (i : Nat) : NodeProg Unit := do
  let k ← getKey n (i + 1)
  setKey n i k
  let p ← getPtr n (i + 1)
  setPtr n i p

/-- `redistribute_nodes` where `n` is the leftmost child. -/
def borrowFromRight (n neighbor : NodeId) (kPrimeIndex : Nat) (kPrime : Key) : NodeProg Unit := do
  let node ← load n
  let m ← load neighbor
  let parent ← Prog.orFault .nullDeref node.parent
  Prog.guardOr .unmet (0 < m.numKeys)
  if node.isLeaf then do
    let k ← getKey neighbor 0
    setKey n node.numKeys k
    let p ← getPtr neighbor 0
    setPtr n node.numKeys p
    let k ← getKey neighbor 1
    setKey parent kPrimeIndex k
    Prog.loopUp (fun i _ => unshiftEntry neighbor i) 0 (m.numKeys - 1) ()
  else do
    setKey n node.numKeys kPrime
    let p ← getPtr neighbor 0
    setPtr n (node.numKeys + 1) p
    let tmp ← p.asNode
    setParent tmp (some n)
    let k ← getKey neighbor 0
    setKey parent kPrimeIndex k
    Prog.loopUp (fun i _ => unshiftEntry neighbor i) 0 (m.numKeys - 1) ()
    let p ← getPtr neighbor m.numKeys
    setPtr neighbor (m.numKeys - 1) p

def redistributeNodes (root n neighbor : NodeId) (neighborIndex kPrimeIndex : Nat) (kPrime : Key) :
    NodeProg (Option NodeId) := do
  (if neighborIndex = leftmostIndex then borrowFromRight n neighbor kPrimeIndex kPrime
    else borrowFromLeft n neighbor kPrimeIndex kPrime)
  incNumKeys n
  decNumKeys neighbor
  pure (some root)

/-- The part of `delete_entry` that repairs a node below the root with too few keys. -/
def repair (order : Nat) (deleteEntry : EntryDeletion) (root n : NodeId) : NodeProg (Option NodeId) := do
  let neighborIndex ← getNeighborIndex n
  let kPrimeIndex := if neighborIndex = leftmostIndex then 0 else neighborIndex
  let node ← load n
  let parent ← Prog.orFault .nullDeref node.parent
  let kPrime ← getKey parent kPrimeIndex
  let p ← getPtr parent (if neighborIndex = leftmostIndex then 1 else neighborIndex)
  let neighbor ← p.asNode
  let capacity := if node.isLeaf then order else order - 1
  let m ← load neighbor
  if m.numKeys + node.numKeys < capacity then coalesceNodes order deleteEntry root n neighbor neighborIndex kPrime
  else redistributeNodes root n neighbor neighborIndex kPrimeIndex kPrime

def deleteEntry (order : Nat) : (fuel : Nat) → EntryDeletion
  | 0, _, _, _, _ => throw .exhausted
  | fuel + 1, root, n, key, pointer => do
    let n ← removeEntryFromNode order n key pointer
    if n = root then adjustRoot root
    else do
      let node ← load n
      let minKeys := if node.isLeaf then cut (order - 1) else cut order - 1
      if node.numKeys ≥ minKeys then pure (some root)
      else repair order (deleteEntry order fuel) root n

def delete (order : Nat) (root : Option NodeId) (key : Key) : Prog Heap Fault (Option NodeId) := do
  match ← onNodes (find root key), root with
  | (some keyRecord, some keyLeaf), some root => do
    let fuel ← onNodes fuel
    let root ← onNodes (deleteEntry order fuel root keyLeaf key (.record keyRecord))
    onRecords (freeRecord keyRecord)
    pure root
  | _, _ => pure root

end NuKSM.BTree
