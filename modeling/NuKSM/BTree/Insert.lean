import NuKSM.BTree.Search

/-! # Insertion

Two functions call each other in the C code: `insert_into_parent` splits a full parent, and
`insert_into_node_after_splitting` then inserts into the parent above. Here the second takes the first as
an argument, and the recursion of the first is bounded by a fuel. -/

namespace NuKSM.BTree

/-- `while (left_index <= parent->num_keys && parent->pointers[left_index] != left) left_index++`. -/
def getLeftIndex (parent left : NodeId) : NodeProg Nat := do
  let n ← load parent
  Prog.scanUp (fun i => do return decide ((← getPtr parent i) ≠ .node left)) 0 (n.numKeys + 1)

/-- `keys[i] = keys[i - 1]; pointers[i] = pointers[i - 1]`. -/
def shiftEntry (n : NodeId) (i : Nat) : NodeProg Unit := do
  let k ← getKey n (i - 1)
  setKey n i k
  let p ← getPtr n (i - 1)
  setPtr n i p

def insertIntoLeaf (leaf : NodeId) (key : Key) (pointer : RecId) : NodeProg NodeId := do
  let n ← load leaf
  let insertionPoint ← Prog.scanUp (fun i => do return decide ((← getKey leaf i) < key)) 0 n.numKeys
  Prog.loopDown (shiftEntry leaf) insertionPoint (n.numKeys - insertionPoint)
  setKey leaf insertionPoint key
  setPtr leaf insertionPoint (.record pointer)
  incNumKeys leaf
  pure leaf

/-- `for (i = 0, j = 0; i < count; i++, j++) { if (j == gap) j++; temp[j] = read(i); }`. -/
def copyAround {α : Type} (read : Nat → NodeProg α) (gap count : Nat) (temp : List α) : NodeProg (List α) := do
  let r ← Prog.loopUp (fun i (r : Nat × List α) => do
    let j := if r.1 = gap then r.1 + 1 else r.1
    let x ← read i
    let temp ← setAt r.2 j x
    pure (j + 1, temp)) 0 count (0, temp)
  pure r.2

/-- `pointers[j] = temp_pointers[i]; keys[j] = temp_keys[i]; num_keys++`. -/
def takeEntry (n : NodeId) (tempKeys : List Key) (tempPointers : List Ptr) (i j : Nat) : NodeProg Unit := do
  let p ← at? tempPointers i
  setPtr n j p
  let k ← at? tempKeys i
  setKey n j k
  incNumKeys n

/-- `for (i = lo; i < hi; i++) pointers[i] = NULL`. -/
def clearPointers (n : NodeId) (lo hi : Nat) : NodeProg Unit :=
  Prog.loopUp (fun i _ => setPtr n i .null) lo (hi - lo) ()

/-- `for (i = 0; i < count; i++) { child = n->pointers[i]; child->parent = n; }`. -/
def adoptChildren (n : NodeId) (count : Nat) : NodeProg Unit :=
  Prog.loopUp (fun i _ => do
    let p ← getPtr n i
    let child ← p.asNode
    setParent child (some n)) 0 count ()

def insertIntoNode (root n : NodeId) (leftIndex : Nat) (key : Key) (right : NodeId) : NodeProg NodeId := do
  let node ← load n
  Prog.loopDown (fun i => do
    let p ← getPtr n i
    setPtr n (i + 1) p
    let k ← getKey n (i - 1)
    setKey n i k) leftIndex (node.numKeys - leftIndex)
  setPtr n (leftIndex + 1) (.node right)
  setKey n leftIndex key
  incNumKeys n
  pure root

def insertIntoNewRoot (order : Nat) (left : NodeId) (key : Key) (right : NodeId) : NodeProg NodeId := do
  let root ← makeNode order
  setKey root 0 key
  setPtr root 0 (.node left)
  setPtr root 1 (.node right)
  incNumKeys root
  setParent root none
  setParent left (some root)
  setParent right (some root)
  pure root

/-- What calls `insert_into_parent`: `root`, `left`, `key`, `right`. -/
abbrev IntoParent := NodeId → NodeId → Key → NodeId → NodeProg NodeId

def insertIntoNodeAfterSplitting (order : Nat) (insertIntoParent : IntoParent) (root oldNode : NodeId)
    (leftIndex : Nat) (key : Key) (right : NodeId) : NodeProg NodeId := do
  let n ← load oldNode
  let tempPointers ← copyAround (getPtr oldNode) (leftIndex + 1) (n.numKeys + 1) (List.replicate (order + 1) .null)
  let tempKeys ← copyAround (getKey oldNode) leftIndex n.numKeys (List.replicate order 0)
  let tempPointers ← setAt tempPointers (leftIndex + 1) (.node right)
  let tempKeys ← setAt tempKeys leftIndex key
  let split := cut order
  let newNode ← makeNode order
  setNumKeys oldNode 0
  Prog.loopUp (fun i _ => takeEntry oldNode tempKeys tempPointers i i) 0 (split - 1) ()
  let p ← at? tempPointers (split - 1)
  setPtr oldNode (split - 1) p
  let kPrime ← at? tempKeys (split - 1)
  -- Here `i` runs from `split` to `order`, and `j` from 0.
  Prog.loopUp (fun j _ => takeEntry newNode tempKeys tempPointers (split + j) j) 0 (order - split) ()
  let p ← at? tempPointers order
  setPtr newNode (order - split) p
  let old ← load oldNode
  setParent newNode old.parent
  let new ← load newNode
  adoptChildren newNode (new.numKeys + 1)
  insertIntoParent root oldNode kPrime newNode

def insertIntoParent (order : Nat) : (fuel : Nat) → IntoParent
  | 0, _, _, _, _ => throw .exhausted
  | fuel + 1, root, left, key, right => do
    let l ← load left
    match l.parent with
    | none => insertIntoNewRoot order left key right
    | some parent => do
      let leftIndex ← getLeftIndex parent left
      let n ← load parent
      -- The C code relies on the search to have found `left`.
      let found ← getPtr parent leftIndex
      Prog.guardOr .unmet (leftIndex ≤ n.numKeys && found = .node left)
      if n.numKeys < order - 1 then insertIntoNode root parent leftIndex key right
      else insertIntoNodeAfterSplitting order (insertIntoParent order fuel) root parent leftIndex key right

def insertIntoLeafAfterSplitting (order : Nat) (root leaf : NodeId) (key : Key) (pointer : RecId) :
    NodeProg NodeId := do
  let newLeaf ← makeLeaf order
  let insertionIndex ← Prog.scanUp (fun i => do return decide ((← getKey leaf i) < key)) 0 (order - 1)
  let n ← load leaf
  let tempKeys ← copyAround (getKey leaf) insertionIndex n.numKeys (List.replicate (order + 1) 0)
  let tempPointers ← copyAround (getPtr leaf) insertionIndex n.numKeys (List.replicate (order + 1) .null)
  let tempKeys ← setAt tempKeys insertionIndex key
  let tempPointers ← setAt tempPointers insertionIndex (.record pointer)
  setNumKeys leaf 0
  let split := cut (order - 1)
  Prog.loopUp (fun i _ => takeEntry leaf tempKeys tempPointers i i) 0 split ()
  Prog.loopUp (fun j _ => takeEntry newLeaf tempKeys tempPointers (split + j) j) 0 (order - split) ()
  let p ← getPtr leaf (order - 1)
  setPtr newLeaf (order - 1) p
  setPtr leaf (order - 1) (.node newLeaf)
  let n ← load leaf
  clearPointers leaf n.numKeys (order - 1)
  let new ← load newLeaf
  clearPointers newLeaf new.numKeys (order - 1)
  setParent newLeaf n.parent
  let newKey ← getKey newLeaf 0
  let fuel ← fuel
  insertIntoParent order fuel root leaf newKey newLeaf

def startNewTree (order : Nat) (key : Key) (pointer : RecId) : NodeProg NodeId := do
  let root ← makeLeaf order
  setKey root 0 key
  setPtr root 0 (.record pointer)
  setPtr root (order - 1) .null
  setParent root none
  incNumKeys root
  pure root

/-! ### Both pools -/

def onNodes {α : Type} (p : NodeProg α) : Prog Heap Fault α := do
  let h ← get
  let r ← (p.run h.nodes : Except Fault (α × Slab Node))
  set { h with nodes := r.2 }
  pure r.1

def onRecords {α : Type} (p : RecProg α) : Prog Heap Fault α := do
  let h ← get
  let r ← (p.run h.recs : Except Fault (α × Slab Record))
  set { h with recs := r.2 }
  pure r.1

/-- The insertion into a leaf with room, or into one that must be split. -/
def insertEntry (order : Nat) (root leaf : NodeId) (key : Key) (pointer : RecId) : NodeProg NodeId := do
  let n ← load leaf
  if n.numKeys < order - 1 then do
    let _ ← insertIntoLeaf leaf key pointer
    pure root
  else insertIntoLeafAfterSplitting order root leaf key pointer

def insert (order : Nat) (root : Option NodeId) (key : Key) (value : UInt64) : Prog Heap Fault (Option NodeId) := do
  match (← onNodes (find root key)).1 with
  | some r => do
    onRecords (Slab.store r (.value value))
    pure root
  | none => do
    let pointer ← onRecords (makeRecord value)
    match root with
    | none => do
      let root ← onNodes (startNewTree order key pointer)
      pure (some root)
    | some root => do
      match ← onNodes (findLeaf (some root) key) with
      | none => throw .nullDeref
      | some leaf => do
        let root ← onNodes (insertEntry order root leaf key pointer)
        pure (some root)

end NuKSM.BTree
