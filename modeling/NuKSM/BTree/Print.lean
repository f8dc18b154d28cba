import NuKSM.BTree.Insert

/-! # Printing: `find_and_print_range`, `print_tree`

What is printed is a list of what the calls of `printf` stand for. The global `queue` of `print_tree` is passed on; it
is linked through the fields `next` of the nodes that are in it. -/

namespace NuKSM.BTree

/-! ### Ranges -/

/-- `array_size`, the number of elements of `returned_keys` and of `returned_pointers`. -/
def arraySize (keyStart keyEnd : Key) : UInt64 := keyEnd - keyStart + 1

/-- `((record *) p)->value`. -/
def recordValue (p : Ptr) : Prog Heap Fault UInt64 := do
  let r ← Prog.orFault .nullDeref (← onNodes p.asRecord)
  match ← onRecords (Slab.load r) with
  | .value v => pure v
  | .next _ => throw .badCast

/-- `find_and_print_range`: a key, a location and a value for each line; no line stands for `None found.` -/
def findAndPrintRange (order : Nat) (root : Option NodeId) (keyStart keyEnd : Key) :
    Prog Heap Fault (List (Key × Ptr × UInt64)) := do
  let (numFound, keys, ptrs) ← onNodes (findRange order root keyStart keyEnd)
  -- `find_range` has written so many elements of the two arrays.
  Prog.guardOr .outOfBounds (decide (numFound ≤ (arraySize keyStart keyEnd).toNat))
  Prog.loopUp (fun i out => do
    let k ← Prog.orFault .outOfBounds keys[i]?
    let p ← Prog.orFault .outOfBounds ptrs[i]?
    let v ← recordValue p
    pure (out ++ [(k, p, v)])) 0 numFound []

/-! ### The queue -/

def setNext (a : NodeId) (p : Option NodeId) : NodeProg Unit := modifyNode a fun n => { n with next := p }

/-- `while (c->next != NULL) c = c->next` -/
def lastQueued : (fuel : Nat) → NodeId → NodeProg NodeId
  | 0, _ => throw .exhausted
  | fuel + 1, c => do
    match (← load c).next with
    | none => pure c
    | some c => lastQueued fuel c

/-- `enqueue`: the new value of `queue`. -/
def enqueue (queue : Option NodeId) (newNode : NodeId) : NodeProg (Option NodeId) :=
  match queue with
  | none => do
    setNext newNode none
    pure (some newNode)
  | some head => do
    let fuel ← fuel
    let c ← lastQueued fuel head
    setNext c (some newNode)
    setNext newNode none
    pure (some head)

/-- `dequeue`: the node, and the new value of `queue`. -/
def dequeue (queue : Option NodeId) : NodeProg (NodeId × Option NodeId) := do
  let n ← Prog.orFault .nullDeref queue
  let next := (← load n).next
  setNext n none
  pure (n, next)

/-! ### `print_tree` -/

def pathToRoot (root : NodeId) : (fuel : Nat) → NodeId → NodeProg Nat
  | 0, _ => throw .exhausted
  | fuel + 1, c =>
    if c = root then pure 0
    else do
      let c ← Prog.orFault .nullDeref (← load c).parent
      let length ← pathToRoot root fuel c
      pure (length + 1)

inductive Token
  | emptyTree
  | newline
  /-- The keys of a node, with the `|` behind them. -/
  | node (n : NodeId) (keys : List Key)
  deriving DecidableEq, Repr

/-- `n->parent != NULL && n == n->parent->pointers[0]` -/
def isFirstChild (n : NodeId) : NodeProg Bool := do
  match (← load n).parent with
  | none => pure false
  | some parent => return decide ((← getPtr parent 0) = .node n)

/-- The rank that the loop goes on with. -/
def newRank (root : NodeId) (rank : Nat) (n : NodeId) : NodeProg Nat := do
  if ← isFirstChild n then do
    let fuel ← fuel
    pathToRoot root fuel n
  else pure rank

/-- `for (i = 0; i <= n->num_keys; i++) enqueue(n->pointers[i])` -/
def enqueueChildren (n : NodeId) (numKeys : Nat) (queue : Option NodeId) : NodeProg (Option NodeId) :=
  Prog.loopUp (fun i queue => do
    let p ← getPtr n i
    let c ← p.asNode
    enqueue queue c) 0 (numKeys + 1) queue

/-- The loop of `print_tree`. -/
def printTreeLoop (root : NodeId) :
    (fuel : Nat) → (queue : Option NodeId) → (rank : Nat) → List Token → NodeProg (Option NodeId × List Token)
  | 0, _, _, _ => throw .exhausted
  | _ + 1, none, _, out => pure (none, out)
  | fuel + 1, some head, rank, out => do
    let (n, queue) ← dequeue (some head)
    let rank' ← newRank root rank n
    let out := if rank' ≠ rank then out ++ [.newline] else out
    let node ← load n
    let keys ← Prog.loopUp (fun i keys => do return keys ++ [← getKey n i]) 0 node.numKeys []
    let queue ← if node.isLeaf then pure queue else enqueueChildren n node.numKeys queue
    printTreeLoop root fuel queue rank' (out ++ [.node n keys])

/-- `print_tree`: the `queue` that it leaves, and what it prints. -/
def printTree (queue root : Option NodeId) : NodeProg (Option NodeId × List Token) :=
  match root with
  | none => pure (queue, [.emptyTree])
  | some root => do
    let queue ← enqueue none root
    let fuel ← fuel
    let (queue, out) ← printTreeLoop root fuel queue 0 []
    pure (queue, out ++ [.newline])

end NuKSM.BTree
