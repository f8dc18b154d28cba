import NuKSM.BTree.Delete

/-! # Runs: sequences of `insert` and `delete`, and the load loop of `main` -/

namespace NuKSM.BTree

/-- A call that changes the tree. -/
inductive Op
  | insert (key : Key) (value : UInt64)
  | delete (key : Key)
  deriving DecidableEq, Repr

def Op.key : Op → Key
  | insert key _ => key
  | delete key => key

/-- The memory between two calls, with the root that the last one returned. -/
structure State where
  heap : Heap
  root : Option NodeId

/-- `root = NULL`. -/
def State.init : State := ⟨Heap.empty, none⟩

def Op.call (order : Nat) (root : Option NodeId) : Op → Prog Heap Fault (Option NodeId)
  | insert key value => BTree.insert order root key value
  | delete key => BTree.delete order root key

def step (order : Nat) (st : State) (op : Op) : Except Fault State := do
  let r ← (op.call order st.root).run st.heap
  pure ⟨r.2, r.1⟩

/-- Some calls one after the other, from the `NULL` root on. -/
def exec (order : Nat) (ops : List Op) : Except Fault State := ops.foldlM (step order) State.init

/-- `find` returns `r` for `key`, and changes nothing. -/
def Finds (st : State) (key : Key) (r : Option RecId) : Prop :=
  ∃ leaf, Runs (find st.root key) st.heap.nodes (r, leaf) st.heap.nodes

/-- `(uint64_t)&elms[i]`, for elements of 16 bytes. -/
def elementAddr (elms : UInt64) (i : Nat) : UInt64 := elms + 16 * UInt64.ofNat i

/-- `for (i = 0; i < NELEMENTS; i += 2)`, with `i = 2 * j`. -/
def loadLoop (order nelements : Nat) (elms elms2 : UInt64) : Prog Heap Fault (Option NodeId) :=
  Prog.loopUp (fun j root => do
    let root ← insert order root (UInt64.ofNat (2 * j)) (elementAddr elms j)
    insert order root (UInt64.ofNat nelements - UInt64.ofNat (2 * j) - 1) (elementAddr elms2 j))
    0 ((nelements + 1) / 2) none

end NuKSM.BTree
