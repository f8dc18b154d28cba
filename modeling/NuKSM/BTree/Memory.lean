import NuKSM.Lib.Slab
import Mathlib.Algebra.Group.Nat.Defs
import Mathlib.Order.Defs.LinearOrder

/-! # The memory of the B+ tree benchmark (`btree.c`)

Nodes and records live in two slab pools. The arrays `keys` and `pointers` of a node are allocated
together with it and belong to no other node, so a node carries them; a freed array has no element left.
`posix_memalign` is taken to succeed (`allocate` ends the program otherwise), and the `verbose` output is
left out. -/

namespace NuKSM.BTree

/-- The keys are `uint64_t` and are only compared. -/
abbrev Key := UInt64

instance keyOrder : LinearOrder UInt64 where
  le_refl _ := UInt64.le_refl _
  le_trans _ _ _ := UInt64.le_trans
  lt_iff_le_not_ge a b := by simp only [UInt64.lt_iff_toNat_lt, UInt64.le_iff_toNat_le]; omega
  le_antisymm _ _ h h' := UInt64.le_antisymm h h'
  le_total := UInt64.le_total
  toDecidableLE := inferInstance

abbrev NodeId := Nat
abbrev RecId := Nat

/-- A `void *` of a `pointers` array. -/
inductive Ptr
  | null
  | node (a : NodeId)
  | record (r : RecId)
  deriving DecidableEq, Repr

/-- `struct node`. -/
structure Node where
  pointers : List Ptr
  keys : List Key
  parent : Option NodeId
  isLeaf : Bool
  numKeys : Nat
  next : Option NodeId
  deriving DecidableEq, Repr

/-- The union of `struct record`. -/
inductive Record
  | value (v : UInt64)
  | next (r : Option RecId)
  deriving DecidableEq, Repr

instance : SlabCell Node where
  getNext n := some n.next
  setNext p n := { n with next := p }
  getNext_setNext _ _ := rfl

instance : SlabCell Record where
  getNext
    | .value _ => none
    | .next p => some p
  setNext p _ := .next p
  getNext_setNext _ _ := rfl

/-- `NODE_SLAB_GROW / sizeof(struct node)`. -/
def nodesPerSlab : Nat := 2 ^ 18 / 48

/-- `RECORD_SLAB_GROW / sizeof(struct record)`. -/
def recordsPerSlab : Nat := 2 ^ 18 / 16

/-- Memory that `allocate` has cleared. -/
def Node.zero : Node := ⟨[], [], none, false, 0, none⟩

/-- The two pools: `free_nodes` and `free_recs` are the heads of their free lists. -/
structure Heap where
  nodes : Slab Node
  recs : Slab Record

/-- Before the first allocation. -/
def Heap.empty : Heap := ⟨Slab.empty Node.zero, Slab.empty (.next none)⟩

/-- What works on nodes only. -/
abbrev NodeProg := Prog (Slab Node) Fault

/-- What works on records only. -/
abbrev RecProg := Prog (Slab Record) Fault

/-! ### Fields -/

/-- The node that a pointer is dereferenced to. -/
def Ptr.asNode : Ptr → NodeProg NodeId
  | .node a => pure a
  | .null => throw .nullDeref
  | .record _ => throw .badCast

/-- `(record *)` of a pointer. -/
def Ptr.asRecord : Ptr → NodeProg (Option RecId)
  | .record r => pure (some r)
  | .null => pure none
  | .node _ => throw .badCast

def load (a : NodeId) : NodeProg Node := Slab.load a

def modifyNode (a : NodeId) (f : Node → Node) : NodeProg Unit := do
  Slab.store a (f (← load a))

/-- An element of an array. -/
def at? {α : Type} (l : List α) (i : Nat) : NodeProg α := Prog.orFault .outOfBounds l[i]?

/-- An array after an element was written. -/
def setAt {α : Type} (l : List α) (i : Nat) (x : α) : NodeProg (List α) :=
  if i < l.length then pure (l.set i x) else throw .outOfBounds

def getKey (a : NodeId) (i : Nat) : NodeProg Key := do at? (← load a).keys i

def getPtr (a : NodeId) (i : Nat) : NodeProg Ptr := do at? (← load a).pointers i

def setKey (a : NodeId) (i : Nat) (k : Key) : NodeProg Unit := do
  let n ← load a
  Slab.store a { n with keys := ← setAt n.keys i k }

def setPtr (a : NodeId) (i : Nat) (p : Ptr) : NodeProg Unit := do
  let n ← load a
  Slab.store a { n with pointers := ← setAt n.pointers i p }

def setParent (a : NodeId) (p : Option NodeId) : NodeProg Unit := modifyNode a fun n => { n with parent := p }

def setNumKeys (a : NodeId) (m : Nat) : NodeProg Unit := modifyNode a fun n => { n with numKeys := m }

/-- `num_keys++`. -/
def incNumKeys (a : NodeId) : NodeProg Unit := modifyNode a fun n => { n with numKeys := n.numKeys + 1 }

/-- `num_keys--`. At 0 the C code would wrap around, and goes on. -/
def decNumKeys (a : NodeId) : NodeProg Unit := do
  Prog.guardOr .unmet (0 < (← load a).numKeys)
  modifyNode a fun n => { n with numKeys := n.numKeys - 1 }

/-- `free(n->keys); free(n->pointers)`. -/
def freeArrays (a : NodeId) : NodeProg Unit := modifyNode a fun n => { n with keys := [], pointers := [] }

/-! ### Pools -/

def allocNode : NodeProg NodeId := Slab.alloc Node.zero nodesPerSlab

def freeNode (a : NodeId) : NodeProg Unit := Slab.release a

def allocRecord : RecProg RecId := Slab.alloc (.next none) recordsPerSlab

def freeRecord (r : RecId) : RecProg Unit := Slab.release r

def makeRecord (value : UInt64) : RecProg RecId := do
  let r ← allocRecord
  Slab.store r (.value value)
  pure r

def makeNode (order : Nat) : NodeProg NodeId := do
  let a ← allocNode
  modifyNode a fun _ =>
    { keys := List.replicate (order - 1) 0, pointers := List.replicate order .null
      parent := none, isLeaf := false, numKeys := 0, next := none }
  pure a

def makeLeaf (order : Nat) : NodeProg NodeId := do
  let leaf ← makeNode order
  modifyNode leaf fun n => { n with isLeaf := true }
  pure leaf

/-- Finds the appropriate place to split a node that is too big into two. -/
def cut (length : Nat) : Nat := if length % 2 = 0 then length / 2 else length / 2 + 1

end NuKSM.BTree
