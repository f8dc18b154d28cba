import NuKSM.BTree.Delete
import NuKSM.Lib.Locate

/-! What a `struct node` holds of a tree node (`Matches`), and how the elementary accesses run. -/

namespace NuKSM.BTree
open BPlus

/-- The pages of the trees that are stored: the payload of an entry is its record. -/
abbrev BptPage := Page Key RecId NodeId

abbrev BptCell := Cell Key RecId NodeId

abbrev BptLeaf := Leaf Key RecId NodeId

abbrev BptTree (d : Nat) := Tree Key RecId NodeId d

abbrev BptCtx (d : Nat) := Ctx Key RecId NodeId d

abbrev BptItem := Item Key RecId NodeId

abbrev BptFrame (d : Nat) := Frame Key NodeId (BptTree d)

/-- A chain pointer. -/
def linkPtr : Option NodeId → Ptr
  | none => .null
  | some a => .node a

section Page

def pageKeys : BptPage → List Key
  | .leaf entries _ => entries.map Prod.fst
  | .branch keys _ => keys

def pagePtrs : BptPage → List Ptr
  | .leaf entries _ => entries.map fun e => .record e.2
  | .branch _ children => children.map .node

def pageIsLeaf : BptPage → Bool
  | .leaf _ _ => true
  | .branch _ _ => false

variable {entries : List (Key × RecId)} {next : Option NodeId} {keys : List Key} {children : List NodeId}

@[simp] theorem pageKeys_leaf : pageKeys (.leaf entries next) = entries.map Prod.fst := rfl

@[simp] theorem pageKeys_branch : pageKeys (.branch keys children) = keys := rfl

@[simp] theorem pagePtrs_leaf : pagePtrs (.leaf entries next) = entries.map fun e => .record e.2 := rfl

@[simp] theorem pagePtrs_branch : pagePtrs (.branch keys children) = children.map .node := rfl

@[simp] theorem pageIsLeaf_leaf : pageIsLeaf (.leaf entries next) = true := rfl

@[simp] theorem pageIsLeaf_branch : pageIsLeaf (.branch keys children) = false := rfl

end Page

/-- `n` has arrays of the allocated lengths, whose used front parts are the keys and pointers of the page;
    a leaf keeps the next leaf in its last slot. -/
structure Matches (order : Nat) (n : Node) (c : BptCell) : Prop where
  keys_length : n.keys.length = order - 1
  pointers_length : n.pointers.length = order
  parent : n.parent = c.parent
  isLeaf : n.isLeaf = pageIsLeaf c.page
  numKeys : n.numKeys = (pageKeys c.page).length
  keys : pageKeys c.page <+: n.keys
  pointers : pagePtrs c.page <+: n.pointers
  next : ∀ entries next, c.page = .leaf entries next → n.pointers[order - 1]? = some (linkPtr next)

/-- The live nodes are those of `L`, each with what it holds, and those of `D`. -/
abbrev Holds (order : Nat) (s : Slab Node) (L : List (NodeId × BptCell)) (D : List NodeId) : Prop :=
  Slab.Owns (Matches order) s L D

/-! ### Accesses -/

section Accesses
variable {s : Slab Node} {a : NodeId} {n : Node} {i : Nat} {k : Key} {p : Ptr}

theorem at?_runs {α : Type} {l : List α} {x : α} (h : l[i]? = some x) : Runs (at? l i) s x s := Runs.orFault h

theorem setAt_runs {α : Type} {l : List α} {x : α} (h : i < l.length) : Runs (setAt l i x) s (l.set i x) s :=
  Runs.ite_pos h Runs.pure

theorem load_runs (ha : a < s.brk) : Runs (load a) s (s.mem a) s := Slab.load_runs ha

theorem load_put (ha : a < s.brk) : Runs (load a) (s.put a n) n (s.put a n) := by
  simpa using load_runs (s := s.put a n) ha

theorem modifyNode_runs {f : Node → Node} (ha : a < s.brk) : Runs (modifyNode a f) s () (s.put a (f (s.mem a))) :=
  Runs.bind (load_runs ha) (Slab.store_runs ha)

theorem modifyNode_put {f : Node → Node} (ha : a < s.brk) : Runs (modifyNode a f) (s.put a n) () (s.put a (f n)) := by
  simpa using modifyNode_runs (s := s.put a n) (f := f) ha

theorem getElem?_of_isPrefix {α : Type} {l l' : List α} {i : Nat} {x : α} (h : l <+: l') (hx : l[i]? = some x) :
    l'[i]? = some x := by
  obtain ⟨t, rfl⟩ := h
  obtain ⟨hi, -⟩ := List.getElem?_eq_some_iff.mp hx
  rw [List.getElem?_append_left hi, hx]

theorem getKey_runs (ha : a < s.brk) (hk : (s.mem a).keys[i]? = some k) : Runs (getKey a i) s k s :=
  Runs.bind (load_runs ha) (at?_runs hk)

theorem getPtr_runs (ha : a < s.brk) (hp : (s.mem a).pointers[i]? = some p) : Runs (getPtr a i) s p s :=
  Runs.bind (load_runs ha) (at?_runs hp)

/-- A loop that collects the keys of a node up to a number of them. -/
theorem collectKeys_runs {keys : List Key} (ha : a < s.brk) (hkeys : keys <+: (s.mem a).keys) :
    Runs (Prog.loopUp (fun i keys => do return keys ++ [← getKey a i]) 0 keys.length []) s keys s := by
  have hloop := Runs.loopUp (g := fun i keys => do return keys ++ [← getKey a i]) (l := 0) (n := keys.length)
    (B := fun j => keys.take j) (S := fun _ => s) fun j hj => ?_
  · rwa [List.take_length, List.take_zero] at hloop
  · have hkey : (s.mem a).keys[j]? = some keys[j] := getElem?_of_isPrefix hkeys (List.getElem?_eq_getElem hj)
    rw [Nat.zero_add, List.take_succ_eq_append_getElem hj]
    exact Runs.bind (getKey_runs ha hkey) Runs.pure

theorem getKey_put (ha : a < s.brk) (hk : n.keys[i]? = some k) : Runs (getKey a i) (s.put a n) k (s.put a n) :=
  getKey_runs ha (by simpa using hk)

theorem getPtr_put (ha : a < s.brk) (hp : n.pointers[i]? = some p) : Runs (getPtr a i) (s.put a n) p (s.put a n) :=
  getPtr_runs ha (by simpa using hp)

theorem setKey_runs (ha : a < s.brk) (hi : i < (s.mem a).keys.length) :
    Runs (setKey a i k) s () (s.put a { s.mem a with keys := (s.mem a).keys.set i k }) :=
  Runs.bind (load_runs ha) (Runs.bind (setAt_runs hi) (Slab.store_runs ha))

theorem setPtr_runs (ha : a < s.brk) (hi : i < (s.mem a).pointers.length) :
    Runs (setPtr a i p) s () (s.put a { s.mem a with pointers := (s.mem a).pointers.set i p }) :=
  Runs.bind (load_runs ha) (Runs.bind (setAt_runs hi) (Slab.store_runs ha))

theorem setKey_put (ha : a < s.brk) (hi : i < n.keys.length) :
    Runs (setKey a i k) (s.put a n) () (s.put a { n with keys := n.keys.set i k }) := by
  simpa using setKey_runs (s := s.put a n) (k := k) ha (by simpa using hi)

theorem setPtr_put (ha : a < s.brk) (hi : i < n.pointers.length) :
    Runs (setPtr a i p) (s.put a n) () (s.put a { n with pointers := n.pointers.set i p }) := by
  simpa using setPtr_runs (s := s.put a n) (p := p) ha (by simpa using hi)

theorem setParent_runs {q : Option NodeId} (ha : a < s.brk) :
    Runs (setParent a q) s () (s.put a { s.mem a with parent := q }) := modifyNode_runs ha

theorem incNumKeys_put (ha : a < s.brk) : Runs (incNumKeys a) (s.put a n) () (s.put a { n with numKeys := n.numKeys + 1 }) :=
  modifyNode_put ha

theorem decNumKeys_put (ha : a < s.brk) (hn : 0 < n.numKeys) :
    Runs (decNumKeys a) (s.put a n) () (s.put a { n with numKeys := n.numKeys - 1 }) :=
  Runs.bind (load_put ha) (Runs.bind (Runs.guardOr (by simpa using hn)) (modifyNode_put ha))

theorem asNode_runs {c : NodeId} : Runs (Ptr.asNode (.node c)) s c s := Runs.pure

end Accesses

end NuKSM.BTree
