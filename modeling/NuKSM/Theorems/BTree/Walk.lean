import NuKSM.Theorems.BTree.Shape

/-! # Walks over the nodes of a valid tree

What a program that passes all nodes reads in them, and the tree that a run of insertions and deletions leaves. -/

namespace NuKSM.BTree
open BPlus

variable {order height least : Nat} {s : Slab Node} {p : Option NodeId} {a : NodeId}

/-! ### Pointers -/

/-- Pointers that all lead to nodes are the pointers to these nodes. -/
theorem eq_map_node : ∀ {l : List Ptr}, (∀ x ∈ l, ∃ c, x = .node c) → l = (l.filterMap Ptr.node?).map .node
  | [], _ => rfl
  | x :: l, h => by
    obtain ⟨c, rfl⟩ := h x (List.mem_cons_self ..)
    have hl := eq_map_node fun y hy => h y (List.mem_cons_of_mem _ hy)
    rw [List.filterMap_cons_some (show Ptr.node? (.node c) = some c from rfl), List.map_cons, ← hl]

namespace ValidNode

theorem validKeys : ∀ {height : Nat}, ValidNode order s height least p a → ValidKeys order least p (s.mem a)
  | 0, h => h.1
  | _ + 1, h => h.1

theorem isLeaf_zero (h : ValidNode order s 0 least p a) : (s.mem a).isLeaf = true := h.2

theorem isLeaf_succ (h : ValidNode order s (height + 1) least p a) : (s.mem a).isLeaf = false := h.2.1

theorem usedPointers (h : ValidNode order s (height + 1) least p a) :
    (s.mem a).usedPointers = (s.mem a).children.map .node ∧ (s.mem a).children.length = (s.mem a).numKeys + 1 := by
  have htake : (s.mem a).usedPointers = (s.mem a).pointers.take ((s.mem a).numKeys + 1) := by
    rw [Node.usedPointers, h.isLeaf_succ, if_neg Bool.false_ne_true]
  have hpointer := h.2.2.1
  have hnodes : (s.mem a).usedPointers = (s.mem a).children.map .node := by
    refine eq_map_node fun x hx => ?_
    rw [htake] at hx
    obtain ⟨i, hi, rfl⟩ := List.mem_take_iff_getElem.mp hx
    obtain ⟨c, hc, -⟩ := hpointer i (by omega)
    exact ⟨c, Option.some.inj ((List.getElem?_eq_getElem (by omega)).symm.trans hc)⟩
  obtain ⟨c, hc, -⟩ := hpointer (s.mem a).numKeys le_rfl
  obtain ⟨hlast, -⟩ := List.getElem?_eq_some_iff.mp hc
  refine ⟨hnodes, ?_⟩
  have hlen := congrArg List.length hnodes
  rw [htake, List.length_map, List.length_take] at hlen
  omega

/-- The pointer to a child. -/
theorem pointer (h : ValidNode order s (height + 1) least p a) {i : Nat} {c : NodeId}
    (hc : (s.mem a).children[i]? = some c) : (s.mem a).pointers[i]? = some (.node c) := by
  obtain ⟨hused, hlen⟩ := h.usedPointers
  obtain ⟨hi, -⟩ := List.getElem?_eq_some_iff.mp hc
  have hget : (s.mem a).usedPointers[i]? = some (.node c) := by rw [hused, List.getElem?_map, hc, Option.map_some]
  rw [Node.usedPointers, h.isLeaf_succ, if_neg Bool.false_ne_true, List.getElem?_take] at hget
  rwa [if_pos (by omega)] at hget

theorem child (h : ValidNode order s (height + 1) least p a) {c : NodeId} (hc : c ∈ (s.mem a).children) :
    ValidNode order s height (minKeys order height) (some a) c := by
  obtain ⟨i, hi⟩ := List.mem_iff_getElem?.mp hc
  obtain ⟨hlt, -⟩ := List.getElem?_eq_some_iff.mp hi
  have hlen := h.usedPointers.2
  obtain ⟨c', hc', hvalid⟩ := h.2.2.1 i (by omega)
  obtain rfl := Ptr.node.inj (Option.some.inj ((h.pointer hi).symm.trans hc'))
  exact hvalid

end ValidNode

/-- A valid tree has more nodes than it is high. -/
theorem height_lt_length : ∀ {height least : Nat} {p : Option NodeId} {a : NodeId}, ValidNode order s height least p a →
    height < (nodesFrom s height a).length
  | 0, _, _, _, _ => Nat.one_pos
  | height + 1, _, _, a, h => by
    have hlen := h.usedPointers.2
    obtain ⟨c, cs, hcs⟩ := List.exists_cons_of_length_eq_add_one hlen
    have hchild := height_lt_length (h.child (hcs ▸ List.mem_cons_self ..))
    rw [nodesFrom, hcs, List.flatMap_cons, List.length_cons, List.length_append]
    omega

/-! ### After a run -/

/-- A leaf whose pointers in use all lead to records. -/
structure LeafRecords (n : Node) : Prop where
  pointers : n.usedPointers = n.records.map .record
  length : n.usedPointers.length = n.numKeys

/-- The tree of a state with a root: it is valid, all nodes and records that are not free are its own, and the leaves
lead to records. -/
structure TreeAt (order : Nat) (st : State) (height : Nat) (root : NodeId) : Prop where
  rooted : st.root = some root
  valid : ValidNode order st.heap.nodes height 1 none root
  nodes : st.heap.nodes.Pool (nodesFrom st.heap.nodes height root)
  records : st.heap.recs.Pool (recordsFrom st.heap.nodes height root)
  leaves : ∀ l ∈ leavesFrom st.heap.nodes height root, LeafRecords (st.heap.nodes.mem l)
  nonempty : recordsFrom st.heap.nodes height root ≠ []

theorem LeafAt.records {l : BptLeaf} (h : LeafAt order s l) : LeafRecords (s.mem l.id) := by
  obtain ⟨-, q, hm⟩ := h
  have hused : (s.mem l.id).usedPointers = l.entries.map fun e => .record e.2 := usedPointers_eq (d := 0) (t := .leaf l) hm
  refine ⟨?_, ?_⟩
  · rw [Node.records, hused]
    simp [List.filterMap_map, Function.comp_def, Ptr.record?]
  · rw [hused, hm.numKeys]
    simp

theorem Inv.treeAt (horder : 3 ≤ order) {st : State} {t : (d : Nat) × BptTree d} {es : List Binding}
    (h : Inv order st (some t) es) : TreeAt order st t.1 t.2.id := by
  obtain ⟨hroot, hstores⟩ := h.stores
  obtain ⟨hnodes, hrecs⟩ := h.pools
  refine ⟨hroot, hstores.valid (h.kept.rooted t rfl) h.good.ordered, hstores.nodesFrom_eq ▸ hnodes, hstores.recordsFrom_eq ▸ hrecs, ?_, ?_⟩
  · intro l hl
    rw [hstores.leavesFrom_eq] at hl
    obtain ⟨x, hx, rfl⟩ := List.mem_map.mp hl
    exact (hstores.leaf x hx).records
  · rw [hstores.recordsFrom_eq]
    have hne := entries_ne_nil (fun _ => min_pos horder) Nat.one_pos (h.kept.rooted t rfl)
    exact fun hnil => hne (List.map_eq_nil_iff.mp hnil)

/-- Whatever is inserted and deleted, the state has no root and no cell in use, or a tree. -/
theorem exec_treeAt (horder : 3 ≤ order) (hbound : order < 2 ^ 64) (ops : List Op) : ∃ st, exec order ops = .ok st ∧
    (st.root = none ∨ ∃ height root, TreeAt order st height root) := by
  obtain ⟨st, hexec, T, es, hinv, -⟩ := exec_runs horder hbound ops
  refine ⟨st, hexec, ?_⟩
  cases T with
  | none => exact Or.inl hinv.root
  | some t => exact Or.inr ⟨_, _, hinv.treeAt horder⟩

/-- The tree of one entry. -/
theorem exec_insert_root : ∃ st, exec 4 [.insert 1 10] = .ok st ∧ st.root ≠ none := by
  have heval : (exec 4 [.insert 1 10]).toOption.map (fun st => st.root.isSome) = some true := by
    decide +kernel
  obtain ⟨st, hexec, -⟩ := exec_runs (show 3 ≤ 4 by simp) (by simp) [.insert 1 10]
  rw [hexec] at heval
  exact ⟨st, hexec, Option.isSome_iff_ne_none.mp (Option.some.inj heval)⟩

end NuKSM.BTree
