import NuKSM.Theorems.BTree.Run
import NuKSM.BTree.Shape

/-! The shape of the tree that a run leads to: a stored tree is a valid one, and what its root leads to are
its nodes, leaves and records. -/

namespace NuKSM.BTree
open BPlus

variable {order : Nat} {s : Slab Node} {d : Nat} {p : Option NodeId}

theorem usedKeys_eq {n : Node} {c : BptCell} (h : Matches order n c) : n.usedKeys = pageKeys c.page := by
  rw [Node.usedKeys, h.numKeys]
  exact (List.prefix_iff_eq_take.mp h.keys).symm

theorem usedPointers_eq {n : Node} {t : BptTree d} (h : Matches order n ⟨t.page, p⟩) : n.usedPointers = pagePtrs t.page := by
  have hlen : (if n.isLeaf then n.numKeys else n.numKeys + 1) = (pagePtrs t.page).length := by
    rw [h.isLeaf, h.numKeys]
    cases d with
    | zero => simp [Tree.page]
    | succ d => simp [Tree.page, Branch.keys, Branch.length_children]
  rw [Node.usedPointers, hlen]
  exact (List.prefix_iff_eq_take.mp h.pointers).symm

theorem children_eq {n : Node} {t : BptTree (d + 1)} (h : Matches order n ⟨t.page, p⟩) :
    n.children = t.toBranch.children.map Tree.id := by
  rw [Node.children, usedPointers_eq h]
  simp [Tree.page, List.filterMap_map, Function.comp_def, Ptr.node?]

/-- The memory holds a leaf. -/
def LeafAt (order : Nat) (s : Slab Node) (l : BptLeaf) : Prop :=
  l.id < s.brk ∧ ∃ q, Matches order (s.mem l.id) ⟨.leaf l.entries l.next, q⟩

namespace Stores

/-! ### Traversals -/

theorem nodesFrom_eq : ∀ {d : Nat} {t : BptTree d} {p : Option NodeId}, Stores order s p t →
    nodesFrom s d t.id = (t.cells p).map Prod.fst
  | 0, _, _, _ => rfl
  | d + 1, t, p, h => by
    have hcells : (t.cells p).map Prod.fst =
        t.id :: t.toBranch.children.flatMap fun u => (u.cells (some t.id)).map Prod.fst := by
      rw [Tree.cells, List.map_cons, Tree.head_fst, Tree.inner, List.map_flatMap]
      rfl
    rw [nodesFrom, children_eq h.root.2, List.flatMap_map, hcells]
    exact congrArg _ (List.flatMap_congr fun u hu => nodesFrom_eq (h.child hu))

theorem leavesFrom_eq : ∀ {d : Nat} {t : BptTree d} {p : Option NodeId}, Stores order s p t →
    leavesFrom s d t.id = (leaves t.fringe).map Leaf.id
  | 0, _, _, _ => rfl
  | d + 1, t, p, h => by
    have hrow := leaves_branch (b := t.toBranch)
    rw [leavesFrom, children_eq h.root.2, List.flatMap_map, ← Tree.branch_toBranch t, hrow, List.map_flatMap]
    exact List.flatMap_congr fun u hu => leavesFrom_eq (h.child hu)

/-- The memory holds each leaf of the row. -/
theorem leaf : ∀ {d : Nat} {t : BptTree d} {p : Option NodeId}, Stores order s p t → ∀ l ∈ leaves t.fringe, LeafAt order s l
  | 0, t, p, h, l, hl => by
    obtain rfl : l = t.toLeaf := by simpa [Tree.fringe] using hl
    exact ⟨h.root.1, p, h.root.2⟩
  | d + 1, t, p, h, l, hl => by
    rw [← Tree.branch_toBranch t, leaves_branch] at hl
    obtain ⟨u, hu, hlu⟩ := List.mem_flatMap.mp hl
    exact leaf (h.child hu) l hlu

theorem recordsFrom_eq {t : BptTree d} (h : Stores order s p t) : recordsFrom s d t.id = (entries t.fringe).map Prod.snd := by
  rw [recordsFrom, h.leavesFrom_eq, List.flatMap_map, entries_eq_leaves, List.map_flatMap]
  refine List.flatMap_congr fun l hl => ?_
  obtain ⟨-, q, hm⟩ := h.leaf l hl
  rw [Node.records, usedPointers_eq (d := 0) (t := .leaf l) hm]
  simp [List.filterMap_map, Function.comp_def, Ptr.record?]

/-! ### Validity -/

/-- The keys below a node are among the marks of its row. -/
theorem keyBelow {k : Key} : ∀ {d : Nat} {t : BptTree d} {p : Option NodeId}, Stores order s p t → KeyBelow s k t.id →
    keyMark k ∈ marks t.fringe ∨ sepMark k ∈ marks t.fringe
  | 0, t, p, h, hk => by
    have hm := h.root.2
    cases hk with
    | here hk =>
      rw [usedKeys_eq hm] at hk
      obtain ⟨e, he, rfl⟩ := List.mem_map.mp (show k ∈ t.toLeaf.entries.map Prod.fst from hk)
      exact Or.inl (keyMark_mem (by simpa [Tree.fringe] using he))
    | child hc _ =>
      rw [Node.children, usedPointers_eq hm] at hc
      simp [Tree.page, List.filterMap_map, Function.comp_def, Ptr.node?] at hc
  | d + 1, t, p, h, hk => by
    have hm := h.root.2
    cases hk with
    | here hk =>
      rw [usedKeys_eq hm] at hk
      right
      obtain ⟨x, hx, rfl⟩ := List.mem_map.mp (show k ∈ t.toBranch.rest.map Prod.fst from hk)
      refine List.mem_flatMap.mpr ⟨.sep x.1, ?_, List.mem_singleton.mpr rfl⟩
      exact List.mem_append_right _ (List.mem_flatMap.mpr ⟨x, hx, List.mem_cons_self ..⟩)
    | child hc hk =>
      rw [children_eq hm] at hc
      obtain ⟨u, hu, rfl⟩ := List.mem_map.mp hc
      exact (keyBelow (h.child hu) hk).imp (fun hm => (marks_child hu).subset hm) fun hm => (marks_child hu).subset hm

theorem validKeys {t : BptTree d} {least : Nat} (h : Stores order s p t) (hsize : t.SizedFrom (occupancy order) least)
    (hord : Ordered t.fringe) : ValidKeys order least p (s.mem t.id) := by
  have hm := h.root.2
  have hnum := numKeys_eq hm
  refine ⟨hm.parent, hnum ▸ hsize.le_count, hnum ▸ hsize.count_le, ?_, ?_⟩
  · rw [usedKeys_eq hm, hm.numKeys]
  · rw [usedKeys_eq hm]
    cases d with
    | zero =>
      have hkeys : t.toLeaf.entries.Pairwise fun a b => a.1 < b.1 := by simpa [Tree.fringe] using hord.entries
      exact List.pairwise_map.mpr hkeys
    | succ d =>
      have hseps := List.pairwise_map.mp (List.Pairwise.sublist (sepMarks_sublist (b := t.toBranch)) hord)
      exact hseps.imp fun hab => sepMark_lt_sepMark.mp hab

/-- A pointer of a branch leads to the child at its index. -/
theorem pointer {t : BptTree (d + 1)} (h : Stores order s p t) {i : Nat} {u : BptTree d} (hi : t.toBranch.children[i]? = some u) :
    (s.mem t.id).pointers[i]? = some (.node u.id) := by
  refine getElem?_of_isPrefix h.root.2.pointers ?_
  show ((t.toBranch.children.map Tree.id).map Ptr.node)[i]? = _
  rw [List.getElem?_map, List.getElem?_map, hi]
  rfl

/-- Keys to the left of a separator are below it, and keys to the right are not. -/
theorem separates {t : BptTree (d + 1)} (h : Stores order s p t) (hord : Ordered t.fringe) {R₁ R₂ : List (Key × BptTree d)}
    {k : Key} {u : BptTree d} (hdiv : t.toBranch.rest = R₁ ++ (k, u) :: R₂) :
    (∀ v ∈ t.toBranch.first :: R₁.map Prod.snd, ∀ j, KeyBelow s j v.id → j < k) ∧ ∀ j, KeyBelow s j u.id → k ≤ j := by
  have hrow := Tree.fringe_split (i := t.id) (j := t.id) hdiv
  have hchildren := Branch.children_split hdiv
  rw [Tree.branch_toBranch] at hrow
  unfold Ordered at hord
  rw [hrow, marks_append, marks_sep] at hord
  obtain ⟨-, hright, hleft⟩ := List.pairwise_append.mp hord
  constructor
  · intro v hv j hj
    have hmarks := marks_child (b := ⟨t.id, t.toBranch.first, R₁⟩) hv
    have hbelow : ∀ m ∈ marks v.fringe, m < sepMark k := fun m hm => hleft m (hmarks.subset hm) _ (List.mem_cons_self ..)
    rcases (h.child (hchildren ▸ List.mem_append_left _ hv)).keyBelow hj with hm | hm
    · exact keyMark_lt_sepMark.mp (hbelow _ hm)
    · exact sepMark_lt_sepMark.mp (hbelow _ hm)
  · intro j hj
    have hmarks := marks_child (b := ⟨t.id, u, R₂⟩) (u := u) (List.mem_cons_self ..)
    have habove : ∀ m ∈ marks u.fringe, sepMark k < m := fun m hm => (List.pairwise_cons.mp hright).1 m (hmarks.subset hm)
    rcases (h.child (hchildren ▸ List.mem_append_right _ (List.mem_cons_self ..))).keyBelow hj with hm | hm
    · exact sepMark_lt_keyMark.mp (habove _ hm)
    · exact (sepMark_lt_sepMark.mp (habove _ hm)).le

theorem valid : ∀ {d least : Nat} {t : BptTree d} {p : Option NodeId}, Stores order s p t → t.SizedFrom (occupancy order) least →
    Ordered t.fringe → ValidNode order s d least p t.id
  | 0, _, _, _, h, hsize, hord => ⟨h.validKeys hsize hord, h.root.2.isLeaf⟩
  | d + 1, least, t, p, h, hsize, hord => by
    have hm := h.root.2
    refine ⟨h.validKeys hsize hord, hm.isLeaf, fun i hi => ?_, fun i k hk => ?_⟩
    · -- A child of its own height, in order as a part of the row.
      have hlt : i < t.toBranch.children.length := by
        rw [numKeys_eq hm] at hi
        rw [Branch.length_children, Branch.keys, List.length_map]
        exact Nat.lt_succ_of_le hi
      have hget := List.getElem?_eq_getElem hlt
      have hmem := List.getElem_mem hlt
      exact ⟨_, h.pointer hget, valid (h.child hmem) (hsize.2.2 _ hmem) (List.Pairwise.sublist (marks_child hmem) hord)⟩
    · rw [usedKeys_eq hm] at hk
      obtain ⟨x, hx, rfl⟩ := Option.map_eq_some_iff.mp
        (List.getElem?_map ▸ show (t.toBranch.rest.map Prod.fst)[i]? = some k from hk)
      obtain ⟨hi, rfl⟩ := List.getElem?_eq_some_iff.mp hx
      have hdiv := (List.take_append_drop i t.toBranch.rest).symm
      rw [List.drop_eq_getElem_cons hi] at hdiv
      obtain ⟨hleft, hright⟩ := h.separates hord hdiv
      have hchildren := Branch.children_split hdiv
      have hlen : (t.toBranch.first :: (t.toBranch.rest.take i).map Prod.snd).length = i + 1 := by
        rw [List.length_cons, List.length_map, List.length_take_of_le (Nat.le_of_lt hi)]
      have hlt : i < (t.toBranch.first :: (t.toBranch.rest.take i).map Prod.snd).length := by omega
      constructor
      · intro c hc j hj
        have hget := List.getElem?_eq_getElem hlt
        have hptr := h.pointer (i := i) (by rwa [hchildren, List.getElem?_append_left hlt])
        obtain rfl := Ptr.node.inj (Option.some.inj (hptr.symm.trans hc))
        exact hleft _ (List.getElem_mem _) j hj
      · intro c hc j hj
        have hptr := h.pointer (i := i + 1) (u := (t.toBranch.rest[i]).2) (by
          rw [hchildren, List.getElem?_append_right hlen.le, hlen, Nat.sub_self]
          rfl)
        obtain rfl := Ptr.node.inj (Option.some.inj (hptr.symm.trans hc))
        exact hright j hj

end Stores

/-! ### After a run -/

/-- The root of a state with a tree, and what the memory holds of that tree. -/
theorem Inv.stores {st : State} {t : (d : Nat) × BptTree d} {es : List Binding} (h : Inv order st (some t) es) :
    st.root = some t.2.id ∧ Stores order st.heap.nodes none t.2 :=
  ⟨h.root, Holds.stores h.kept.holds fun _ hx => hx⟩

/-- The cells in use are the nodes of the tree and the records of its entries. -/
theorem Inv.pools {st : State} {T : BptRoot} {es : List Binding} (h : Inv order st T es) :
    st.heap.nodes.Pool (T.cells.map Prod.fst) ∧ st.heap.recs.Pool ((BPlus.entries T.fringe).map Prod.snd) := by
  have hnodes := h.kept.holds.pool
  have hrecs := h.records.pool
  have hids : (es.map Prod.snd).map Prod.fst = (BPlus.entries T.fringe).map Prod.snd := by
    rw [h.entries, entriesOf, List.map_map, List.map_map]
    rfl
  rw [hids, List.append_nil] at hrecs
  rw [List.append_nil] at hnodes
  exact ⟨hnodes, hrecs⟩

/-- Whatever is inserted and deleted, the tree is a valid B+ tree. -/
theorem exec_valid (horder : 3 ≤ order) (hbound : order < 2 ^ 64) (ops : List Op) :
    ∃ st, exec order ops = .ok st ∧ ValidTree order st.heap.nodes st.root := by
  obtain ⟨st, hexec, T, es, hinv, -⟩ := exec_runs horder hbound ops
  refine ⟨st, hexec, ?_⟩
  cases T with
  | none =>
    rw [hinv.root]
    trivial
  | some t =>
    obtain ⟨hroot, hstores⟩ := hinv.stores
    rw [hroot]
    exact ⟨t.1, hstores.valid (hinv.kept.rooted t rfl) hinv.good.ordered⟩

theorem exec_valid_four : ∃ st, exec 4 [.insert 1 10, .insert 2 20, .delete 1] = .ok st ∧
    ValidTree 4 st.heap.nodes st.root :=
  exec_valid (by decide) (by decide) _

/-- No call ends with a fault, so every access is within its array and every search hits; the arrays of all nodes
    keep the lengths with which they were allocated. -/
theorem exec_safe (horder : 3 ≤ order) (hbound : order < 2 ^ 64) (ops : List Op) : (∀ f, exec order ops ≠ .error f) ∧
    ∀ st, exec order ops = .ok st → ∀ root ∈ st.root, ∃ height, ValidNode order st.heap.nodes height 1 none root ∧
      ∀ a ∈ nodesFrom st.heap.nodes height root,
        (st.heap.nodes.mem a).keys.length = order - 1 ∧ (st.heap.nodes.mem a).pointers.length = order := by
  obtain ⟨st, hexec, T, es, hinv, -⟩ := exec_runs horder hbound ops
  rw [hexec]
  refine ⟨nofun, ?_⟩
  rintro _ ⟨⟩ root hroot
  cases T with
  | none =>
    rw [hinv.root] at hroot
    cases hroot
  | some t =>
    obtain ⟨hroot', hstores⟩ := hinv.stores
    obtain rfl : t.2.id = root := by simpa [hroot'] using hroot
    refine ⟨t.1, hstores.valid (hinv.kept.rooted t rfl) hinv.good.ordered, fun a ha => ?_⟩
    rw [hstores.nodesFrom_eq] at ha
    obtain ⟨x, hx, rfl⟩ := List.mem_map.mp ha
    exact ⟨(hstores x hx).2.keys_length, (hstores x hx).2.pointers_length⟩

theorem exec_safe_four : (∀ f, exec 4 [.insert 1 10, .delete 1] ≠ .error f) ∧
    ∀ st, exec 4 [.insert 1 10, .delete 1] = .ok st → ∀ root ∈ st.root, ∃ height,
      ValidNode 4 st.heap.nodes height 1 none root ∧ ∀ a ∈ nodesFrom st.heap.nodes height root,
        (st.heap.nodes.mem a).keys.length = 4 - 1 ∧ (st.heap.nodes.mem a).pointers.length = 4 :=
  exec_safe (by decide) (by decide) _

/-- Of the nodes and records that were carved, each is either free or under the root, and just once. -/
theorem exec_conserves (horder : 3 ≤ order) (hbound : order < 2 ^ 64) (ops : List Op) :
    ∃ st, exec order ops = .ok st ∧ match st.root with
      | none => st.heap.nodes.Pool [] ∧ st.heap.recs.Pool []
      | some root => ∃ height, ValidNode order st.heap.nodes height 1 none root ∧
          st.heap.nodes.Pool (nodesFrom st.heap.nodes height root) ∧ st.heap.recs.Pool (recordsFrom st.heap.nodes height root) := by
  obtain ⟨st, hexec, T, es, hinv, -⟩ := exec_runs horder hbound ops
  refine ⟨st, hexec, ?_⟩
  obtain ⟨hnodes, hrecs⟩ := hinv.pools
  cases T with
  | none =>
    rw [hinv.root]
    exact ⟨hnodes, hrecs⟩
  | some t =>
    obtain ⟨hroot, hstores⟩ := hinv.stores
    rw [hroot]
    refine ⟨t.1, hstores.valid (hinv.kept.rooted t rfl) hinv.good.ordered, ?_, ?_⟩
    · rw [hstores.nodesFrom_eq]
      exact hnodes
    · rw [hstores.recordsFrom_eq]
      exact hrecs

theorem exec_conserves_four : ∃ st, exec 4 [.insert 1 10, .insert 2 20, .delete 1] = .ok st ∧ match st.root with
    | none => st.heap.nodes.Pool [] ∧ st.heap.recs.Pool []
    | some root => ∃ height, ValidNode 4 st.heap.nodes height 1 none root ∧
        st.heap.nodes.Pool (nodesFrom st.heap.nodes height root) ∧ st.heap.recs.Pool (recordsFrom st.heap.nodes height root) :=
  exec_conserves (by decide) (by decide) _

end NuKSM.BTree
