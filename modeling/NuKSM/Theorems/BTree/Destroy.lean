import NuKSM.Theorems.BTree.Walk
import NuKSM.BTree.Destroy

/-! # What `destroy_tree` gives back

Each node goes back to `free_nodes`. The records were carved from a slab as well, but they are given to the `free` of
the C library, where `delete` calls `free_record`: none of them comes back to `free_recs`. -/

namespace NuKSM.BTree

variable {order height least : Nat} {s t : Slab Node} {p : Option NodeId} {a : NodeId} {D : List NodeId}

/-! ### One node -/

/-- `free(root->pointers); free(root->keys); free_node(root)` -/
theorem releaseNode_runs (h : t.Pool (a :: D)) : ∃ t₁ t', Runs (freeArrays a) t () t₁ ∧ Runs (freeNode a) t₁ () t' ∧
    t'.Pool D ∧ t'.brk = t.brk ∧ ∀ x ∈ D, t'.mem x = t.mem x := by
  have ha : a < t.brk := h.lt (List.mem_cons_self ..)
  have hput := h.put (List.mem_cons_self ..) { t.mem a with keys := [], pointers := [] }
  obtain ⟨t', hrun, hpool, hbrk, hmem⟩ := hput.release
  refine ⟨_, t', modifyNode_runs ha, hrun, hpool, hbrk, fun x hx => ?_⟩
  have hne : x ≠ a := fun heq => (List.nodup_cons.mp h.nodup).1 (heq ▸ hx)
  rw [hmem x hx, Slab.put_mem_of_ne hne]

/-- A leaf gives all its pointers to `free`. -/
theorem leafPointers_runs (ha : a < t.brk) (h : LeafRecords (t.mem a)) (hleaf : (t.mem a).isLeaf = true) :
    Runs (Prog.loopUp (fun i freed => do return freed ++ [← getPtr a i]) 0 (t.mem a).numKeys []) t
      ((t.mem a).records.map .record) t := by
  have hloop := Runs.loopUp (g := fun i freed => do return freed ++ [← getPtr a i]) (l := 0) (n := (t.mem a).usedPointers.length)
    (B := fun j => (t.mem a).usedPointers.take j) (S := fun _ => t) fun j hj => ?_
  · rw [h.length, ← h.length, List.take_length, List.take_zero, h.length] at hloop
    rwa [← h.pointers]
  · have hget : (t.mem a).usedPointers[j]? = some (t.mem a).usedPointers[j] := List.getElem?_eq_getElem hj
    have hptr : (t.mem a).pointers[j]? = some (t.mem a).usedPointers[j] := by
      rw [← hget, Node.usedPointers, hleaf, if_pos rfl, List.getElem?_take, if_pos (h.length ▸ hj)]
    rw [Nat.zero_add, List.take_succ_eq_append_getElem hj]
    exact Runs.bind (getPtr_runs ha hptr) Runs.pure

/-! ### A tree -/

/-- What destroying the tree under `a` does, in any state that still has it. -/
def Destroyed (s : Slab Node) (height : Nat) (a : NodeId) : Prop :=
  ∀ (fuel : Nat) (t : Slab Node) (D : List NodeId), height < fuel → t.Pool (nodesFrom s height a ++ D) →
    (∀ x ∈ nodesFrom s height a, t.mem x = s.mem x) →
    ∃ t', Runs (destroyTreeNodes fuel a) t ((recordsFrom s height a).map .record) t' ∧ t'.Pool D ∧ t'.brk = t.brk ∧
      ∀ x ∈ D, t'.mem x = t.mem x

/-- The loop over the children of a node, from the child `i` on. -/
theorem children_destroyed {fuel : Nat} (hf : height < fuel) {cs : List NodeId} (hcs : ∀ c ∈ cs, Destroyed s height c) :
    ∀ {i : Nat} (freed : List Ptr) {t : Slab Node},
      (∀ j c, cs[j]? = some c → (s.mem a).pointers[i + j]? = some (.node c)) →
      t.Pool (cs.flatMap (nodesFrom s height) ++ a :: D) → (∀ x ∈ cs.flatMap (nodesFrom s height), t.mem x = s.mem x) →
      t.mem a = s.mem a →
      ∃ t', Runs (Prog.loopUp (fun i freed => do
          let p ← getPtr a i
          let c ← p.asNode
          return freed ++ (← destroyTreeNodes fuel c)) i cs.length freed) t
        (freed ++ (cs.flatMap (recordsFrom s height)).map .record) t' ∧ t'.Pool (a :: D) ∧ t'.brk = t.brk ∧
        ∀ x ∈ a :: D, t'.mem x = t.mem x := by
  induction cs with
  | nil =>
    intro i freed t _ hpool _ _
    exact ⟨t, (List.append_nil freed).symm ▸ Runs.pure, hpool, rfl, fun _ _ => rfl⟩
  | cons c cs ih =>
    intro i freed t hptr hpool hsame ha
    rw [List.flatMap_cons, List.append_assoc] at hpool
    rw [List.flatMap_cons] at hsame
    have hlt : a < t.brk := hpool.lt (by simp)
    have hc : (t.mem a).pointers[i]? = some (.node c) := ha ▸ hptr 0 c rfl
    obtain ⟨t₁, hrun, hpool₁, hbrk₁, hmem₁⟩ := hcs c (List.mem_cons_self ..) fuel t _ hf hpool
      fun x hx => hsame x (List.mem_append_left _ hx)
    obtain ⟨t', hrest, hpool', hbrk', hmem'⟩ := ih (fun x hx => hcs x (List.mem_cons_of_mem _ hx)) (i := i + 1)
      (freed ++ (recordsFrom s height c).map .record) (t := t₁)
      (fun j x hx => by
        have hnext := hptr (j + 1) x (by simpa using hx)
        rwa [← Nat.add_assoc, Nat.add_right_comm] at hnext)
      hpool₁ (fun x hx => (hmem₁ x (List.mem_append_left _ hx)).trans (hsame x (List.mem_append_right _ hx)))
      ((hmem₁ a (by simp)).trans ha)
    refine ⟨t', ?_, hpool', hbrk'.trans hbrk₁, fun x hx => (hmem' x hx).trans (hmem₁ x (List.mem_append_right _ hx))⟩
    rw [List.flatMap_cons, List.map_append, ← List.append_assoc]
    exact Runs.bind (Runs.bind (getPtr_runs hlt hc) (Runs.bind asNode_runs (Runs.bind hrun Runs.pure))) hrest

theorem destroyed : ∀ {height least : Nat} {p : Option NodeId} {a : NodeId}, ValidNode order s height least p a →
    (∀ l ∈ leavesFrom s height a, LeafRecords (s.mem l)) → Destroyed s height a
  | 0, _, _, a, h, hleaf => by
    intro fuel t D hf hpool hsame
    obtain ⟨fuel, rfl⟩ := Nat.exists_eq_succ_of_ne_zero (Nat.pos_iff_ne_zero.mp hf)
    have ha : a < t.brk := hpool.lt (List.mem_append_left _ (List.mem_cons_self ..))
    have hmem : t.mem a = s.mem a := hsame a (List.mem_cons_self ..)
    have hrecords : LeafRecords (t.mem a) := hmem ▸ hleaf a (List.mem_cons_self ..)
    have hisLeaf : (t.mem a).isLeaf = true := hmem ▸ h.isLeaf_zero
    obtain ⟨t₁, t', harrays, hnode, hpool', hbrk, hrest⟩ := releaseNode_runs hpool
    have hfreed : recordsFrom s 0 a = (t.mem a).records := by
      rw [hmem]
      exact List.append_nil _
    refine ⟨t', ?_, hpool', hbrk, hrest⟩
    rw [hfreed]
    refine Runs.bind (load_runs ha) (Runs.ite_pos hisLeaf (Runs.bind (leafPointers_runs ha hrecords hisLeaf) ?_))
    exact Runs.bind harrays (Runs.bind hnode Runs.pure)
  | height + 1, _, _, a, h, hleaf => by
    intro fuel t D hf hpool hsame
    obtain ⟨fuel, rfl⟩ := Nat.exists_eq_succ_of_ne_zero (Nat.pos_iff_ne_zero.mp (Nat.zero_lt_of_lt hf))
    have ha : a < t.brk := hpool.lt (List.mem_append_left _ (List.mem_cons_self ..))
    have hmem : t.mem a = s.mem a := hsame a (List.mem_cons_self ..)
    have hisLeaf : (t.mem a).isLeaf = false := hmem ▸ h.isLeaf_succ
    have hcs : ∀ c ∈ (s.mem a).children, Destroyed s height c := fun c hc =>
      destroyed (h.child hc) fun l hl => hleaf l (List.mem_flatMap.mpr ⟨c, hc, hl⟩)
    have hnodes : nodesFrom s (height + 1) a = a :: (s.mem a).children.flatMap (nodesFrom s height) := rfl
    rw [hnodes, List.cons_append] at hpool
    rw [hnodes] at hsame
    obtain ⟨t₁, hloop, hpool₁, hbrk₁, hmem₁⟩ := children_destroyed (a := a) (Nat.lt_of_succ_lt_succ hf) hcs (i := 0) []
      (fun j c hc => by rw [Nat.zero_add]; exact h.pointer hc)
      (hpool.perm List.perm_middle.symm) (fun x hx => hsame x (List.mem_cons_of_mem _ hx)) hmem
    obtain ⟨t₂, t', harrays, hnode, hpool', hbrk, hrest⟩ := releaseNode_runs hpool₁
    have hfreed : recordsFrom s (height + 1) a = (s.mem a).children.flatMap (recordsFrom s height) := by
      rw [recordsFrom, leavesFrom, List.flatMap_assoc]
      rfl
    refine ⟨t', ?_, hpool', hbrk.trans hbrk₁, fun x hx => (hrest x hx).trans (hmem₁ x (List.mem_cons_of_mem _ hx))⟩
    have hlen : (s.mem a).children.length = (t.mem a).numKeys + 1 := by
      rw [hmem]
      exact h.usedPointers.2
    rw [hlen, List.nil_append] at hloop
    rw [hfreed]
    refine Runs.bind (load_runs ha) (Runs.ite_neg (ne_true_of_eq_false hisLeaf) (Runs.bind hloop ?_))
    exact Runs.bind harrays (Runs.bind hnode Runs.pure)

/-! ### After a run -/

/-- All nodes come back to their pool, and no record does: the records are given to `free`, each once. -/
theorem TreeAt.destroyTree {st : State} {root : NodeId} (h : TreeAt order st height root) :
    ∃ t, Runs (destroyTree st.root) st.heap
        (none, (recordsFrom st.heap.nodes height root).map .record) { st.heap with nodes := t } ∧ t.Pool [] := by
  have hheight := height_lt_length h.valid
  have hfuel : height < st.heap.nodes.brk + 1 := by
    have := h.nodes.length_le
    omega
  have hpool := h.nodes
  rw [← List.append_nil (nodesFrom st.heap.nodes height root)] at hpool
  obtain ⟨t, hrun, hpool', -⟩ := destroyed h.valid h.leaves _ _ _ hfuel hpool fun _ _ => rfl
  refine ⟨t, ?_, hpool'⟩
  rw [h.rooted]
  exact Runs.bind (Runs.orFault rfl) (Runs.bind (onNodes_runs fuel_runs) (Runs.bind (onNodes_runs hrun) Runs.pure))

/-- What `destroy_tree` is for: afterwards every node and every record that was carved is on its free list, once. -/
def DestroysAll (st : State) : Prop :=
  ∃ freed h, Runs (destroyTree st.root) st.heap (none, freed) h ∧ h.nodes.Pool [] ∧ h.recs.Pool []

theorem not_destroysAll {st : State} (h : st.root = none ∨ ∃ height root, TreeAt order st height root) :
    ¬DestroysAll st := by
  rintro ⟨freed, h', hrun, -, hrecs⟩
  rcases h with hroot | ⟨height, root, htree⟩
  · -- The root is dereferenced.
    rw [hroot] at hrun
    cases hrun
  · obtain ⟨t, hrun', -⟩ := htree.destroyTree
    obtain ⟨-, rfl⟩ := hrun.det hrun'
    -- The records of the tree are still in use.
    obtain ⟨l, hl, hperm⟩ := htree.records
    obtain ⟨l', hl', hperm'⟩ := hrecs
    obtain rfl := hl.unique hl'
    have hlen := (hperm.trans hperm'.symm).length_eq
    rw [List.append_nil, List.length_append] at hlen
    have hpos := List.length_pos_of_ne_nil htree.nonempty
    omega

/-- No run leaves a state whose tree `destroy_tree` gives back. -/
theorem exec_not_destroysAll (horder : 3 ≤ order) (hbound : order < 2 ^ 64) (ops : List Op) :
    ∃ st, exec order ops = .ok st ∧ ¬DestroysAll st := by
  obtain ⟨st, hexec, h⟩ := exec_treeAt horder hbound ops
  exact ⟨st, hexec, not_destroysAll h⟩

theorem exec_not_destroysAll_four : ∃ st, exec 4 [.insert 1 10, .insert 2 20] = .ok st ∧ ¬DestroysAll st :=
  exec_not_destroysAll (by simp) (by simp) _

/-- One entry: its record is still in use. -/
theorem not_destroysAll_one : ∃ st, exec 4 [.insert 1 10] = .ok st ∧ st.root ≠ none ∧ ¬DestroysAll st := by
  obtain ⟨st, hexec, hroot⟩ := exec_insert_root
  obtain ⟨st', hexec', h⟩ := exec_treeAt (show 3 ≤ 4 by simp) (by simp) [.insert 1 10]
  obtain rfl := Except.ok.inj (hexec.symm.trans hexec')
  exact ⟨st, hexec, hroot, not_destroysAll h⟩

end NuKSM.BTree
