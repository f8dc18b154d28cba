import NuKSM.Theorems.BTree.Shape
import NuKSM.Theorems.BTree.Refine

/-! The chain of leaves: the walks of `print_leaves` and `find_range` along it. -/

namespace NuKSM.BTree
open BPlus

variable {order : Nat} {s : Slab Node} {key : Key}

theorem LeafAt.nextRuns {l : BptLeaf} (h : LeafAt order s l) {α : Type} {f : Option NodeId → NodeProg α} {a : α}
    (hf : Runs (f l.next) s a s) : Runs (do let p ← getPtr l.id (order - 1); let next ← p.next; f next) s a s := by
  obtain ⟨ha, q, hm⟩ := h
  refine Runs.bind (getPtr_runs ha (hm.next _ _ rfl)) (Runs.bind ?_ hf)
  cases l.next <;> exact Runs.pure

/-- The descent along the first pointers ends at the first leaf. -/
theorem leftmost_runs : ∀ {d fuel : Nat} {t : BptTree d} {p : Option NodeId}, d < fuel → Stores order s p t →
    ∃ l ls, leaves t.fringe = l :: ls ∧ Runs (leftmost fuel t.id) s l.id s
  | _, 0, _, _, hf, _ => absurd hf (Nat.not_lt_zero _)
  | 0, fuel + 1, t, p, _, h => ⟨t.toLeaf, [], rfl, Runs.bind (load_runs h.root.1) (Runs.ite_pos h.root.2.isLeaf Runs.pure)⟩
  | d + 1, fuel + 1, t, p, hf, h => by
    obtain ⟨ha, hm⟩ := h.root
    have hfirst : t.toBranch.first ∈ t.toBranch.children := List.mem_cons_self ..
    obtain ⟨l, ls, hleaves, hrun⟩ := leftmost_runs (Nat.lt_of_succ_lt_succ hf) (h.child hfirst)
    have hrow := leaves_branch (b := t.toBranch)
    rw [Branch.children, List.flatMap_cons, hleaves, List.cons_append] at hrow
    refine ⟨l, _, hrow, Runs.bind (load_runs ha) (Runs.ite_neg (ne_true_of_eq_false hm.isLeaf) ?_)⟩
    exact Runs.bind (getPtr_runs ha (h.pointer (i := 0) rfl)) (Runs.bind asNode_runs hrun)

/-- The keys of a leaf, as `print_leaves` prints them. -/
theorem leafKeys_runs {l : BptLeaf} (h : LeafAt order s l) :
    Runs (Prog.loopUp (fun i keys => do return keys ++ [← getKey l.id i]) 0 (s.mem l.id).numKeys []) s
      (l.entries.map Prod.fst) s := by
  obtain ⟨ha, q, hm⟩ := h
  rw [hm.numKeys]
  exact collectKeys_runs ha hm.keys

/-- The walk along the chain passes its leaves in order. -/
theorem walkLeaves_runs : ∀ {ls : List BptLeaf} {l : BptLeaf} {fuel : Nat}, ls.length < fuel → Linked (l :: ls) none →
    (∀ x ∈ l :: ls, LeafAt order s x) →
    Runs (walkLeaves order fuel l.id) s ((l :: ls).map fun x => (x.id, x.entries.map Prod.fst)) s
  | _, _, 0, hf, _, _ => absurd hf (Nat.not_lt_zero _)
  | ls, l, fuel + 1, hf, ⟨hnext, hlinked⟩, h => by
    have hl := h l (List.mem_cons_self ..)
    refine Runs.bind (load_runs hl.1) (Runs.bind (leafKeys_runs hl) ?_)
    cases ls with
    | nil =>
      refine hl.nextRuns ?_
      rw [hnext]
      exact Runs.pure
    | cons l' ls =>
      have hrest := walkLeaves_runs (Nat.lt_of_succ_lt_succ hf) hlinked fun x hx => h x (List.mem_cons_of_mem _ hx)
      refine hl.nextRuns ?_
      rw [hnext]
      exact Runs.bind hrest Runs.pure

/-- A stored tree has fewer leaves than nodes were carved, or as many. -/
theorem length_leaves_le {d : Nat} {t : BptTree d} {D : List NodeId} (h : Holds order s (t.cells none) D) :
    (leaves t.fringe).length ≤ s.brk := by
  have hlen := (Tree.leaves_sublist (t := t) (p := none)).length_le
  rw [List.length_map, List.length_map] at hlen
  exact hlen.trans h.length_le

/-- `print_leaves` passes each leaf once, from left to right, and the keys it prints are those of the map, in order. -/
theorem exec_chain (horder : 3 ≤ order) (hbound : order < 2 ^ 64) (ops : List Op) : ∃ st walk, exec order ops = .ok st ∧
    Runs (printLeaves order st.root) st.heap.nodes walk st.heap.nodes ∧
    (match st.root with
      | none => walk = []
      | some root => ∃ height, ValidNode order st.heap.nodes height 1 none root ∧
          walk = (leavesFrom st.heap.nodes height root).map fun l => (l, (st.heap.nodes.mem l).usedKeys)) ∧
    (walk.map Prod.fst).Nodup ∧ (walk.flatMap Prod.snd).Pairwise (· < ·) ∧
    ∀ key, key ∈ walk.flatMap Prod.snd ↔ ∃ r, Finds st key (some r) := by
  obtain ⟨st, hexec, T, es, hinv, -⟩ := exec_runs horder hbound ops
  have hkeys : ((entries T.fringe).map Prod.fst).Pairwise (· < ·) := List.pairwise_map.mpr hinv.good.ordered.entries
  have hfound := fun key => hinv.mem_keys (k := key)
  cases T with
  | none =>
    refine ⟨st, [], hexec, ?_, ?_, List.nodup_nil, List.Pairwise.nil, hfound⟩
    · rw [hinv.root]
      exact Runs.pure
    · rw [hinv.root]
      rfl
  | some t =>
    obtain ⟨hroot, hstores⟩ := hinv.stores
    have hholds : Holds order st.heap.nodes (t.2.cells none) [] := hinv.kept.holds
    have hd : t.1 < st.heap.nodes.brk := Holds.lt_brk (L := []) (t := t.2) (p := none) (by
      rw [List.append_nil]
      exact hholds)
    obtain ⟨l, ls, hleaves, hleft⟩ := leftmost_runs (Nat.lt_succ_of_lt hd) hstores
    have hlen := length_leaves_le hholds
    have hlinked : Linked (leaves t.2.fringe) none := hinv.good.linked
    have hleaf := hstores.leaf
    rw [hleaves] at hlen hlinked hleaf
    have hwalk := walkLeaves_runs (Nat.lt_succ_of_lt hlen) hlinked hleaf
    have hentries : ((l :: ls).map fun x => (x.id, x.entries.map Prod.fst)).flatMap Prod.snd =
        (entries t.2.fringe).map Prod.fst := by
      rw [entries_eq_leaves, hleaves, List.flatMap_map, List.map_flatMap]
    refine ⟨st, (l :: ls).map fun x => (x.id, x.entries.map Prod.fst), hexec, ?_, ?_, ?_, ?_, ?_⟩
    · rw [hroot]
      exact Runs.bind fuel_runs (Runs.bind hleft hwalk)
    · rw [hroot]
      refine ⟨t.1, hstores.valid (hinv.kept.rooted t rfl) hinv.good.ordered, ?_⟩
      rw [hstores.leavesFrom_eq, hleaves, List.map_map]
      refine List.map_congr_left fun x hx => ?_
      obtain ⟨-, q, hm⟩ := hleaf x hx
      exact congrArg _ (usedKeys_eq hm).symm
    · have hids := Tree.leaves_sublist (t := t.2) (p := none)
      rw [hleaves] at hids
      rw [List.map_map]
      exact hids.nodup hholds.nodup
    · rw [hentries]
      exact hkeys
    · rw [hentries]
      exact hfound

theorem exec_chain_four : ∃ st walk, exec 4 [.insert 1 10, .insert 2 20, .delete 1] = .ok st ∧
    Runs (printLeaves 4 st.root) st.heap.nodes walk st.heap.nodes ∧
    (match st.root with
      | none => walk = []
      | some root => ∃ height, ValidNode 4 st.heap.nodes height 1 none root ∧
          walk = (leavesFrom st.heap.nodes height root).map fun l => (l, (st.heap.nodes.mem l).usedKeys)) ∧
    (walk.map Prod.fst).Nodup ∧ (walk.flatMap Prod.snd).Pairwise (· < ·) ∧
    ∀ key, key ∈ walk.flatMap Prod.snd ↔ ∃ r, Finds st key (some r) :=
  exec_chain (by decide) (by decide) _

end NuKSM.BTree
