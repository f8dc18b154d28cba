import Mathlib.Data.List.Perm.Subperm
import NuKSM.Theorems.BTree.Search
import NuKSM.BTree.Print

/-! # The queue of `print_tree`

It is linked through the fields `next` of its nodes, like a list of free cells, and its operations write nothing else. -/

namespace NuKSM.BTree
open Slab

variable {s t u : Slab Node} {L L' Q : List NodeId} {q p : Option NodeId} {a x : NodeId}

/-! ### What the queue writes -/

/-- The memory differs in fields `next` of nodes of `L` only. -/
structure NextOnly (L : List NodeId) (s t : Slab Node) : Prop where
  brk : t.brk = s.brk
  free : t.free = s.free
  other : ∀ a ∉ L, t.mem a = s.mem a
  node : ∀ a, t.mem a = { s.mem a with next := (t.mem a).next }

namespace NextOnly

theorem trans (h : NextOnly L s t) (h' : NextOnly L t u) : NextOnly L s u where
  brk := h'.brk.trans h.brk
  free := h'.free.trans h.free
  other a ha := (h'.other a ha).trans (h.other a ha)
  node a := by rw [h'.node a, h.node a]

theorem mono (h : NextOnly L s t) (hsub : L ⊆ L') : NextOnly L' s t :=
  { h with other := fun a ha => h.other a fun hmem => ha (hsub hmem) }

theorem put (ha : a ∈ L) : NextOnly L s (s.put a { s.mem a with next := p }) where
  brk := rfl
  free := rfl
  other x hx := put_mem_of_ne fun heq => hx (heq ▸ ha)
  node x := by
    by_cases hx : x = a
    · rw [hx, put_mem_self]
    · rw [put_mem_of_ne hx]

variable (h : NextOnly L s t)
include h

theorem keys (a : NodeId) : (t.mem a).keys = (s.mem a).keys := by rw [h.node a]

theorem pointers (a : NodeId) : (t.mem a).pointers = (s.mem a).pointers := by rw [h.node a]

theorem parent (a : NodeId) : (t.mem a).parent = (s.mem a).parent := by rw [h.node a]

theorem isLeaf (a : NodeId) : (t.mem a).isLeaf = (s.mem a).isLeaf := by rw [h.node a]

theorem numKeys (a : NodeId) : (t.mem a).numKeys = (s.mem a).numKeys := by rw [h.node a]

end NextOnly

theorem linkNext_runs (ha : a < s.brk) : Runs (setNext a p) s () (s.put a { s.mem a with next := p }) := modifyNode_runs ha

/-! ### The queue -/

theorem queue_cons : FreeChain s q (a :: Q) ↔ q = some a ∧ FreeChain s (s.mem a).next Q := by
  constructor
  · rintro ⟨rfl, p, hp, hchain⟩
    obtain rfl : (s.mem a).next = p := Option.some.inj hp
    exact ⟨rfl, hchain⟩
  · rintro ⟨rfl, hchain⟩
    exact ⟨rfl, _, rfl, hchain⟩

/-- The queue with one more node behind its last one. -/
theorem queue_extend : ∀ {Q : List NodeId} {q : Option NodeId}, FreeChain s q (Q ++ [a]) →
    (∀ b ∈ Q, (t.mem b).next = (s.mem b).next) → (t.mem a).next = some x → (t.mem x).next = none →
    FreeChain t q (Q ++ [a, x])
  | [], q, h, _, ha, hx => by
    rw [List.nil_append, queue_cons] at h ⊢
    refine ⟨h.1, ?_⟩
    rw [ha, queue_cons, hx]
    exact ⟨rfl, rfl⟩
  | b :: Q, q, h, hsame, ha, hx => by
    rw [List.cons_append, queue_cons] at h ⊢
    refine ⟨h.1, ?_⟩
    rw [hsame b (List.mem_cons_self ..)]
    exact queue_extend h.2 (fun c hc => hsame c (List.mem_cons_of_mem _ hc)) ha hx

theorem lastQueued_runs : ∀ {Q : List NodeId} {head : NodeId} {fuel : Nat}, FreeChain s (some head) (Q ++ [a]) →
    (∀ b ∈ Q ++ [a], b < s.brk) → Q.length < fuel → Runs (lastQueued fuel head) s a s
  | _, _, 0, _, _, hf => absurd hf (Nat.not_lt_zero _)
  | [], head, fuel + 1, h, hlt, _ => by
    rw [List.nil_append, queue_cons] at h
    obtain ⟨hhead, hnext : (s.mem a).next = none⟩ := h
    obtain rfl := Option.some.inj hhead
    refine Runs.bind (load_runs (hlt head (by simp))) ?_
    rw [hnext]
    exact Runs.pure
  | b :: Q, head, fuel + 1, h, hlt, hf => by
    rw [List.cons_append, queue_cons] at h
    obtain ⟨hhead, hrest⟩ := h
    obtain rfl := Option.some.inj hhead
    obtain ⟨c, hc⟩ : ∃ c, (s.mem head).next = some c := by
      cases Q with
      | nil => exact ⟨a, (queue_cons.mp hrest).1⟩
      | cons c Q => exact ⟨c, (queue_cons.mp hrest).1⟩
    rw [hc] at hrest
    have hlast := lastQueued_runs hrest (fun y hy => hlt y (List.mem_cons_of_mem _ hy)) (Nat.lt_of_succ_lt_succ hf)
    refine Runs.bind (load_runs (hlt head (by simp))) ?_
    rw [hc]
    exact hlast

/-- Different nodes are at most as many as were carved. -/
theorem length_le_brk (hnodup : Q.Nodup) (hlt : ∀ b ∈ Q, b < s.brk) : Q.length ≤ s.brk := by
  have hsub : Q ⊆ List.range s.brk := fun b hb => List.mem_range.mpr (hlt b hb)
  simpa using (hnodup.subperm hsub).length_le

/-- `enqueue` puts a new node at the end. -/
theorem enqueue_runs (h : FreeChain s q Q) (hnodup : (Q ++ [x]).Nodup) (hlt : ∀ b ∈ Q ++ [x], b < s.brk) :
    ∃ q' t, Runs (enqueue q x) s q' t ∧ FreeChain t q' (Q ++ [x]) ∧ NextOnly (Q ++ [x]) s t := by
  have hx : x < s.brk := hlt x (by simp)
  rcases List.eq_nil_or_concat Q with rfl | ⟨Q, a, rfl⟩
  · obtain rfl : q = none := h
    refine ⟨some x, _, Runs.bind (linkNext_runs hx) Runs.pure, ?_, NextOnly.put (by simp)⟩
    rw [List.nil_append, queue_cons, put_mem_self]
    exact ⟨rfl, rfl⟩
  · rw [List.concat_eq_append] at h hnodup hlt ⊢
    obtain ⟨head, rfl⟩ : ∃ head, q = some head := by
      cases Q with
      | nil => exact ⟨a, (queue_cons.mp h).1⟩
      | cons b Q => exact ⟨b, (queue_cons.mp h).1⟩
    have ha : a < s.brk := hlt a (by simp)
    have hnodup' := hnodup
    rw [List.append_assoc, List.singleton_append] at hnodup' ⊢
    obtain ⟨-, hpair, hdisj⟩ := List.nodup_append.mp hnodup'
    have hax : a ≠ x := fun heq => (List.nodup_cons.mp hpair).1 (heq ▸ List.mem_singleton_self _)
    have hlen : Q.length < s.brk + 1 := by
      have := length_le_brk (List.Nodup.sublist (List.sublist_append_left Q [a, x]) hnodup') fun b hb => hlt b (by simp [hb])
      omega
    have hlast := lastQueued_runs h (fun b hb => hlt b (List.mem_append_left _ hb)) hlen
    have hlink : NextOnly (Q ++ [a, x]) s (s.put a { s.mem a with next := some x }) := NextOnly.put (by simp)
    have hend : NextOnly (Q ++ [a, x]) _ _ :=
      NextOnly.put (s := s.put a { s.mem a with next := some x }) (a := x) (p := none) (by simp)
    refine ⟨some head, _, ?_, ?_, hlink.trans hend⟩
    · exact Runs.bind fuel_runs (Runs.bind hlast (Runs.bind (linkNext_runs ha) (Runs.bind (linkNext_runs hx) Runs.pure)))
    · refine queue_extend h (fun b hb => ?_) ?_ (by rw [put_mem_self])
      · rw [put_mem_of_ne fun heq => hdisj b hb x (by simp) heq, put_mem_of_ne fun heq => hdisj b hb a (by simp) heq]
      · rw [put_mem_of_ne hax, put_mem_self]

/-- `dequeue` takes the first node. -/
theorem dequeue_runs (h : FreeChain s q (a :: Q)) (hnot : a ∉ Q) (ha : a < s.brk) :
    ∃ q' t, Runs (dequeue q) s (a, q') t ∧ FreeChain t q' Q ∧ NextOnly [a] s t := by
  obtain ⟨rfl, hchain⟩ := queue_cons.mp h
  refine ⟨(s.mem a).next, _, Runs.bind (Runs.orFault rfl) (Runs.bind (load_runs ha) (Runs.bind (linkNext_runs ha) Runs.pure)),
    ?_, NextOnly.put (List.mem_singleton_self a)⟩
  refine hchain.congr fun b hb => ?_
  have hne : b ≠ a := fun heq => hnot (heq ▸ hb)
  rw [put_mem_of_ne hne]

end NuKSM.BTree
