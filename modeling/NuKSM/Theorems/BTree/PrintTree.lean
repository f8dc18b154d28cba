import NuKSM.Theorems.BTree.Queue
import NuKSM.Theorems.BTree.Walk

/-! # What `print_tree` prints

The queue holds the rest of one rank and behind it the children of what was printed of that rank. The first node of a
rank is the first child of the first node above it, so the new line comes there, and nowhere else. -/

namespace NuKSM.BTree
open Slab

variable {order height least d : Nat} {s t : Slab Node} {p q : Option NodeId} {a n root : NodeId} {L Q : List NodeId}

/-! ### Ranks -/

/-- The nodes so far below `a`, from left to right. -/
def rankFrom (s : Slab Node) : (depth : Nat) → NodeId → List NodeId
  | 0, a => [a]
  | depth + 1, a => (s.mem a).children.flatMap (rankFrom s depth)

/-- The children of the nodes of a rank are the next rank. -/
theorem rankFrom_succ : ∀ (d : Nat) (a : NodeId),
    rankFrom s (d + 1) a = (rankFrom s d a).flatMap fun x => (s.mem x).children
  | 0, a => by
    rw [rankFrom, rankFrom, List.flatMap_singleton]
    exact List.flatMap_singleton' _
  | d + 1, _ => by
    rw [rankFrom, rankFrom, List.flatMap_assoc]
    exact List.flatMap_congr fun c _ => rankFrom_succ d c

theorem leavesFrom_eq_rankFrom : ∀ (h : Nat) (a : NodeId), leavesFrom s h a = rankFrom s h a
  | 0, _ => rfl
  | h + 1, _ => List.flatMap_congr fun c _ => leavesFrom_eq_rankFrom h c

/-- So many ranks from the rank `d` on, and the one behind them. -/
def ranksFrom (s : Slab Node) (a : NodeId) : (count d : Nat) → List NodeId
  | 0, d => rankFrom s d a
  | count + 1, d => rankFrom s d a ++ ranksFrom s a count (d + 1)

theorem rankFrom_sublist : ∀ {k : Nat}, (rankFrom s d a).Sublist (ranksFrom s a k d)
  | 0 => List.Sublist.refl _
  | _ + 1 => List.sublist_append_left _ _

theorem ranksFrom_child : ∀ (k d : Nat) (a : NodeId),
    (ranksFrom s a k (d + 1)).Perm ((s.mem a).children.flatMap fun c => ranksFrom s c k d)
  | 0, _, _ => List.Perm.refl _
  | k + 1, d, a => by
    refine ((ranksFrom_child k (d + 1) a).append_left _).trans ?_
    exact List.flatMap_append_perm _ _ _

/-- The ranks have just the nodes of the tree. -/
theorem ranksFrom_perm : ∀ (h : Nat) (a : NodeId), (ranksFrom s a h 0).Perm (nodesFrom s h a)
  | 0, _ => List.Perm.refl _
  | h + 1, a => by
    refine List.Perm.cons a ((ranksFrom_child h 0 a).trans ?_)
    exact List.Perm.flatMap_left _ fun c _ => ranksFrom_perm h c

/-- A node of a rank is the root of a valid tree of the height that is left. -/
theorem ValidNode.rank : ∀ {d height least : Nat} {p : Option NodeId} {a : NodeId}, ValidNode order s height least p a →
    d ≤ height → ∀ x ∈ rankFrom s d a, ∃ least' p', ValidNode order s (height - d) least' p' x
  | 0, _, _, _, a, h, _, x, hx => by
    obtain rfl := List.mem_singleton.mp hx
    exact ⟨_, _, h⟩
  | d + 1, height + 1, _, _, a, h, hd, x, hx => by
    obtain ⟨c, hc, hx⟩ := List.mem_flatMap.mp hx
    rw [Nat.add_sub_add_right]
    exact (h.child hc).rank (Nat.le_of_succ_le_succ hd) x hx

theorem rankFrom_subset : ∀ {d h : Nat} {a : NodeId}, d ≤ h → rankFrom s d a ⊆ nodesFrom s h a
  | 0, 0, _, _ => List.Subset.refl _
  | 0, _ + 1, _, _ => fun _ hx => List.mem_singleton.mp hx ▸ List.mem_cons_self ..
  | d + 1, h + 1, a, hd => fun x hx => by
    obtain ⟨c, hc, hx⟩ := List.mem_flatMap.mp hx
    exact List.mem_cons_of_mem _ (List.mem_flatMap.mpr ⟨c, hc, rankFrom_subset (Nat.le_of_succ_le_succ hd) hx⟩)

/-! ### One node -/

/-- What printing a node and going on to its children reads of it. -/
structure Printable (n : Node) : Prop where
  keys : n.usedKeys.length = n.numKeys
  leaf : n.isLeaf = true → n.children = []
  inner : n.isLeaf = false → n.children.length = n.numKeys + 1
  pointers : ∀ (i : Nat) (c : NodeId), n.children[i]? = some c → n.pointers[i]? = some (Ptr.node c)

/-- What stands for a node in the output. -/
def nodeToken (s : Slab Node) (n : NodeId) : Token := .node n (s.mem n).usedKeys

theorem usedKeys_runs (hsame : NextOnly L s t) (hn : n < t.brk) (h : Printable (s.mem n)) :
    Runs (Prog.loopUp (fun i keys => do return keys ++ [← getKey n i]) 0 (t.mem n).numKeys []) t (s.mem n).usedKeys t := by
  rw [hsame.numKeys, ← h.keys]
  exact collectKeys_runs hn (hsame.keys n ▸ List.take_prefix _ _)

/-- The loop over the children, from the child `i` on. -/
theorem enqueueLoop_runs : ∀ {cs : List NodeId} {i : Nat} {Q : List NodeId} {q : Option NodeId} {t : Slab Node},
    NextOnly L s t → FreeChain t q Q → (∀ j c, cs[j]? = some c → (s.mem n).pointers[i + j]? = some (.node c)) →
    (Q ++ cs).Nodup → Q ++ cs ⊆ L → n < s.brk → (∀ b ∈ L, b < s.brk) →
    ∃ q' t', Runs (Prog.loopUp (fun i queue => do
        let p ← getPtr n i
        let c ← p.asNode
        enqueue queue c) i cs.length q) t q' t' ∧ FreeChain t' q' (Q ++ cs) ∧ NextOnly L s t'
  | [], i, Q, q, t, hsame, hchain, _, _, _, _, _ => by
    rw [List.append_nil]
    exact ⟨q, t, Runs.pure, hchain, hsame⟩
  | c :: cs, i, Q, q, t, hsame, hchain, hptr, hnodup, hsub, hn, hlt => by
    have happend : Q ++ c :: cs = (Q ++ [c]) ++ cs := by simp
    rw [happend] at hnodup hsub ⊢
    have hptr₀ : (t.mem n).pointers[i]? = some (.node c) := hsame.pointers n ▸ hptr 0 c rfl
    have hsub₁ : Q ++ [c] ⊆ L := fun b hb => hsub (List.mem_append_left _ hb)
    obtain ⟨q₁, t₁, hrun, hchain₁, hsame₁⟩ := enqueue_runs hchain (List.Nodup.sublist (List.sublist_append_left _ _) hnodup)
      fun b hb => hsame.brk ▸ hlt b (hsub₁ hb)
    obtain ⟨q', t', hrest, hchain', hsame'⟩ := enqueueLoop_runs (i := i + 1) (hsame.trans (hsame₁.mono hsub₁)) hchain₁
      (fun j x hx => by
        have hnext := hptr (j + 1) x (by simpa using hx)
        rwa [← Nat.add_assoc, Nat.add_right_comm] at hnext)
      hnodup hsub hn hlt
    refine ⟨q', t', ?_, hchain', hsame'⟩
    have hlt' : n < t.brk := hsame.brk ▸ hn
    exact Runs.bind (Runs.bind (getPtr_runs hlt' hptr₀) (Runs.bind asNode_runs hrun)) hrest

/-- A round of the loop: the node at the front is printed, on a line of its own rank, and its children join the queue. -/
theorem visit_runs {rank' : Nat} (rank : Nat) (out : List Token) (hprint : Printable (s.mem n)) (hsame : NextOnly L s t)
    (hchain : FreeChain t q (n :: Q)) (hnodup : (n :: (Q ++ (s.mem n).children)).Nodup)
    (hsub : n :: (Q ++ (s.mem n).children) ⊆ L) (hlt : ∀ b ∈ L, b < s.brk)
    (hrank : ∀ u, NextOnly L s u → Runs (newRank root rank n) u rank' u) :
    ∃ q' t', FreeChain t' q' (Q ++ (s.mem n).children) ∧ NextOnly L s t' ∧ ∀ fuel r u,
      Runs (printTreeLoop root fuel q' rank'
        ((if rank' ≠ rank then out ++ [.newline] else out) ++ [nodeToken s n])) t' r u →
      Runs (printTreeLoop root (fuel + 1) q rank out) t r u := by
  obtain ⟨hnot, hnodup'⟩ := List.nodup_cons.mp hnodup
  have hn : n < s.brk := hlt n (hsub (List.mem_cons_self ..))
  have hsub' : Q ++ (s.mem n).children ⊆ L := fun b hb => hsub (List.mem_cons_of_mem _ hb)
  obtain ⟨rfl, -⟩ := queue_cons.mp hchain
  obtain ⟨q₁, t₁, hdequeue, hchain₁, hsame₁⟩ := dequeue_runs hchain (fun hmem => hnot (List.mem_append_left _ hmem)) (hsame.brk ▸ hn)
  have hsame₁ : NextOnly L s t₁ := hsame.trans (hsame₁.mono fun b hb => hsub (List.mem_singleton.mp hb ▸ List.mem_cons_self ..))
  have hlt₁ : n < t₁.brk := hsame₁.brk ▸ hn
  obtain ⟨q', t', hloop, hchain', hsame'⟩ := enqueueLoop_runs (i := 0) hsame₁ hchain₁
    (fun j c hc => by rw [Nat.zero_add]; exact hprint.pointers j c hc) hnodup' hsub' hn hlt
  cases hisLeaf : (s.mem n).isLeaf with
  | true =>
    rw [hprint.leaf hisLeaf, List.append_nil]
    refine ⟨q₁, t₁, hchain₁, hsame₁, fun fuel r u hrest => ?_⟩
    refine Runs.bind hdequeue (Runs.bind (hrank t₁ hsame₁) ?_)
    refine Runs.bind (load_runs hlt₁) (Runs.bind (usedKeys_runs hsame₁ hlt₁ hprint) ?_)
    exact Runs.ite_pos ((hsame₁.isLeaf n).trans hisLeaf) (Runs.bind Runs.pure hrest)
  | false =>
    refine ⟨q', t', hchain', hsame', fun fuel r u hrest => ?_⟩
    rw [hprint.inner hisLeaf, ← hsame₁.numKeys] at hloop
    refine Runs.bind hdequeue (Runs.bind (hrank t₁ hsame₁) ?_)
    refine Runs.bind (load_runs hlt₁) (Runs.bind (usedKeys_runs hsame₁ hlt₁ hprint) ?_)
    exact Runs.ite_neg (ne_true_of_eq_false ((hsame₁.isLeaf n).trans hisLeaf)) (Runs.bind hloop hrest)

/-! ### The rank of a node -/

namespace TreeAt
variable {st : State} {x y : NodeId} (h : TreeAt order st height root)
include h

theorem rank_lt (hd : d ≤ height) (hx : x ∈ rankFrom st.heap.nodes d root) : x < st.heap.nodes.brk :=
  h.nodes.lt (rankFrom_subset hd hx)

theorem printable (hd : d ≤ height) (hx : x ∈ rankFrom st.heap.nodes d root) : Printable (st.heap.nodes.mem x) := by
  obtain ⟨least', p', hvalid⟩ := h.valid.rank hd x hx
  obtain ⟨k, hk⟩ : ∃ k, height - d = k := ⟨_, rfl⟩
  rw [hk] at hvalid
  cases k with
  | zero =>
    obtain rfl : d = height := by omega
    have hrecords := h.leaves x (leavesFrom_eq_rankFrom d root ▸ hx)
    have hnone : (st.heap.nodes.mem x).children = [] := by
      rw [Node.children, hrecords.pointers, List.filterMap_map]
      exact List.filterMap_eq_nil_iff.mpr fun _ _ => rfl
    refine ⟨hvalid.validKeys.length, fun _ => hnone, fun hleaf => ?_, fun i c hc => ?_⟩
    · rw [hvalid.isLeaf_zero] at hleaf
      cases hleaf
    · rw [hnone] at hc
      cases hc
  | succ k =>
    refine ⟨hvalid.validKeys.length, fun hleaf => ?_, fun _ => hvalid.usedPointers.2, fun i c hc => hvalid.pointer hc⟩
    rw [hvalid.isLeaf_succ] at hleaf
    cases hleaf

/-- A node of a rank that is not the last one: its children, and their parent. -/
theorem rank_inner (hd : d + 1 ≤ height) (hy : y ∈ rankFrom st.heap.nodes d root) :
    (∃ c cs, (st.heap.nodes.mem y).children = c :: cs ∧ (st.heap.nodes.mem y).pointers[0]? = some (.node c)) ∧
      ∀ x ∈ (st.heap.nodes.mem y).children, (st.heap.nodes.mem x).parent = some y := by
  obtain ⟨least', p', hvalid⟩ := h.valid.rank (Nat.le_of_succ_le hd) y hy
  obtain ⟨k, hk⟩ : ∃ k, height - d = k + 1 := ⟨height - d - 1, by omega⟩
  rw [hk] at hvalid
  obtain ⟨c, cs, hcs⟩ := List.exists_cons_of_length_eq_add_one hvalid.usedPointers.2
  refine ⟨⟨c, cs, hcs, hvalid.pointer (by rw [hcs]; rfl)⟩, fun x hx => (hvalid.child hx).validKeys.parent⟩

/-- Each rank of the tree has a node. -/
theorem rank_ne_nil : ∀ {d : Nat}, d ≤ height → rankFrom st.heap.nodes d root ≠ []
  | 0, _ => List.cons_ne_nil _ _
  | d + 1, hd => by
    obtain ⟨y, Y, hY⟩ := List.exists_cons_of_ne_nil (rank_ne_nil (Nat.le_of_succ_le hd))
    obtain ⟨⟨c, cs, hcs, -⟩, -⟩ := h.rank_inner hd (hY ▸ List.mem_cons_self ..)
    rw [rankFrom_succ, hY, List.flatMap_cons, hcs]
    exact List.cons_ne_nil _ _

theorem pathToRoot_runs (hsame : NextOnly L st.heap.nodes t) : ∀ {d fuel : Nat} {x : NodeId}, d < fuel → d ≤ height →
    x ∈ rankFrom st.heap.nodes d root → Runs (pathToRoot root fuel x) t d t
  | _, 0, _, hf, _, _ => absurd hf (Nat.not_lt_zero _)
  | 0, fuel + 1, x, _, _, hx => Runs.ite_pos (List.mem_singleton.mp hx) Runs.pure
  | d + 1, fuel + 1, x, hf, hd, hx => by
    have hlt : x < t.brk := hsame.brk ▸ h.rank_lt hd hx
    rw [rankFrom_succ] at hx
    obtain ⟨y, hy, hx⟩ := List.mem_flatMap.mp hx
    have hparent := (h.rank_inner hd hy).2 x hx
    have hne : x ≠ root := by
      rintro rfl
      rw [h.valid.validKeys.parent] at hparent
      cases hparent
    have hpath := pathToRoot_runs hsame (Nat.lt_of_succ_lt_succ hf) (Nat.le_of_succ_le hd) hy
    refine Runs.ite_neg hne (Runs.bind (load_runs hlt) (Runs.bind (Runs.orFault ?_) (Runs.bind hpath Runs.pure)))
    rw [hsame.parent, hparent]

theorem isFirstChild_runs (hsame : NextOnly L st.heap.nodes t) (hd : d + 1 ≤ height)
    (hy : y ∈ rankFrom st.heap.nodes d root) (hx : x ∈ (st.heap.nodes.mem y).children) :
    ∃ b, Runs (isFirstChild x) t b t ∧ ∀ cs, (st.heap.nodes.mem y).children = x :: cs → b = true := by
  obtain ⟨⟨c, cs, hcs, hptr⟩, hparent⟩ := h.rank_inner hd hy
  have hxrank : x ∈ rankFrom st.heap.nodes (d + 1) root := rankFrom_succ d root ▸ List.mem_flatMap.mpr ⟨y, hy, hx⟩
  have hxlt : x < t.brk := hsame.brk ▸ h.rank_lt hd hxrank
  have hylt : y < t.brk := hsame.brk ▸ h.rank_lt (Nat.le_of_succ_le hd) hy
  refine ⟨decide (Ptr.node c = .node x), ?_, fun cs' hcs' => ?_⟩
  · refine Runs.bind (load_runs hxlt) ?_
    rw [hsame.parent, hparent x hx]
    exact Runs.bind (getPtr_runs hylt (hsame.pointers y ▸ hptr)) Runs.pure
  · rw [hcs] at hcs'
    simpa using (List.cons.inj hcs').1

/-- The rank after a node: its own, if the loop was there already or the node is the first one of its rank. -/
theorem newRank_runs (hsame : NextOnly L st.heap.nodes t) {rank : Nat} (hd : d ≤ height)
    (hx : x ∈ rankFrom st.heap.nodes d root)
    (hrank : rank = d ∨ d ≠ 0 ∧ ∃ X, rankFrom st.heap.nodes d root = x :: X) : Runs (newRank root rank x) t d t := by
  have hheight : height < t.brk + 1 := by
    have hlen := height_lt_length h.valid
    have hle := h.nodes.length_le
    rw [hsame.brk]
    omega
  have hpath : Runs (pathToRoot root (t.brk + 1) x) t d t := h.pathToRoot_runs hsame (by omega) hd hx
  cases d with
  | zero =>
    obtain rfl := List.mem_singleton.mp hx
    obtain rfl : rank = 0 := hrank.resolve_right fun hhead => hhead.1 rfl
    have hlt : x < t.brk := hsame.brk ▸ h.rank_lt hd hx
    have hfirst : Runs (isFirstChild x) t false t := by
      refine Runs.bind (load_runs hlt) ?_
      rw [hsame.parent, h.valid.validKeys.parent]
      exact Runs.pure
    exact Runs.bind hfirst (Runs.ite_neg Bool.false_ne_true Runs.pure)
  | succ d =>
    obtain ⟨y, hy, hxy, hhead⟩ : ∃ y ∈ rankFrom st.heap.nodes d root, x ∈ (st.heap.nodes.mem y).children ∧
        (rank = d + 1 ∨ ∃ cs, (st.heap.nodes.mem y).children = x :: cs) := by
      rcases hrank with hrank | ⟨-, X, hX⟩
      · rw [rankFrom_succ] at hx
        obtain ⟨y, hy, hxy⟩ := List.mem_flatMap.mp hx
        exact ⟨y, hy, hxy, Or.inl hrank⟩
      · obtain ⟨y, Y, hY⟩ := List.exists_cons_of_ne_nil (h.rank_ne_nil (Nat.le_of_succ_le hd))
        have hy : y ∈ rankFrom st.heap.nodes d root := hY ▸ List.mem_cons_self ..
        obtain ⟨⟨c, cs, hcs, -⟩, -⟩ := h.rank_inner hd hy
        rw [rankFrom_succ, hY, List.flatMap_cons, hcs] at hX
        obtain rfl := (List.cons.inj hX).1
        exact ⟨y, hy, hcs ▸ List.mem_cons_self .., Or.inr ⟨cs, hcs⟩⟩
    obtain ⟨b, hfirst, hb⟩ := h.isFirstChild_runs hsame hd hy hxy
    refine Runs.bind hfirst ?_
    cases b with
    | true => exact Runs.ite_pos rfl (Runs.bind fuel_runs hpath)
    | false =>
      obtain rfl := hhead.resolve_right fun ⟨cs, hcs⟩ => Bool.false_ne_true (hb cs hcs)
      exact Runs.ite_neg Bool.false_ne_true Runs.pure

/-! ### The loop -/

/-- The rest of a rank, after its first node has put the loop on its line: `Y` are the children of what was printed. -/
theorem rank_runs {S : Slab Node} (hS : st.heap.nodes = S) (hd : d ≤ height) : ∀ {X Y : List NodeId} {q : Option NodeId}
    {t : Slab Node} (out : List Token), X ⊆ rankFrom S d root → NextOnly (nodesFrom S height root) S t →
    FreeChain t q (X ++ Y) → (X ++ (Y ++ X.flatMap fun x => (S.mem x).children)).Nodup →
    X ++ (Y ++ X.flatMap fun x => (S.mem x).children) ⊆ nodesFrom S height root →
    ∃ q' t', FreeChain t' q' (Y ++ X.flatMap fun x => (S.mem x).children) ∧
      NextOnly (nodesFrom S height root) S t' ∧ ∀ fuel r u,
        Runs (printTreeLoop root fuel q' d (out ++ X.map (nodeToken S))) t' r u →
        Runs (printTreeLoop root (fuel + X.length) q d out) t r u
  | [], Y, q, t, out, _, hsame, hchain, _, _ => by
    refine ⟨q, t, by simpa using hchain, hsame, fun fuel r u hrest => ?_⟩
    rwa [List.map_nil, List.append_nil] at hrest
  | x :: X, Y, q, t, out, hsub, hsame, hchain, hnodup, hmem => by
    subst hS
    have hx := hsub (List.mem_cons_self ..)
    have hswap : x :: X ++ (Y ++ (x :: X).flatMap fun x => (st.heap.nodes.mem x).children)
        = x :: (X ++ ((Y ++ (st.heap.nodes.mem x).children) ++ X.flatMap fun x => (st.heap.nodes.mem x).children)) := by
      simp
    rw [hswap] at hnodup hmem
    have hpre : (x :: (X ++ (Y ++ (st.heap.nodes.mem x).children))).Sublist
        (x :: (X ++ ((Y ++ (st.heap.nodes.mem x).children) ++ X.flatMap fun x => (st.heap.nodes.mem x).children))) :=
      ((List.sublist_append_left _ _).append_left X).cons_cons x
    have hassoc : X ++ Y ++ (st.heap.nodes.mem x).children = X ++ (Y ++ (st.heap.nodes.mem x).children) :=
      List.append_assoc ..
    obtain ⟨q₁, t₁, hchain₁, hsame₁, hvisit⟩ := visit_runs d out (Q := X ++ Y)
      (h.printable hd hx) hsame hchain (hassoc ▸ hnodup.sublist hpre) (hassoc ▸ fun b hb => hmem (hpre.subset hb))
      (fun b hb => h.nodes.lt hb) fun u hu => h.newRank_runs hu hd hx (Or.inl rfl)
    rw [hassoc] at hchain₁
    obtain ⟨q', t', hchain', hsame', hrest⟩ := rank_runs rfl hd (out ++ [nodeToken st.heap.nodes x])
      (fun b hb => hsub (List.mem_cons_of_mem _ hb)) hsame₁ hchain₁ (List.nodup_cons.mp hnodup).2
      (fun b hb => hmem (List.mem_cons_of_mem _ hb))
    refine ⟨q', t', ?_, hsame', fun fuel r u hr => ?_⟩
    · rwa [List.flatMap_cons, ← List.append_assoc]
    · rw [List.length_cons, ← Nat.add_assoc]
      refine hvisit _ _ _ ?_
      rw [if_neg (by simp)]
      refine hrest _ _ _ ?_
      rwa [List.append_assoc, List.singleton_append, ← List.map_cons]

/-- The ranks from `d` on, each but the first on a new line. -/
def rankLines (s : Slab Node) (root : NodeId) : (count d : Nat) → List Token
  | 0, d => (rankFrom s d root).map (nodeToken s)
  | count + 1, d => (rankFrom s d root).map (nodeToken s) ++ .newline :: rankLines s root count (d + 1)

/-- There is no rank behind the leaves. -/
theorem rank_last : rankFrom st.heap.nodes (height + 1) root = [] := by
  rw [rankFrom_succ]
  refine List.flatMap_eq_nil_iff.mpr fun x hx => (h.printable le_rfl hx).leaf ?_
  obtain ⟨least', p', hvalid⟩ := h.valid.rank le_rfl x hx
  rw [Nat.sub_self] at hvalid
  exact hvalid.isLeaf_zero

/-- Once through the queue: it goes from one rank to the next. -/
theorem rank_to_next {rank : Nat} (out : List Token) (hd : d ≤ height) (hrank : rank = d ∨ rank < d)
    (hsame : NextOnly (nodesFrom st.heap.nodes height root) st.heap.nodes t)
    (hchain : FreeChain t q (rankFrom st.heap.nodes d root))
    (hnodup : (rankFrom st.heap.nodes d root ++ rankFrom st.heap.nodes (d + 1) root).Nodup)
    (hmem : rankFrom st.heap.nodes d root ++ rankFrom st.heap.nodes (d + 1) root ⊆ nodesFrom st.heap.nodes height root) :
    ∃ q' t', FreeChain t' q' (rankFrom st.heap.nodes (d + 1) root) ∧
      NextOnly (nodesFrom st.heap.nodes height root) st.heap.nodes t' ∧ ∀ fuel r u,
        Runs (printTreeLoop root fuel q' d
          ((if d ≠ rank then out ++ [.newline] else out) ++ (rankFrom st.heap.nodes d root).map (nodeToken st.heap.nodes))) t' r u →
        Runs (printTreeLoop root (fuel + (rankFrom st.heap.nodes d root).length) q rank out) t r u := by
  rw [rankFrom_succ] at hnodup hmem ⊢
  obtain ⟨x, X, hX⟩ := List.exists_cons_of_ne_nil (h.rank_ne_nil hd)
  have hx : x ∈ rankFrom st.heap.nodes d root := hX ▸ List.mem_cons_self ..
  have hhead : rank = d ∨ d ≠ 0 ∧ ∃ X, rankFrom st.heap.nodes d root = x :: X :=
    hrank.imp_right fun hlt => ⟨by omega, X, hX⟩
  have hsub : X ⊆ rankFrom st.heap.nodes d root := hX ▸ List.subset_cons_self x X
  rw [hX] at hchain hnodup hmem ⊢
  rw [List.flatMap_cons] at hnodup hmem ⊢
  have hpre : (x :: (X ++ (st.heap.nodes.mem x).children)).Sublist
      (x :: X ++ ((st.heap.nodes.mem x).children ++ X.flatMap fun x => (st.heap.nodes.mem x).children)) :=
    ((List.sublist_append_left _ _).append_left X).cons_cons x
  obtain ⟨q₁, t₁, hchain₁, hsame₁, hvisit⟩ := visit_runs rank out
    (h.printable hd hx) hsame hchain (hnodup.sublist hpre) (fun b hb => hmem (hpre.subset hb))
    (fun b hb => h.nodes.lt hb) fun u hu => h.newRank_runs hu hd hx hhead
  obtain ⟨q', t', hchain', hsame', hrest⟩ := h.rank_runs rfl hd
    ((if d ≠ rank then out ++ [.newline] else out) ++ [nodeToken st.heap.nodes x]) hsub hsame₁ hchain₁
    (List.nodup_cons.mp hnodup).2 fun b hb => hmem (List.mem_cons_of_mem _ hb)
  refine ⟨q', t', hchain', hsame', fun fuel r u hr => ?_⟩
  rw [List.length_cons, ← Nat.add_assoc]
  refine hvisit _ _ _ (hrest _ _ _ ?_)
  rwa [List.append_assoc, List.singleton_append, ← List.map_cons]

/-- The ranks from `d` on, when the queue has just the rank `d`. -/
theorem ranks_runs : ∀ {k d : Nat} (rank : Nat) {q : Option NodeId} {t : Slab Node} (out : List Token), d + k = height →
    (rank = d ∨ rank < d) → NextOnly (nodesFrom st.heap.nodes height root) st.heap.nodes t →
    FreeChain t q (rankFrom st.heap.nodes d root) → (ranksFrom st.heap.nodes root k d).Nodup →
    ranksFrom st.heap.nodes root k d ⊆ nodesFrom st.heap.nodes height root →
    ∃ t', NextOnly (nodesFrom st.heap.nodes height root) st.heap.nodes t' ∧ ∀ fuel,
      (ranksFrom st.heap.nodes root k d).length < fuel →
      Runs (printTreeLoop root fuel q rank out) t
        (none, (if d ≠ rank then out ++ [.newline] else out) ++ rankLines st.heap.nodes root k d) t' := by
  intro k
  induction k with
  | zero =>
    intro d rank q t out hk hrank hsame hchain hnodup hmem
    obtain rfl : d = height := hk
    have hnil := h.rank_last
    obtain ⟨q', t', hchain', hsame', hrest⟩ := h.rank_to_next out le_rfl hrank hsame hchain
      (by rwa [hnil, List.append_nil]) (by rwa [hnil, List.append_nil])
    rw [hnil] at hchain'
    obtain rfl : q' = none := hchain'
    refine ⟨t', hsame', fun fuel hfuel => ?_⟩
    obtain ⟨n, rfl⟩ : ∃ n, fuel = n + 1 + (rankFrom st.heap.nodes d root).length :=
      ⟨fuel - 1 - (rankFrom st.heap.nodes d root).length, by
        have hlen : (rankFrom st.heap.nodes d root).length < fuel := hfuel
        omega⟩
    exact hrest _ _ _ Runs.pure
  | succ k ih =>
    intro d rank q t out hk hrank hsame hchain hnodup hmem
    have hpre : (rankFrom st.heap.nodes d root ++ rankFrom st.heap.nodes (d + 1) root).Sublist
        (ranksFrom st.heap.nodes root (k + 1) d) := rankFrom_sublist.append_left _
    obtain ⟨q', t', hchain', hsame', hrest⟩ := h.rank_to_next out (by omega) hrank hsame hchain
      (hnodup.sublist hpre) fun b hb => hmem (hpre.subset hb)
    obtain ⟨t'', hsame'', hlast⟩ := ih (d := d + 1) d _ (by omega) (Or.inr (Nat.lt_add_one d)) hsame' hchain'
      (List.nodup_append.mp hnodup).2.1 fun b hb => hmem (List.mem_append_right _ hb)
    refine ⟨t'', hsame'', fun fuel hfuel => ?_⟩
    rw [ranksFrom, List.length_append] at hfuel
    obtain ⟨n, rfl⟩ : ∃ n, fuel = n + (rankFrom st.heap.nodes d root).length :=
      ⟨fuel - (rankFrom st.heap.nodes d root).length, by omega⟩
    have hrun := hlast n (by omega)
    rw [if_pos (Nat.succ_ne_self d)] at hrun
    have hout := hrest n _ _ hrun
    rwa [List.append_assoc, List.append_assoc, List.singleton_append] at hout

omit h in
theorem rankLines_append (s : Slab Node) (root : NodeId) : ∀ k d : Nat, rankLines s root k d ++ [.newline] =
    (List.range' d (k + 1)).flatMap fun d => (rankFrom s d root).map (nodeToken s) ++ [.newline]
  | 0, d => by simp [rankLines]
  | k + 1, d => by
    rw [List.range'_succ, List.flatMap_cons, ← rankLines_append s root k (d + 1), rankLines]
    simp

end TreeAt

/-! ### After a run -/

/-- What `print_tree` prints of a tree: a line for each rank, with the nodes of the rank from left to right. -/
def treeLines (s : Slab Node) (height : Nat) (root : NodeId) : List Token :=
  (List.range (height + 1)).flatMap fun d => (rankFrom s d root).map (nodeToken s) ++ [.newline]

theorem TreeAt.printTree {st : State} (h : TreeAt order st height root) (queue : Option NodeId) :
    ∃ t, Runs (printTree queue st.root) st.heap.nodes (none, treeLines st.heap.nodes height root) t ∧
      NextOnly (nodesFrom st.heap.nodes height root) st.heap.nodes t := by
  have hperm := ranksFrom_perm (s := st.heap.nodes) height root
  have hroot : root ∈ nodesFrom st.heap.nodes height root := rankFrom_subset (Nat.zero_le height) (List.mem_singleton_self root)
  obtain ⟨q, t₀, henqueue, hchain, hsame⟩ := enqueue_runs (s := st.heap.nodes) (Q := []) (q := none) (x := root) rfl
    (List.nodup_singleton root) fun b hb => h.nodes.lt (List.mem_singleton.mp hb ▸ hroot)
  obtain ⟨t, hsame', hloop⟩ := h.ranks_runs 0 [] (Nat.zero_add height) (Or.inl rfl)
    (hsame.mono fun b hb => List.mem_singleton.mp hb ▸ hroot) hchain (hperm.nodup_iff.mpr h.nodes.nodup) hperm.subset
  have hfuel : (ranksFrom st.heap.nodes root height 0).length < t₀.brk + 1 := by
    have hle := h.nodes.length_le
    rw [hperm.length_eq, hsame.brk]
    omega
  have hrun := hloop _ hfuel
  rw [if_neg (by simp), List.nil_append] at hrun
  have hlines := rankLines_append st.heap.nodes root height 0
  rw [← List.range_eq_range'] at hlines
  refine ⟨t, ?_, hsame'⟩
  rw [h.rooted, treeLines, ← hlines]
  exact Runs.bind henqueue (Runs.bind fuel_runs (Runs.bind hrun Runs.pure))

/-- The node that a piece of the output is about. -/
def Token.node? : Token → Option NodeId
  | .node n _ => some n
  | _ => none

theorem printed_perm (s : Slab Node) (height : Nat) (root : NodeId) :
    ((treeLines s height root).filterMap Token.node?).Perm (nodesFrom s height root) := by
  refine List.Perm.trans (List.Perm.of_eq ?_) (ranksFrom_perm height root)
  have hranks : ∀ k d : Nat, ((List.range' d (k + 1)).flatMap fun d =>
      (rankFrom s d root).map (nodeToken s) ++ [.newline]).filterMap Token.node? = ranksFrom s root k d := by
    intro k
    induction k with
    | zero =>
      intro d
      simp [ranksFrom, nodeToken, Token.node?, List.filterMap_map, Function.comp_def]
    | succ k ih =>
      intro d
      rw [List.range'_succ, List.flatMap_cons, List.filterMap_append, ih]
      simp [ranksFrom, nodeToken, Token.node?, List.filterMap_map, Function.comp_def]
  rw [treeLines, List.range_eq_range', hranks]

/-- Of a tree that is not empty, `print_tree` prints each node once, in a line for each rank; it leaves the queue empty,
and writes nothing but fields `next` of the nodes. -/
theorem exec_printTree (horder : 3 ≤ order) (hbound : order < 2 ^ 64) (ops : List Op) : ∃ st, exec order ops = .ok st ∧
    ∀ root ∈ st.root, ∃ height, ValidNode order st.heap.nodes height 1 none root ∧
      ((treeLines st.heap.nodes height root).filterMap Token.node?).Perm (nodesFrom st.heap.nodes height root) ∧
      (nodesFrom st.heap.nodes height root).Nodup ∧ ∀ queue, ∃ t,
        Runs (printTree queue st.root) st.heap.nodes (none, treeLines st.heap.nodes height root) t ∧
        NextOnly (nodesFrom st.heap.nodes height root) st.heap.nodes t := by
  obtain ⟨st, hexec, h⟩ := exec_treeAt horder hbound ops
  refine ⟨st, hexec, fun root hroot => ?_⟩
  rcases h with hnone | ⟨height, root', htree⟩
  · rw [hnone] at hroot
    cases hroot
  · obtain rfl : root' = root := Option.some.inj (htree.rooted.symm.trans hroot)
    exact ⟨height, htree.valid, printed_perm _ _ _, htree.nodes.nodup, htree.printTree⟩

theorem exec_printTree_four : ∃ st, exec 4 [.insert 1 10, .insert 2 20, .delete 1] = .ok st ∧
    ∀ root ∈ st.root, ∃ height, ValidNode 4 st.heap.nodes height 1 none root ∧
      ((treeLines st.heap.nodes height root).filterMap Token.node?).Perm (nodesFrom st.heap.nodes height root) ∧
      (nodesFrom st.heap.nodes height root).Nodup ∧ ∀ queue, ∃ t,
        Runs (printTree queue st.root) st.heap.nodes (none, treeLines st.heap.nodes height root) t ∧
        NextOnly (nodesFrom st.heap.nodes height root) st.heap.nodes t :=
  exec_printTree (by simp) (by simp) _

end NuKSM.BTree
