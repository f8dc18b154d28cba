import NuKSM.Theorems.BTree.Chain

/-! `find_range`: what it returns, and when that is every entry of the range. Its early `return 0` is taken as soon as
the start leaf has no key in the range, although the next leaf may have one. -/

namespace NuKSM.BTree
open BPlus

variable {order : Nat} {s : Slab Node} {keyStart keyEnd : Key}

/-- The keys and the pointers of some entries, behind those that were found before. -/
def addFound (found : List Key × List Ptr) (es : List (Key × RecId)) : List Key × List Ptr :=
  (found.1 ++ es.map Prod.fst, found.2 ++ es.map fun e => .record e.2)

theorem addFound_append {found : List Key × List Ptr} {A C : List (Key × RecId)} :
    addFound (addFound found A) C = addFound found (A ++ C) := by
  simp [addFound]

/-- From the entry after `A` on, the entries of a leaf up to `keyEnd` are taken. -/
theorem collect_runs {l : BptLeaf} (h : LeafAt order s l) : ∀ {A E : List (Key × RecId)} (found : List Key × List Ptr),
    l.entries = A ++ E →
    Runs (collect l.id keyEnd E.length A.length found) s (addFound found (E.takeWhile (·.1 ≤ keyEnd))) s
  | A, [], found, _ => by
    simpa [collect, addFound] using Runs.pure
  | A, e :: E, found, hl => by
    obtain ⟨ha, q, hm⟩ := h
    have hkey : (pageKeys (.leaf l.entries l.next : BptPage))[A.length]? = some e.1 := by simp [hl]
    have hptr : (pagePtrs (.leaf l.entries l.next : BptPage))[A.length]? = some (.record e.2) := by simp [hl]
    refine Runs.bind (getKey_runs ha (getElem?_of_isPrefix hm.keys hkey)) ?_
    by_cases hk : e.1 ≤ keyEnd
    · have hrest := collect_runs ⟨ha, q, hm⟩ (A := A ++ [e]) (E := E) (addFound found [e]) (by simpa using hl)
      rw [addFound_append, List.length_append] at hrest
      rw [List.takeWhile_cons_of_pos (by simpa using hk)]
      exact Runs.ite_pos hk (Runs.bind (getPtr_runs ha (getElem?_of_isPrefix hm.pointers hptr)) hrest)
    · rw [List.takeWhile_cons_of_neg (by simpa using hk)]
      refine Runs.ite_neg hk ?_
      simpa [addFound] using Runs.pure

/-- Along the chain, all entries up to `keyEnd` are taken. -/
theorem collectChain_runs (keyEnd : Key) : ∀ {ls : List BptLeaf} {l : BptLeaf} {fuel : Nat} {A E : List (Key × RecId)}
    (found : List Key × List Ptr), ls.length + 1 < fuel → Linked (l :: ls) none → (∀ x ∈ l :: ls, LeafAt order s x) →
    (∀ x ∈ l :: ls, x.entries.Pairwise fun a b => a.1 < b.1) → l.entries = A ++ E →
    Runs (collectChain order keyEnd fuel (some l.id) A.length found) s
      (addFound found ((E ++ ls.flatMap Leaf.entries).filter (·.1 ≤ keyEnd))) s
  | _, _, 0, _, _, _, hf, _, _, _, _ => absurd hf (Nat.not_lt_zero _)
  | ls, l, fuel + 1, A, E, found, hf, ⟨hnext, hlinked⟩, h, hinc, hl => by
    obtain ⟨ha, q, hm⟩ := h l (List.mem_cons_self ..)
    have hleaf : LeafAt order s l := ⟨ha, q, hm⟩
    have hnum : (s.mem l.id).numKeys - A.length = E.length := by simp [hm.numKeys, hl]
    have hE : E.Pairwise fun a b => a.1 < b.1 := by
      have := hinc l (List.mem_cons_self ..)
      rw [hl] at this
      exact (List.pairwise_append.mp this).2.1
    refine Runs.bind (load_runs ha) ?_
    rw [hnum]
    refine Runs.bind (collect_runs hleaf found hl) ?_
    rw [takeWhile_eq_filter hE]
    refine hleaf.nextRuns ?_
    rw [hnext, List.filter_append, ← addFound_append]
    cases ls with
    | nil =>
      obtain ⟨fuel, rfl⟩ : ∃ n, fuel = n + 1 := ⟨fuel - 1, by simp at hf; omega⟩
      simpa [addFound, headId, collectChain] using Runs.pure
    | cons l' ls =>
      exact collectChain_runs keyEnd (A := []) _ (Nat.lt_of_succ_lt_succ hf) hlinked (fun x hx => h x (List.mem_cons_of_mem _ hx))
        (fun x hx => hinc x (List.mem_cons_of_mem _ hx)) rfl

/-! ### `find_range` -/

/-- What `find_range` finds in the entries of a tree, when the start leaf has the entries `E` from `keyStart` on, and
    those of `rest` are behind it. -/
def rangeFound (keyEnd : Key) (E rest : List (Key × RecId)) : List (Key × RecId) :=
  if E = [] then [] else (E ++ rest).filter (·.1 ≤ keyEnd)

theorem findRange_runs (keyStart keyEnd : Key) {st : State} {t : (d : Nat) × BptTree d} {es : List Binding} (h : Inv order st (some t) es) :
    ∃ (l : BptLeaf) (c : BptCtx 0) (A E : List (Key × RecId)), c.plug (.leaf l) = t ∧
      Located keyStart t.2.fringe l c ∧ l.entries = A ++ E ∧
      (∀ e ∈ A, e.1 < keyStart) ∧ (∀ e ∈ E, keyStart ≤ e.1) ∧ LeafAt order st.heap.nodes l ∧
      Runs (findLeaf st.root keyStart) st.heap.nodes (some l.id) st.heap.nodes ∧
      Runs (findRange order st.root keyStart keyEnd) st.heap.nodes
        ((rangeFound keyEnd E (entries c.after)).length, (rangeFound keyEnd E (entries c.after)).map Prod.fst,
          (rangeFound keyEnd E (entries c.after)).map fun e => .record e.2) st.heap.nodes := by
  obtain ⟨l, c, hplug, hlocated, -, hleaf, -⟩ := h.leaf keyStart
  have hrow : leaves t.2.fringe = leaves c.before ++ l :: leaves c.after := by rw [hlocated.fringe, leaves_append, leaves_leaf]
  have hstored := (h.stores).2.leaf
  have hl : LeafAt order st.heap.nodes l := hstored l (by simp [hrow])
  have hinc : ∀ x ∈ leaves t.2.fringe, x.entries.Pairwise fun a b => a.1 < b.1 := by
    have hentries := h.good.ordered.entries
    rw [entries_eq_leaves] at hentries
    exact (List.pairwise_flatMap.mp hentries).1
  obtain ⟨A, E, hAE, hA, hE⟩ := exists_cut keyStart (hinc l (by simp [hrow]))
  refine ⟨l, c, A, E, hplug, hlocated, hAE, hA, hE, hl, hleaf, ?_⟩
  obtain ⟨ha, q, hm⟩ := hl
  have hnum : (st.heap.nodes.mem l.id).numKeys = A.length + E.length := by simp [hm.numKeys, hAE]
  have hscan := scanKeys_runs (q := fun k => decide (k < keyStart)) (A := A.map Prod.fst) (C := E.map Prod.fst) ha hm
    (by simp [hAE]) (by simpa using fun k r he => hA (k, r) he) (by
      intro k hk
      obtain ⟨e, he, rfl⟩ := List.mem_map.mp (List.mem_of_mem_head? hk)
      simpa using hE e he)
  rw [List.length_map] at hscan
  refine Runs.bind hleaf (Runs.bind (load_runs ha) (Runs.bind hscan ?_))
  by_cases hnil : E = []
  · rw [rangeFound, if_pos hnil]
    exact Runs.ite_pos (by simp [hnum, hnil]) Runs.pure
  · rw [rangeFound, if_neg hnil]
    have hpos := List.length_pos_of_ne_nil hnil
    have hlen := length_leaves_le h.kept.holds
    have hlinked : Linked (leaves t.2.fringe) none := h.good.linked
    rw [hrow] at hlen hlinked hstored hinc
    rw [List.length_append, List.length_cons] at hlen
    have hchain := collectChain_runs keyEnd (s := st.heap.nodes) ([], []) (show (leaves c.after).length + 1 < st.heap.nodes.brk + 1 by omega)
      (linked_append.mp hlinked).2 (fun x hx => hstored x (List.mem_append_right _ hx))
      (fun x hx => hinc x (List.mem_append_right _ hx)) hAE
    rw [← entries_eq_leaves] at hchain
    refine Runs.ite_neg (by omega) (Runs.bind fuel_runs (Runs.bind hchain ?_))
    simpa [addFound] using Runs.pure

/-- What `find_range` is for: it returns the number of stored keys in the range, the keys in order, and their records. -/
def RangeCorrect (order : Nat) (st : State) (keyStart keyEnd : Key) : Prop :=
  ∃ n keys ptrs, Runs (findRange order st.root keyStart keyEnd) st.heap.nodes (n, keys, ptrs) st.heap.nodes ∧
    n = keys.length ∧ n = ptrs.length ∧ keys.Pairwise (· < ·) ∧
    (∀ key, key ∈ keys ↔ keyStart ≤ key ∧ key ≤ keyEnd ∧ ∃ r, Finds st key (some r)) ∧
    ∀ (i : Nat) (key : Key), keys[i]? = some key → ∃ r, ptrs[i]? = some (.record r) ∧ Finds st key (some r)

/-- The leaf where the search for `keyStart` ends has a key from there on, or there is nothing to find. -/
def RangeReached (st : State) (keyStart keyEnd : Key) : Prop :=
  (∃ leaf, Runs (findLeaf st.root keyStart) st.heap.nodes (some leaf) st.heap.nodes ∧
    ∃ key ∈ (st.heap.nodes.mem leaf).usedKeys, keyStart ≤ key) ∨
  ∀ key, keyStart ≤ key → key ≤ keyEnd → Finds st key none

section
variable {st : State} {T : BptRoot} {es : List Binding}

/-- All entries of the range make a correct answer. -/
theorem rangeCorrect_filter (h : Inv order st T es) (found : List (Key × RecId))
    (hfound : found = (entries T.fringe).filter fun e => keyStart ≤ e.1 ∧ e.1 ≤ keyEnd)
    (hrun : Runs (findRange order st.root keyStart keyEnd) st.heap.nodes
      (found.length, found.map Prod.fst, found.map fun e => .record e.2) st.heap.nodes) :
    RangeCorrect order st keyStart keyEnd := by
  refine ⟨_, _, _, hrun, by simp, by simp, ?_, fun key => ?_, fun i key hkey => ?_⟩
  · have hinc := h.good.ordered.entries
    rw [List.pairwise_map, hfound]
    exact hinc.sublist List.filter_sublist
  · simp only [h.finds_iff, hfound, List.mem_map, List.mem_filter, decide_eq_true_eq, Prod.exists,
      exists_and_right, exists_eq_right]
    tauto
  · rw [List.getElem?_map] at hkey
    obtain ⟨e, he, rfl⟩ := Option.map_eq_some_iff.mp hkey
    refine ⟨e.2, by simp [he], h.finds_iff.mpr ?_⟩
    have hmem := List.mem_of_getElem? he
    rw [hfound] at hmem
    exact (List.mem_filter.mp hmem).1

/-- An empty answer is correct when there is nothing to find. -/
theorem rangeCorrect_empty (h : Inv order st T es)
    (hrun : Runs (findRange order st.root keyStart keyEnd) st.heap.nodes (0, [], []) st.heap.nodes) :
    RangeCorrect order st keyStart keyEnd ↔ ∀ key, keyStart ≤ key → key ≤ keyEnd → Finds st key none := by
  constructor
  · rintro ⟨n, keys, ptrs, hrun', -, -, -, hmem, -⟩ key hs he
    obtain ⟨-, rfl, -⟩ : 0 = n ∧ [] = keys ∧ [] = ptrs := by simpa using (hrun.det hrun').1
    refine h.finds_none_iff.mpr fun r hr => ?_
    exact List.not_mem_nil ((hmem key).mpr ⟨hs, he, r, hr⟩)
  · intro hnone
    refine rangeCorrect_filter h [] ?_ hrun
    refine (List.filter_eq_nil_iff.mpr fun e he => ?_).symm
    intro hrange
    simp only [decide_eq_true_eq] at hrange
    exact h.finds_none_iff.mp (hnone e.1 hrange.1 hrange.2) e.2 (h.finds_iff.mpr he)

theorem rangeCorrect_iff (h : Inv order st T es) : RangeCorrect order st keyStart keyEnd ↔ RangeReached st keyStart keyEnd := by
  cases T with
  | none =>
    have hfindLeaf : ∀ {s}, Runs (findLeaf st.root keyStart) s none s := by
      rw [h.root]
      exact Runs.pure
    rw [rangeCorrect_empty h (Runs.bind hfindLeaf Runs.pure), RangeReached]
    refine ⟨Or.inr, ?_⟩
    rintro (⟨leaf, hleaf, -⟩ | hnone)
    · cases (hfindLeaf.det hleaf).1
    · exact hnone
  | some t =>
    obtain ⟨l, c, A, E, -, hlocated, hl, hA, hE, ⟨ha, q, hm⟩, hleaf, hrun⟩ := findRange_runs keyStart keyEnd h
    have hkeys : (st.heap.nodes.mem l.id).usedKeys = A.map Prod.fst ++ E.map Prod.fst := by
      rw [usedKeys_eq hm, ← List.map_append, ← hl]
      rfl
    by_cases hnil : E = []
    · -- The early return: the start leaf has no key from `keyStart` on.
      rw [rangeFound, if_pos hnil] at hrun
      rw [rangeCorrect_empty h hrun, RangeReached]
      refine ⟨Or.inr, ?_⟩
      rintro (⟨leaf, hleaf', key, hkey, hge⟩ | hnone)
      · obtain rfl := Option.some.inj (hleaf.det hleaf').1
        rw [hkeys, hnil, List.map_nil, List.append_nil] at hkey
        obtain ⟨e, he, rfl⟩ := List.mem_map.mp hkey
        exact absurd (hA e he) (not_lt.mpr hge)
      · exact hnone
    · rw [rangeFound, if_neg hnil] at hrun
      obtain ⟨e, E', rfl⟩ := List.exists_cons_of_ne_nil hnil
      refine ⟨fun _ => Or.inl ⟨l.id, hleaf, e.1, ?_, hE e (List.mem_cons_self ..)⟩, fun _ => rangeCorrect_filter h _ ?_ hrun⟩
      · rw [hkeys]
        simp
      · -- What is on the left of the entries from `keyStart` on is below the range.
        have hleft : (entries c.before ++ A).filter (fun e => keyStart ≤ e.1 ∧ e.1 ≤ keyEnd) = [] := by
          refine List.filter_eq_nil_iff.mpr fun x hx => ?_
          have hlt : x.1 < keyStart := (List.mem_append.mp hx).elim (hlocated.entries_before x) (hA x)
          simp [hlt]
        have hright : ∀ x ∈ e :: E' ++ entries c.after, keyStart ≤ x.1 := fun x hx =>
          (List.mem_append.mp hx).elim (hE x) fun hx => (hlocated.entries_after x hx).le
        have hrow : entries t.2.fringe = (entries c.before ++ A) ++ (e :: E' ++ entries c.after) := by
          rw [hlocated.entries_eq, hl]
          simp
        rw [BptRoot.fringe, Option.elim_some, hrow, List.filter_append (entries c.before ++ A), hleft, List.nil_append]
        exact List.filter_congr fun x hx => by simp [hright x hx]

end

/-- After every run, `find_range` is correct for just the ranges whose start leaf it does not leave early. -/
theorem exec_findRange (horder : 3 ≤ order) (hbound : order < 2 ^ 64) (ops : List Op) : ∃ st, exec order ops = .ok st ∧
    ∀ keyStart keyEnd, RangeCorrect order st keyStart keyEnd ↔ RangeReached st keyStart keyEnd := by
  obtain ⟨st, hexec, T, es, hinv, -⟩ := exec_runs horder hbound ops
  exact ⟨st, hexec, fun _ _ => rangeCorrect_iff hinv⟩

theorem exec_findRange_four : ∃ st, exec 4 [.insert 1 10, .insert 2 20, .insert 5 50, .insert 6 60] = .ok st ∧
    ∀ keyStart keyEnd, RangeCorrect 4 st keyStart keyEnd ↔ RangeReached st keyStart keyEnd :=
  exec_findRange (by decide) (by decide) _

/-- With the leaves `1, 2` and `5, 6`, the range from 3 to 6 has two keys, but none is found. -/
theorem findRange_three_six : ∃ st, exec 4 [.insert 1 10, .insert 2 20, .insert 5 50, .insert 6 60] = .ok st ∧
    ¬RangeCorrect 4 st 3 6 := by
  have heval : (exec 4 [.insert 1 10, .insert 2 20, .insert 5 50, .insert 6 60]).toOption.map (fun st =>
      ((findRange 4 st.root 3 6).run st.heap.nodes).toOption.map Prod.fst) = some (some (0, [], [])) := by
    decide +kernel
  obtain ⟨st, hexec, hreached⟩ := exec_runs (show 3 ≤ 4 by decide) (by decide)
    [.insert 1 10, .insert 2 20, .insert 5 50, .insert 6 60]
  refine ⟨st, hexec, ?_⟩
  rintro ⟨n, keys, ptrs, hrun, -, -, -, hmem, -⟩
  obtain ⟨r, hr, -⟩ := reached_finds hreached 5
  unfold Runs at hrun
  rw [hexec] at heval
  simp only [Except.toOption, Option.map_some, hrun, Option.some.injEq, Prod.mk.injEq] at heval
  have hkey : (5 : Key) ∈ keys := (hmem 5).mpr ⟨by decide, by decide, r, hr⟩
  rw [heval.2.1] at hkey
  cases hkey

end NuKSM.BTree
