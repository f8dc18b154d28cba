import NuKSM.Theorems.BTree.Merge

/-! `redistribute_nodes`: a node takes an entry from its neighbour, on the left or on the right. -/

namespace NuKSM.BTree
open BPlus

variable {order : Nat} {s : Slab Node} {q : Option NodeId}

/-! ### What the nodes hold -/

section Matches
variable {n : Node} {nx : Option NodeId} {E : List (Key × RecId)} {e : Key × RecId}

theorem Matches.appendEntry {k : Key} {r : RecId} (h : Matches order n ⟨.leaf E nx, q⟩) (hroom : E.length < order - 1) :
    Matches order { n with
      keys := n.keys.set E.length k
      pointers := n.pointers.set E.length (.record r)
      numKeys := n.numKeys + 1 } ⟨.leaf (E ++ [(k, r)]) nx, q⟩ := by
  have := Matches.insertEntry (A := E) (C := []) k r (by simpa using h) (by simpa using hroom)
  rwa [List.length_nil, shifted_self, shifted_self] at this

theorem Matches.dropEntry (h : Matches order n ⟨.leaf (E ++ [e]) nx, q⟩) :
    Matches order { n with pointers := n.pointers.set E.length .null, numKeys := n.numKeys - 1 } ⟨.leaf E nx, q⟩ := by
  have hle := h.length_le
  have hnum := h.numKeys
  have hkeys := h.keys
  have hptrs := h.pointers
  simp only [pageKeys_leaf, pagePtrs_leaf, List.map_append, List.length_append, List.length_map, List.length_cons,
    List.length_nil] at hnum hkeys hptrs hle
  refine ⟨h.keys_length, by rw [List.length_set, h.pointers_length], h.parent, h.isLeaf, by simp [hnum],
    (List.prefix_append ..).trans hkeys, prefix_set ((List.prefix_append ..).trans hptrs) (by simp), ?_⟩
  rintro entries next ⟨⟩
  rw [List.getElem?_set_ne (by omega)]
  exact h.next _ _ rfl

theorem Matches.tailEntry (h : Matches order n ⟨.leaf (e :: E) nx, q⟩) :
    Matches order { n with
      keys := overlay n.keys 0 E.length (n.keys.drop 1)
      pointers := overlay n.pointers 0 E.length (n.pointers.drop 1)
      numKeys := n.numKeys - 1 } ⟨.leaf E nx, q⟩ := by
  have hle := h.length_le
  have hpos := h.order_pos
  have hkl := h.keys_length
  have hpl := h.pointers_length
  rw [List.length_cons] at hle
  refine ⟨(length_overlay (by omega) (by simp; omega)).trans hkl, (length_overlay (by omega) (by simp; omega)).trans hpl,
    h.parent, h.isLeaf, by simp [h.numKeys], ?_, ?_, ?_⟩
  · simpa using erase_overlay (A := []) h.keys
  · simpa using erase_overlay (A := []) h.pointers
  · rintro entries next ⟨⟩
    exact (getElem?_overlay_ge (by omega) (by omega) (by simp; omega)).trans (h.next _ _ rfl)

variable {K J K₁ K₂ : List Key} {B C : List NodeId} {k : Key} {c : NodeId}

theorem Matches.setSeparator (k' : Key) (h : Matches order n ⟨.branch (K₁ ++ k :: K₂) C, q⟩) :
    Matches order { n with keys := n.keys.set K₁.length k' } ⟨.branch (K₁ ++ k' :: K₂) C, q⟩ := by
  refine ⟨by rw [List.length_set, h.keys_length], h.pointers_length, h.parent, h.isLeaf, ?_, ?_, h.pointers, nofun⟩
  · simpa using h.numKeys
  · obtain ⟨t, ht⟩ := h.keys
    exact ⟨t, by rw [← ht]; simp⟩

theorem Matches.appendChild (h : Matches order n ⟨.branch K C, q⟩) (hC : C.length = K.length + 1)
    (hroom : K.length < order - 1) :
    Matches order { n with
      keys := n.keys.set K.length k
      pointers := n.pointers.set (K.length + 1) (.node c)
      numKeys := n.numKeys + 1 } ⟨.branch (K ++ [k]) (C ++ [c]), q⟩ := by
  have hkl := h.keys_length
  have hpl := h.pointers_length
  refine ⟨by rw [List.length_set, hkl], by rw [List.length_set, hpl], h.parent, h.isLeaf, by simp [h.numKeys],
    append_set h.keys (by omega), ?_, nofun⟩
  have := append_set (x := Ptr.node c) h.pointers (by rw [pagePtrs_branch, List.length_map]; omega)
  simpa [hC] using this

theorem Matches.prependChild (h : Matches order n ⟨.branch K (B ++ [c]), q⟩) (hB : B.length = K.length)
    (hroom : K.length < order - 1) {d : NodeId} :
    Matches order { n with
      keys := (shifted n.keys 0 K.length 0).set 0 k
      pointers := (shifted (n.pointers.set (K.length + 1) (.node c)) 0 K.length 0).set 0 (.node d)
      numKeys := n.numKeys + 1 } ⟨.branch (k :: K) (d :: (B ++ [c])), q⟩ := by
  have hkl := h.keys_length
  have hpl := h.pointers_length
  refine ⟨by rw [List.length_set, length_shifted (Nat.zero_le _) (by omega), hkl],
    by rw [List.length_set, length_shifted (Nat.zero_le _) (by rw [List.length_set]; omega), List.length_set, hpl], h.parent,
    h.isLeaf, by simp [h.numKeys], insert_shifted (A := []) h.keys rfl rfl (by omega), ?_, nofun⟩
  -- The last pointer was copied up before the shift, which moves the others.
  obtain ⟨t, ht⟩ := h.pointers
  rw [← ht] at hpl ⊢
  cases t with
  | nil =>
    simp only [pagePtrs_branch, List.append_nil, List.length_map, List.length_append, List.length_cons, List.length_nil] at hpl
    omega
  | cons y t =>
    refine ⟨t, ?_⟩
    have hl : (B.map Ptr.node).length = K.length := by rw [List.length_map, hB]
    rw [shifted, overlay_set_pred (by simp only [List.length_set, List.length_append, List.length_cons]; omega), overlay]
    simp only [pagePtrs_branch, List.map_append, List.map_cons, List.map_nil, List.append_assoc, List.cons_append,
      List.nil_append, List.take_zero, Nat.zero_add, Nat.sub_zero, List.drop_zero, List.take_succ_cons]
    rw [← hl, List.set_append_right _ _ (Nat.le_succ _), List.take_left, List.drop_append]
    simp

theorem Matches.dropChild (h : Matches order n ⟨.branch (J ++ [k]) (B ++ [c]), q⟩) (hB : B.length = J.length + 1) :
    Matches order { n with pointers := n.pointers.set (J.length + 1) .null, numKeys := n.numKeys - 1 } ⟨.branch J B, q⟩ := by
  have hptrs := h.pointers
  rw [pagePtrs_branch, List.map_append] at hptrs
  exact ⟨h.keys_length, by rw [List.length_set, h.pointers_length], h.parent, h.isLeaf, by simp [h.numKeys],
    (List.prefix_append ..).trans h.keys, prefix_set ((List.prefix_append ..).trans hptrs) (by simp [hB]), nofun⟩

theorem Matches.tailChild (h : Matches order n ⟨.branch (k :: J) (c :: B), q⟩) (hB : B.length = J.length + 1) :
    Matches order { n with
      keys := overlay n.keys 0 J.length (n.keys.drop 1)
      pointers := overlay n.pointers 0 (J.length + 1) (n.pointers.drop 1)
      numKeys := n.numKeys - 1 } ⟨.branch J B, q⟩ := by
  have hkl := h.keys_length
  have hpl := h.pointers_length
  have hK := h.keys.length_le
  have hP := h.pointers.length_le
  simp only [pageKeys_branch, pagePtrs_branch, List.length_map, List.length_cons] at hK hP
  refine ⟨(length_overlay (by omega) (by simp; omega)).trans hkl, (length_overlay (by omega) (by simp; omega)).trans hpl,
    h.parent, h.isLeaf, by simp [h.numKeys], ?_, ?_, nofun⟩
  · simpa using erase_overlay (A := []) h.keys
  · simpa [hB] using erase_overlay (A := []) h.pointers

end Matches

/-! ### The runs -/

/-- The loop that moves entries down by one place. -/
theorem unshiftEntry_loop {a : NodeId} {n : Node} {m : Nat} (ha : a < s.brk) (hK : m + 1 ≤ n.keys.length)
    (hP : m + 1 ≤ n.pointers.length) :
    Runs (Prog.loopUp (fun i _ => unshiftEntry a i) 0 m ()) (s.put a n) ()
      (s.put a { n with keys := overlay n.keys 0 m (n.keys.drop 1), pointers := overlay n.pointers 0 m (n.pointers.drop 1) }) := by
  have hloop := Runs.loopUp (l := 0) (n := m) (B := fun _ => ()) (g := fun i (_ : Unit) => unshiftEntry a i)
    (S := fun j => s.put a { n with
      keys := overlay n.keys 0 j (n.keys.drop 1)
      pointers := overlay n.pointers 0 j (n.pointers.drop 1) }) fun j hj => by
    obtain ⟨x, hx⟩ : ∃ x, n.keys[j + 1]? = some x := ⟨_, List.getElem?_eq_getElem (by omega)⟩
    obtain ⟨y, hy⟩ : ∃ y, n.pointers[j + 1]? = some y := ⟨_, List.getElem?_eq_getElem (by omega)⟩
    have hk := overlay_set (l := n.keys) (p := 0) (j := j) (s := n.keys.drop 1)
      (by rwa [List.getElem?_drop, Nat.add_comm]) (by omega)
    have hp := overlay_set (l := n.pointers) (p := 0) (j := j) (s := n.pointers.drop 1)
      (by rwa [List.getElem?_drop, Nat.add_comm]) (by omega)
    rw [Nat.zero_add] at hk hp ⊢
    refine Runs.bind (getKey_put ha (k := x) ?_) (Runs.bind (setKey_put ha ?_) ?_)
    · show (overlay n.keys 0 j (n.keys.drop 1))[j + 1]? = some x
      rw [getElem?_overlay_ge (by omega) (by omega) (by simp; omega), hx]
    · show j < (overlay n.keys 0 j (n.keys.drop 1)).length
      rw [length_overlay (by omega) (by simp; omega)]
      omega
    rw [hk]
    refine Runs.bind (getPtr_put ha (p := y) ?_) ?_
    · show (overlay n.pointers 0 j (n.pointers.drop 1))[j + 1]? = some y
      rw [getElem?_overlay_ge (by omega) (by omega) (by simp; omega), hy]
    rw [← hp]
    refine setPtr_put ha ?_
    show j < (overlay n.pointers 0 j (n.pointers.drop 1)).length
    rw [length_overlay (by omega) (by simp; omega)]
    omega
  simp only [overlay_zero] at hloop
  exact hloop

section
variable (root : NodeId) (kPrime : Key) {n m p : NodeId} {idx : Nat} {k₀ k : Key} {K₁ K₂ : List Key} {C : List NodeId}
  {q₁ nx₁ nx₂ : Option NodeId} {E₁ E₂ : List (Key × RecId)} {r : RecId} {L : List (NodeId × BptCell)} {D : List NodeId}

/-- A run from the state where three nodes are put again. -/
theorem Runs.of_put₃ {α : Type} {o : NodeProg α} {v : α} {s' : Slab Node}
    (h : Runs o (((s.put p (s.mem p)).put m (s.mem m)).put n (s.mem n)) v s') : Runs o s v s' := by
  rwa [Slab.put_mem_eq, Slab.put_mem_eq, Slab.put_mem_eq] at h

/-- Three nodes are carved, hold what they hold, and differ. -/
theorem Holds.three {c₁ c₂ c₃ : BptCell} (h : Holds order s ((n, c₁) :: (m, c₂) :: (p, c₃) :: L) D) :
    (n < s.brk ∧ m < s.brk ∧ p < s.brk) ∧
      (Matches order (s.mem n) c₁ ∧ Matches order (s.mem m) c₂ ∧ Matches order (s.mem p) c₃) ∧ m ≠ n ∧ p ≠ n ∧ p ≠ m := by
  have hn : (n, c₁) ∈ (n, c₁) :: (m, c₂) :: (p, c₃) :: L := List.mem_cons_self ..
  have hm : (m, c₂) ∈ (n, c₁) :: (m, c₂) :: (p, c₃) :: L := List.mem_cons_of_mem _ (List.mem_cons_self ..)
  have hp : (p, c₃) ∈ (n, c₁) :: (m, c₂) :: (p, c₃) :: L :=
    List.mem_cons_of_mem _ (List.mem_cons_of_mem _ (List.mem_cons_self ..))
  refine ⟨⟨h.lt hn, h.lt hm, h.lt hp⟩, ⟨h.holds _ hn, h.holds _ hm, h.holds _ hp⟩, ?_, ?_, ?_⟩
  · exact Slab.Owns.ne_of_middle (A := []) (x := (m, c₂)) h (Or.inr (List.mem_cons_self ..))
  · exact Slab.Owns.ne_of_middle (A := []) (x := (p, c₃)) h (Or.inr (List.mem_cons_of_mem _ (List.mem_cons_self ..)))
  · exact Slab.Owns.ne_of_middle (A := [_]) (x := (p, c₃)) h (Or.inr (List.mem_cons_self ..))

theorem Matches.separator_lt {x : Node} {J : List Key} {B : List NodeId}
    (h : Matches order x ⟨.branch (J ++ k₀ :: K₂) B, q⟩) : J.length < x.keys.length := by
  have := h.keys.length_le
  simp only [pageKeys_branch, List.length_append, List.length_cons] at this
  omega

/-- A leaf takes the last entry of the leaf on its left. -/
theorem borrowLeaf_left_runs (h : Holds order s ((n, ⟨.leaf E₂ nx₂, some p⟩) :: (m, ⟨.leaf (E₁ ++ [(k, r)]) nx₁, q₁⟩) ::
      (p, ⟨.branch (K₁ ++ k₀ :: K₂) C, q⟩) :: L) D) (hroom : E₂.length < order - 1) (hidx : idx ≠ leftmostIndex) :
    ∃ s', Runs (redistributeNodes root n m idx K₁.length kPrime) s (some root) s' ∧
      Holds order s' ((n, ⟨.leaf ((k, r) :: E₂) nx₂, some p⟩) :: (m, ⟨.leaf E₁ nx₁, q₁⟩) ::
        (p, ⟨.branch (K₁ ++ k :: K₂) C, q⟩) :: L) D := by
  obtain ⟨⟨hn, hm, hp⟩, ⟨hN, hM, hP⟩, hmn, hpn, hpm⟩ := h.three
  have hnumN : (s.mem n).numKeys = E₂.length := by simpa using hN.numKeys
  have hnumM : (s.mem m).numKeys = E₁.length + 1 := by simpa using hM.numKeys
  have hkN := hN.keys_length
  have hpN := hN.pointers_length
  have hlast : (s.mem m).pointers[E₁.length]? = some (.record r) := getElem?_of_isPrefix hM.pointers (by simp)
  have hkey : (s.mem m).keys[E₁.length]? = some k := getElem?_of_isPrefix hM.keys (by simp)
  have hborrow : Runs (borrowFromLeft n m K₁.length kPrime) s ()
      (((s.put p { s.mem p with keys := (s.mem p).keys.set K₁.length k }).put m
        { s.mem m with pointers := (s.mem m).pointers.set E₁.length .null }).put n { s.mem n with
          keys := (shifted (s.mem n).keys 0 E₂.length 0).set 0 k
          pointers := (shifted (s.mem n).pointers 0 E₂.length 0).set 0 (.record r) }) := by
    refine Runs.bind (load_runs hn) (Runs.bind (load_runs hm) (Runs.bind (Runs.orFault hN.parent) ?_))
    refine Runs.bind (Runs.guardOr ?_) (Runs.ite_pos hN.isLeaf ?_)
    · simp [hnumM]
    rw [hnumM, hnumN, Nat.add_sub_cancel]
    refine Runs.of_put₃ (n := n) (m := m) (p := p) ?_
    refine Runs.bind (shiftEntry_loop hn (by omega) (by omega)) (Runs.bind (Runs.under hmn (getPtr_put hm hlast)) ?_)
    refine Runs.bind (setPtr_put hn ?_) (Runs.bind (Runs.under hmn (setPtr_put hm ?_)) ?_)
    · rw [length_shifted (Nat.zero_le _) (by omega)]
      omega
    · exact (List.getElem?_eq_some_iff.mp hlast).1
    refine Runs.bind (Runs.under hmn (getKey_put hm hkey)) (Runs.bind (setKey_put hn ?_) ?_)
    · rw [length_shifted (Nat.zero_le _) (by omega)]
      omega
    refine Runs.bind (getKey_put hn (k := k) ?_) (Runs.under₂ hpm hpn (setKey_put hp hP.separator_lt))
    rw [List.getElem?_set_self]
    rw [length_shifted (Nat.zero_le _) (by omega)]
    omega
  refine ⟨_, Runs.bind (Runs.ite_neg hidx hborrow) (Runs.bind (incNumKeys_put hn)
    (Runs.bind (Runs.under hmn (decNumKeys_put hm ?_)) Runs.pure)),
    ((h.put (A := [_, _]) (hP.setSeparator k)).put (A := [_]) hM.dropEntry).put_head
      (Matches.insertEntry (A := []) k r hN hroom)⟩
  show 0 < (s.mem m).numKeys
  omega

/-- A leftmost leaf takes the first entry of the leaf on its right. -/
theorem borrowLeaf_right_runs {k₂ : Key} {r₂ : RecId} (h : Holds order s ((n, ⟨.leaf E₁ nx₁, some p⟩) ::
      (m, ⟨.leaf ((k, r) :: (k₂, r₂) :: E₂) nx₂, q₁⟩) :: (p, ⟨.branch (K₁ ++ k₀ :: K₂) C, q⟩) :: L) D)
    (hroom : E₁.length < order - 1) :
    ∃ s', Runs (redistributeNodes root n m leftmostIndex K₁.length kPrime) s (some root) s' ∧
      Holds order s' ((n, ⟨.leaf (E₁ ++ [(k, r)]) nx₁, some p⟩) :: (m, ⟨.leaf ((k₂, r₂) :: E₂) nx₂, q₁⟩) ::
        (p, ⟨.branch (K₁ ++ k₂ :: K₂) C, q⟩) :: L) D := by
  obtain ⟨⟨hn, hm, hp⟩, ⟨hN, hM, hP⟩, hmn, hpn, hpm⟩ := h.three
  have hnumN : (s.mem n).numKeys = E₁.length := by simpa using hN.numKeys
  have hnumM : (s.mem m).numKeys = E₂.length + 2 := by simpa using hM.numKeys
  have hkN := hN.keys_length
  have hpN := hN.pointers_length
  have hkM := hM.keys_length
  have hpM := hM.pointers_length
  have hle := hM.length_le
  have hpos := hM.order_pos
  simp only [List.length_cons] at hle
  have hkey : (s.mem m).keys[0]? = some k := getElem?_of_isPrefix hM.keys (by simp)
  have hkey₂ : (s.mem m).keys[1]? = some k₂ := getElem?_of_isPrefix hM.keys (by simp)
  have hptr : (s.mem m).pointers[0]? = some (.record r) := getElem?_of_isPrefix hM.pointers (by simp)
  have hborrow : Runs (borrowFromRight n m K₁.length kPrime) s ()
      (((s.put p { s.mem p with keys := (s.mem p).keys.set K₁.length k₂ }).put m { s.mem m with
          keys := overlay (s.mem m).keys 0 (E₂.length + 1) ((s.mem m).keys.drop 1)
          pointers := overlay (s.mem m).pointers 0 (E₂.length + 1) ((s.mem m).pointers.drop 1) }).put n
        { s.mem n with
          keys := (s.mem n).keys.set E₁.length k
          pointers := (s.mem n).pointers.set E₁.length (.record r) }) := by
    refine Runs.bind (load_runs hn) (Runs.bind (load_runs hm) (Runs.bind (Runs.orFault hN.parent) ?_))
    refine Runs.bind (Runs.guardOr ?_) (Runs.ite_pos hN.isLeaf ?_)
    · simp [hnumM]
    rw [hnumM, hnumN]
    refine Runs.of_put₃ (n := n) (m := m) (p := p) ?_
    refine Runs.bind (Runs.under hmn (getKey_put hm hkey)) (Runs.bind (setKey_put hn (by omega)) ?_)
    refine Runs.bind (Runs.under hmn (getPtr_put hm hptr)) (Runs.bind (setPtr_put hn ?_) ?_)
    · show E₁.length < (s.mem n).pointers.length
      omega
    refine Runs.bind (Runs.under hmn (getKey_put hm hkey₂)) ?_
    refine Runs.bind (Runs.under₂ hpm hpn (setKey_put hp hP.separator_lt)) ?_
    exact Runs.under hmn (unshiftEntry_loop hm (by omega) (by omega))
  refine ⟨_, Runs.bind (Runs.ite_pos rfl hborrow) (Runs.bind (incNumKeys_put hn)
    (Runs.bind (Runs.under hmn (decNumKeys_put hm ?_)) Runs.pure)),
    ((h.put (A := [_, _]) (hP.setSeparator k₂)).put (A := [_]) hM.tailEntry).put_head
      (hN.appendEntry (k := k) (r := r) hroom)⟩
  show 0 < (s.mem m).numKeys
  omega

section
variable {K J : List Key} {A B : List NodeId} {c : NodeId} {cell : BptCell}

/-- A run from the state where four nodes are put again. -/
theorem Runs.of_put₄ {α : Type} {o : NodeProg α} {v : α} {s' : Slab Node}
    (h : Runs o ((((s.put c (s.mem c)).put p (s.mem p)).put m (s.mem m)).put n (s.mem n)) v s') : Runs o s v s' := by
  rw [Slab.put_mem_eq] at h
  exact Runs.of_put₃ h

/-- A fourth node beside the three. -/
theorem Holds.four {c₁ c₂ c₃ : BptCell} (h : Holds order s ((n, c₁) :: (m, c₂) :: (p, c₃) :: (c, cell) :: L) D) :
    c < s.brk ∧ Matches order (s.mem c) cell ∧ c ≠ p ∧ c ≠ m ∧ c ≠ n := by
  have hc : (c, cell) ∈ (n, c₁) :: (m, c₂) :: (p, c₃) :: (c, cell) :: L :=
    List.mem_append_right [_, _, _] (List.mem_cons_self ..)
  refine ⟨h.lt hc, h.holds _ hc, ?_, ?_, ?_⟩
  · exact Slab.Owns.ne_of_middle (A := [_, _]) (x := (c, cell)) h (Or.inr (List.mem_cons_self ..))
  · exact Slab.Owns.ne_of_middle (A := [_]) (x := (c, cell)) h (Or.inr (List.mem_cons_of_mem _ (List.mem_cons_self ..)))
  · exact Slab.Owns.ne_of_middle (A := []) (x := (c, cell)) h
      (Or.inr (List.mem_append_right [_, _] (List.mem_cons_self ..)))

/-- A branch takes the last child of the branch on its left. -/
theorem borrowBranch_left_runs (h : Holds order s ((n, ⟨.branch K A, some p⟩) :: (m, ⟨.branch (J ++ [k]) (B ++ [c]), q₁⟩) ::
      (p, ⟨.branch (K₁ ++ k₀ :: K₂) C, q⟩) :: (c, cell) :: L) D) (hA : A.length = K.length + 1) (hB : B.length = J.length + 1)
    (hroom : K.length < order - 1) (hidx : idx ≠ leftmostIndex) :
    ∃ s', Runs (redistributeNodes root n m idx K₁.length kPrime) s (some root) s' ∧
      Holds order s' ((n, ⟨.branch (kPrime :: K) (c :: A), some p⟩) :: (m, ⟨.branch J B, q₁⟩) ::
        (p, ⟨.branch (K₁ ++ k :: K₂) C, q⟩) :: underParent (some n) (c, cell) :: L) D := by
  obtain ⟨⟨hn, hm, hp⟩, ⟨hN, hM, hP⟩, hmn, hpn, hpm⟩ := h.three
  obtain ⟨hc, hT, hcp, hcm, hcn⟩ := h.four
  obtain ⟨A', x, rfl⟩ : ∃ A' x, A = A' ++ [x] := by
    rcases List.eq_nil_or_concat A with rfl | ⟨A', x, rfl⟩
    · simp at hA
    · exact ⟨A', x, by simp⟩
  have hA' : A'.length = K.length := by simpa using hA
  have hnumN : (s.mem n).numKeys = K.length := by simpa using hN.numKeys
  have hnumM : (s.mem m).numKeys = J.length + 1 := by simpa using hM.numKeys
  have hkN := hN.keys_length
  have hpN := hN.pointers_length
  have hlastN : (s.mem n).pointers[K.length]? = some (.node x) := getElem?_of_isPrefix hN.pointers (by simp [← hA'])
  have hlastM : (s.mem m).pointers[J.length + 1]? = some (.node c) := getElem?_of_isPrefix hM.pointers (by simp [← hB])
  have hkey : (s.mem m).keys[J.length]? = some k := getElem?_of_isPrefix hM.keys (by simp)
  have hborrow : Runs (borrowFromLeft n m K₁.length kPrime) s ()
      ((((s.put c { s.mem c with parent := some n }).put p { s.mem p with keys := (s.mem p).keys.set K₁.length k }).put m
        { s.mem m with pointers := (s.mem m).pointers.set (J.length + 1) .null }).put n { s.mem n with
          keys := (shifted (s.mem n).keys 0 K.length 0).set 0 kPrime
          pointers := (shifted ((s.mem n).pointers.set (K.length + 1) (.node x)) 0 K.length 0).set 0 (.node c) }) := by
    refine Runs.bind (load_runs hn) (Runs.bind (load_runs hm) (Runs.bind (Runs.orFault hN.parent) ?_))
    refine Runs.bind (Runs.guardOr ?_) (Runs.ite_neg (by simp [hN.isLeaf]) ?_)
    · simp [hnumM]
    rw [hnumM, hnumN, Nat.add_sub_cancel]
    refine Runs.of_put₄ (n := n) (m := m) (p := p) (c := c) ?_
    have hlen : ((s.mem n).pointers.set (K.length + 1) (Ptr.node x)).length = order := by rw [List.length_set, hpN]
    have hlen' : (shifted ((s.mem n).pointers.set (K.length + 1) (Ptr.node x)) 0 K.length 0).length = order := by
      rw [length_shifted (Nat.zero_le _) (by omega), hlen]
    have hlenK : 0 + K.length < (s.mem n).keys.length := by omega
    refine Runs.bind (getPtr_put hn hlastN) (Runs.bind (setPtr_put hn (by omega)) ?_)
    refine Runs.bind (shiftEntry_loop hn hlenK ?_) ?_
    · show 0 + K.length < ((s.mem n).pointers.set (K.length + 1) (Ptr.node x)).length
      omega
    refine Runs.bind (Runs.under hmn (getPtr_put hm hlastM)) (Runs.bind (setPtr_put hn ?_) (Runs.bind asNode_runs ?_))
    · exact hlen'.symm ▸ (by omega)
    refine Runs.bind (Runs.under₃ hcp hcm hcn (modifyNode_put hc)) (Runs.bind (Runs.under hmn (setPtr_put hm ?_)) ?_)
    · exact (List.getElem?_eq_some_iff.mp hlastM).1
    refine Runs.bind (setKey_put hn ?_) (Runs.bind (Runs.under hmn (getKey_put hm hkey)) ?_)
    · rw [length_shifted (Nat.zero_le _) hlenK]
      exact Nat.zero_lt_of_lt hlenK
    exact Runs.under₂ hpm hpn (setKey_put hp hP.separator_lt)
  refine ⟨_, Runs.bind (Runs.ite_neg hidx hborrow) (Runs.bind (incNumKeys_put hn)
    (Runs.bind (Runs.under hmn (decNumKeys_put hm ?_)) Runs.pure)),
    (((h.put (A := [_, _, _]) (hT.setParent (some n))).put (A := [_, _]) (hP.setSeparator k)).put (A := [_])
      (hM.dropChild hB)).put_head (hN.prependChild hA' hroom)⟩
  show 0 < (s.mem m).numKeys
  omega

/-- A leftmost branch takes the first child of the branch on its right. -/
theorem borrowBranch_right_runs (h : Holds order s ((n, ⟨.branch K A, some p⟩) :: (m, ⟨.branch (k :: J) (c :: B), q₁⟩) ::
      (p, ⟨.branch (K₁ ++ k₀ :: K₂) C, q⟩) :: (c, cell) :: L) D) (hA : A.length = K.length + 1) (hB : B.length = J.length + 1)
    (hroom : K.length < order - 1) :
    ∃ s', Runs (redistributeNodes root n m leftmostIndex K₁.length kPrime) s (some root) s' ∧
      Holds order s' ((n, ⟨.branch (K ++ [kPrime]) (A ++ [c]), some p⟩) :: (m, ⟨.branch J B, q₁⟩) ::
        (p, ⟨.branch (K₁ ++ k :: K₂) C, q⟩) :: underParent (some n) (c, cell) :: L) D := by
  obtain ⟨⟨hn, hm, hp⟩, ⟨hN, hM, hP⟩, hmn, hpn, hpm⟩ := h.three
  obtain ⟨hc, hT, hcp, hcm, hcn⟩ := h.four
  have hnumN : (s.mem n).numKeys = K.length := by simpa using hN.numKeys
  have hnumM : (s.mem m).numKeys = J.length + 1 := by simpa using hM.numKeys
  have hkN := hN.keys_length
  have hpN := hN.pointers_length
  have hkM := hM.keys_length
  have hpM := hM.pointers_length
  have hleK := hM.keys.length_le
  have hleP := hM.pointers.length_le
  simp only [pageKeys_branch, pagePtrs_branch, List.length_map, List.length_cons] at hleK hleP
  have hkey : (s.mem m).keys[0]? = some k := getElem?_of_isPrefix hM.keys (by simp)
  have hptr : (s.mem m).pointers[0]? = some (.node c) := getElem?_of_isPrefix hM.pointers (by simp)
  obtain ⟨y, hy⟩ : ∃ y, (s.mem m).pointers[J.length + 1]? = some y := ⟨_, List.getElem?_eq_getElem (by omega)⟩
  have hset := overlay_set (l := (s.mem m).pointers) (p := 0) (j := J.length) (s := (s.mem m).pointers.drop 1)
    (by rwa [List.getElem?_drop, Nat.add_comm]) (by omega)
  rw [Nat.zero_add] at hset
  have hborrow : Runs (borrowFromRight n m K₁.length kPrime) s ()
      ((((s.put c { s.mem c with parent := some n }).put p { s.mem p with keys := (s.mem p).keys.set K₁.length k }).put m
        { s.mem m with
          keys := overlay (s.mem m).keys 0 J.length ((s.mem m).keys.drop 1)
          pointers := overlay (s.mem m).pointers 0 (J.length + 1) ((s.mem m).pointers.drop 1) }).put n { s.mem n with
          keys := (s.mem n).keys.set K.length kPrime
          pointers := (s.mem n).pointers.set (K.length + 1) (.node c) }) := by
    refine Runs.bind (load_runs hn) (Runs.bind (load_runs hm) (Runs.bind (Runs.orFault hN.parent) ?_))
    refine Runs.bind (Runs.guardOr ?_) (Runs.ite_neg (by simp [hN.isLeaf]) ?_)
    · simp [hnumM]
    rw [hnumM, hnumN, Nat.add_sub_cancel]
    refine Runs.of_put₄ (n := n) (m := m) (p := p) (c := c) ?_
    refine Runs.bind (setKey_put hn (by omega)) (Runs.bind (Runs.under hmn (getPtr_put hm hptr)) ?_)
    refine Runs.bind (setPtr_put hn ?_) (Runs.bind asNode_runs (Runs.bind (Runs.under₃ hcp hcm hcn (modifyNode_put hc)) ?_))
    · show K.length + 1 < (s.mem n).pointers.length
      omega
    refine Runs.bind (Runs.under hmn (getKey_put hm hkey)) (Runs.bind (Runs.under₂ hpm hpn (setKey_put hp hP.separator_lt)) ?_)
    refine Runs.bind (Runs.under hmn (unshiftEntry_loop hm (by omega) (by omega))) (Runs.bind (Runs.under hmn
      (getPtr_put hm (p := y) ?_)) ?_)
    · show (overlay (s.mem m).pointers 0 J.length ((s.mem m).pointers.drop 1))[J.length + 1]? = some y
      rw [getElem?_overlay_ge (by omega) (by omega) (by simp; omega), hy]
    rw [← hset]
    refine Runs.under hmn (setPtr_put hm ?_)
    show J.length < (overlay (s.mem m).pointers 0 J.length ((s.mem m).pointers.drop 1)).length
    rw [length_overlay (by omega) (by simp; omega)]
    omega
  refine ⟨_, Runs.bind (Runs.ite_pos rfl hborrow) (Runs.bind (incNumKeys_put hn)
    (Runs.bind (Runs.under hmn (decNumKeys_put hm ?_)) Runs.pure)),
    (((h.put (A := [_, _, _]) (hT.setParent (some n))).put (A := [_, _]) (hP.setSeparator k)).put (A := [_])
      (hM.tailChild hB)).put_head (hN.appendChild hA hroom)⟩
  show 0 < (s.mem m).numKeys
  omega

end
end
end NuKSM.BTree
