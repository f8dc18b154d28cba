import NuKSM.Theorems.BTree.Create

/-! The insertions into one node: into a leaf or a branch with room, above two nodes, and into an empty tree. -/

namespace NuKSM.BTree
open BPlus

variable {order : Nat} {s : Slab Node} {a : NodeId} {key : Key} {r : RecId} {q nx : Option NodeId}
  {L : List (NodeId × BptCell)} {D : List NodeId} {A C : List (Key × RecId)}

/-- A leaf with one entry more. -/
theorem Matches.insertEntry (key : Key) (r : RecId) {n : Node} (h : Matches order n ⟨.leaf (A ++ C) nx, q⟩)
    (hroom : (A ++ C).length < order - 1) :
    Matches order { n with
      keys := (shifted n.keys A.length C.length 0).set A.length key
      pointers := (shifted n.pointers A.length C.length 0).set A.length (.record r)
      numKeys := n.numKeys + 1 } ⟨.leaf (A ++ (key, r) :: C) nx, q⟩ := by
  have hlen : A.length + C.length < order - 1 := by simpa using hroom
  have hK : A.length + C.length < n.keys.length := by rw [h.keys_length]; omega
  have hP : A.length + C.length < n.pointers.length := by rw [h.pointers_length]; omega
  have hkeys := h.keys
  have hptrs := h.pointers
  have hnum := h.numKeys
  simp only [pageKeys_leaf, pagePtrs_leaf, List.map_append, List.length_append, List.length_map] at hkeys hptrs hnum
  refine ⟨?_, ?_, h.parent, h.isLeaf, ?_, ?_, ?_, ?_⟩
  · rw [List.length_set, length_shifted (Nat.zero_le _) hK, h.keys_length]
  · rw [List.length_set, length_shifted (Nat.zero_le _) hP, h.pointers_length]
  · simp only [pageKeys_leaf, List.map_append, List.map_cons, List.length_append, List.length_cons, List.length_map, hnum]
    omega
  · simpa using insert_shifted (x := key) hkeys (by simp) (by simp) hK
  · simpa using insert_shifted (x := Ptr.record r) hptrs (by simp) (by simp) hP
  · rintro entries next ⟨⟩
    show ((shifted n.pointers A.length C.length 0).set A.length (Ptr.record r))[order - 1]? = _
    rw [List.getElem?_set_ne (by omega), getElem?_shifted_ge (by omega) hP (Nat.zero_le _)]
    exact h.next _ _ rfl

theorem insertIntoLeaf_runs (h : Holds order s ((a, ⟨.leaf (A ++ C) nx, q⟩) :: L) D)
    (hroom : (A ++ C).length < order - 1) (hA : ∀ e ∈ A, e.1 < key) (hC : ∀ e ∈ C, key < e.1) :
    ∃ s', Runs (insertIntoLeaf a key r) s a s' ∧ Holds order s' ((a, ⟨.leaf (A ++ (key, r) :: C) nx, q⟩) :: L) D := by
  have ha := h.lt (List.mem_cons_self ..)
  have hm := h.holds _ (List.mem_cons_self ..)
  refine ⟨_, ?_, h.put_head (hm.insertEntry key r hroom)⟩
  have hlen : A.length + C.length < order - 1 := by simpa using hroom
  have hnum : (s.mem a).numKeys - A.length = C.length := by simp [hm.numKeys]
  have hK : A.length + C.length < (s.mem a).keys.length := by rw [hm.keys_length]; omega
  have hP : A.length + C.length < (s.mem a).pointers.length := by rw [hm.pointers_length]; omega
  have hscan := scanKeys_runs (q := fun k => decide (k < key)) (A := A.map Prod.fst) (C := C.map Prod.fst) ha hm (by simp)
    (by simpa using hA) (by
      intro k hk
      obtain ⟨e, he, rfl⟩ := List.mem_map.mp (List.mem_of_head? hk)
      simpa using (hC e he).le)
  rw [List.length_map] at hscan
  refine Runs.bind (load_runs ha) (Runs.bind hscan ?_)
  rw [hnum]
  refine Runs.bind (Runs.of_put rfl (shiftEntry_loop ha hK hP)) ?_
  refine Runs.bind (setKey_put ha ?_) (Runs.bind (setPtr_put ha ?_) (Runs.bind (incNumKeys_put ha) Runs.pure))
  · rw [length_shifted (Nat.zero_le _) hK]
    omega
  · rw [length_shifted (Nat.zero_le _) hP]
    omega

/-! ### Branches -/

/-- The search for a child in its parent. -/
theorem scanChild_runs {p : NodeId} {ks : List Key} {B E : List NodeId} (ha : a < s.brk)
    (hm : Matches order (s.mem a) ⟨.branch ks (B ++ p :: E), q⟩) (hlen : (B ++ p :: E).length = ks.length + 1)
    (hB : p ∉ B) : Runs (Prog.scanUp (fun i => do return decide ((← getPtr a i) ≠ .node p)) 0 ((s.mem a).numKeys + 1)) s
      B.length s := by
  have hnum : (s.mem a).numKeys = ks.length := by simpa using hm.numKeys
  have := Runs.scanUp_hit (s := s) (t := fun i => do return decide ((← getPtr a i) ≠ .node p))
    (q := fun x => decide (x ≠ Ptr.node p)) (A := B.map Ptr.node) (C := E.map Ptr.node) (x := .node p)
    (n := (s.mem a).numKeys + 1)
    (fun j x hx _ => Runs.bind (getPtr_runs ha (getElem?_of_isPrefix hm.pointers (by simpa using hx))) Runs.pure)
    (by
      intro x hx
      obtain ⟨b, hb, rfl⟩ := List.mem_map.mp hx
      simpa using fun hbp : b = p => hB (hbp ▸ hb))
    (by simp) (by simp only [List.length_append, List.length_cons, List.length_map] at hlen ⊢; omega)
  rwa [List.length_map] at this

section
variable {K₁ K₂ : List Key} {B E : List NodeId} {b p : NodeId}

theorem Matches.insertChild (key : Key) (b : NodeId) {n : Node} (h : Matches order n ⟨.branch (K₁ ++ K₂) (B ++ p :: E), q⟩)
    (hB : B.length = K₁.length) (hE : E.length = K₂.length) (hroom : (K₁ ++ K₂).length < order - 1) :
    Matches order { n with
      keys := (shifted n.keys K₁.length K₂.length 0).set K₁.length key
      pointers := (shifted n.pointers (K₁.length + 1) K₂.length 0).set (K₁.length + 1) (.node b)
      numKeys := n.numKeys + 1 } ⟨.branch (K₁ ++ key :: K₂) (B ++ p :: b :: E), q⟩ := by
  have hlen : K₁.length + K₂.length < order - 1 := by simpa using hroom
  have hK : K₁.length + K₂.length < n.keys.length := by rw [h.keys_length]; omega
  have hP : K₁.length + 1 + K₂.length < n.pointers.length := by rw [h.pointers_length]; omega
  have hptrs := h.pointers
  have hnum := h.numKeys
  simp only [pageKeys_branch, pagePtrs_branch, List.length_append] at hptrs hnum
  refine ⟨?_, ?_, h.parent, h.isLeaf, ?_, ?_, ?_, nofun⟩
  · rw [List.length_set, length_shifted (Nat.zero_le _) hK, h.keys_length]
  · rw [List.length_set, length_shifted (Nat.zero_le _) hP, h.pointers_length]
  · simp only [pageKeys_branch, List.length_append, List.length_cons, hnum]
    omega
  · exact insert_shifted (x := key) h.keys rfl rfl hK
  · have := insert_shifted (A := (B ++ [p]).map Ptr.node) (B := E.map Ptr.node) (x := .node b) (p := K₁.length + 1)
      (m := K₂.length) (l := n.pointers) (by simpa using hptrs) (by simp [hB]) (by simp [hE]) hP
    simpa using this

theorem insertIntoNode_runs (root : NodeId) (key : Key) (b : NodeId)
    (h : Holds order s ((a, ⟨.branch (K₁ ++ K₂) (B ++ p :: E), q⟩) :: L) D)
    (hB : B.length = K₁.length) (hE : E.length = K₂.length) (hroom : (K₁ ++ K₂).length < order - 1) :
    ∃ s', Runs (insertIntoNode root a B.length key b) s root s' ∧
      Holds order s' ((a, ⟨.branch (K₁ ++ key :: K₂) (B ++ p :: b :: E), q⟩) :: L) D := by
  have ha := h.lt (List.mem_cons_self ..)
  have hm := h.holds _ (List.mem_cons_self ..)
  refine ⟨_, ?_, h.put_head (hm.insertChild key b hB hE hroom)⟩
  have hlen : K₁.length + K₂.length < order - 1 := by simpa using hroom
  have hnum : (s.mem a).numKeys - K₁.length = K₂.length := by simp [hm.numKeys]
  have hK : K₁.length + K₂.length < (s.mem a).keys.length := by rw [hm.keys_length]; omega
  have hP : K₁.length + 1 + K₂.length < (s.mem a).pointers.length := by rw [hm.pointers_length]; omega
  rw [hB]
  refine Runs.bind (load_runs ha) ?_
  rw [hnum]
  refine Runs.bind (Runs.of_put rfl (shiftNode_loop ha hK hP)) ?_
  have hset : ∀ {x : Ptr} {n : Node}, n.pointers.length = order → Runs (setPtr a (K₁.length + 1) x) (s.put a n) ()
      (s.put a { n with pointers := n.pointers.set (K₁.length + 1) x }) := fun hn => setPtr_put ha (by omega)
  refine Runs.bind (hset ?_) (Runs.bind (setKey_put ha ?_) (Runs.bind (incNumKeys_put ha) Runs.pure))
  · exact (length_shifted (Nat.zero_le _) hP).trans hm.pointers_length
  · rw [length_shifted (Nat.zero_le _) hK]
    omega

/-- A new root above two nodes. -/
theorem insertIntoNewRoot_runs (key : Key) {x y : NodeId × BptCell} (horder : 3 ≤ order) (h : Holds order s (x :: y :: L) D) :
    ∃ a s', Runs (insertIntoNewRoot order x.1 key y.1) s a s' ∧
      Holds order s' ((a, ⟨.branch [key] [x.1, y.1], none⟩) :: underParent (some a) x :: underParent (some a) y :: L) D := by
  obtain ⟨a, s₁, hmake, h₁⟩ := makeNode_runs h
  have ha := h₁.lt_dead
  have hK : 0 < (freshNode order).keys.length := by simp [freshNode]; omega
  have hP : 1 < (freshNode order).pointers.length := by simp [freshNode]; omega
  have hm : Matches order { freshNode order with
      keys := (freshNode order).keys.set 0 key
      pointers := ((freshNode order).pointers.set 0 (.node x.1)).set 1 (.node y.1)
      numKeys := 0 + 1 } ⟨.branch [key] [x.1, y.1], none⟩ := by
    obtain ⟨m, rfl⟩ : ∃ m, order = m + 2 := ⟨order - 2, by omega⟩
    refine ⟨by simp [freshNode], by simp [freshNode], rfl, rfl, rfl, ?_, ?_, fun _ _ hleaf => by cases hleaf⟩
    · exact ⟨List.replicate m 0, by simp [freshNode, List.replicate_succ]⟩
    · exact ⟨List.replicate m .null, by simp [freshNode, List.replicate_succ]⟩
  have h₂ := h₁.claim_put hm
  obtain ⟨s₃, hleft, h₃⟩ := Holds.setParent (h₂.perm (List.Perm.swap ..)) (some a)
  obtain ⟨s₄, hright, h₄⟩ := Holds.setParent (h₃.perm (@List.perm_middle _ _ [_, _] _)) (some a)
  refine ⟨a, s₄, ?_, h₄.perm ((List.Perm.cons _ (List.Perm.swap ..)).trans ((@List.perm_middle _ _ [_, _] _).symm))⟩
  · refine Runs.bind hmake (Runs.bind (setKey_put ha hK) ?_)
    refine Runs.bind (setPtr_put ha (Nat.lt_trans Nat.zero_lt_one hP)) (Runs.bind (setPtr_put ha ?_) ?_)
    · simpa using hP
    refine Runs.bind (incNumKeys_put ha) (Runs.bind (modifyNode_put ha) ?_)
    exact Runs.bind hleft (Runs.bind hright Runs.pure)

end

/-- A tree with a single entry. -/
theorem startNewTree_runs (key : Key) (r : RecId) (horder : 3 ≤ order) (h : Holds order s L D) :
    ∃ a s', Runs (startNewTree order key r) s a s' ∧ Holds order s' ((a, ⟨.leaf [(key, r)] none, none⟩) :: L) D := by
  obtain ⟨a, s₁, hmake, h₁⟩ := makeLeaf_runs h
  have ha := h₁.lt_dead
  have hK : 0 < (freshNode order).keys.length := by simp [freshNode]; omega
  have hP : order - 1 < (freshNode order).pointers.length := by simp [freshNode]; omega
  refine ⟨a, _, ?_, h₁.claim_put (n := { freshNode order with
      isLeaf := true
      keys := (freshNode order).keys.set 0 key
      pointers := ((freshNode order).pointers.set 0 (.record r)).set (order - 1) .null
      numKeys := 0 + 1 }) ?_⟩
  · refine Runs.bind hmake (Runs.bind (setKey_put ha hK) ?_)
    refine Runs.bind (setPtr_put ha (Nat.zero_lt_of_lt hP)) (Runs.bind (setPtr_put ha ?_) ?_)
    · simpa using hP
    exact Runs.bind (modifyNode_put ha) (Runs.bind (incNumKeys_put ha) Runs.pure)
  · obtain ⟨m, rfl⟩ : ∃ m, order = m + 2 := ⟨order - 2, by omega⟩
    refine ⟨by simp [freshNode], by simp [freshNode], rfl, rfl, rfl, ?_, ?_, ?_⟩
    · exact ⟨List.replicate m 0, by simp [freshNode, List.replicate_succ]⟩
    · exact ⟨(List.replicate (m + 1) Ptr.null).set m .null, by simp [freshNode, List.replicate_succ]⟩
    · rintro entries next ⟨⟩
      simp [freshNode, linkPtr]

end NuKSM.BTree
