import NuKSM.Theorems.BTree.Remove

/-! The entries of a node appended to those of its neighbour. -/

namespace NuKSM.BTree
open BPlus

variable {order : Nat} {s : Slab Node} {m n : NodeId} {q₁ q₂ nx₁ nx₂ : Option NodeId} {L : List (NodeId × BptCell)}
  {D : List NodeId}

/-- A run on the node `a` that was put before the node `b`. -/
theorem Runs.under {α : Type} {a b : NodeId} {p : NodeProg α} {r : α} {x x' y : Node} (hab : a ≠ b)
    (h : Runs p ((s.put b y).put a x) r ((s.put b y).put a x')) : Runs p ((s.put a x).put b y) r ((s.put a x').put b y) := by
  rwa [Slab.put_comm hab, Slab.put_comm hab]

/-- A run on the node `a` that was put before two others. -/
theorem Runs.under₂ {α : Type} {a b c : NodeId} {p : NodeProg α} {r : α} {x x' y z : Node} (hab : a ≠ b) (hac : a ≠ c)
    (h : Runs p (((s.put b y).put c z).put a x) r (((s.put b y).put c z).put a x')) :
    Runs p (((s.put a x).put b y).put c z) r (((s.put a x').put b y).put c z) := by
  rw [Slab.put_comm hab, Slab.put_comm hab]
  exact Runs.under hac h

/-- A run on the node `a` that was put before three others. -/
theorem Runs.under₃ {α : Type} {a b c d : NodeId} {p : NodeProg α} {r : α} {x x' y z w : Node} (hab : a ≠ b) (hac : a ≠ c)
    (had : a ≠ d) (h : Runs p ((((s.put b y).put c z).put d w).put a x) r ((((s.put b y).put c z).put d w).put a x')) :
    Runs p ((((s.put a x).put b y).put c z).put d w) r ((((s.put a x').put b y).put c z).put d w) := by
  rw [Slab.put_comm hab, Slab.put_comm hab]
  exact Runs.under₂ hac had h

/-- The entries of the leaf `n` go behind those of the leaf `m`. -/
theorem appendLeaf_runs {E₁ E₂ : List (Key × RecId)}
    (h : Holds order s ((m, ⟨.leaf E₁ nx₁, q₁⟩) :: (n, ⟨.leaf E₂ nx₂, q₂⟩) :: L) D) (hlen : E₁.length + E₂.length ≤ order - 1) :
    ∃ s', Runs (appendLeaf order n m) s () s' ∧
      Holds order s' ((m, ⟨.leaf (E₁ ++ E₂) nx₂, q₁⟩) :: (n, ⟨.leaf E₂ nx₂, q₂⟩) :: L) D := by
  have hm := h.lt (List.mem_cons_self ..)
  have hmm := h.holds _ (List.mem_cons_self ..)
  have hn := h.lt (List.mem_cons_of_mem _ (List.mem_cons_self ..))
  have hnm := h.holds (n, _) (List.mem_cons_of_mem _ (List.mem_cons_self ..))
  have hne : n ≠ m := Slab.Owns.ne_of_middle (A := []) (x := (n, _)) h (Or.inr (List.mem_cons_self ..))
  have hpos := hmm.order_pos
  have hK : E₁.length + E₂.length ≤ (s.mem m).keys.length := by rw [hmm.keys_length]; omega
  have hP : E₁.length + E₂.length ≤ (s.mem m).pointers.length := by rw [hmm.pointers_length]; omega
  have hK' : E₂.length ≤ (s.mem n).keys.length := by rw [hnm.keys_length]; omega
  have hP' : E₂.length ≤ (s.mem n).pointers.length := by rw [hnm.pointers_length]; omega
  have hnumM : (s.mem m).numKeys = E₁.length := by simpa using hmm.numKeys
  have hnumN : (s.mem n).numKeys = E₂.length := by simpa using hnm.numKeys
  have hloop := Runs.loopUp (l := 0) (n := E₂.length) (B := fun _ => ()) (g := fun j (_ : Unit) => do
      let k ← getKey n j
      setKey m (E₁.length + j) k
      let p ← getPtr n j
      setPtr m (E₁.length + j) p
      incNumKeys m)
    (S := fun j => s.put m { s.mem m with
      keys := overlay (s.mem m).keys E₁.length j (s.mem n).keys
      pointers := overlay (s.mem m).pointers E₁.length j (s.mem n).pointers
      numKeys := E₁.length + j }) fun j hj => by
    obtain ⟨x, hx⟩ : ∃ x, (s.mem n).keys[j]? = some x := ⟨_, List.getElem?_eq_getElem (by omega)⟩
    obtain ⟨y, hy⟩ : ∃ y, (s.mem n).pointers[j]? = some y := ⟨_, List.getElem?_eq_getElem (by omega)⟩
    rw [Nat.zero_add]
    refine Runs.bind (getKey_runs hn (by rwa [Slab.put_mem_of_ne hne])) (Runs.bind (setKey_put hm ?_) ?_)
    · rw [length_overlay (by omega) (by omega)]
      omega
    rw [overlay_set hx (by omega)]
    refine Runs.bind (getPtr_runs hn (by rwa [Slab.put_mem_of_ne hne])) (Runs.bind (setPtr_put hm ?_) ?_)
    · rw [length_overlay (by omega) (by omega)]
      omega
    rw [overlay_set hy (by omega)]
    exact incNumKeys_put hm
  have hm' : Matches order { s.mem m with
      keys := overlay (s.mem m).keys E₁.length E₂.length (s.mem n).keys
      pointers := overlay (s.mem m).pointers E₁.length E₂.length (s.mem n).pointers
      numKeys := E₁.length + E₂.length } ⟨.leaf (E₁ ++ E₂) nx₁, q₁⟩ := by
    refine ⟨(length_overlay hK hK').trans hmm.keys_length, (length_overlay hP hP').trans hmm.pointers_length, hmm.parent,
      hmm.isLeaf, by simp, ?_, ?_, ?_⟩
    · simpa using append_overlay hmm.keys hnm.keys
    · simpa using append_overlay hmm.pointers hnm.pointers
    · rintro entries next ⟨⟩
      exact (getElem?_overlay_ge hlen hP hP').trans (hmm.next _ _ rfl)
  have h₁ := h.put_head hm'
  obtain ⟨s', hnext, h'⟩ := setNext_runs nx₂ h₁
  refine ⟨s', Runs.bind (load_runs hm) (Runs.bind (load_runs hn) ?_), h'⟩
  rw [hnumM, hnumN]
  refine Runs.bind (Runs.of_put ?_ hloop) (Runs.bind (getPtr_runs (h₁.lt (List.mem_cons_of_mem _ (List.mem_cons_self ..)))
    ((h₁.holds (n, _) (List.mem_cons_of_mem _ (List.mem_cons_self ..))).next _ _ rfl)) hnext)
  simp [← hnumM]

/-- The separators and children of the branch `n` go behind those of the branch `m`, and `n` is left without keys. -/
theorem appendNode_runs {K₁ K₂ : List Key} {C₁ C₂ : List NodeId} (kPrime : Key) {u : List (NodeId × BptCell)}
    (h : Holds order s ((m, ⟨.branch K₁ C₁, q₁⟩) :: (n, ⟨.branch K₂ C₂, q₂⟩) :: (u ++ L)) D)
    (hus : u.map Prod.fst = C₁ ++ C₂) (hC₁ : C₁.length = K₁.length + 1) (hC₂ : C₂.length = K₂.length + 1)
    (hlen : K₁.length + 1 + K₂.length ≤ order - 1) :
    ∃ s', Runs (appendNode n m kPrime) s () s' ∧ Holds order s' ((m, ⟨.branch (K₁ ++ kPrime :: K₂) (C₁ ++ C₂), q₁⟩) ::
      (n, ⟨.branch [] [], q₂⟩) :: (u.map (underParent (some m)) ++ L)) D := by
  have hm := h.lt (List.mem_cons_self ..)
  have hmm := h.holds _ (List.mem_cons_self ..)
  have hn := h.lt (List.mem_cons_of_mem _ (List.mem_cons_self ..))
  have hnm := h.holds (n, _) (List.mem_cons_of_mem _ (List.mem_cons_self ..))
  have hne : n ≠ m := Slab.Owns.ne_of_middle (A := []) (x := (n, _)) h (Or.inr (List.mem_cons_self ..))
  have hKm : (s.mem m).keys.length = order - 1 := hmm.keys_length
  have hPm : (s.mem m).pointers.length = order := hmm.pointers_length
  have hKn : (s.mem n).keys.length = order - 1 := hnm.keys_length
  have hPn : (s.mem n).pointers.length = order := hnm.pointers_length
  have hnumM : (s.mem m).numKeys = K₁.length := by simpa using hmm.numKeys
  have hnumN : (s.mem n).numKeys = K₂.length := by simpa using hnm.numKeys
  have hsetlen : ((s.mem m).keys.set K₁.length kPrime).length = order - 1 := by rw [List.length_set, hKm]
  have hloop := Runs.loopUp (l := 0) (n := K₂.length) (B := fun _ => ()) (g := fun j (_ : Unit) => do
      let k ← getKey n j
      setKey m (K₁.length + 1 + j) k
      let p ← getPtr n j
      setPtr m (K₁.length + 1 + j) p
      incNumKeys m
      decNumKeys n)
    (S := fun j => (s.put m { s.mem m with
      keys := overlay ((s.mem m).keys.set K₁.length kPrime) (K₁.length + 1) j (s.mem n).keys
      pointers := overlay (s.mem m).pointers (K₁.length + 1) j (s.mem n).pointers
      numKeys := K₁.length + 1 + j }).put n { s.mem n with numKeys := K₂.length - j }) fun j hj => by
    obtain ⟨x, hx⟩ : ∃ x, (s.mem n).keys[j]? = some x := ⟨_, List.getElem?_eq_getElem (by omega)⟩
    obtain ⟨y, hy⟩ : ∃ y, (s.mem n).pointers[j]? = some y := ⟨_, List.getElem?_eq_getElem (by omega)⟩
    rw [Nat.zero_add]
    refine Runs.bind (getKey_put hn hx) (Runs.bind (Runs.under hne.symm (setKey_put hm ?_)) ?_)
    · rw [length_overlay (by omega) (by omega)]
      omega
    rw [overlay_set hx (by omega)]
    refine Runs.bind (getPtr_put hn hy) (Runs.bind (Runs.under hne.symm (setPtr_put hm ?_)) ?_)
    · rw [length_overlay (by omega) (by omega)]
      omega
    rw [overlay_set hy (by omega)]
    refine Runs.bind (Runs.under hne.symm (incNumKeys_put hm)) ?_
    have hdec := decNumKeys_put (s := s.put m { s.mem m with
      keys := overlay ((s.mem m).keys.set K₁.length kPrime) (K₁.length + 1) (j + 1) (s.mem n).keys
      pointers := overlay (s.mem m).pointers (K₁.length + 1) (j + 1) (s.mem n).pointers
      numKeys := K₁.length + 1 + j + 1 }) (n := { s.mem n with numKeys := K₂.length - j }) hn (by
        show 0 < K₂.length - j
        omega)
    rwa [Nat.sub_sub] at hdec
  -- The last child.
  obtain ⟨y, hy⟩ : ∃ y, (s.mem n).pointers[K₂.length]? = some y := ⟨_, List.getElem?_eq_getElem (by omega)⟩
  have hend : K₁.length + 1 + (K₂.length + 1) ≤ (s.mem m).pointers.length := by omega
  have hm' : Matches order { s.mem m with
      keys := overlay ((s.mem m).keys.set K₁.length kPrime) (K₁.length + 1) K₂.length (s.mem n).keys
      pointers := overlay (s.mem m).pointers (K₁.length + 1) (K₂.length + 1) (s.mem n).pointers
      numKeys := K₁.length + 1 + K₂.length } ⟨.branch (K₁ ++ kPrime :: K₂) (C₁ ++ C₂), q₁⟩ := by
    refine ⟨(length_overlay (by omega) (by omega)).trans hsetlen, (length_overlay hend (by omega)).trans hPm, hmm.parent,
      hmm.isLeaf, by simp; omega, ?_, ?_, nofun⟩
    · have hpre : K₁ ++ [kPrime] <+: (s.mem m).keys.set K₁.length kPrime := append_set hmm.keys (by omega)
      simpa using append_overlay hpre hnm.keys
    · have := append_overlay hmm.pointers hnm.pointers
      simpa [hC₁, hC₂] using this
  have hn' : Matches order { s.mem n with numKeys := K₂.length - K₂.length } ⟨.branch [] [], q₂⟩ :=
    ⟨hKn, hPn, hnm.parent, hnm.isLeaf, Nat.sub_self _, List.nil_prefix, List.nil_prefix, nofun⟩
  have h₁ := ((h.put_head hm').perm (List.Perm.swap ..)).put_head hn'
  have hmem := h₁.holds (m, _) (List.mem_cons_of_mem _ (List.mem_cons_self ..))
  have hlt := h₁.lt (List.mem_cons_of_mem _ (List.mem_cons_self ..))
  obtain ⟨s', hadopt, h'⟩ := adoptChildren_runs (a := m) (u := u) (K := K₁ ++ kPrime :: K₂) (q := q₁)
    (F := (m, ⟨.branch (K₁ ++ kPrime :: K₂) (u.map Prod.fst), q₁⟩) :: (n, ⟨.branch [] [], q₂⟩) :: L) (h₁.perm (by
      rw [hus, List.perm_iff_count]
      intro x
      simp only [List.count_append, List.count_cons]
      omega)) (List.mem_cons_self ..)
  refine ⟨s', ?_, h'.perm (by
    rw [hus, List.perm_iff_count]
    intro x
    simp only [List.count_append, List.count_cons]
    omega)⟩
  refine Runs.bind (load_runs hm) (Runs.bind (Runs.of_put rfl (setKey_put hm (by omega))) (Runs.bind (incNumKeys_put hm) ?_))
  refine Runs.bind (load_runs hn) ?_
  rw [Slab.put_mem_of_ne hne, hnumM, hnumN]
  simp only [overlay_zero, Nat.add_zero, Nat.sub_zero] at hloop
  refine Runs.bind (Runs.of_put (a := n) ?_ hloop) ?_
  · rw [Slab.put_mem_of_ne hne, ← hnumN]
  refine Runs.bind (getPtr_put hn hy) (Runs.bind (Runs.under hne.symm (setPtr_put hm ?_)) ?_)
  · rw [length_overlay (by omega) (by omega)]
    omega
  rw [overlay_set hy (by omega)]
  refine Runs.bind (load_runs hlt) ?_
  have hcnt : u.length = (K₁ ++ kPrime :: K₂).length + 1 := by
    rw [← List.length_map (f := Prod.fst), hus]
    simp only [List.length_append, List.length_cons]
    omega
  rw [hcnt] at hadopt
  rwa [hmem.numKeys]

end NuKSM.BTree
