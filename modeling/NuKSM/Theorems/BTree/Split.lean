import NuKSM.Theorems.BTree.Insert
import Mathlib.Data.List.Infix

/-! The two functions that divide a full node, up to their call of `insert_into_parent`. -/

namespace NuKSM.BTree
open BPlus

variable {order : Nat} {s : Slab Node} {a : NodeId} {key : Key} {r : RecId} {q nx : Option NodeId}
  {L : List (NodeId × BptCell)} {D : List NodeId} {page : BptPage}

theorem cut_pos {m : Nat} (h : 0 < m) : 0 < cut m := by
  unfold cut
  split <;> omega

theorem cut_lt {m : Nat} (h : 1 < m) : cut m < m := by
  unfold cut
  split <;> omega

theorem two_cut_le {m : Nat} : 2 * cut m ≤ m + 1 := by
  unfold cut
  split <;> omega

/-! ### Branches -/

/-- A branch is filled from the temporary arrays, from their place `lo` on. -/
theorem takeBranch_runs (tempKeys : List Key) (tempPointers : List Ptr) (lo : Nat) {K : List Key} {C : List NodeId}
    (h : Holds order s ((a, ⟨page, q⟩) :: L) D) (hpage : pageIsLeaf page = false) (hK : K <+: tempKeys.drop lo)
    (hC : C.map Ptr.node <+: tempPointers.drop lo) (hlen : C.length = K.length + 1) (hlt : K.length < order) :
    ∃ x n₁ n₂, Runs (Prog.loopUp (fun j _ => takeEntry a tempKeys tempPointers (lo + j) j) 0 K.length ())
        (s.put a { s.mem a with numKeys := 0 }) () (s.put a n₁) ∧
      tempPointers[lo + K.length]? = some x ∧ Runs (setPtr a K.length x) (s.put a n₁) () (s.put a n₂) ∧
      Holds order (s.put a n₂) ((a, ⟨.branch K C, q⟩) :: L) D := by
  have ha := h.lt (List.mem_cons_self ..)
  have hm := h.holds _ (List.mem_cons_self ..)
  have hK' := hK.length_le
  have hC' := hC.length_le
  rw [List.length_map] at hC'
  obtain ⟨x, hx⟩ : ∃ x, (tempPointers.drop lo)[K.length]? = some x := ⟨_, List.getElem?_eq_getElem (by omega)⟩
  have hset := overlay_set (l := (s.mem a).pointers) (p := 0) hx (by rw [hm.pointers_length]; omega)
  rw [Nat.zero_add] at hset
  refine ⟨x, _, _, takeEntry_loop (n := { s.mem a with numKeys := 0 }) (m := K.length) ha hK' (by omega)
    (by rw [hm.keys_length]; omega) (by rw [hm.pointers_length]; omega), by rwa [List.getElem?_drop] at hx,
    setPtr_put ha ?_, h.put_head ⟨?_, ?_, hm.parent, hm.isLeaf.trans hpage, ?_, ?_, ?_, nofun⟩⟩
  · rw [length_overlay (by rw [hm.pointers_length]; omega) (by omega), hm.pointers_length]
    exact hlt
  · exact (length_overlay (by rw [hm.keys_length]; omega) (by omega)).trans hm.keys_length
  · simp only [hset]
    exact (length_overlay (by rw [hm.pointers_length]; omega) (by omega)).trans
      hm.pointers_length
  · exact Nat.zero_add _
  · exact copy_overlay hK
  · simp only [hset, pagePtrs_branch]
    have := copy_overlay (K := (s.mem a).pointers) hC
    rwa [List.length_map, hlen] at this

/-- A full branch that gets a child more: it keeps the first half, and a new branch takes the rest. -/
theorem splitNode_runs (insertIntoParent : IntoParent) (root : NodeId) (key k' : Key) {p b : NodeId} {K₁ K₂ : List Key}
    {B E : List NodeId}
    {u : List (NodeId × BptCell)} (horder : 3 ≤ order)
    (h : Holds order s ((a, ⟨.branch (K₁ ++ K₂) (B ++ p :: E), q⟩) :: (u ++ L)) D)
    (hB : B.length = K₁.length) (hE : E.length = K₂.length) (hfull : (K₁ ++ K₂).length = order - 1)
    (hk : (K₁ ++ key :: K₂)[cut order - 1]? = some k') (hus : (B ++ p :: b :: E).drop (cut order) = u.map Prod.fst) :
    ∃ new s', Holds order s'
        ((a, ⟨.branch ((K₁ ++ key :: K₂).take (cut order - 1)) ((B ++ p :: b :: E).take (cut order)), q⟩) ::
          (new, ⟨.branch ((K₁ ++ key :: K₂).drop (cut order)) ((B ++ p :: b :: E).drop (cut order)), q⟩) ::
          (u.map (underParent (some new)) ++ L)) D ∧
      ∀ {root' s''}, Runs (insertIntoParent root a k' new) s' root' s'' →
        Runs (insertIntoNodeAfterSplitting order insertIntoParent root a B.length key b) s root' s'' := by
  have ha := h.lt (List.mem_cons_self ..)
  have hm := h.holds _ (List.mem_cons_self ..)
  have hcut := cut_pos (m := order) (by omega)
  have hcut' := cut_lt (m := order) (by omega)
  have hnum : (s.mem a).numKeys = (K₁ ++ K₂).length := by simpa using hm.numKeys
  have hlenK : (K₁ ++ key :: K₂).length = order := by simp only [List.length_append, List.length_cons] at hfull ⊢; omega
  have hlenC : (B ++ p :: b :: E).length = order + 1 := by
    simp only [List.length_append, List.length_cons] at hfull ⊢
    omega
  -- The temporary arrays.
  obtain ⟨tp, hcopyP, hltP, htp⟩ := copyAround_insert (s := s) (f := getPtr a) (A := (B ++ [p]).map Ptr.node)
    (B := E.map Ptr.node) (x := .node b) (y := .null) (N := order + 1)
    (fun i z hz => getPtr_runs ha (getElem?_of_isPrefix hm.pointers (by simpa using hz)))
    (by simp only [List.length_append, List.length_map, List.length_cons, List.length_nil] at hfull ⊢; omega)
  obtain ⟨tk, hcopyK, hltK, htk⟩ := copyAround_insert (s := s) (f := getKey a) (A := K₁) (B := K₂) (x := key) (y := 0)
    (N := order) (fun i z hz => getKey_runs ha (getElem?_of_isPrefix hm.keys (by simpa using hz))) (by omega)
  replace htp : (B ++ p :: b :: E).map Ptr.node <+: tp.set (B.length + 1) (.node b) := by simpa using htp
  have hgap : ((B ++ [p]).map Ptr.node).length = B.length + 1 := by simp
  have hcount : ((B ++ [p]).map Ptr.node ++ E.map Ptr.node).length = (K₁ ++ K₂).length + 1 := by
    simp only [List.length_append, List.length_map, List.length_cons, List.length_nil, hB, hE]
    omega
  rw [hgap, hcount] at hcopyP
  rw [hgap] at hltP
  rw [← hB] at hcopyK hltK htk
  -- The new node, then what the two nodes take.
  obtain ⟨new, s₁, hmake, h₁⟩ := makeNode_runs h
  have h₂ := (h₁.claim_put matches_freshNode).perm (List.Perm.swap ..)
  have ha₂ := h₂.lt (List.mem_cons_self ..)
  have htake : ((K₁ ++ key :: K₂).take (cut order - 1)).length = cut order - 1 := by
    rw [List.length_take]
    omega
  obtain ⟨x, n₁, n₂, hloopA, hx, hsetA, h₃⟩ := takeBranch_runs (tk.set B.length key)
    (tp.set (B.length + 1) (.node b)) 0 (K := (K₁ ++ key :: K₂).take (cut order - 1))
    (C := (B ++ p :: b :: E).take (cut order)) h₂ rfl ((List.take_prefix ..).trans htk)
    (((List.take_prefix ..).map _).trans htp) (by rw [htake, List.length_take]; omega) (by omega)
  have h₃' := h₃.perm (List.Perm.swap ..)
  have hdrop : ((K₁ ++ key :: K₂).drop (cut order)).length = order - cut order := by
    rw [List.length_drop, hlenK]
  obtain ⟨x', n₃, n₄, hloopB, hx', hsetB, h₄⟩ := takeBranch_runs (tk.set B.length key)
    (tp.set (B.length + 1) (.node b)) (cut order) (K := (K₁ ++ key :: K₂).drop (cut order))
    (C := (B ++ p :: b :: E).drop (cut order)) h₃' rfl (htk.drop _)
    (by rw [List.map_drop]; exact htp.drop _) (by rw [hdrop, List.length_drop]; omega) (by omega)
  rw [htake] at hloopA hx hsetA
  rw [hdrop] at hloopB hx' hsetB
  simp only [Nat.zero_add] at hloopA hx
  have hnew := h₃'.holds _ (List.mem_cons_self ..)
  have hnew₀ : { Slab.mem ((s₁.put new (freshNode order)).put a n₂) new with numKeys := 0 } =
      Slab.mem ((s₁.put new (freshNode order)).put a n₂) new := by
    have hzero := hnew.numKeys
    simp only [pageKeys_branch, List.length_nil] at hzero
    rw [← hzero]
  rw [hnew₀, Slab.put_mem_eq] at hloopB
  -- The new node gets the parent of the old one, and the children it took get it as theirs.
  obtain ⟨s₅, hparent, h₅⟩ := Holds.setParent h₄ q
  have hold := h₄.holds (a, _) (List.mem_cons_of_mem _ (List.mem_cons_self ..))
  have ha₄ := h₄.lt (List.mem_cons_of_mem _ (List.mem_cons_self ..))
  have hn₅ := h₅.holds _ (List.mem_cons_self ..)
  have hlt₅ := h₅.lt (List.mem_cons_self ..)
  simp only [underParent] at h₅ hn₅ hlt₅
  rw [hus] at h₅ hn₅
  obtain ⟨s₆, hadopt, h₆⟩ := adoptChildren_runs (a := new) (u := u)
    (K := (K₁ ++ key :: K₂).drop (cut order)) (q := q)
    (F := (new, ⟨.branch ((K₁ ++ key :: K₂).drop (cut order)) (u.map Prod.fst), q⟩) ::
      (a, ⟨.branch ((K₁ ++ key :: K₂).take (cut order - 1)) ((B ++ p :: b :: E).take (cut order)), q⟩) :: L)
    (h₅.perm (by
      refine (@List.perm_append_comm _ [_, _] (u ++ L)).trans ?_
      rw [List.append_assoc]
      exact (@List.perm_append_comm _ L [_, _]).append_left u)) (List.mem_cons_self ..)
  refine ⟨new, s₆, ?_, fun {root' s''} hrec => ?_⟩
  · rw [hus]
    refine h₆.perm ?_
    refine (@List.perm_append_comm _ _ (_ :: _ :: L)).trans ((List.Perm.swap ..).trans ?_)
    exact ((@List.perm_append_comm _ L _).cons _).cons _
  · refine Runs.bind (load_runs ha) ?_
    rw [hnum]
    refine Runs.bind hcopyP (Runs.bind hcopyK (Runs.bind (setAt_runs hltP) (Runs.bind (setAt_runs hltK) ?_)))
    refine Runs.bind hmake (Runs.bind (modifyNode_runs ha₂) (Runs.bind hloopA ?_))
    refine Runs.bind (at?_runs hx) (Runs.bind hsetA (Runs.bind (at?_runs (getElem?_of_isPrefix htk hk)) ?_))
    refine Runs.bind hloopB (Runs.bind (at?_runs ?_) (Runs.bind hsetB (Runs.bind (load_runs ha₄) ?_)))
    · rwa [Nat.add_sub_cancel' hcut'.le] at hx'
    rw [hold.parent]
    refine Runs.bind hparent (Runs.bind (load_runs hlt₅) ?_)
    have hcnt : (s₅.mem new).numKeys + 1 = u.length := by
      rw [hn₅.numKeys, ← List.length_map (f := Prod.fst), ← hus, pageKeys_branch, hdrop, List.length_drop, hlenC]
      omega
    rw [hcnt]
    exact Runs.bind hadopt hrec

/-! ### Leaves -/

section
variable {E : List (Key × RecId)}

theorem Matches.length_le {n : Node} (h : Matches order n ⟨.leaf E nx, q⟩) : E.length ≤ order - 1 := by
  have := h.keys.length_le
  simpa [h.keys_length] using this

theorem Matches.order_pos {n : Node} (h : Matches order n ⟨.leaf E nx, q⟩) : order - 1 < order := by
  have := (List.getElem?_eq_some_iff.mp (h.next _ _ rfl)).1
  rwa [h.pointers_length] at this

/-- A leaf is filled from the temporary arrays, from their place `lo` on. -/
theorem takeLeaf_runs (tempKeys : List Key) (tempPointers : List Ptr) (lo : Nat) {E' : List (Key × RecId)}
    (h : Holds order s ((a, ⟨.leaf E' nx, q⟩) :: L) D) (hK : E.map Prod.fst <+: tempKeys.drop lo)
    (hP : (E.map fun e => Ptr.record e.2) <+: tempPointers.drop lo) (hlt : E.length < order) :
    ∃ n, Runs (Prog.loopUp (fun j _ => takeEntry a tempKeys tempPointers (lo + j) j) 0 E.length ())
        (s.put a { s.mem a with numKeys := 0 }) () (s.put a n) ∧
      Holds order (s.put a n) ((a, ⟨.leaf E nx, q⟩) :: L) D := by
  have ha := h.lt (List.mem_cons_self ..)
  have hm := h.holds _ (List.mem_cons_self ..)
  have hK' := hK.length_le
  have hP' := hP.length_le
  rw [List.length_map] at hK' hP'
  have hkl : 0 + E.length ≤ (s.mem a).keys.length := by rw [hm.keys_length]; omega
  have hpl : 0 + E.length ≤ (s.mem a).pointers.length := by rw [hm.pointers_length]; omega
  refine ⟨_, takeEntry_loop (n := { s.mem a with numKeys := 0 }) ha hK' hP' (by simpa using hkl) (by simpa using hpl),
    h.put_head ⟨(length_overlay hkl hK').trans hm.keys_length, (length_overlay hpl hP').trans hm.pointers_length,
      hm.parent, hm.isLeaf, ?_, ?_, ?_, ?_⟩⟩
  · simp
  · simpa using copy_overlay (K := (s.mem a).keys) hK
  · simpa using copy_overlay (K := (s.mem a).pointers) hP
  · rintro entries next ⟨⟩
    have := hm.next _ _ rfl
    rwa [← getElem?_overlay_ge (p := 0) (j := E.length) (s := tempPointers.drop lo) (by omega) hpl hP'] at this

/-- A leaf is linked to another one. -/
theorem setNext_runs (nx' : Option NodeId) (h : Holds order s ((a, ⟨.leaf E nx, q⟩) :: L) D) :
    ∃ s', Runs (setPtr a (order - 1) (linkPtr nx')) s () s' ∧ Holds order s' ((a, ⟨.leaf E nx', q⟩) :: L) D := by
  have hm := h.holds _ (List.mem_cons_self ..)
  have hlt := hm.order_pos
  refine ⟨_, setPtr_runs (h.lt (List.mem_cons_self ..)) (by rw [hm.pointers_length]; exact hlt),
    h.put_head { hm with pointers_length := ?_, pointers := ?_, next := ?_ }⟩
  · exact List.length_set.trans hm.pointers_length
  · obtain ⟨t, ht⟩ := hm.pointers
    refine ⟨t.set (order - 1 - E.length) (linkPtr nx'), ?_⟩
    rw [← ht, List.set_append_right _ _ (by simpa using hm.length_le)]
    simp
  · rintro entries next ⟨⟩
    simp [hm.pointers_length, hlt]

/-- The unused pointers of a leaf are cleared, but for its link. -/
theorem clearLeaf_runs {m : Nat} (h : Holds order s ((a, ⟨.leaf E nx, q⟩) :: L) D) (hE : m = E.length) :
    ∃ s', Runs (clearPointers a m (order - 1)) s () s' ∧ Holds order s' ((a, ⟨.leaf E nx, q⟩) :: L) D := by
  subst hE
  have hm := h.holds _ (List.mem_cons_self ..)
  have hlt := hm.order_pos
  have hle := hm.length_le
  have hend : E.length + (order - 1 - E.length) ≤ (s.mem a).pointers.length := by rw [hm.pointers_length]; omega
  refine ⟨_, Runs.of_put rfl (clearPointers_runs (h.lt (List.mem_cons_self ..)) (by rw [hm.pointers_length]; omega) hle),
    h.put_head { hm with pointers_length := ?_, pointers := ?_, next := ?_ }⟩
  · exact (length_overlay hend (by simp)).trans hm.pointers_length
  · have := append_overlay (K := (s.mem a).pointers) hm.pointers
      (List.prefix_refl (List.replicate (order - 1 - E.length) Ptr.null))
    rw [List.length_replicate, pagePtrs_leaf, List.length_map] at this
    exact (List.prefix_append ..).trans this
  · rintro entries next ⟨⟩
    exact (getElem?_overlay_ge (by omega) hend (by simp)).trans (hm.next _ _ rfl)

end

/-- A full leaf that gets an entry more: it keeps the first half, and a new leaf behind it takes the rest. -/
theorem splitLeaf_runs (root : NodeId) {A C E₁ E₂ : List (Key × RecId)} {k' : Key} {r' : RecId} (horder : 3 ≤ order)
    (h : Holds order s ((a, ⟨.leaf (A ++ C) nx, q⟩) :: L) D) (hfull : (A ++ C).length = order - 1)
    (hA : ∀ e ∈ A, e.1 < key) (hC : ∀ e ∈ C, key < e.1) (hE : A ++ (key, r) :: C = E₁ ++ (k', r') :: E₂)
    (hlen : E₁.length = cut (order - 1)) :
    ∃ new s', Holds order s' ((a, ⟨.leaf E₁ (some new), q⟩) :: (new, ⟨.leaf ((k', r') :: E₂) nx, q⟩) :: L) D ∧
      ∀ {root' s''}, Runs (do let fuel ← fuel; insertIntoParent order fuel root a k' new) s' root' s'' →
        Runs (insertIntoLeafAfterSplitting order root a key r) s root' s'' := by
  have hcut := cut_lt (m := order - 1) (by omega)
  have hcut' := cut_pos (m := order - 1) (by omega)
  have hrest : E₂.length + 1 = order - cut (order - 1) := by
    have := congrArg List.length hE
    simp only [List.length_append, List.length_cons] at this hfull
    omega
  -- The new leaf.
  obtain ⟨new, s₁, hmake, h₁⟩ := makeLeaf_runs h
  have h₂ := (h₁.claim_put (matches_freshLeaf (show 0 < order by omega))).perm (List.Perm.swap ..)
  generalize s₁.put new { freshNode order with isLeaf := true } = s₂ at hmake h₂
  have ha := h₂.lt (List.mem_cons_self ..)
  have hm := h₂.holds _ (List.mem_cons_self ..)
  have hnum : (s₂.mem a).numKeys = (A ++ C).length := by simpa using hm.numKeys
  -- The temporary arrays.
  have hscan := scanKeys_runs (q := fun k => decide (k < key)) (A := A.map Prod.fst) (C := C.map Prod.fst) ha hm (by simp)
    (by simpa using hA) (by
      intro k hk
      obtain ⟨e, he, rfl⟩ := List.mem_map.mp (List.mem_of_head? hk)
      simpa using (hC e he).le)
  obtain ⟨tk, hcopyK, hltK, htk⟩ := copyAround_insert (s := s₂) (f := getKey a) (A := A.map Prod.fst)
    (B := C.map Prod.fst) (x := key) (y := 0) (N := order + 1)
    (fun i z hz => getKey_runs ha (getElem?_of_isPrefix hm.keys (by simpa using hz)))
    (by simp only [List.length_append, List.length_map] at hfull ⊢; omega)
  obtain ⟨tp, hcopyP, hltP, htp⟩ := copyAround_insert (s := s₂) (f := getPtr a) (A := A.map fun e => Ptr.record e.2)
    (B := C.map fun e => Ptr.record e.2) (x := .record r) (y := .null) (N := order + 1)
    (fun i z hz => getPtr_runs ha (getElem?_of_isPrefix hm.pointers (by simpa using hz)))
    (by simp only [List.length_append, List.length_map] at hfull ⊢; omega)
  simp only [← List.map_append, List.length_map] at hcopyK hltK htk hcopyP hltP htp hscan
  have htk' : (E₁ ++ (k', r') :: E₂).map Prod.fst <+: tk.set A.length key := by
    rw [← hE]
    simpa using htk
  have htp' : (E₁ ++ (k', r') :: E₂).map (fun e => Ptr.record e.2) <+: tp.set A.length (.record r) := by
    rw [← hE]
    simpa using htp
  -- What the two leaves take.
  obtain ⟨n₁, hloopA, h₃⟩ := takeLeaf_runs (tk.set A.length key) (tp.set A.length (.record r)) 0
    (E := E₁) h₂ (((List.prefix_append ..).map _).trans htk')
    (((List.prefix_append ..).map _).trans htp') (by omega)
  simp only [Nat.zero_add, hlen] at hloopA
  have h₃' := h₃.perm (List.Perm.swap ..)
  generalize s₂.put a n₁ = s₃ at hloopA h₃'
  obtain ⟨n₂, hloopB, h₄⟩ := takeLeaf_runs (tk.set A.length key) (tp.set A.length (.record r))
    (cut (order - 1)) (E := (k', r') :: E₂) h₃' (by simpa [← hlen] using htk'.drop E₁.length)
    (by simpa [← hlen] using htp'.drop E₁.length) (by rw [List.length_cons]; omega)
  have hnew₀ : { s₃.mem new with numKeys := 0 } = s₃.mem new := by
    have hzero := (h₃'.holds _ (List.mem_cons_self ..)).numKeys
    simp only [pageKeys_leaf, List.map_nil, List.length_nil] at hzero
    rw [← hzero]
  rw [hnew₀, Slab.put_mem_eq, List.length_cons, hrest] at hloopB
  generalize s₃.put new n₂ = s₄ at hloopB h₄
  -- The links.
  have hold := h₄.holds (a, _) (List.mem_cons_of_mem _ (List.mem_cons_self ..))
  have ha₄ := h₄.lt (List.mem_cons_of_mem _ (List.mem_cons_self ..))
  obtain ⟨s₅, hnext₁, h₅⟩ := setNext_runs nx h₄
  obtain ⟨s₆, hnext₂, h₆⟩ := setNext_runs (some new) (h₅.perm (List.Perm.swap ..))
  -- The unused pointers, the parent and the key for the parent.
  have hm₆ := h₆.holds _ (List.mem_cons_self ..)
  have ha₆ := h₆.lt (List.mem_cons_self ..)
  obtain ⟨s₇, hclear₁, h₇⟩ := clearLeaf_runs (m := (s₆.mem a).numKeys) h₆ (by simpa using hm₆.numKeys)
  have h₇' := h₇.perm (List.Perm.swap ..)
  have hm₇ := h₇'.holds _ (List.mem_cons_self ..)
  have ha₇ := h₇'.lt (List.mem_cons_self ..)
  obtain ⟨s₈, hclear₂, h₈⟩ := clearLeaf_runs (m := (s₇.mem new).numKeys) h₇' (by simpa using hm₇.numKeys)
  obtain ⟨s₉, hparent, h₉⟩ := Holds.setParent h₈ q
  have hm₉ := h₉.holds _ (List.mem_cons_self ..)
  have ha₉ := h₉.lt (List.mem_cons_self ..)
  refine ⟨new, s₉, h₉.perm (List.Perm.swap ..), fun {root' s''} hrec => ?_⟩
  rw [hnum, hfull] at hscan
  refine Runs.bind hmake (Runs.bind hscan (Runs.bind (load_runs ha) ?_))
  rw [hnum]
  refine Runs.bind hcopyK (Runs.bind hcopyP (Runs.bind (setAt_runs hltK) (Runs.bind (setAt_runs hltP) ?_)))
  refine Runs.bind (modifyNode_runs ha) (Runs.bind hloopA (Runs.bind hloopB ?_))
  refine Runs.bind (getPtr_runs ha₄ (hold.next _ _ rfl)) (Runs.bind hnext₁ (Runs.bind hnext₂ ?_))
  refine Runs.bind (load_runs ha₆) (Runs.bind hclear₁ (Runs.bind (load_runs ha₇) (Runs.bind hclear₂ ?_)))
  rw [hm₆.parent]
  refine Runs.bind hparent (Runs.bind (getKey_runs ha₉ (getElem?_of_isPrefix hm₉.keys ?_)) hrec)
  simp [underParent]

end NuKSM.BTree
