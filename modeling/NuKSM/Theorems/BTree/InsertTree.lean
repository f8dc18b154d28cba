import NuKSM.Theorems.BTree.Split

/-! The insertion into a stored tree: what `insert_into_parent` makes of two nodes and what surrounds them, and
what an insertion makes of the leaf where its key belongs. -/

namespace NuKSM.BTree
open BPlus

variable {order : Nat} {s : Slab Node} {key : Key} {r : RecId} {L : List (NodeId × BptCell)} {D : List NodeId}

/-- How many keys the nodes of the benchmark's trees have. -/
def occupancy (order : Nat) : Bounds where
  min d := if d = 0 then cut (order - 1) else cut order - 1
  max := order - 1

/-- The search for a tree in the branch of its frame. -/
theorem scanFrame_runs {d : Nat} {f : BptFrame d} {l : BptTree d} {q : Option NodeId}
    (h : Holds order s (l.cells (some f.id) ++ ((f.id, ⟨f.page l.id, q⟩) :: (f.siblings ++ L))) D) :
    Runs (Prog.scanUp (fun i => do return decide ((← getPtr f.id i) ≠ .node l.id)) 0 ((s.mem f.id).numKeys + 1)) s
      f.lefts.length s := by
  have hmem : (f.id, (⟨f.page l.id, q⟩ : BptCell)) ∈
      l.cells (some f.id) ++ ((f.id, ⟨f.page l.id, q⟩) :: (f.siblings ++ L)) :=
    List.mem_append_right _ (List.mem_cons_self ..)
  have := scanChild_runs (B := f.lefts.map fun x => x.1.id) (h.lt hmem) (h.holds _ hmem) (by simp; omega) ?_
  · rwa [List.length_map] at this
  · -- The addresses of the siblings differ from that of `l`.
    intro hl
    obtain ⟨x, hx, hxl⟩ := List.mem_map.mp hl
    have hsib : (x.1.id, (⟨x.1.page, some f.id⟩ : BptCell)) ∈ f.siblings :=
      List.mem_append_left _ (List.mem_flatMap.mpr ⟨x, hx, List.mem_cons_self ..⟩)
    refine Slab.Owns.ne_of_middle (A := []) (x := (x.1.id, ⟨x.1.page, some f.id⟩)) h (Or.inr ?_) hxl
    exact List.mem_append_right _ (List.mem_cons_of_mem _ (List.mem_append_left _ hsib))

theorem map_underParent {d : Nat} {p q : Option NodeId} {us : List (BptTree d)} :
    (us.map (Tree.head p)).map (underParent q) = us.map (Tree.head q) := by
  rw [List.map_map]
  rfl

/-- A branch with a child too many, of which the memory holds all but that child, becomes two branches. -/
theorem splitBranch_runs {d : Nat} {b : Branch Key NodeId (BptTree d)} {q : Option NodeId}
    (insertIntoParent : IntoParent) (root : NodeId) {p c : NodeId} {k' : Key} {t : BptTree d} {R₁ R₂ : List (Key × BptTree d)}
    {K₁ K₂ : List Key} {B E : List NodeId}
    (horder : 3 ≤ order) (hdiv : b.rest = R₁ ++ (k', t) :: R₂) (hR₁ : R₁.length = cut order - 1)
    (hkeys : b.keys = K₁ ++ key :: K₂) (hids : b.children.map Tree.id = B ++ p :: c :: E) (hB : B.length = K₁.length)
    (hE : E.length = K₂.length) (hfull : (K₁ ++ K₂).length = order - 1)
    (h : Holds order s ((b.id, ⟨.branch (K₁ ++ K₂) (B ++ p :: E), q⟩) :: ((Tree.branch b).inner ++ L)) D) :
    ∃ new s', Holds order s' ((Tree.branch ⟨b.id, b.first, R₁⟩).cells q ++ ((Tree.branch ⟨new, t, R₂⟩).cells q ++ L)) D ∧
      ∀ {root' s''}, Runs (insertIntoParent root b.id k' new) s' root' s'' →
        Runs (insertIntoNodeAfterSplitting order insertIntoParent root b.id B.length key c) s root' s'' := by
  have hcut := cut_pos (m := order) (by omega)
  rw [Branch.keys_split hdiv] at hkeys
  rw [Branch.children_split hdiv, List.map_append] at hids
  have hinner : (Tree.branch b).inner.Perm ((t :: R₂.map Prod.snd).map (Tree.head (some b.id)) ++
      ((t :: R₂.map Prod.snd).flatMap Tree.inner ++ (b.first :: R₁.map Prod.snd).flatMap (Tree.cells (some b.id)))) := by
    rw [Tree.inner_branch, Branch.children_split hdiv, List.flatMap_append, ← List.append_assoc]
    exact List.perm_append_comm.trans (Tree.flatMap_cells.append_right _)
  have hlen : ((b.first :: R₁.map Prod.snd).map Tree.id).length = cut order := by
    simp only [List.length_map, List.length_cons]
    omega
  obtain ⟨new, s', h', hruns⟩ := splitNode_runs insertIntoParent root key k' (b := c)
    (u := (t :: R₂.map Prod.snd).map (Tree.head (some b.id)))
    (L := (t :: R₂.map Prod.snd).flatMap Tree.inner ++ (b.first :: R₁.map Prod.snd).flatMap (Tree.cells (some b.id)) ++ L)
    horder (h.perm (((hinner.append_right L).cons _).trans (by rw [List.append_assoc]))) hB hE hfull
    (by rw [← hkeys]; simp [← hR₁]) (by
      rw [← hids, List.drop_left' hlen]
      simp)
  have hdrop : (R₁.map Prod.fst ++ k' :: R₂.map Prod.fst).drop (cut order) = R₂.map Prod.fst := by
    rw [← List.singleton_append, ← List.append_assoc, List.drop_left' (by simp; omega)]
  rw [← hkeys, ← hids, List.take_left' (by simpa using hR₁), hdrop, List.take_left' hlen, List.drop_left' hlen,
    map_underParent] at h'
  refine ⟨new, s', h'.perm ?_, hruns⟩
  rw [List.perm_iff_count]
  intro x
  have hcells := (Tree.flatMap_cells (l := t :: R₂.map Prod.snd) (p := some new)).count_eq x
  simp only [Tree.cells_branch, Branch.keys, Branch.children, List.count_append, List.count_cons] at hcells ⊢
  rw [hcells]
  omega

/-- A whole tree that the memory holds. -/
structure Stored (order : Nat) (s : Slab Node) (D : List NodeId) (T : (d : Nat) × BptTree d) : Prop where
  holds : Holds order s (T.2.cells none) D
  rooted : T.2.Rooted (occupancy order)

/-- The parts of a tree make a whole tree. -/
theorem Stored.of_plug {d : Nat} {c : BptCtx d} {t : BptTree d} (h : Holds order s (t.cells c.parent ++ c.cells t.id) D)
    (hc : c.Sized (occupancy order)) (ht : t.SizedFrom (occupancy order) (c.least (occupancy order))) :
    Stored order s D (c.plug t) :=
  ⟨h.perm Ctx.cells_plug.symm, Ctx.rooted_plug.mpr ⟨hc, ht⟩⟩

/-- Two halves of a branch that was divided have enough keys. -/
theorem sized_halves {d : Nat} {b : Branch Key NodeId (BptTree d)} {R₁ R₂ : List (Key × BptTree d)} {k' : Key}
    {t : BptTree d} {i j : NodeId} (horder : 3 ≤ order) (hdiv : b.rest = R₁ ++ (k', t) :: R₂)
    (hlen : b.rest.length = order) (hR₁ : R₁.length = cut order - 1) (hb : ∀ v ∈ b.children, v.Sized (occupancy order)) :
    (Tree.branch ⟨i, b.first, R₁⟩).Sized (occupancy order) ∧ (Tree.branch ⟨j, t, R₂⟩).Sized (occupancy order) := by
  have hcut := cut_pos (m := order) (by omega)
  have hhalf := two_cut_le (m := order)
  have hR₂ : R₁.length + (R₂.length + 1) = order := by rw [← hlen, hdiv, List.length_append, List.length_cons]
  rw [Branch.children_split hdiv] at hb
  refine ⟨Tree.sizedFrom_branch.mpr ⟨?_, ?_, hb _ (by simp), fun x hx => hb _ ?_⟩,
    Tree.sizedFrom_branch.mpr ⟨?_, ?_, hb _ (by simp), fun x hx => hb _ ?_⟩⟩
  · exact hR₁.ge
  · show R₁.length ≤ order - 1
    omega
  · exact List.mem_append_left _ (List.mem_cons_of_mem _ (List.mem_map_of_mem hx))
  · show cut order - 1 ≤ R₂.length
    omega
  · show R₂.length ≤ order - 1
    omega
  · exact List.mem_append_right _ (List.mem_cons_of_mem _ (List.mem_map_of_mem hx))

/-- `insert_into_parent` puts a second node behind the first, and keeps what surrounds them. -/
theorem insertIntoParent_runs (horder : 3 ≤ order) : ∀ {d : Nat} {c : BptCtx d} {m : Nat} {l u : BptTree d} {k : Key}
    {s : Slab Node}, c.depth < m → l.Sized (occupancy order) → u.Sized (occupancy order) → c.Sized (occupancy order) →
    Holds order s (l.cells c.parent ++ (u.cells c.parent ++ c.cells l.id)) D →
    ∃ T s', Runs (insertIntoParent order m (c.root l.id) l.id k u.id) s T.2.id s' ∧ Stored order s' D T ∧
      T.2.fringe = c.before ++ l.fringe ++ .sep k :: u.fringe ++ c.after
  | _, _, 0, _, _, _, _, hm, _, _, _, _ => absurd hm (Nat.not_lt_zero _)
  | d, .top, m + 1, l, u, k, s, _, hl, hu, _, h => by
    have ha := h.lt (List.mem_cons_self ..)
    have hpar : (s.mem l.id).parent = none := (h.holds _ (List.mem_cons_self ..)).parent
    obtain ⟨a, s', hrun, h'⟩ := insertIntoNewRoot_runs k (x := l.head none) (y := u.head none)
      (L := l.inner ++ u.inner) horder (h.perm (by
        simp [Tree.cells, Ctx.cells, Ctx.parent]))
    refine ⟨⟨d + 1, .branch ⟨a, l, [(k, u)]⟩⟩, s', ?_, ⟨h'.perm ?_, Tree.sizedFrom_branch.mpr ⟨Nat.le_refl _, ?_, hl, ?_⟩⟩, ?_⟩
    · refine Runs.bind (load_runs ha) ?_
      rw [hpar]
      exact hrun
    · refine List.Perm.cons _ ?_
      simpa [Tree.cells, Tree.inner_branch, Branch.children, underParent, Tree.head] using
        (@List.perm_middle _ (u.head (some a)) l.inner u.inner).symm
    · show 1 ≤ order - 1
      omega
    · intro x hx
      rw [List.mem_singleton.mp hx]
      exact hu
    · simp [Tree.fringe_branch, Ctx.before, Ctx.after]
  | d, .up f c, m + 1, l, u, k, s, hm, hl, hu, ⟨hf, hmin, hmax, hc⟩, h => by
    have ha := h.lt (List.mem_cons_self ..)
    have hpar : (s.mem l.id).parent = some f.id := (h.holds _ (List.mem_cons_self ..)).parent
    have hmem : (f.id, (⟨f.page l.id, c.parent⟩ : BptCell)) ∈
        l.cells (some f.id) ++ (u.cells (some f.id) ++ ((f.id, ⟨f.page l.id, c.parent⟩) :: (f.siblings ++ c.cells f.id))) :=
      List.mem_append_right _ (List.mem_append_right _ (List.mem_cons_self ..))
    have hpa := h.lt hmem
    have hpm := h.holds _ hmem
    have hnum : (s.mem f.id).numKeys = f.count := by simpa [Frame.page, Frame.count] using hpm.numKeys
    have hleft := scanFrame_runs (f := f) (l := l) (q := c.parent) (s := s) (D := D) (L := u.cells (some f.id) ++ c.cells f.id)
      (h.perm (by
        rw [List.perm_iff_count]
        intro x
        simp only [Ctx.cells, Ctx.parent, List.count_append, List.count_cons]
        omega))
    have hptr : (pagePtrs (f.page l.id))[f.lefts.length]? = some (.node l.id) := by simp [Frame.page]
    -- The code up to the choice between the two insertions.
    suffices hstep : ∃ T s', Runs (if f.count < order - 1 then insertIntoNode (c.root f.id) f.id f.lefts.length k u.id
        else insertIntoNodeAfterSplitting order (insertIntoParent order m) (c.root f.id) f.id f.lefts.length k u.id)
        s T.2.id s' ∧ Stored order s' D T ∧
        T.2.fringe = (c.before ++ f.before) ++ l.fringe ++ .sep k :: u.fringe ++ (f.after ++ c.after) by
      obtain ⟨T, s', hrun, hrest⟩ := hstep
      refine ⟨T, s', Runs.bind (load_runs ha) ?_, hrest⟩
      rw [hpar]
      refine Runs.bind (Runs.bind (load_runs hpa) hleft) (Runs.bind (load_runs hpa)
        (Runs.bind (getPtr_runs hpa (getElem?_of_isPrefix hpm.pointers hptr)) ?_))
      refine Runs.bind (Runs.guardOr ?_) ?_
      · rw [hnum]
        simp [Frame.count]
      · rw [hnum]
        exact hrun
    have hsize := Frame.sized_behind (k := k).mpr ⟨hf, hl⟩
    have hids : ((f.behind l k).fill u).children.map Tree.id =
        (f.lefts.map fun x => x.1.id) ++ l.id :: u.id :: f.rights.map fun x => x.2.id := by
      rw [Frame.children_behind, List.map_append, List.map_cons, List.map_cons, List.map_map, List.map_map]
      rfl
    have h₁ : Holds order s ((f.id, ⟨f.page l.id, c.parent⟩) ::
        ((Tree.branch ((f.behind l k).fill u)).inner ++ c.cells f.id)) D := h.perm (by
      rw [List.perm_iff_count]
      intro x
      have hinner := (Frame.inner_behind (f := f) (l := l) (u := u) (k := k)).count_eq x
      simp only [Ctx.cells, Ctx.parent, List.count_append, List.count_cons] at hinner ⊢
      omega)
    by_cases hroom : f.count < order - 1
    · -- The parent has room.
      obtain ⟨s', hrun, h'⟩ := insertIntoNode_runs (c.root f.id) k u.id h₁ (by simp) (by simp)
        (by simpa [Frame.count] using hroom)
      rw [List.length_map] at hrun
      refine ⟨c.plug (.branch ((f.behind l k).fill u)), s', ?_, Stored.of_plug ?_ hc ?_, ?_⟩
      · rw [if_pos hroom, Ctx.id_plug, Tree.id_branch, Frame.fill, Branch.fill_id]
        exact hrun
      · rw [Tree.cells, Tree.head, Frame.page_fill, Frame.page_behind, Tree.id_branch, Frame.fill, Branch.fill_id]
        exact h'
      · exact Frame.sizedFrom_fill.mpr ⟨by rw [Frame.count_behind]; omega, by rw [Frame.count_behind]; exact hroom, hsize, hu⟩
      · rw [Ctx.fringe_plug, Frame.fringe_behind]
        simp
    · -- The parent is full.
      have hfull : f.count = order - 1 := Nat.le_antisymm hmax (Nat.not_lt.mp hroom)
      have hlen : ((f.behind l k).fill u).rest.length = order := by
        have hcount : ((f.behind l k).fill u).rest.length = (f.behind l k).count := Branch.length_fill_rest
        rw [hcount, Frame.count_behind, hfull]
        omega
      have hcut := cut_lt (m := order) (by omega)
      have hlt : cut order - 1 < ((f.behind l k).fill u).rest.length := by omega
      have hdiv := (List.take_append_drop (cut order - 1) ((f.behind l k).fill u).rest).symm
      rw [List.drop_eq_getElem_cons hlt] at hdiv
      have hR₁ := List.length_take_of_le (Nat.le_of_lt hlt)
      have hid : ((f.behind l k).fill u).id = f.id := Branch.fill_id
      obtain ⟨new, s₁, h₂, hsplit⟩ := splitBranch_runs (insertIntoParent order m)
        (c.root f.id) horder hdiv hR₁ Frame.keys_behind hids (by simp) (by simp)
        (by simpa [Frame.count] using hfull) (by rw [hid]; exact h₁)
      obtain ⟨hl', hu'⟩ := sized_halves (i := f.id) (j := new) horder hdiv hlen hR₁ (by
        rw [Frame.children_behind]
        intro v hv
        simp only [List.mem_append, List.mem_cons, List.mem_map] at hv
        rcases hv with ⟨x, hx, rfl⟩ | rfl | rfl | ⟨x, hx, rfl⟩
        · exact hf.1 x hx
        · exact hl
        · exact hu
        · exact hf.2 x hx)
      rw [hid] at h₂ hsplit
      obtain ⟨T, s', hrun, hstored, hfringe⟩ := insertIntoParent_runs horder (Nat.lt_of_succ_lt_succ hm) hl' hu' hc h₂
      rw [List.length_map] at hsplit
      refine ⟨T, s', ?_, hstored, hfringe.trans ?_⟩
      · rw [if_neg hroom]
        exact hsplit hrun
      · have hrow := Tree.fringe_split (i := f.id) (j := new) hdiv
        rw [Frame.fringe_behind] at hrow
        simpa using congrArg (fun x => c.before ++ x ++ c.after) hrow.symm

/-- The two halves of a leaf that was divided have enough keys. -/
theorem sized_leaves {A B : List (Key × RecId)} {i j : NodeId} {x y : Option NodeId} (horder : 3 ≤ order)
    (hlen : A.length + B.length = order) (hE₁ : A.length = cut (order - 1)) :
    (Tree.leaf ⟨i, A, x⟩ : BptTree 0).Sized (occupancy order) ∧
      (Tree.leaf ⟨j, B, y⟩ : BptTree 0).Sized (occupancy order) := by
  have hcut := cut_pos (m := order - 1) (by omega)
  have hcut' := cut_lt (m := order - 1) (by omega)
  have hhalf := two_cut_le (m := order - 1)
  refine ⟨Tree.sizedFrom_leaf.mpr ⟨hE₁.ge, ?_⟩, Tree.sizedFrom_leaf.mpr ⟨?_, ?_⟩⟩
  · show A.length ≤ order - 1
    omega
  · show cut (order - 1) ≤ B.length
    omega
  · show B.length ≤ order - 1
    omega

/-- The insertion of a new entry into the leaf where it belongs. -/
theorem insertEntry_runs {c : BptCtx 0} {l : BptLeaf} {A C : List (Key × RecId)} (horder : 3 ≤ order)
    (hl : l.entries = A ++ C) (hA : ∀ e ∈ A, e.1 < key) (hC : ∀ e ∈ C, key < e.1)
    (h : Stored order s D (c.plug (.leaf l))) :
    ∃ T s', Runs (insertEntry order (c.root l.id) l.id key r) s T.2.id s' ∧ Stored order s' D T ∧
      Regroups (c.before ++ .leaf ⟨l.id, A ++ (key, r) :: C, l.next⟩ :: c.after) T.2.fringe := by
  obtain ⟨hc, hsize⟩ := Ctx.rooted_plug.mp h.rooted
  have h₀ : Holds order s ((l.id, ⟨.leaf (A ++ C) l.next, c.parent⟩) :: c.cells l.id) D := hl ▸ h.holds.perm Ctx.cells_plug
  have ha := h₀.lt (List.mem_cons_self ..)
  have hnum : (s.mem l.id).numKeys = (A ++ C).length := by simpa using (h₀.holds _ (List.mem_cons_self ..)).numKeys
  rw [Tree.sizedFrom_leaf, hl] at hsize
  obtain ⟨hmin, hmax⟩ := hsize
  by_cases hroom : (A ++ C).length < order - 1
  · -- The leaf has room.
    obtain ⟨s', hrun, h'⟩ := insertIntoLeaf_runs (r := r) h₀ hroom hA hC
    refine ⟨c.plug (.leaf ⟨l.id, A ++ (key, r) :: C, l.next⟩), s', ?_, Stored.of_plug h' hc (Tree.sizedFrom_leaf.mpr ⟨?_, ?_⟩), ?_⟩
    · refine Runs.bind (load_runs ha) ?_
      rw [hnum, if_pos hroom, Ctx.id_plug]
      exact Runs.bind hrun Runs.pure
    · simp only [List.length_append, List.length_cons] at hmin ⊢
      omega
    · show (A ++ (key, r) :: C).length ≤ order - 1
      simp only [List.length_append, List.length_cons] at hroom ⊢
      omega
    · rw [Ctx.fringe_plug]
      simpa using Regroups.refl
  · -- The leaf is full.
    have hfull : (A ++ C).length = order - 1 := Nat.le_antisymm hmax (Nat.not_lt.mp hroom)
    have hlen : (A ++ (key, r) :: C).length = order := by
      simp only [List.length_append, List.length_cons] at hfull ⊢
      omega
    have hcut := cut_lt (m := order - 1) (by omega)
    have hcut' := cut_pos (m := order - 1) (by omega)
    have hlt : cut (order - 1) < (A ++ (key, r) :: C).length := by omega
    have hdiv := (List.take_append_drop (cut (order - 1)) (A ++ (key, r) :: C)).symm
    rw [List.drop_eq_getElem_cons hlt] at hdiv
    have hE₁ := List.length_take_of_le (Nat.le_of_lt hlt)
    generalize (A ++ (key, r) :: C).take (cut (order - 1)) = E₁ at hdiv hE₁
    generalize (A ++ (key, r) :: C).drop (cut (order - 1) + 1) = E₂ at hdiv
    generalize (A ++ (key, r) :: C)[cut (order - 1)] = e at hdiv
    obtain ⟨k', r'⟩ := e
    obtain ⟨new, s₁, h₁, hsplit⟩ := splitLeaf_runs (c.root l.id) horder h₀ hfull hA hC hdiv hE₁
    obtain ⟨hl', hu'⟩ := sized_leaves (B := (k', r') :: E₂) (i := l.id) (j := new) (x := some new) (y := l.next) horder
      (by rw [← List.length_append, ← hdiv, hlen]) hE₁
    have hdepth : c.depth < s₁.brk + 1 := by
      have hlen₁ := h₁.length_le
      have := Ctx.depth_le (c := c) (i := l.id)
      simp only [List.length_cons] at hlen₁
      omega
    obtain ⟨T, s', hrun, hstored, hfringe⟩ := insertIntoParent_runs (k := k') horder hdepth hl' hu' hc
      (l := .leaf ⟨l.id, E₁, some new⟩) (u := .leaf ⟨new, (k', r') :: E₂, l.next⟩) h₁
    refine ⟨T, s', ?_, hstored, ?_⟩
    · refine Runs.bind (load_runs ha) ?_
      rw [hnum, if_neg hroom]
      exact hsplit (Runs.bind fuel_runs hrun)
    · have hne : E₁ ≠ [] := List.ne_nil_of_length_pos (by omega)
      have hreg := Regroups.split (X := c.before) (Y := c.after) (l := ⟨l.id, A ++ (key, r) :: C, l.next⟩)
        (a := ⟨l.id, E₁, some new⟩) (b := ⟨new, (k', r') :: E₂, l.next⟩) hdiv hne rfl rfl rfl rfl rfl
      rw [hfringe]
      simpa using hreg

end NuKSM.BTree
