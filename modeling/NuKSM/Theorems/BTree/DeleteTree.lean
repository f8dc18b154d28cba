import NuKSM.Theorems.BTree.Repair

/-! The deletion from a stored tree: what `delete_entry` makes of a node that has lost an entry and of what surrounds
it, up to the root. -/

namespace NuKSM.BTree
open BPlus

variable {order : Nat} {s : Slab Node} {L : List (NodeId × BptCell)} {D : List NodeId} {d : Nat}

/-- What the root pointer leads to: a tree, or nothing. -/
abbrev BptRoot := Option ((d : Nat) × BptTree d)

namespace BptRoot

def id (T : BptRoot) : Option NodeId := T.map fun t => t.2.id

def cells (T : BptRoot) : List (NodeId × BptCell) := T.elim [] fun t => t.2.cells none

def fringe (T : BptRoot) : List BptItem := T.elim [] fun t => t.2.fringe

end BptRoot

/-- The tree of a root pointer is stored, whole. -/
structure Kept (order : Nat) (s : Slab Node) (D : List NodeId) (T : BptRoot) : Prop where
  holds : Holds order s T.cells D
  rooted : ∀ t ∈ T, t.2.Rooted (occupancy order)

theorem Stored.kept {T : (d : Nat) × BptTree d} (h : Stored order s D T) : Kept order s D (some T) :=
  ⟨h.holds, fun t ht => by
    obtain rfl := Option.mem_some_iff.mp ht
    exact h.rooted⟩

theorem Kept.stored {T : (d : Nat) × BptTree d} (h : Kept order s D (some T)) : Stored order s D T :=
  ⟨h.holds, h.rooted T rfl⟩

/-! ### The root -/

theorem numKeys_eq {n : Node} {t : BptTree d} {q : Option NodeId} (h : Matches order n ⟨t.page, q⟩) : n.numKeys = t.count := by
  rw [h.numKeys]
  cases d with
  | zero => simp [Tree.page, Tree.count]
  | succ d => simp [Tree.page, Tree.count, Branch.keys]

/-- `adjust_root` keeps a root with a key, and takes away one without. -/
theorem adjustRoot_runs (horder : 3 ≤ order) {t : BptTree d} (ht : t.SizedFrom (occupancy order) 0)
    (h : Holds order s (t.cells none) D) :
    ∃ (T : BptRoot) (s' : Slab Node), Runs (adjustRoot t.id) s T.id s' ∧ Kept order s' D T ∧ Regroups t.fringe T.fringe := by
  have ha := h.lt (List.mem_cons_self ..)
  have hm : Matches order (s.mem t.id) ⟨t.page, none⟩ := h.holds _ (List.mem_cons_self ..)
  by_cases hpos : 0 < t.count
  · refine ⟨some ⟨d, t⟩, s, Runs.bind (load_runs ha) (Runs.ite_pos ?_ Runs.pure), Stored.kept ⟨h, ht.mono hpos⟩, Regroups.refl⟩
    rwa [numKeys_eq hm]
  · have hnum : ¬(s.mem t.id).numKeys > 0 := by
      rwa [numKeys_eq hm]
    cases d with
    | zero =>
      obtain ⟨s₁, s', hfree, hnode, h'⟩ := freeNode_runs (Slab.Owns.drop (c := ⟨t.page, none⟩) h)
      refine ⟨none, s', Runs.bind (load_runs ha) (Runs.ite_neg hnum (Runs.ite_pos hm.isLeaf ?_)), ⟨h', nofun⟩, ⟨?_, ?_⟩⟩
      · exact Runs.bind hfree (Runs.bind hnode Runs.pure)
      · have hnil : t.toLeaf.entries = [] := List.eq_nil_of_length_eq_zero (Nat.eq_zero_of_not_pos hpos)
        simp [BptRoot.fringe, Tree.fringe, hnil]
      · exact fun _ => ⟨List.Pairwise.nil, trivial⟩
    | succ d =>
      have hnil : t.toBranch.rest = [] := List.eq_nil_of_length_eq_zero (Nat.eq_zero_of_not_pos hpos)
      have hchild : (s.mem t.id).pointers[0]? = some (.node t.toBranch.first.id) :=
        getElem?_of_isPrefix hm.pointers (by simp [Tree.page, Branch.children])
      have h₀ : Holds order s (t.toBranch.first.head (some t.id) :: t.head none :: t.toBranch.first.inner) D := by
        refine h.perm (List.Perm.trans ?_ (List.Perm.swap ..))
        simp [Tree.cells, Tree.inner, Branch.children, hnil]
      obtain ⟨s₁, hparent, h₁⟩ := Holds.setParent h₀ none
      obtain ⟨s₂, s', hfree, hnode, h'⟩ := freeNode_runs (Slab.Owns.drop (h₁.perm (List.Perm.swap ..)))
      obtain ⟨-, -, hsized, -⟩ := Tree.sizedFrom_branch.mp ht
      refine ⟨some ⟨d, t.toBranch.first⟩, s', ?_, Stored.kept ⟨h', hsized.mono ?_⟩, ?_⟩
      · refine Runs.bind (load_runs ha) (Runs.ite_neg hnum (Runs.ite_neg (ne_true_of_eq_false hm.isLeaf) ?_))
        refine Runs.bind (getPtr_runs ha hchild) (Runs.bind asNode_runs (Runs.bind hparent ?_))
        exact Runs.bind hfree (Runs.bind hnode Runs.pure)
      · exact Nat.le_trans (min_pos horder) hsized.le_count
      · have hrow : t.fringe = t.toBranch.first.fringe := by
          simp [Tree.fringe, hnil]
        rw [hrow]
        exact Regroups.refl

/-! ### Below the root -/

theorem Ctx.root_mem {i : NodeId} : ∀ {d : Nat} {c : BptCtx (d + 1)} {f : BptFrame d},
    ∃ cell, ((Ctx.up f c).root i, cell) ∈ (Ctx.up f c).cells i
  | _, .top, _ => ⟨_, List.mem_cons_self ..⟩
  | _, .up g c, f => by
    obtain ⟨cell, h⟩ := Ctx.root_mem (c := c) (f := g) (i := f.id)
    exact ⟨cell, List.mem_cons_of_mem _ (List.mem_append_right _ h)⟩

/-- A node below the root is not the root. -/
theorem ne_root {t : BptTree d} {f : BptFrame d} {c : BptCtx (d + 1)}
    (h : Holds order s (t.cells (some f.id) ++ (Ctx.up f c).cells t.id) D) : t.id ≠ c.root f.id := by
  obtain ⟨cell, hmem⟩ := Ctx.root_mem (c := c) (f := f) (i := t.id)
  exact (Slab.Owns.ne_of_middle (A := []) (x := (c.root f.id, cell)) h (Or.inr (List.mem_append_right _ hmem))).symm

/-- A separator differs from those before it. -/
theorem separator_ne {f : BptFrame d} {k : Key} {X Y Z : List BptItem} (h : Good (X ++ f.before ++ Y ++ .sep k :: Z)) :
    k ∉ f.lefts.map Prod.snd := by
  intro hk
  obtain ⟨x, hx, rfl⟩ := List.mem_map.mp hk
  have hord := h.ordered
  unfold Ordered at hord
  rw [marks_append, marks_sep] at hord
  have hbefore : sepMark x.2 ∈ marks (X ++ f.before ++ Y) := by
    rw [marks_append, marks_append]
    refine List.mem_append_left _ (List.mem_append_right _ ?_)
    exact List.mem_flatMap.mpr ⟨.sep x.2, List.mem_flatMap.mpr ⟨x, hx, by simp⟩, by simp [Item.marks]⟩
  exact absurd ((List.pairwise_append.mp hord).2.2 _ hbefore _ (List.mem_cons_self ..)) (lt_irrefl _)

/-- The branch of a frame loses the right one of two neighbours, which is no longer stored. -/
theorem removeChild_runs {f : BptFrame d} {l : BptTree d} {k : Key} {b : NodeId} {q : Option NodeId}
    (h : Holds order s ((f.id, ⟨(f.behind l k).page b, q⟩) :: (l.cells (some f.id) ++ (f.siblings ++ L))) (b :: D))
    (hk : k ∉ f.lefts.map Prod.snd) :
    ∃ s', Runs (removeEntryFromNode order f.id k (.node b)) s f.id s' ∧
      Holds order s' ((f.id, ⟨f.page l.id, q⟩) :: (l.cells (some f.id) ++ (f.siblings ++ L))) (b :: D) := by
  have hb : b ∉ (f.lefts.map fun x => x.1.id) ++ [l.id] := by
    -- The addresses that are listed differ from those that are not.
    have hdisj := (List.nodup_append.mp h.pool.nodup).2.2
    intro hmem
    refine hdisj b ?_ b (List.mem_cons_self ..) rfl
    rw [List.map_cons, List.map_append, List.map_append]
    rcases List.mem_append.mp hmem with hmem | hmem
    · obtain ⟨x, hx, rfl⟩ := List.mem_map.mp hmem
      refine List.mem_cons_of_mem _ (List.mem_append_right _ (List.mem_append_left _ (List.mem_map.mpr ⟨x.1.head (some f.id), ?_, rfl⟩)))
      exact List.mem_append_left _ (List.mem_flatMap.mpr ⟨x, hx, List.mem_cons_self ..⟩)
    · rw [List.mem_singleton.mp hmem]
      exact List.mem_cons_of_mem _ (List.mem_append_left _ (List.mem_cons_self ..))
  rw [Frame.page_behind] at h
  obtain ⟨s', hrun, h'⟩ := removeFromBranch_runs (a := f.id) (p := b) (K := f.lefts.map Prod.snd)
    (J := f.rights.map Prod.fst) (B := (f.lefts.map fun x => x.1.id) ++ [l.id]) (E := f.rights.map fun x => x.2.id) (q := q)
    (by simpa using h) (by simp) (by simp) hk hb
  exact ⟨s', hrun, by simpa [Frame.page] using h'⟩

/-- What `delete_entry` does at the place of a context: the tree that is left there is put in order with all that
    surrounds it. -/
def Deletes (order : Nat) (c : BptCtx d) (m : Nat) : Prop :=
  ∀ ⦃t : BptTree d⦄ ⦃k : Key⦄ ⦃x : Ptr⦄ ⦃s s' : Slab Node⦄ ⦃D : List NodeId⦄,
    t.SizedFrom (occupancy order) (c.least (occupancy order) - 1) → Good (c.before ++ t.fringe ++ c.after) →
    Runs (removeEntryFromNode order t.id k x) s t.id s' → Holds order s' (t.cells c.parent ++ c.cells t.id) D →
    ∃ (T : BptRoot) (s'' : Slab Node), Runs (deleteEntry order m (c.root t.id) t.id k x) s T.id s'' ∧ Kept order s'' D T ∧
      Regroups (c.before ++ t.fringe ++ c.after) T.fringe

/-- Two neighbours become one, and their parent loses the other. -/
theorem coalesceInto_runs {f : BptFrame d} {c : BptCtx (d + 1)} {l r : BptTree d} {k : Key} {m i j : Nat}
    (IH : Deletes order c m) (hl : l.SizedFrom (occupancy order) i) (hr : r.SizedFrom (occupancy order) j)
    (hmin : (occupancy order).min d ≤ l.count + r.count) (hfit : l.count + r.count < capacity order d)
    (hf : f.Sized (occupancy order)) (hleast : c.least (occupancy order) ≤ f.count + 1)
    (hmost : f.count + 1 ≤ (occupancy order).max)
    (hgood : Good (c.before ++ f.before ++ l.fringe ++ .sep k :: r.fringe ++ (f.after ++ c.after)))
    (h : Holds order s (l.cells (some f.id) ++ (r.cells (some f.id) ++ ((f.id, ⟨(f.behind l k).page r.id, c.parent⟩) ::
      (f.siblings ++ c.cells f.id)))) D) :
    ∃ (T : BptRoot) (s' : Slab Node),
      Runs (coalesceInto order (deleteEntry order m) (c.root f.id) r.id l.id k) s T.id s' ∧ Kept order s' D T ∧
      Regroups (c.before ++ f.before ++ l.fringe ++ .sep k :: r.fringe ++ (f.after ++ c.after)) T.fringe := by
  have hr₀ := h.lt (a := r.id) (c := ⟨r.page, some f.id⟩) (List.mem_append_right _ (List.mem_append_left _ (List.mem_cons_self ..)))
  obtain ⟨w, s₁, happend, hw⟩ := append_coalesces (k := k) hl hr hmin hfit h
  obtain ⟨page, h₁⟩ := hw.holds
  have hmem : (r.id, (⟨page, some f.id⟩ : BptCell)) ∈ w.cells (some f.id) ++ ((r.id, ⟨page, some f.id⟩) ::
      ((f.id, ⟨(f.behind l k).page r.id, c.parent⟩) :: (f.siblings ++ c.cells f.id))) :=
    List.mem_append_right _ (List.mem_cons_self ..)
  have hr₁ := h₁.lt hmem
  have hparent := (h₁.holds _ hmem).parent
  have hpage : (f.behind l k).page r.id = (f.behind w k).page r.id := by
    rw [Frame.page_behind, Frame.page_behind, hw.id]
  rw [hpage] at h₁
  -- The parent loses the node that was appended.
  have hk : k ∉ f.lefts.map Prod.snd := separator_ne (X := c.before) (Y := l.fringe) (Z := r.fringe ++ (f.after ++ c.after))
    (by simpa using hgood)
  obtain ⟨s₂, hremove, h₂⟩ := removeChild_runs (L := c.cells f.id) (Slab.Owns.drop (h₁.perm (by
    rw [List.perm_iff_count]
    intro x
    simp only [List.count_append, List.count_cons]
    omega : List.Perm _ ((r.id, ⟨page, some f.id⟩) :: (f.id, ⟨(f.behind w k).page r.id, c.parent⟩) ::
      (w.cells (some f.id) ++ (f.siblings ++ c.cells f.id)))))) hk
  have hrow : (Tree.branch (f.fill w)).fringe = f.before ++ w.fringe ++ f.after := Frame.fringe_fill
  have hreg := hw.regroups (c.before ++ f.before) (f.after ++ c.after)
  have hid : (Tree.branch (f.fill w)).id = f.id := Branch.fill_id
  obtain ⟨T, s₃, hdelete, hkept, hreg'⟩ := IH (t := .branch (f.fill w)) (k := k) (x := .node r.id)
    (D := r.id :: D) (Frame.sizedFrom_fill.mpr ⟨by omega, by omega, hf, hw.sized⟩)
    (by
      rw [hrow]
      simpa using hreg.good hgood)
    (by rwa [hid]) (h₂.perm (by
      rw [List.perm_iff_count]
      intro x
      have e := (Frame.cells_fill (f := f) (t := w) (p := c.parent)).count_eq x
      rw [hid]
      simp only [List.count_append, List.count_cons] at e ⊢
      omega))
  obtain ⟨s₄, s', hfree, hnode, h'⟩ := freeNode_runs hkept.holds
  refine ⟨T, s', ?_, ⟨h', hkept.rooted⟩, ?_⟩
  · rw [hid] at hdelete
    refine Runs.bind (load_runs hr₀) (Runs.bind happend (Runs.bind (load_runs hr₁) (Runs.bind (Runs.orFault hparent) ?_)))
    exact Runs.bind hdelete (Runs.bind hfree (Runs.bind hnode Runs.pure))
  · rw [hrow] at hreg'
    exact hreg.trans (by simpa using hreg')

/-- After neighbours have shared their entries the whole tree is in order. -/
theorem Shared.kept {f : BptFrame d} {c : BptCtx (d + 1)} {i j : NodeId} {X Y row : List BptItem} (hf : f.Sized (occupancy order))
    (hleast : c.least (occupancy order) ≤ f.count + 1) (hmost : f.count + 1 ≤ (occupancy order).max)
    (hc : c.Sized (occupancy order)) (hX : X = c.before ++ f.before) (hY : Y = f.after ++ c.after)
    (h : Shared order d s (f.siblings ++ c.cells f.id) D f.id i j c.parent (f.lefts.map Prod.snd) (f.rights.map Prod.fst)
      ((f.lefts.map fun x => x.1.id) ++ i :: j :: f.rights.map fun x => x.2.id) X Y row) :
    ∃ T : BptRoot, T.id = some (c.root f.id) ∧ Kept order s D T ∧ Regroups row T.fringe := by
  obtain ⟨l, r, k, hholds, rfl, rfl, hl, hr, hreg⟩ := h
  have hid : (Tree.branch ((f.behind l k).fill r)).id = f.id := Branch.fill_id
  refine ⟨some (c.plug (.branch ((f.behind l k).fill r))), ?_, Stored.kept (Stored.of_plug ?_ hc ?_), ?_⟩
  · rw [BptRoot.id, Option.map_some, Ctx.id_plug, hid]
  · rw [← Frame.page_behind (f := f) (l := l) (k := k)] at hholds
    refine hholds.perm ?_
    rw [hid, List.perm_iff_count]
    intro x
    have e := (Frame.cells_behind (f := f) (l := l) (u := r) (k := k) (p := c.parent)).count_eq x
    simp only [List.count_append, List.count_cons] at e ⊢
    omega
  · exact Frame.sizedFrom_fill.mpr ⟨by rw [Frame.count_behind]; exact hleast, by rw [Frame.count_behind]; exact hmost,
      Frame.sized_behind.mpr ⟨hf, hl⟩, hr⟩
  · rw [BptRoot.fringe, Option.elim_some, Ctx.fringe_plug, Frame.fringe_behind]
    simpa [hX, hY] using hreg

/-! ### The choice of a neighbour -/

theorem neighborIndex_succ {i : Nat} (h : i < 2 ^ 64) : (i + 1 + leftmostIndex) % 2 ^ 64 = i := by
  have hwrap : i + 1 + leftmostIndex = i + 2 ^ 64 := by
    unfold leftmostIndex
    omega
  rw [hwrap, Nat.add_mod_right, Nat.mod_eq_of_lt h]

theorem getNeighborIndex_runs {f : BptFrame d} {t : BptTree d} {q : Option NodeId}
    (h : Holds order s (t.cells (some f.id) ++ ((f.id, ⟨f.page t.id, q⟩) :: (f.siblings ++ L))) D) :
    Runs (getNeighborIndex t.id) s ((f.lefts.length + leftmostIndex) % 2 ^ 64) s := by
  have hmem : (f.id, (⟨f.page t.id, q⟩ : BptCell)) ∈
      t.cells (some f.id) ++ ((f.id, ⟨f.page t.id, q⟩) :: (f.siblings ++ L)) :=
    List.mem_append_right _ (List.mem_cons_self ..)
  have hnum : (s.mem f.id).numKeys = f.count := by
    simpa [Frame.page, Frame.count] using (h.holds _ hmem).numKeys
  refine Runs.bind (load_runs (h.lt (List.mem_cons_self ..))) ?_
  refine Runs.bind (Runs.orFault (h.holds _ (List.mem_cons_self ..)).parent) (Runs.bind (load_runs (h.lt hmem)) ?_)
  refine Runs.bind (scanFrame_runs h) (Runs.ite_neg ?_ Runs.pure)
  rw [hnum, Frame.count]
  omega

/-- `repair` up to the choice between the two ways. -/
theorem repair_runs {deleteEntry : EntryDeletion} {root n p u : NodeId} {idx : Nat} {k : Key} {T : Option NodeId}
    {s' : Slab Node} (hn : n < s.brk) (hp : p < s.brk) (hu : u < s.brk) (hparent : (s.mem n).parent = some p)
    (hidx : Runs (getNeighborIndex n) s idx s)
    (hkey : (s.mem p).keys[if idx = leftmostIndex then 0 else idx]? = some k)
    (hptr : (s.mem p).pointers[if idx = leftmostIndex then 1 else idx]? = some (.node u))
    (hrun : Runs (if (s.mem u).numKeys + (s.mem n).numKeys < (if (s.mem n).isLeaf then order else order - 1)
      then coalesceNodes order deleteEntry root n u idx k
      else redistributeNodes root n u idx (if idx = leftmostIndex then 0 else idx) k) s T s') :
    Runs (repair order deleteEntry root n) s T s' := by
  refine Runs.bind hidx (Runs.bind (load_runs hn) (Runs.bind (Runs.orFault hparent) ?_))
  refine Runs.bind (getKey_runs hp hkey) (Runs.bind (getPtr_runs hp hptr) (Runs.bind asNode_runs ?_))
  exact Runs.bind (load_runs hu) hrun

theorem minKeys_eq {n : Node} {t : BptTree d} {q : Option NodeId} (h : Matches order n ⟨t.page, q⟩) :
    (if n.isLeaf then cut (order - 1) else cut order - 1) = (occupancy order).min d := by
  rw [h.isLeaf]
  cases d with
  | zero => rfl
  | succ d => rfl

theorem capacity_eq {n : Node} {t : BptTree d} {q : Option NodeId} (h : Matches order n ⟨t.page, q⟩) :
    (if n.isLeaf then order else order - 1) = capacity order d := by
  rw [h.isLeaf]
  cases d with
  | zero => rfl
  | succ d => rfl

section
variable {f : BptFrame d} {c : BptCtx (d + 1)} {l r : BptTree d} {k : Key} {m : Nat}

/-- Two subtrees and the node above them are carved, and hold what they hold. -/
theorem Holds.family {cell : BptCell} {L : List (NodeId × BptCell)} {q : Option NodeId} (h : Holds order s
    (l.cells q ++ (r.cells q ++ ((f.id, cell) :: L))) D) :
    (l.id < s.brk ∧ r.id < s.brk ∧ f.id < s.brk) ∧
      Matches order (s.mem l.id) ⟨l.page, q⟩ ∧ Matches order (s.mem r.id) ⟨r.page, q⟩ ∧ Matches order (s.mem f.id) cell := by
  have hl : (l.id, (⟨l.page, q⟩ : BptCell)) ∈ l.cells q ++ (r.cells q ++ ((f.id, cell) :: L)) := List.mem_cons_self ..
  have hr : (r.id, (⟨r.page, q⟩ : BptCell)) ∈ l.cells q ++ (r.cells q ++ ((f.id, cell) :: L)) :=
    List.mem_append_right _ (List.mem_append_left _ (List.mem_cons_self ..))
  have hf : (f.id, cell) ∈ l.cells q ++ (r.cells q ++ ((f.id, cell) :: L)) :=
    List.mem_append_right _ (List.mem_append_right _ (List.mem_cons_self ..))
  exact ⟨⟨h.lt hl, h.lt hr, h.lt hf⟩, h.holds _ hl, h.holds _ hr, h.holds _ hf⟩

/-- A node with too few keys is put in order with its left neighbour. -/
theorem repair_right_runs (horder : 3 ≤ order) (hbound : order < 2 ^ 64) (IH : Deletes order c m)
    (hl : l.Sized (occupancy order)) (hr : r.SizedFrom (occupancy order) ((occupancy order).min d - 1))
    (hlt : r.count < (occupancy order).min d) (hf : f.Sized (occupancy order))
    (hleast : c.least (occupancy order) ≤ f.count + 1) (hmost : f.count + 1 ≤ (occupancy order).max)
    (hc : c.Sized (occupancy order))
    (hgood : Good (c.before ++ f.before ++ l.fringe ++ .sep k :: r.fringe ++ (f.after ++ c.after)))
    (h : Holds order s (l.cells (some f.id) ++ (r.cells (some f.id) ++ ((f.id, ⟨(f.behind l k).page r.id, c.parent⟩) ::
      (f.siblings ++ c.cells f.id)))) D) :
    ∃ (T : BptRoot) (s' : Slab Node), Runs (repair order (deleteEntry order m) (c.root f.id) r.id) s T.id s' ∧
      Kept order s' D T ∧
      Regroups (c.before ++ f.before ++ l.fringe ++ .sep k :: r.fringe ++ (f.after ++ c.after)) T.fringe := by
  obtain ⟨⟨hll, hrl, hpl⟩, hlp, hrp, hp⟩ := h.family
  rw [Frame.page_behind] at hp
  have hcount : f.lefts.length ≤ f.count := Nat.le_add_right ..
  have hmost' : f.count + 1 ≤ order - 1 := hmost
  have hne : f.lefts.length ≠ leftmostIndex := by
    unfold leftmostIndex
    omega
  have hidx : Runs (getNeighborIndex r.id) s f.lefts.length s := by
    have := getNeighborIndex_runs (f := f.behind l k) (t := r) (q := c.parent) (L := c.cells f.id) (h.perm (by
      rw [List.perm_iff_count]
      intro x
      have e := (Frame.siblings_behind (f := f) (l := l) (k := k)).count_eq x
      simp only [Frame.behind, List.count_append, List.count_cons] at e ⊢
      omega))
    rwa [Frame.behind, List.length_append, List.length_singleton, neighborIndex_succ (by omega)] at this
  suffices hstep : ∃ (T : BptRoot) (s' : Slab Node), Runs (if l.count + r.count < capacity order d
      then coalesceInto order (deleteEntry order m) (c.root f.id) r.id l.id k
      else redistributeNodes (c.root f.id) r.id l.id f.lefts.length (f.lefts.map Prod.snd).length k) s T.id s' ∧
      Kept order s' D T ∧
      Regroups (c.before ++ f.before ++ l.fringe ++ .sep k :: r.fringe ++ (f.after ++ c.after)) T.fringe by
    obtain ⟨T, s', hrun, hrest⟩ := hstep
    refine ⟨T, s', repair_runs hrl hpl hll hrp.parent hidx (k := k) ?_ ?_ ?_, hrest⟩
    · rw [if_neg hne]
      exact getElem?_of_isPrefix hp.keys (by simp)
    · rw [if_neg hne]
      exact getElem?_of_isPrefix hp.pointers (by simp)
    · rw [numKeys_eq hlp, numKeys_eq hrp, capacity_eq hrp, coalesceNodes, if_neg hne,
        if_neg hne]
      rwa [List.length_map] at hrun
  by_cases hcap : l.count + r.count < capacity order d
  · obtain ⟨T, s', hrun, hrest⟩ := coalesceInto_runs IH hl hr (Nat.le_trans hl.le_count (Nat.le_add_right ..)) hcap hf hleast
      hmost hgood h
    exact ⟨T, s', Runs.ite_pos hcap hrun, hrest⟩
  · rw [Frame.page_behind] at h
    obtain ⟨s', hrun, hshared⟩ := share_left (c.root f.id) horder hl hr hlt (Nat.not_lt.mp hcap) hgood hne h
    obtain ⟨T, hid, hrest⟩ := hshared.kept hf hleast hmost hc rfl rfl
    exact ⟨T, s', Runs.ite_neg hcap (hid ▸ hrun), hrest⟩

/-- A leftmost node with too few keys is put in order with its right neighbour. -/
theorem repair_left_runs (horder : 3 ≤ order) (IH : Deletes order c m) (hleft : f.lefts = [])
    (hr : r.Sized (occupancy order)) (hl : l.SizedFrom (occupancy order) ((occupancy order).min d - 1))
    (hlt : l.count < (occupancy order).min d) (hf : f.Sized (occupancy order))
    (hleast : c.least (occupancy order) ≤ f.count + 1) (hmost : f.count + 1 ≤ (occupancy order).max)
    (hc : c.Sized (occupancy order))
    (hgood : Good (c.before ++ f.before ++ l.fringe ++ .sep k :: r.fringe ++ (f.after ++ c.after)))
    (h : Holds order s (l.cells (some f.id) ++ (r.cells (some f.id) ++ ((f.id, ⟨(f.behind l k).page r.id, c.parent⟩) ::
      (f.siblings ++ c.cells f.id)))) D) :
    ∃ (T : BptRoot) (s' : Slab Node), Runs (repair order (deleteEntry order m) (c.root f.id) l.id) s T.id s' ∧
      Kept order s' D T ∧
      Regroups (c.before ++ f.before ++ l.fringe ++ .sep k :: r.fringe ++ (f.after ++ c.after)) T.fringe := by
  obtain ⟨⟨hll, hrl, hpl⟩, hlp, hrp, hp⟩ := h.family
  rw [Frame.page_behind, hleft] at hp
  have hidx : Runs (getNeighborIndex l.id) s leftmostIndex s := by
    have := getNeighborIndex_runs (f := ⟨f.id, [], (k, r) :: f.rights⟩) (t := l) (q := c.parent) (L := c.cells f.id) (h.perm (by
      rw [List.perm_iff_count]
      intro x
      rw [Frame.page_behind]
      simp only [Frame.siblings, Frame.page, hleft, List.map_nil, List.map_cons, List.flatMap_nil,
        List.flatMap_cons, List.nil_append, List.count_append, List.count_cons]
      omega))
    simpa [leftmostIndex] using this
  suffices hstep : ∃ (T : BptRoot) (s' : Slab Node), Runs (if r.count + l.count < capacity order d
      then coalesceInto order (deleteEntry order m) (c.root f.id) r.id l.id k
      else redistributeNodes (c.root f.id) l.id r.id leftmostIndex (f.lefts.map Prod.snd).length k) s T.id s' ∧
      Kept order s' D T ∧
      Regroups (c.before ++ f.before ++ l.fringe ++ .sep k :: r.fringe ++ (f.after ++ c.after)) T.fringe by
    obtain ⟨T, s', hrun, hrest⟩ := hstep
    refine ⟨T, s', repair_runs hll hpl hrl hlp.parent hidx (k := k) ?_ ?_ ?_, hrest⟩
    · rw [if_pos rfl]
      exact getElem?_of_isPrefix hp.keys (by simp)
    · rw [if_pos rfl]
      exact getElem?_of_isPrefix hp.pointers (by simp)
    · rw [numKeys_eq hlp, numKeys_eq hrp, capacity_eq hlp, coalesceNodes, if_pos rfl,
        if_pos rfl]
      simpa [hleft] using hrun
  by_cases hcap : r.count + l.count < capacity order d
  · obtain ⟨T, s', hrun, hrest⟩ := coalesceInto_runs IH hl hr (Nat.le_trans hr.le_count (Nat.le_add_left ..))
      (by rwa [Nat.add_comm]) hf hleast hmost hgood h
    exact ⟨T, s', Runs.ite_pos hcap hrun, hrest⟩
  · rw [Frame.page_behind] at h
    obtain ⟨s', hrun, hshared⟩ := share_right (c.root f.id) horder hr hl hlt (Nat.not_lt.mp hcap) hgood h
    obtain ⟨T, hid, hrest⟩ := hshared.kept hf hleast hmost hc rfl rfl
    exact ⟨T, s', Runs.ite_neg hcap (hid ▸ hrun), hrest⟩

end

theorem least_pos (horder : 3 ≤ order) : ∀ {d : Nat} {c : BptCtx d}, 0 < c.least (occupancy order)
  | _, .top => Nat.one_pos
  | _, .up _ _ => min_pos horder

/-- `delete_entry` puts in order what it leaves of a node, wherever the node is. -/
theorem deleteEntry_runs (horder : 3 ≤ order) (hbound : order < 2 ^ 64) : ∀ {d : Nat} {c : BptCtx d} {m : Nat},
    c.depth < m → c.Sized (occupancy order) → Deletes order c m
  | _, _, 0, hm, _ => absurd hm (Nat.not_lt_zero _)
  | _, .top, m + 1, _, _ => by
    intro t k x s s' D ht _ hrun h
    obtain ⟨T, s'', hadjust, hrest⟩ := adjustRoot_runs horder (t := t) (D := D) (s := s') ht (by simpa [Ctx.cells, Ctx.parent] using h)
    refine ⟨T, s'', Runs.bind hrun (Runs.ite_pos rfl hadjust), hrest.1, ?_⟩
    simpa [Ctx.before, Ctx.after] using hrest.2
  | d, .up f c, m + 1, hm, ⟨hf, hleast, hmost, hc⟩ => by
    intro t k x s s' D ht hgood hrun h
    have IH := deleteEntry_runs horder hbound (Nat.lt_of_succ_lt_succ hm) hc
    have hm' : Matches order (s'.mem t.id) ⟨t.page, some f.id⟩ := h.holds _ (List.mem_cons_self ..)
    -- The code from the number of keys on.
    suffices hstep : ∃ (T : BptRoot) (s'' : Slab Node), Runs (if t.count ≥ (occupancy order).min d then pure (some (c.root f.id))
        else repair order (deleteEntry order m) (c.root f.id) t.id) s' T.id s'' ∧ Kept order s'' D T ∧
        Regroups ((Ctx.up f c).before ++ t.fringe ++ (Ctx.up f c).after) T.fringe by
      obtain ⟨T, s'', hstep, hrest⟩ := hstep
      refine ⟨T, s'', Runs.bind hrun (Runs.ite_neg (ne_root h) (Runs.bind (load_runs (h.lt (List.mem_cons_self ..))) ?_)), hrest⟩
      rw [numKeys_eq hm', minKeys_eq hm']
      exact hstep
    by_cases hmin : t.count ≥ (occupancy order).min d
    · -- The node has enough keys.
      refine ⟨some ((Ctx.up f c).plug t), s', Runs.ite_pos hmin ?_, Stored.kept (Stored.of_plug h ⟨hf, hleast, hmost, hc⟩
        (ht.mono hmin)), ?_⟩
      · rw [BptRoot.id, Option.map_some, Ctx.id_plug]
        exact Runs.pure
      · rw [BptRoot.fringe, Option.elim_some, Ctx.fringe_plug]
        exact Regroups.refl
    · have hlt := Nat.not_le.mp hmin
      obtain ⟨i, L, R⟩ := f
      by_cases hL : L = []
      · -- The node is leftmost, and has a right neighbour.
        obtain ⟨⟨k', u⟩, R, rfl⟩ : ∃ e R', R = e :: R' := by
          refine List.exists_cons_of_ne_nil ?_
          rintro rfl
          have := least_pos horder (c := c)
          simp [Frame.count, hL] at hleast
          omega
        subst hL
        have hcount : (⟨i, [], (k', u) :: R⟩ : BptFrame d).count = (⟨i, [], R⟩ : BptFrame d).count + 1 := by
          simp [Frame.count]
        obtain ⟨T, s'', hrepair, hkept, hreg⟩ := repair_left_runs (f := ⟨i, [], R⟩) (l := t) (r := u) (k := k') horder IH rfl
          (hf.2 (k', u) (by simp)) ht hlt ⟨hf.1, fun x hx => hf.2 x (List.mem_cons_of_mem _ hx)⟩
          (hcount ▸ hleast) (hcount ▸ hmost) hc (by simpa [Ctx.before, Ctx.after, Frame.before, Frame.after] using hgood)
          (h.perm (by
            rw [List.perm_iff_count]
            intro x
            rw [Frame.page_behind]
            simp only [Ctx.cells, Ctx.parent, Frame.siblings, Frame.page, List.map_nil, List.map_cons, List.flatMap_nil,
              List.flatMap_cons, List.nil_append, List.count_append, List.count_cons]
            omega))
        refine ⟨T, s'', Runs.ite_neg hmin hrepair, hkept, ?_⟩
        simpa [Ctx.before, Ctx.after, Frame.before, Frame.after] using hreg
      · -- The node has a left neighbour.
        obtain ⟨L, ⟨u, k'⟩, rfl⟩ : ∃ L' e, L = L' ++ [e] := by
          obtain ⟨L', e, h⟩ := (List.eq_nil_or_concat L).resolve_left hL
          exact ⟨L', e, by simpa using h⟩
        have hcount : (⟨i, L ++ [(u, k')], R⟩ : BptFrame d).count = (⟨i, L, R⟩ : BptFrame d).count + 1 :=
          Frame.count_behind (f := ⟨i, L, R⟩) (l := u) (k := k')
        obtain ⟨hf', hu⟩ := Frame.sized_behind.mp (show (Frame.behind ⟨i, L, R⟩ u k').Sized (occupancy order) from hf)
        obtain ⟨T, s'', hrepair, hkept, hreg⟩ := repair_right_runs (f := ⟨i, L, R⟩) (l := u) (r := t) (k := k') horder hbound IH
          hu ht hlt hf' (hcount ▸ hleast) (hcount ▸ hmost) hc
          (by simpa [Ctx.before, Ctx.after, Frame.before, Frame.after] using hgood) (h.perm (by
            rw [List.perm_iff_count]
            intro x
            have e := (Frame.siblings_behind (f := ⟨i, L, R⟩) (l := u) (k := k')).count_eq x
            simp only [Frame.behind, Ctx.cells, Ctx.parent, List.count_append, List.count_cons] at e ⊢
            omega))
        refine ⟨T, s'', Runs.ite_neg hmin hrepair, hkept, ?_⟩
        simpa [Ctx.before, Ctx.after, Frame.before, Frame.after] using hreg

end NuKSM.BTree
