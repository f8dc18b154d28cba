import NuKSM.Theorems.BTree.InsertTree
import NuKSM.Theorems.BTree.Borrow

/-! What `coalesce_nodes` and `redistribute_nodes` make of two neighbouring trees under one parent. -/

namespace NuKSM.BTree
open BPlus

variable {order : Nat} {s : Slab Node} {L : List (NodeId × BptCell)} {D : List NodeId} {d : Nat}

/-! ### Numbers of keys -/

/-- Neighbours with fewer keys than this together are coalesced. -/
def capacity (order d : Nat) : Nat := if d = 0 then order else order - 1

theorem min_pos (horder : 3 ≤ order) : 0 < (occupancy order).min d := by
  have hleaf := cut_pos (m := order - 1) (by omega)
  have hnode := two_cut_le (m := order)
  have hcut : 2 ≤ cut order := by
    unfold cut
    split <;> omega
  unfold occupancy
  simp only
  split <;> omega

theorem min_lt (horder : 3 ≤ order) : (occupancy order).min d < order - 1 := by
  have hleaf := cut_lt (m := order - 1) (by omega)
  have hnode := cut_lt (m := order) (by omega)
  unfold occupancy
  simp only
  split <;> omega

/-- The neighbour of a node with too few keys can spare one, unless the two are coalesced. -/
theorem min_lt_of_capacity_le (horder : 3 ≤ order) {x y : Nat} (hx : x < (occupancy order).min d)
    (hsum : capacity order d ≤ y + x) : (occupancy order).min d < y := by
  have hleaf := two_cut_le (m := order - 1)
  have hnode := two_cut_le (m := order)
  revert hx hsum
  unfold occupancy capacity
  simp only
  split <;> omega

/-! ### Coalescence -/

/-- The tree `w` of two neighbours and the separator between them, in a memory that still has the node `id`. -/
structure Coalesced (order : Nat) (s : Slab Node) (L : List (NodeId × BptCell)) (D : List NodeId) (l r : BptTree d) (k : Key)
    (p : NodeId) (w : BptTree d) : Prop where
  holds : ∃ page, Holds order s (w.cells (some p) ++ ((r.id, ⟨page, some p⟩) :: L)) D
  id : w.id = l.id
  sized : w.Sized (occupancy order)
  regroups : ∀ X Y, Regroups (X ++ l.fringe ++ .sep k :: r.fringe ++ Y) (X ++ w.fringe ++ Y)

theorem appendLeaf_coalesces {l r : BptLeaf} {k : Key} {p : NodeId}
    (hmin : (occupancy order).min 0 ≤ l.entries.length + r.entries.length)
    (hfit : l.entries.length + r.entries.length < capacity order 0)
    (h : Holds order s ((Tree.leaf l).cells (some p) ++ ((Tree.leaf r).cells (some p) ++ L)) D) :
    ∃ w s', Runs (appendLeaf order r.id l.id) s () s' ∧ Coalesced order s' L D (.leaf l) (.leaf r) k p w := by
  have hlen : l.entries.length + r.entries.length ≤ order - 1 := by
    have : l.entries.length + r.entries.length < order := hfit
    omega
  obtain ⟨s', hrun, h'⟩ := appendLeaf_runs (m := l.id) (n := r.id) (L := L) h hlen
  refine ⟨.leaf ⟨l.id, l.entries ++ r.entries, r.next⟩, s', hrun, ⟨_, h'⟩, rfl, Tree.sizedFrom_leaf.mpr ⟨?_, ?_⟩, fun X Y => ?_⟩
  · rw [List.length_append]
    exact hmin
  · rw [List.length_append]
    exact hlen
  · have := Regroups.merge (X := X) (Y := Y) (l := ⟨l.id, l.entries ++ r.entries, r.next⟩) (a := l) (b := r) (k := k)
      rfl rfl rfl
    simpa using this

theorem appendNode_coalesces {a b : Branch Key NodeId (BptTree d)} {k : Key} {p : NodeId} {i j : Nat}
    (ha : (Tree.branch a).SizedFrom (occupancy order) i) (hb : (Tree.branch b).SizedFrom (occupancy order) j)
    (hmin : (occupancy order).min (d + 1) ≤ a.rest.length + b.rest.length)
    (hfit : a.rest.length + b.rest.length < capacity order (d + 1))
    (h : Holds order s ((Tree.branch a).cells (some p) ++ ((Tree.branch b).cells (some p) ++ L)) D) :
    ∃ w s', Runs (appendNode b.id a.id k) s () s' ∧ Coalesced order s' L D (.branch a) (.branch b) k p w := by
  have hlen : a.rest.length + b.rest.length < order - 1 := hfit
  obtain ⟨-, -, ha₁, ha₂⟩ := Tree.sizedFrom_branch.mp ha
  obtain ⟨-, -, hb₁, hb₂⟩ := Tree.sizedFrom_branch.mp hb
  have hdiv : (⟨a.id, a.first, a.rest ++ (k, b.first) :: b.rest⟩ : Branch Key NodeId (BptTree d)).rest =
      a.rest ++ (k, b.first) :: b.rest := rfl
  have h₀ : Holds order s ((a.id, ⟨.branch a.keys (a.children.map Tree.id), some p⟩) ::
      (b.id, ⟨.branch b.keys (b.children.map Tree.id), some p⟩) ::
      ((a.children.map (Tree.head (some a.id)) ++ b.children.map (Tree.head (some b.id))) ++
        (a.children.flatMap Tree.inner ++ (b.children.flatMap Tree.inner ++ L)))) D := by
    refine h.perm ?_
    rw [List.perm_iff_count]
    intro x
    have e₁ := (Tree.flatMap_cells (l := a.children) (p := some a.id)).count_eq x
    have e₂ := (Tree.flatMap_cells (l := b.children) (p := some b.id)).count_eq x
    simp only [Tree.cells_branch, List.count_append, List.count_cons] at e₁ e₂ ⊢
    omega
  obtain ⟨s', hrun, h'⟩ := appendNode_runs k h₀ (by rw [List.map_append, Tree.map_fst_head, Tree.map_fst_head])
    (by rw [List.length_map, Branch.length_children]) (by rw [List.length_map, Branch.length_children])
    (by simp only [Branch.keys, List.length_map]; omega)
  refine ⟨.branch ⟨a.id, a.first, a.rest ++ (k, b.first) :: b.rest⟩, s', hrun, ⟨.branch [] [], h'.perm ?_⟩, rfl,
    Tree.sizedFrom_branch.mpr ⟨?_, ?_, ha₁, ?_⟩, fun X Y => ?_⟩
  · rw [List.map_append, map_underParent, map_underParent, List.perm_iff_count]
    intro x
    have e₁ := (Tree.flatMap_cells (l := a.children) (p := some a.id)).count_eq x
    have e₂ := (Tree.flatMap_cells (l := b.children) (p := some a.id)).count_eq x
    rw [Tree.cells_branch, Branch.keys_split hdiv, Branch.children_split hdiv]
    simp only [Branch.keys, Branch.children, List.map_append, List.flatMap_append, List.count_append, List.count_cons,
      Tree.id_branch] at e₁ e₂ ⊢
    omega
  · rw [List.length_append, List.length_cons]
    exact Nat.le_trans hmin (by omega)
  · show (a.rest ++ (k, b.first) :: b.rest).length ≤ order - 1
    rw [List.length_append, List.length_cons]
    omega
  · intro x hx
    rcases List.mem_append.mp hx with hx | hx
    · exact ha₂ x hx
    · rcases List.mem_cons.mp hx with rfl | hx
      · exact hb₁
      · exact hb₂ x hx
  · rw [Tree.fringe_split (i := a.id) (j := b.id) hdiv]
    simpa using Regroups.refl

/-- The right one of two neighbours is appended to the left one. -/
theorem append_coalesces {l r : BptTree d} {k : Key} {p : NodeId} {i j : Nat}
    (hl : l.SizedFrom (occupancy order) i) (hr : r.SizedFrom (occupancy order) j)
    (hmin : (occupancy order).min d ≤ l.count + r.count) (hfit : l.count + r.count < capacity order d)
    (h : Holds order s (l.cells (some p) ++ (r.cells (some p) ++ L)) D) :
    ∃ w s', Runs (if (s.mem r.id).isLeaf then appendLeaf order r.id l.id else appendNode r.id l.id k) s () s' ∧
      Coalesced order s' L D l r k p w := by
  have hleaf := (h.holds (r.head (some p)) (List.mem_append_right _ (List.mem_append_left _ (List.mem_cons_self ..)))).isLeaf
  cases d with
  | zero =>
    obtain ⟨w, s', hrun, h'⟩ := appendLeaf_coalesces (l := l.toLeaf) (r := r.toLeaf) (k := k) hmin hfit h
    exact ⟨w, s', Runs.ite_pos hleaf hrun, h'⟩
  | succ d =>
    obtain ⟨w, s', hrun, h'⟩ := appendNode_coalesces (a := l.toBranch) (b := r.toBranch) (k := k) hl hr hmin hfit h
    exact ⟨w, s', Runs.ite_neg (ne_true_of_eq_false hleaf) hrun, h'⟩

/-! ### Redistribution -/

/-- The nodes `i` and `j` are neighbours of the right sizes under the branch `p`, whose separators before and after
    the one between them are `K₁` and `K₂`, and the row is that of `row`. -/
def Shared (order d : Nat) (s : Slab Node) (L : List (NodeId × BptCell)) (D : List NodeId) (p i j : NodeId)
    (q : Option NodeId) (K₁ K₂ : List Key) (C : List NodeId) (X Y row : List BptItem) : Prop :=
  ∃ (l r : BptTree d) (k : Key),
    Holds order s (l.cells (some p) ++ (r.cells (some p) ++ ((p, ⟨.branch (K₁ ++ k :: K₂) C, q⟩) :: L))) D ∧
    l.id = i ∧ r.id = j ∧ l.Sized (occupancy order) ∧ r.Sized (occupancy order) ∧
    Regroups row (X ++ l.fringe ++ .sep k :: r.fringe ++ Y)

section
variable {root p : NodeId} {idx : Nat} {k : Key} {q : Option NodeId} {X Y : List BptItem} {K₁ K₂ : List Key} {C : List NodeId}

theorem Good.next_eq {l r : BptLeaf} (h : Good (X ++ [.leaf l] ++ .sep k :: [.leaf r] ++ Y)) : l.next = some r.id :=
  Linked.next_eq (P := leaves X) (Q := leaves Y) (e := none) (by simpa using h.linked)

theorem shareLeaf_left {l r : BptLeaf} (hl : (occupancy order).min 0 < l.entries.length)
    (hr : (occupancy order).min 0 ≤ r.entries.length + 1) (hroom : r.entries.length < order - 1)
    (hmax : l.entries.length ≤ order - 1) (hpos : 0 < (occupancy order).min 0)
    (hgood : Good (X ++ [.leaf l] ++ .sep k :: [.leaf r] ++ Y)) (hidx : idx ≠ leftmostIndex)
    (h : Holds order s ((Tree.leaf l).cells (some p) ++ ((Tree.leaf r).cells (some p) ++
      ((p, ⟨.branch (K₁ ++ k :: K₂) C, q⟩) :: L))) D) :
    ∃ s', Runs (redistributeNodes root r.id l.id idx K₁.length k) s (some root) s' ∧
      Shared order 0 s' L D p l.id r.id q K₁ K₂ C X Y (X ++ [.leaf l] ++ .sep k :: [.leaf r] ++ Y) := by
  obtain ⟨E, ⟨k', x⟩, hE⟩ : ∃ E e, l.entries = E ++ [e] := by
    rcases List.eq_nil_or_concat l.entries with hnil | ⟨E, e, hE⟩
    · simp [hnil] at hl
    · exact ⟨E, e, by simpa using hE⟩
  have hlen : l.entries.length = E.length + 1 := by simp [hE]
  have h₀ : Holds order s ((r.id, ⟨.leaf r.entries r.next, some p⟩) :: (l.id, ⟨.leaf (E ++ [(k', x)]) l.next, some p⟩) ::
      (p, ⟨.branch (K₁ ++ k :: K₂) C, q⟩) :: L) D := by
    rw [← hE]
    exact h.perm (List.Perm.swap ..)
  obtain ⟨s', hrun, h'⟩ := borrowLeaf_left_runs root k h₀ hroom hidx
  refine ⟨s', hrun, .leaf ⟨l.id, E, l.next⟩, .leaf ⟨r.id, (k', x) :: r.entries, r.next⟩, k', ?_, rfl, rfl,
    Tree.sizedFrom_leaf.mpr ⟨?_, ?_⟩, Tree.sizedFrom_leaf.mpr ⟨?_, ?_⟩, ?_⟩
  · exact h'.perm (List.Perm.swap ..)
  · show (occupancy order).min 0 ≤ E.length
    omega
  · show E.length ≤ order - 1
    omega
  · exact hr
  · exact hroom
  · have hne : E ≠ [] := List.ne_nil_of_length_pos (by omega)
    have hnext := Good.next_eq hgood
    have := Regroups.resplit (X := X) (Y := Y) (a := l) (b := r) (m := ⟨l.id, E, l.next⟩)
      (n := ⟨r.id, (k', x) :: r.entries, r.next⟩) (k := k) (j := k') (A := E) (C := r.entries) (r := x) (by simp [hE]) hne rfl rfl
      rfl hnext rfl
    simpa using this

theorem shareLeaf_right {l r : BptLeaf} (hr : (occupancy order).min 0 < r.entries.length)
    (hl : (occupancy order).min 0 ≤ l.entries.length + 1) (hroom : l.entries.length < order - 1)
    (hmax : r.entries.length ≤ order - 1) (hpos : 0 < (occupancy order).min 0)
    (hgood : Good (X ++ [.leaf l] ++ .sep k :: [.leaf r] ++ Y))
    (h : Holds order s ((Tree.leaf l).cells (some p) ++ ((Tree.leaf r).cells (some p) ++
      ((p, ⟨.branch (K₁ ++ k :: K₂) C, q⟩) :: L))) D) :
    ∃ s', Runs (redistributeNodes root l.id r.id leftmostIndex K₁.length k) s (some root) s' ∧
      Shared order 0 s' L D p l.id r.id q K₁ K₂ C X Y (X ++ [.leaf l] ++ .sep k :: [.leaf r] ++ Y) := by
  obtain ⟨⟨k₁, x⟩, ⟨k', y⟩, E, hE⟩ : ∃ e e' E, r.entries = e :: e' :: E := by
    rcases hr' : r.entries with _ | ⟨e, _ | ⟨e', E⟩⟩
    · simp [hr'] at hr
    · simp [hr'] at hr
      omega
    · exact ⟨e, e', E, rfl⟩
  have hlen : r.entries.length = E.length + 2 := by simp [hE]
  have h₀ : Holds order s ((l.id, ⟨.leaf l.entries l.next, some p⟩) ::
      (r.id, ⟨.leaf ((k₁, x) :: (k', y) :: E) r.next, some p⟩) ::
      (p, ⟨.branch (K₁ ++ k :: K₂) C, q⟩) :: L) D := by
    rw [← hE]
    exact h
  obtain ⟨s', hrun, h'⟩ := borrowLeaf_right_runs root k h₀ hroom
  refine ⟨s', hrun, .leaf ⟨l.id, l.entries ++ [(k₁, x)], l.next⟩, .leaf ⟨r.id, (k', y) :: E, r.next⟩, k', ?_, rfl, rfl,
    Tree.sizedFrom_leaf.mpr ⟨?_, ?_⟩, Tree.sizedFrom_leaf.mpr ⟨?_, ?_⟩, ?_⟩
  · exact h'
  · rw [List.length_append]
    exact hl
  · rw [List.length_append]
    exact hroom
  · show (occupancy order).min 0 ≤ E.length + 1
    omega
  · show E.length + 1 ≤ order - 1
    omega
  · have hnext := Good.next_eq hgood
    have := Regroups.resplit (X := X) (Y := Y) (a := l) (b := r) (m := ⟨l.id, l.entries ++ [(k₁, x)], l.next⟩)
      (n := ⟨r.id, (k', y) :: E, r.next⟩) (k := k) (j := k') (A := l.entries ++ [(k₁, x)]) (C := E) (r := y) (by simp [hE])
      (by simp) rfl rfl rfl hnext rfl
    simpa using this

theorem shareBranch_left {a b : Branch Key NodeId (BptTree d)} {i : Nat}
    (ha : (Tree.branch a).SizedFrom (occupancy order) ((occupancy order).min (d + 1) + 1))
    (hb : (Tree.branch b).SizedFrom (occupancy order) i) (hmin : (occupancy order).min (d + 1) ≤ b.rest.length + 1)
    (hroom : b.rest.length < order - 1) (hidx : idx ≠ leftmostIndex)
    (h : Holds order s ((Tree.branch a).cells (some p) ++ ((Tree.branch b).cells (some p) ++
      ((p, ⟨.branch (K₁ ++ k :: K₂) C, q⟩) :: L))) D) :
    ∃ s', Runs (redistributeNodes root b.id a.id idx K₁.length k) s (some root) s' ∧
      Shared order (d + 1) s' L D p a.id b.id q K₁ K₂ C X Y
        (X ++ (Tree.branch a).fringe ++ .sep k :: (Tree.branch b).fringe ++ Y) := by
  obtain ⟨ha₁, ha₂, ha₃, ha₄⟩ := Tree.sizedFrom_branch.mp ha
  obtain ⟨-, -, hb₁, hb₂⟩ := Tree.sizedFrom_branch.mp hb
  obtain ⟨J, ⟨k', v⟩, hJ⟩ : ∃ J e, a.rest = J ++ [e] := by
    rcases List.eq_nil_or_concat a.rest with hnil | ⟨J, e, hJ⟩
    · simp [hnil] at ha₁
    · exact ⟨J, e, by simpa using hJ⟩
  have hlen : a.rest.length = J.length + 1 := by simp [hJ]
  have h₀ : Holds order s ((b.id, ⟨.branch b.keys (b.children.map Tree.id), some p⟩) ::
      (a.id, ⟨.branch (J.map Prod.fst ++ [k']) ((a.first :: J.map Prod.snd).map Tree.id ++ [v.id]), some p⟩) ::
      (p, ⟨.branch (K₁ ++ k :: K₂) C, q⟩) :: v.head (some a.id) ::
      ((a.first :: J.map Prod.snd).flatMap (Tree.cells (some a.id)) ++
        (v.inner ++ (b.children.flatMap (Tree.cells (some b.id)) ++ L)))) D := by
    refine h.perm ?_
    rw [List.perm_iff_count]
    intro x
    rw [Tree.cells_branch, Branch.keys_split hJ, Branch.children_split hJ, Tree.cells_branch]
    simp only [List.map_append, List.map_cons, List.map_nil, List.flatMap_append, List.flatMap_cons, List.flatMap_nil,
      Tree.cells, Tree.head, List.count_append, List.count_cons, List.count_nil]
    omega
  obtain ⟨s', hrun, h'⟩ := borrowBranch_left_runs root k h₀ (by rw [List.length_map, Branch.length_children]) (by simp)
    (by simp only [Branch.keys, List.length_map]; exact hroom) hidx
  refine ⟨s', hrun, .branch ⟨a.id, a.first, J⟩, .branch ⟨b.id, v, (k, b.first) :: b.rest⟩, k', h'.perm ?_, rfl, rfl,
    Tree.sizedFrom_branch.mpr ⟨?_, ?_, ha₃, fun x hx => ha₄ x (by simp [hJ, hx])⟩,
    Tree.sizedFrom_branch.mpr ⟨hmin, hroom, ha₄ (k', v) (by simp [hJ]), ?_⟩, ?_⟩
  · rw [List.perm_iff_count, Tree.cells_branch, Tree.cells_branch]
    intro x
    simp only [Branch.keys, Branch.children, List.map_cons, List.flatMap_cons, Tree.cells, Tree.head, underParent,
      List.count_append, List.count_cons]
    omega
  · show (occupancy order).min (d + 1) ≤ J.length
    omega
  · show J.length ≤ (occupancy order).max
    omega
  · intro x hx
    rcases List.mem_cons.mp hx with rfl | hx
    · exact hb₁
    · exact hb₂ x hx
  · have hrow := Tree.fringe_split (i := a.id) (j := a.id) hJ
    rw [hrow]
    simpa [Tree.fringe_branch] using Regroups.refl

theorem shareBranch_right {a b : Branch Key NodeId (BptTree d)} {i : Nat}
    (hb : (Tree.branch b).SizedFrom (occupancy order) ((occupancy order).min (d + 1) + 1))
    (ha : (Tree.branch a).SizedFrom (occupancy order) i) (hmin : (occupancy order).min (d + 1) ≤ a.rest.length + 1)
    (hroom : a.rest.length < order - 1)
    (h : Holds order s ((Tree.branch a).cells (some p) ++ ((Tree.branch b).cells (some p) ++
      ((p, ⟨.branch (K₁ ++ k :: K₂) C, q⟩) :: L))) D) :
    ∃ s', Runs (redistributeNodes root a.id b.id leftmostIndex K₁.length k) s (some root) s' ∧
      Shared order (d + 1) s' L D p a.id b.id q K₁ K₂ C X Y
        (X ++ (Tree.branch a).fringe ++ .sep k :: (Tree.branch b).fringe ++ Y) := by
  obtain ⟨hb₁, hb₂, hb₃, hb₄⟩ := Tree.sizedFrom_branch.mp hb
  obtain ⟨-, -, ha₁, ha₂⟩ := Tree.sizedFrom_branch.mp ha
  obtain ⟨⟨k', v⟩, J, hJ⟩ : ∃ e J, b.rest = e :: J := by
    rcases hrest : b.rest with _ | ⟨e, J⟩
    · simp [hrest] at hb₁
    · exact ⟨e, J, rfl⟩
  have hlen : b.rest.length = J.length + 1 := by simp [hJ]
  have h₀ : Holds order s ((a.id, ⟨.branch a.keys (a.children.map Tree.id), some p⟩) ::
      (b.id, ⟨.branch (k' :: J.map Prod.fst) (b.first.id :: (v :: J.map Prod.snd).map Tree.id), some p⟩) ::
      (p, ⟨.branch (K₁ ++ k :: K₂) C, q⟩) :: b.first.head (some b.id) ::
      ((v :: J.map Prod.snd).flatMap (Tree.cells (some b.id)) ++
        (b.first.inner ++ (a.children.flatMap (Tree.cells (some a.id)) ++ L)))) D := by
    refine h.perm ?_
    rw [List.perm_iff_count, Tree.cells_branch, Tree.cells_branch]
    intro x
    simp only [Branch.keys, Branch.children, hJ, List.map_cons, List.flatMap_cons, Tree.cells, Tree.head, List.count_append,
      List.count_cons]
    omega
  obtain ⟨s', hrun, h'⟩ := borrowBranch_right_runs root k h₀ (by rw [List.length_map, Branch.length_children]) (by simp)
    (by simp only [Branch.keys, List.length_map]; exact hroom)
  have hdiv : (⟨a.id, a.first, a.rest ++ [(k, b.first)]⟩ : Branch Key NodeId (BptTree d)).rest =
      a.rest ++ (k, b.first) :: [] := rfl
  refine ⟨s', hrun, .branch ⟨a.id, a.first, a.rest ++ [(k, b.first)]⟩, .branch ⟨b.id, v, J⟩, k', h'.perm ?_, rfl, rfl,
    Tree.sizedFrom_branch.mpr ⟨?_, ?_, ha₁, ?_⟩,
    Tree.sizedFrom_branch.mpr ⟨?_, ?_, hb₄ (k', v) (by simp [hJ]), fun x hx => hb₄ x (by simp [hJ, hx])⟩, ?_⟩
  · rw [List.perm_iff_count]
    intro x
    rw [Tree.cells_branch, Branch.keys_split hdiv, Branch.children_split hdiv, Tree.cells_branch]
    simp only [Branch.keys, Branch.children, List.map_append, List.map_cons, List.map_nil,
      List.flatMap_append, List.flatMap_cons, List.flatMap_nil, Tree.cells, Tree.head, underParent, List.count_append,
      List.count_cons, List.count_nil]
    omega
  · rw [List.length_append]
    exact hmin
  · rw [List.length_append]
    exact hroom
  · intro x hx
    rcases List.mem_append.mp hx with hx | hx
    · exact ha₂ x hx
    · rw [List.mem_singleton.mp hx]
      exact hb₃
  · show (occupancy order).min (d + 1) ≤ J.length
    omega
  · show J.length ≤ (occupancy order).max
    omega
  · have hrow := Tree.fringe_split (i := a.id) (j := a.id) hdiv
    rw [hrow]
    simpa [Tree.fringe_branch, hJ] using Regroups.refl

/-- The right one of two neighbours takes an entry from the left one. -/
theorem share_left (root : NodeId) (horder : 3 ≤ order) {l r : BptTree d} (hl : l.Sized (occupancy order))
    (hr : r.SizedFrom (occupancy order) ((occupancy order).min d - 1)) (hlt : r.count < (occupancy order).min d)
    (hsum : capacity order d ≤ l.count + r.count) (hgood : Good (X ++ l.fringe ++ .sep k :: r.fringe ++ Y))
    (hidx : idx ≠ leftmostIndex)
    (h : Holds order s (l.cells (some p) ++ (r.cells (some p) ++ ((p, ⟨.branch (K₁ ++ k :: K₂) C, q⟩) :: L))) D) :
    ∃ s', Runs (redistributeNodes root r.id l.id idx K₁.length k) s (some root) s' ∧
      Shared order d s' L D p l.id r.id q K₁ K₂ C X Y (X ++ l.fringe ++ .sep k :: r.fringe ++ Y) := by
  have hpos := min_pos (d := d) horder
  have hmax := min_lt (d := d) horder
  have hspare := min_lt_of_capacity_le horder hlt hsum
  have hle := hr.le_count
  cases d with
  | zero =>
    exact shareLeaf_left (l := l.toLeaf) (r := r.toLeaf) hspare (Nat.sub_le_iff_le_add.mp hle) (Nat.lt_trans hlt hmax)
      hl.count_le hpos hgood hidx h
  | succ d =>
    exact shareBranch_left (a := l.toBranch) (b := r.toBranch) (hl.mono hspare) hr (Nat.sub_le_iff_le_add.mp hle)
      (Nat.lt_trans hlt hmax) hidx h

/-- The left one of two neighbours takes an entry from the right one. -/
theorem share_right (root : NodeId) (horder : 3 ≤ order) {l r : BptTree d} (hr : r.Sized (occupancy order))
    (hl : l.SizedFrom (occupancy order) ((occupancy order).min d - 1)) (hlt : l.count < (occupancy order).min d)
    (hsum : capacity order d ≤ r.count + l.count) (hgood : Good (X ++ l.fringe ++ .sep k :: r.fringe ++ Y))
    (h : Holds order s (l.cells (some p) ++ (r.cells (some p) ++ ((p, ⟨.branch (K₁ ++ k :: K₂) C, q⟩) :: L))) D) :
    ∃ s', Runs (redistributeNodes root l.id r.id leftmostIndex K₁.length k) s (some root) s' ∧
      Shared order d s' L D p l.id r.id q K₁ K₂ C X Y (X ++ l.fringe ++ .sep k :: r.fringe ++ Y) := by
  have hpos := min_pos (d := d) horder
  have hmax := min_lt (d := d) horder
  have hspare := min_lt_of_capacity_le horder hlt hsum
  have hle := hl.le_count
  cases d with
  | zero =>
    exact shareLeaf_right (l := l.toLeaf) (r := r.toLeaf) hspare (Nat.sub_le_iff_le_add.mp hle) (Nat.lt_trans hlt hmax)
      hr.count_le hpos hgood h
  | succ d =>
    exact shareBranch_right (a := l.toBranch) (b := r.toBranch) (hr.mono hspare) hl (Nat.sub_le_iff_le_add.mp hle)
      (Nat.lt_trans hlt hmax) h

end
end NuKSM.BTree
