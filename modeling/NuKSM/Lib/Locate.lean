import NuKSM.Lib.Fringe
import Mathlib.Data.List.Flatten

/-! # The descent to a key, and what a memory holds of a tree

`locate` divides a tree into the leaf where a search for a key ends and the context of that leaf. `cells`
lists what the nodes of a tree hold in a memory that gives every node a page and a parent. -/

namespace NuKSM.BPlus
variable {κ ρ ι τ : Type}

/-! ### The descent -/

section Locate
variable [LinearOrder κ]

/-- The child to which a search for `k` goes: the one behind the last separator that is at most `k`. -/
def route (k : κ) : τ → List (κ × τ) → List (τ × κ) × τ × List (κ × τ)
  | t, [] => ([], t, [])
  | t, (s, u) :: rest =>
    if s ≤ k then ((t, s) :: (route k u rest).1, (route k u rest).2) else ([], t, (s, u) :: rest)

/-- The leaf where a search for `k` ends, in its context. -/
def locate (k : κ) : {d : Nat} → Tree κ ρ ι d → Ctx κ ρ ι d → Leaf κ ρ ι × Ctx κ ρ ι 0
  | 0, t, c => (t.toLeaf, c)
  | _ + 1, t, c =>
    let r := route k t.toBranch.first t.toBranch.rest
    locate k r.2.1 (.up ⟨t.id, r.1, r.2.2⟩ c)

variable {k : κ} {i : ι}

theorem fill_route : ∀ {t : τ} {R : List (κ × τ)},
    Branch.fill i (route k t R).1 (route k t R).2.1 (route k t R).2.2 = ⟨i, t, R⟩
  | t, [] => rfl
  | t, (s, u) :: rest => by
    unfold route
    split
    · rw [Branch.fill, fill_route]
    · rfl

theorem route_lefts : ∀ {t : τ} {R : List (κ × τ)}, ∀ x ∈ (route k t R).1, x.2 ≤ k
  | _, [] => by simp [route]
  | t, (s, u) :: rest => by
    unfold route
    split
    · intro x hx
      rcases List.mem_cons.mp hx with rfl | hx
      · assumption
      · exact route_lefts x hx
    · simp

/-- The number of children passed by is the number of leading separators that are at most `k`. -/
theorem length_route : ∀ {t : τ} {R : List (κ × τ)},
    (route k t R).1.length = ((R.map Prod.fst).takeWhile (· ≤ k)).length
  | _, [] => rfl
  | t, (s, u) :: rest => by
    unfold route
    split <;> rename_i h
    · simp [h, length_route]
    · simp [h]

theorem route_rights : ∀ {t : τ} {R : List (κ × τ)}, ∀ x ∈ (route k t R).2.2.head?, k < x.1
  | _, [] => by simp [route]
  | t, (s, u) :: rest => by
    unfold route
    split
    · exact route_rights
    · rename_i h
      simpa using h

theorem plug_locate : ∀ {d : Nat} {t : Tree κ ρ ι d} {c : Ctx κ ρ ι d},
    (locate k t c).2.plug (.leaf (locate k t c).1) = c.plug t
  | 0, _, _ => rfl
  | d + 1, t, c => by
    unfold locate
    rw [plug_locate, Ctx.plug, Frame.fill, fill_route]
    rfl

theorem fringe_route {d : Nat} {t : Tree κ ρ ι (d + 1)} :
    let r := route k t.toBranch.first t.toBranch.rest
    t.fringe = Frame.before ⟨t.id, r.1, r.2.2⟩ ++ r.2.1.fringe ++ Frame.after ⟨t.id, r.1, r.2.2⟩ := by
  intro r
  rw [← Frame.fringe_fill, fill_route]
  rfl

/-- Where the search for `k` goes, everything on the left is below `k`. -/
theorem before_route {d : Nat} {L : List (Tree κ ρ ι d × κ)} {R : List (κ × Tree κ ρ ι d)} {X : List (Item κ ρ ι)}
    (h : Ordered (X ++ Frame.before ⟨i, L, R⟩)) (hX : ∀ m ∈ marks X, m < keyMark k) (hL : ∀ x ∈ L, x.2 ≤ k) :
    ∀ m ∈ marks (X ++ Frame.before ⟨i, L, R⟩), m < keyMark k := by
  rcases List.eq_nil_or_concat L with rfl | ⟨L, ⟨u, s⟩, rfl⟩
  · simpa [Frame.before] using hX
  · -- The last separator is at most `k`, and it is the greatest mark.
    have hs : s ≤ k := hL (u, s) (by simp)
    have hlast : Frame.before ⟨i, L ++ [(u, s)], R⟩ = (Frame.before ⟨i, L, R⟩ ++ u.fringe) ++ [.sep s] := by
      simp [Frame.before]
    intro m hm
    unfold Ordered at h
    rw [List.concat_eq_append, hlast, ← List.append_assoc, marks_append] at h hm
    rcases List.mem_append.mp hm with hm | hm
    · exact ((List.pairwise_append.mp h).2.2 m hm (sepMark s) (by simp)).trans (sepMark_lt_keyMark.mpr hs)
    · simp only [marks_sep, marks_nil, List.mem_singleton] at hm
      exact hm ▸ sepMark_lt_keyMark.mpr hs

/-- Where the search for `k` goes, everything on the right is above `k`. -/
theorem after_route {d : Nat} {L : List (Tree κ ρ ι d × κ)} {R : List (κ × Tree κ ρ ι d)} {Y : List (Item κ ρ ι)}
    (h : Ordered (Frame.after ⟨i, L, R⟩ ++ Y)) (hY : ∀ m ∈ marks Y, keyMark k < m) (hR : ∀ x ∈ R.head?, k < x.1) :
    ∀ m ∈ marks (Frame.after ⟨i, L, R⟩ ++ Y), keyMark k < m := by
  rcases R with _ | ⟨⟨s, u⟩, R⟩
  · simpa [Frame.after] using hY
  · have hs : k < s := hR (s, u) (by simp)
    have hfirst : Frame.after ⟨i, L, (s, u) :: R⟩ ++ Y = .sep s :: (u.fringe ++ Frame.after ⟨i, L, R⟩ ++ Y) := by
      simp [Frame.after]
    unfold Ordered at h
    rw [hfirst, marks_sep] at h ⊢
    intro m hm
    rcases List.mem_cons.mp hm with rfl | hm
    · exact keyMark_lt_sepMark.mpr hs
    · exact (keyMark_lt_sepMark.mpr hs).trans ((List.pairwise_cons.mp h).1 m hm)

/-- The search for `k` leaves every smaller mark on the left of its leaf and every greater one on the right. -/
theorem locate_marks : ∀ {d : Nat} {t : Tree κ ρ ι d} {c : Ctx κ ρ ι d},
    Ordered (c.before ++ t.fringe ++ c.after) → (∀ m ∈ marks c.before, m < keyMark k) →
    (∀ m ∈ marks c.after, keyMark k < m) →
      (∀ m ∈ marks (locate k t c).2.before, m < keyMark k) ∧ ∀ m ∈ marks (locate k t c).2.after, keyMark k < m
  | 0, _, _, _, hX, hY => ⟨hX, hY⟩
  | d + 1, t, c, h, hX, hY => by
    have hf := fringe_route (k := k) (t := t)
    simp only at hf
    rw [hf] at h
    have hbefore := List.Pairwise.sublist (List.sublist_append_left ..) (by simpa [Ordered, List.append_assoc] using h)
    unfold locate
    refine locate_marks ?_ (before_route ?_ hX route_lefts) (after_route ?_ hY route_rights)
    · simpa [Ctx.before, Ctx.after, List.append_assoc] using h
    · unfold Ordered at h ⊢
      simp only [marks_append, List.append_assoc] at h ⊢
      rw [← List.append_assoc] at h
      exact (List.pairwise_append.mp h).1
    · unfold Ordered at h ⊢
      rw [List.append_assoc, List.append_assoc, List.append_assoc, ← List.append_assoc, ← List.append_assoc,
        marks_append] at h
      exact (List.pairwise_append.mp h).2.1

end Locate

/-! ### Cells -/

/-- What a node holds of itself: its entries and the next leaf, or its separators and its children. -/
inductive Page (κ ρ ι : Type)
  | leaf (entries : List (κ × ρ)) (next : Option ι)
  | branch (keys : List κ) (children : List ι)
  deriving DecidableEq

/-- What a node holds. -/
structure Cell (κ ρ ι : Type) where
  page : Page κ ρ ι
  parent : Option ι
  deriving DecidableEq

namespace Tree

def page : {d : Nat} → Tree κ ρ ι d → Page κ ρ ι
  | 0, t => .leaf t.toLeaf.entries t.toLeaf.next
  | _ + 1, t => .branch t.toBranch.keys (t.toBranch.children.map id)

/-- The root node, under the parent `p`, and what it holds. -/
def head {d : Nat} (p : Option ι) (t : Tree κ ρ ι d) : ι × Cell κ ρ ι := (t.id, ⟨t.page, p⟩)

/-- The nodes below the root, and what they hold. -/
def inner : {d : Nat} → Tree κ ρ ι d → List (ι × Cell κ ρ ι)
  | 0, _ => []
  | _ + 1, t => t.toBranch.children.flatMap fun u => u.head (some t.id) :: inner u

/-- All nodes, the root under the parent `p`, and what they hold. -/
def cells {d : Nat} (p : Option ι) (t : Tree κ ρ ι d) : List (ι × Cell κ ρ ι) := t.head p :: t.inner

variable {d : Nat}

@[simp] theorem head_fst {p : Option ι} {t : Tree κ ρ ι d} : (t.head p).1 = t.id := rfl

theorem map_fst_head {p : Option ι} {us : List (Tree κ ρ ι d)} : (us.map (head p)).map Prod.fst = us.map id := by
  rw [List.map_map]
  rfl

@[simp] theorem page_leaf (l : Leaf κ ρ ι) : (leaf l).page = .leaf l.entries l.next := rfl

@[simp] theorem page_branch (b : Branch κ ι (Tree κ ρ ι d)) : (branch b).page = .branch b.keys (b.children.map id) := rfl

@[simp] theorem inner_leaf (l : Leaf κ ρ ι) : (leaf l).inner = [] := rfl

theorem inner_branch (b : Branch κ ι (Tree κ ρ ι d)) :
    (branch b).inner = b.children.flatMap fun u => u.cells (some b.id) := rfl

theorem cells_branch (b : Branch κ ι (Tree κ ρ ι d)) (p : Option ι) : (branch b).cells p =
    (b.id, ⟨.branch b.keys (b.children.map id), p⟩) :: b.children.flatMap (cells (some b.id)) := rfl

/-- The nodes of some trees under one parent: their roots, and the nodes below these. -/
theorem flatMap_cells {p : Option ι} : ∀ {l : List (Tree κ ρ ι d)},
    (l.flatMap (cells p)).Perm (l.map (head p) ++ l.flatMap inner)
  | [] => .refl _
  | u :: l => by
    rw [List.flatMap_cons, List.map_cons, List.flatMap_cons, List.cons_append]
    refine List.Perm.cons _ ((flatMap_cells.append_left _).trans ?_)
    rw [← List.append_assoc, ← List.append_assoc]
    exact List.perm_append_comm.append_right _

end Tree

/-- The nodes of the children of a frame. -/
def Frame.siblings {d : Nat} (f : Frame κ ι (Tree κ ρ ι d)) : List (ι × Cell κ ρ ι) :=
  (f.lefts.flatMap fun x => x.1.cells (some f.id)) ++ f.rights.flatMap fun x => x.2.cells (some f.id)

/-- What the branch of a frame holds, when its missing child is `hole`. -/
def Frame.page {d : Nat} (f : Frame κ ι (Tree κ ρ ι d)) (hole : ι) : Page κ ρ ι :=
  .branch (f.lefts.map Prod.snd ++ f.rights.map Prod.fst)
    ((f.lefts.map fun x => x.1.id) ++ hole :: f.rights.map fun x => x.2.id)

/-- The nodes of a context, and what they hold. -/
def Ctx.cells : {d : Nat} → Ctx κ ρ ι d → (hole : ι) → List (ι × Cell κ ρ ι)
  | _, .top, _ => []
  | _, .up f c, hole => (f.id, ⟨f.page hole, c.parent⟩) :: (f.siblings ++ cells c f.id)

theorem Frame.page_fill {d : Nat} {f : Frame κ ι (Tree κ ρ ι d)} {t : Tree κ ρ ι d} :
    (Tree.branch (f.fill t)).page = f.page t.id := by
  simp [Frame.fill, Frame.page, Function.comp_def]

theorem Frame.inner_fill {d : Nat} {f : Frame κ ι (Tree κ ρ ι d)} {t : Tree κ ρ ι d} :
    (Tree.branch (f.fill t)).inner.Perm (t.cells (some f.id) ++ f.siblings) := by
  rw [Tree.inner_branch, Frame.fill, Branch.fill_children, Branch.fill_id, List.flatMap_append, List.flatMap_cons,
    List.flatMap_map, List.flatMap_map, Frame.siblings, ← List.append_assoc, ← List.append_assoc]
  exact List.perm_append_comm.append_right _

theorem Frame.cells_fill {d : Nat} {f : Frame κ ι (Tree κ ρ ι d)} {t : Tree κ ρ ι d} {p : Option ι} :
    ((Tree.branch (f.fill t)).cells p).Perm ((f.id, ⟨f.page t.id, p⟩) :: (t.cells (some f.id) ++ f.siblings)) := by
  rw [Tree.cells, Tree.head, page_fill, Tree.id_branch, fill, Branch.fill_id]
  exact inner_fill.cons _

/-- The nodes of a tree are those of a part of it and those around the part. -/
theorem Ctx.cells_plug : ∀ {d : Nat} {c : Ctx κ ρ ι d} {t : Tree κ ρ ι d},
    ((c.plug t).2.cells none).Perm (t.cells c.parent ++ c.cells t.id)
  | _, .top, t => by simp [plug, Ctx.cells, parent]
  | _, .up f c, t => by
    have ih := cells_plug (c := c) (t := Tree.branch (f.fill t))
    have hid : (Tree.branch (f.fill t)).id = f.id := Branch.fill_id
    rw [hid] at ih
    refine ih.trans ((Frame.cells_fill.append_right _).trans ?_)
    rw [List.cons_append, List.append_assoc]
    exact List.perm_middle.symm

/-! ### Neighbours -/

namespace Frame
variable {d : Nat} {f : Frame κ ι (Tree κ ρ ι d)} {l u : Tree κ ρ ι d} {k : κ}

/-- The frame of a node with the neighbour `l` added on its left. -/
def behind (f : Frame κ ι (Tree κ ρ ι d)) (l : Tree κ ρ ι d) (k : κ) : Frame κ ι (Tree κ ρ ι d) :=
  ⟨f.id, f.lefts ++ [(l, k)], f.rights⟩

theorem count_behind : (f.behind l k).count = f.count + 1 := by
  simp only [count, behind, List.length_append, List.length_cons, List.length_nil]
  omega

theorem fringe_behind :
    (Tree.branch ((f.behind l k).fill u)).fringe = f.before ++ l.fringe ++ .sep k :: u.fringe ++ f.after := by
  rw [fill, fringe_fill]
  simp [before, after, behind]

theorem sized_behind {B : Bounds} : (f.behind l k).Sized B ↔ f.Sized B ∧ l.Sized B := by
  simp only [Sized, behind, List.mem_append, List.mem_singleton, or_imp, forall_and, forall_eq]
  tauto

theorem siblings_behind : (f.behind l k).siblings.Perm (l.cells (some f.id) ++ f.siblings) := by
  simp only [siblings, behind, List.flatMap_append, List.flatMap_cons, List.flatMap_nil, List.append_nil]
  rw [← List.append_assoc]
  exact List.perm_append_comm.append_right _

theorem inner_behind : (Tree.branch ((f.behind l k).fill u)).inner.Perm
    (l.cells (some f.id) ++ (u.cells (some f.id) ++ f.siblings)) := by
  refine inner_fill.trans ((siblings_behind.append_left _).trans ?_)
  rw [← List.append_assoc, ← List.append_assoc]
  exact List.perm_append_comm.append_right _

theorem page_behind {i : ι} : (f.behind l k).page i = .branch (f.lefts.map Prod.snd ++ k :: f.rights.map Prod.fst)
    ((f.lefts.map fun x => x.1.id) ++ l.id :: i :: f.rights.map fun x => x.2.id) := by
  simp [page, behind]

theorem keys_behind : ((f.behind l k).fill u).keys = f.lefts.map Prod.snd ++ k :: f.rights.map Prod.fst := by
  simp [fill, behind]

theorem children_behind : ((f.behind l k).fill u).children = f.lefts.map Prod.fst ++ l :: u :: f.rights.map Prod.snd := by
  simp [fill, behind]

theorem cells_behind {p : Option ι} : ((Tree.branch ((f.behind l k).fill u)).cells p).Perm
    ((f.id, ⟨(f.behind l k).page u.id, p⟩) :: (l.cells (some f.id) ++ (u.cells (some f.id) ++ f.siblings))) := by
  refine cells_fill.trans (((siblings_behind.append_left _).trans ?_).cons _)
  rw [← List.append_assoc, ← List.append_assoc]
  exact List.perm_append_comm.append_right _

end Frame

theorem Ctx.depth_le : ∀ {d : Nat} {c : Ctx κ ρ ι d} {i : ι}, c.depth ≤ (c.cells i).length
  | _, .top, _ => Nat.le_refl _
  | _, .up f c, _ => by
    have ih := depth_le (c := c) (i := f.id)
    simp only [Ctx.depth, Ctx.cells, List.length_cons, List.length_append]
    omega

/-- The leaves of the row are among the nodes, in order. -/
theorem Tree.leaves_sublist : ∀ {d : Nat} {t : Tree κ ρ ι d} {p : Option ι},
    ((leaves t.fringe).map Leaf.id).Sublist ((t.cells p).map Prod.fst)
  | 0, _, _ => List.Sublist.refl _
  | d + 1, t, p => by
    rw [← branch_toBranch t, leaves_branch, cells_branch, List.map_flatMap, List.map_cons, List.map_flatMap]
    exact (List.Sublist.flatMap_right _ fun u _ => leaves_sublist).cons _

/-- A tree of height `d` has more than `d` nodes. -/
theorem Tree.lt_length_cells : ∀ {d : Nat} {t : Tree κ ρ ι d} {p : Option ι}, d < (t.cells p).length
  | 0, _, _ => by simp [cells]
  | d + 1, t, p => by
    have ih := lt_length_cells (t := t.toBranch.first) (p := some t.id)
    simp only [cells, inner, Branch.children, List.flatMap_cons, List.length_cons, List.length_append] at ih ⊢
    omega

end NuKSM.BPlus
