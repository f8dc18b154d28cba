import NuKSM.Theorems.BTree.Cells
import NuKSM.Lib.Dict
import Mathlib.Data.List.TakeWhile

/-! The searches run without fault on a stored tree, and find what its row of leaves says. -/

namespace NuKSM.BTree
open BPlus

variable {order : Nat} {s : Slab Node} {key : Key}

/-- The memory holds the nodes of a tree whose root node has the parent `p`. -/
def Stores (order : Nat) (s : Slab Node) {d : Nat} (p : Option NodeId) (t : BptTree d) : Prop :=
  ∀ x ∈ t.cells p, x.1 < s.brk ∧ Matches order (s.mem x.1) x.2

namespace Stores
variable {d : Nat} {p : Option NodeId}

theorem root {t : BptTree d} (h : Stores order s p t) : t.id < s.brk ∧ Matches order (s.mem t.id) ⟨t.page, p⟩ :=
  h _ (List.mem_cons_self ..)

theorem child {t : BptTree (d + 1)} (h : Stores order s p t) {u : BptTree d} (hu : u ∈ t.toBranch.children) :
    Stores order s (some t.id) u := fun x hx =>
  h x (List.mem_cons_of_mem _ (List.mem_flatMap.mpr ⟨u, hu, hx⟩))

end Stores

theorem Holds.stores {L : List (NodeId × BptCell)} {D : List NodeId} {d : Nat} {p : Option NodeId} {t : BptTree d}
    (h : Holds order s L D) (ht : ∀ x ∈ t.cells p, x ∈ L) : Stores order s p t := fun x hx =>
  ⟨h.lt (ht x hx), h.holds x (ht x hx)⟩

/-- A search through the keys of a node whose keys are `A ++ C`. -/
theorem scanKeys_runs {a : NodeId} {c : BptCell} {q : Key → Bool} {A C : List Key} (ha : a < s.brk)
    (hc : Matches order (s.mem a) c) (hkeys : pageKeys c.page = A ++ C) (hA : ∀ k ∈ A, q k = true)
    (hC : ∀ k ∈ C.head?, q k = false) :
    Runs (Prog.scanUp (fun i => do return q (← getKey a i)) 0 (s.mem a).numKeys) s A.length s := by
  rw [hc.numKeys, hkeys]
  refine Runs.scanUp_list (fun j k hk => ?_) hA hC
  exact Runs.bind (getKey_runs ha (getElem?_of_isPrefix hc.keys (hkeys ▸ hk))) Runs.pure

/-- The same, cut where the test fails first. -/
theorem scanKeys_takeWhile {a : NodeId} {c : BptCell} (q : Key → Bool) (ha : a < s.brk) (hc : Matches order (s.mem a) c) :
    Runs (Prog.scanUp (fun i => do return q (← getKey a i)) 0 (s.mem a).numKeys) s
      ((pageKeys c.page).takeWhile q).length s := by
  refine scanKeys_runs ha hc (List.takeWhile_append_dropWhile ..).symm (fun k hk => List.mem_takeWhile_imp hk) ?_
  intro k hk
  have := List.head?_dropWhile_not q (pageKeys c.page)
  rw [Option.mem_def.mp hk] at this
  simpa using this

theorem childIndex_runs {a : NodeId} {c : BptCell} (ha : a < s.brk) (hc : Matches order (s.mem a) c) :
    Runs (childIndex a key) s ((pageKeys c.page).takeWhile (· ≤ key)).length s :=
  Runs.bind (load_runs ha) (scanKeys_takeWhile (fun k => decide (k ≤ key)) ha hc)

theorem descend_runs : ∀ {d fuel : Nat} {t : BptTree d} {c : BptCtx d} {p : Option NodeId}, d < fuel →
    Stores order s p t → Runs (descend key fuel t.id) s (locate key t c).1.id s
  | _, 0, _, _, _, hf, _ => absurd hf (Nat.not_lt_zero _)
  | 0, fuel + 1, t, c, p, _, h => by
    obtain ⟨ha, hm⟩ := h.root
    exact Runs.bind (load_runs ha) (Runs.ite_pos hm.isLeaf Runs.pure)
  | d + 1, fuel + 1, t, c, p, hf, h => by
    obtain ⟨ha, hm⟩ := h.root
    have hchildren := Branch.fill_children (i := t.id) (L := (route key t.toBranch.first t.toBranch.rest).1)
      (t := (route key t.toBranch.first t.toBranch.rest).2.1) (R := (route key t.toBranch.first t.toBranch.rest).2.2)
    rw [fill_route] at hchildren
    have hidx : (pagePtrs t.page)[((pageKeys t.page).takeWhile (· ≤ key)).length]? =
        some (.node (route key t.toBranch.first t.toBranch.rest).2.1.id) := by
      have hlen := length_route (k := key) (t := t.toBranch.first) (R := t.toBranch.rest)
      show (((t.toBranch.children.map Tree.id).map Ptr.node))[((t.toBranch.rest.map Prod.fst).takeWhile (· ≤ key)).length]? = _
      rw [← hlen, show t.toBranch.children = _ from hchildren]
      simp
    refine Runs.bind (load_runs ha) (Runs.ite_neg (by simp [hm.isLeaf, Tree.page]) ?_)
    refine Runs.bind (childIndex_runs ha hm) (Runs.bind (getPtr_runs ha (getElem?_of_isPrefix hm.pointers hidx)) ?_)
    refine Runs.bind asNode_runs (descend_runs (Nat.lt_of_succ_lt_succ hf) (h.child ?_))
    rw [show t.toBranch.children = _ from hchildren]
    simp

theorem fuel_runs : Runs fuel s (s.brk + 1) s := Runs.bind Runs.get Runs.pure

/-- A stored tree is lower than the number of carved nodes. -/
theorem Holds.lt_brk {L : List (NodeId × BptCell)} {D : List NodeId} {d : Nat} {p : Option NodeId} {t : BptTree d}
    (h : Holds order s (t.cells p ++ L) D) : d < s.brk := by
  have := h.length_le
  rw [List.length_append] at this
  have := Tree.lt_length_cells (t := t) (p := p)
  omega

/-! ### `find` -/

/-- The row of a tree around the leaf where the search for `key` ends. -/
structure Located (key : Key) (f : List BptItem) (l : BptLeaf) (c : BptCtx 0) : Prop where
  fringe : f = c.before ++ .leaf l :: c.after
  before : ∀ m ∈ marks c.before, m < keyMark key
  after : ∀ m ∈ marks c.after, keyMark key < m

theorem located {d : Nat} {t : BptTree d} (h : Ordered t.fringe) :
    Located key t.fringe (locate key t .top).1 (locate key t .top).2 := by
  have hplug := congrArg (fun x : (D : Nat) × BptTree D => x.2.fringe) (plug_locate (k := key) (t := t) (c := .top))
  have hmarks := locate_marks (k := key) (t := t) (c := .top) (by simpa [Ctx.before, Ctx.after] using h)
    (by simp [Ctx.before]) (by simp [Ctx.after])
  refine ⟨?_, hmarks.1, hmarks.2⟩
  simp only [Ctx.fringe_plug, Tree.fringe_leaf] at hplug
  simpa [Ctx.before, Ctx.after] using hplug.symm

namespace Located
variable {f : List BptItem} {l : BptLeaf} {c : BptCtx 0}

theorem entries_before (h : Located key f l c) : ∀ e ∈ entries c.before, e.1 < key := fun _ he =>
  keyMark_lt_keyMark.mp (h.before _ (keyMark_mem he))

theorem entries_after (h : Located key f l c) : ∀ e ∈ entries c.after, key < e.1 := fun _ he =>
  keyMark_lt_keyMark.mp (h.after _ (keyMark_mem he))

theorem entries_eq (h : Located key f l c) : entries f = entries c.before ++ (l.entries ++ entries c.after) := by
  rw [h.fringe, entries_append, entries_leaf]

theorem lookup_eq (h : Located key f l c) : Dict.ofList (entries f) key = Dict.ofList l.entries key := by
  rw [h.entries_eq, Dict.ofList_append_right fun e he => (h.entries_before e he).ne,
    Dict.ofList_append_left fun e he => (h.entries_after e he).ne']

end Located

/-- The scan of `find` through the leaf where the search ends. -/
theorem find_leaf_runs {l : BptLeaf} {p : Option NodeId} (ha : l.id < s.brk)
    (hm : Matches order (s.mem l.id) ⟨.leaf l.entries l.next, p⟩) :
    Runs (do
      let n ← load l.id
      let i ← Prog.scanUp (fun i => do return decide ((← getKey l.id i) ≠ key)) 0 n.numKeys
      if i = n.numKeys then pure (none, some l.id)
      else do
        let p ← getPtr l.id i
        let r ← p.asRecord
        pure (r, some l.id)) s (Dict.ofList l.entries key, some l.id) s := by
  refine Runs.bind (load_runs ha) ?_
  have hnum : (s.mem l.id).numKeys = l.entries.length := by simpa using hm.numKeys
  cases hfind : Dict.ofList l.entries key with
  | none =>
    have hne := Dict.ofList_eq_none.mp hfind
    refine Runs.bind (scanKeys_runs (q := fun k => decide (k ≠ key)) (A := l.entries.map Prod.fst) (C := []) ha hm
      (by simp) ?_ (by simp)) (Runs.ite_pos (by simp [hnum]) Runs.pure)
    intro k hk
    obtain ⟨e, he, rfl⟩ := List.mem_map.mp hk
    simpa using hne e he
  | some r =>
    obtain ⟨B, C, hl, hB⟩ := Dict.ofList_eq_some hfind
    have hkeys : pageKeys (.leaf l.entries l.next : BptPage) = B.map Prod.fst ++ key :: C.map Prod.fst := by simp [hl]
    have hptr : (pagePtrs (.leaf l.entries l.next : BptPage))[(B.map Prod.fst).length]? = some (.record r) := by simp [hl]
    refine Runs.bind (scanKeys_runs (q := fun k => decide (k ≠ key)) ha hm hkeys ?_ (by simp))
      (Runs.ite_neg (by simp [hnum, hl]) ?_)
    · intro k hk
      obtain ⟨e, he, rfl⟩ := List.mem_map.mp hk
      simpa using hB e he
    · exact Runs.bind (getPtr_runs ha (getElem?_of_isPrefix hm.pointers hptr)) (Runs.bind Runs.pure Runs.pure)

theorem stores_locate {d : Nat} {t : BptTree d} (h : Stores order s none t) :
    (locate key t .top).1.id < s.brk ∧ Matches order (s.mem (locate key t .top).1.id)
      ⟨.leaf (locate key t .top).1.entries (locate key t .top).1.next, (locate key t .top).2.parent⟩ := by
  have hcells := Ctx.cells_plug (c := (locate key t .top).2) (t := .leaf (locate key t .top).1)
  rw [plug_locate] at hcells
  exact h _ (hcells.symm.subset (List.mem_append_left _ (List.mem_cons_self ..)))

theorem findLeaf_runs {d : Nat} {t : BptTree d} (hd : d < s.brk) (h : Stores order s none t) :
    Runs (findLeaf (some t.id) key) s (some (locate key t .top).1.id) s :=
  Runs.bind fuel_runs (Runs.map (descend_runs (Nat.lt_succ_of_lt hd) h))

theorem find_runs {d : Nat} {t : BptTree d} (hd : d < s.brk) (h : Stores order s none t) (hord : Ordered t.fringe) :
    Runs (find (some t.id) key) s (Dict.ofList (entries t.fringe) key, some (locate key t .top).1.id) s := by
  rw [(located hord).lookup_eq]
  exact Runs.bind (findLeaf_runs hd h) (find_leaf_runs (stores_locate h).1 (stores_locate h).2)

theorem find_none : Runs (find none key) s (none, none) s := Runs.bind Runs.pure Runs.pure

end NuKSM.BTree
