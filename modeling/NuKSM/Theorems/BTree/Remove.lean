import NuKSM.Theorems.BTree.Split

/-! `remove_entry_from_node`: a leaf loses an entry, a branch loses a separator and the child behind it. -/

namespace NuKSM.BTree
open BPlus

variable {order : Nat} {s : Slab Node} {a : NodeId} {key : Key} {q nx : Option NodeId} {L : List (NodeId × BptCell)}
  {D : List NodeId}

/-- The loop that closes a gap, over the states `S l` in which the array is `l`. -/
theorem closeGap_runs {α : Type} {read : Nat → NodeProg α} {write : Nat → α → NodeProg Unit} {S : List α → Slab Node}
    {l : List α} {i count : Nat} (hread : ∀ l j x, l[j]? = some x → Runs (read j) (S l) x (S l))
    (hwrite : ∀ l j x, j < l.length → Runs (write j x) (S l) () (S (l.set j x))) (hcount : count ≤ l.length) (hi : i < count) :
    Runs (closeGap read write i count) (S l) () (S (overlay l i (count - (i + 1)) (l.drop (i + 1)))) := by
  have hloop := Runs.loopUp (l := i + 1) (n := count - (i + 1)) (B := fun _ => ()) (g := fun j (_ : Unit) => do
      let x ← read j
      write (j - 1) x) (S := fun j => S (overlay l i j (l.drop (i + 1)))) fun j hj => by
    obtain ⟨x, hx⟩ : ∃ x, l[i + 1 + j]? = some x := ⟨_, List.getElem?_eq_getElem (by omega)⟩
    have hlen : (overlay l i j (l.drop (i + 1))).length = l.length := length_overlay (by omega) (by simp; omega)
    refine Runs.bind (hread _ _ x ?_) ?_
    · rw [getElem?_overlay_ge (by omega) (by omega) (by simp; omega), hx]
    · have hset := overlay_set (l := l) (p := i) (j := j) (s := l.drop (i + 1)) (by rwa [List.getElem?_drop]) (by omega)
      rw [← hset, show i + 1 + j - 1 = i + j by omega]
      exact hwrite _ _ x (by omega)
  simp only [overlay_zero] at hloop
  exact hloop

theorem closeKeys_runs {n : Node} {A C : List Key} (ha : a < s.brk) (h : A ++ key :: C <+: n.keys) :
    Runs (closeGap (getKey a) (setKey a) A.length (A ++ key :: C).length) (s.put a n) ()
      (s.put a { n with keys := overlay n.keys A.length C.length (n.keys.drop (A.length + 1)) }) := by
  have := closeGap_runs (S := fun l => s.put a { n with keys := l }) (fun l j x hx => getKey_put ha hx)
    (fun l j x hj => setKey_put ha hj) h.length_le (i := A.length) (by simp)
  rwa [show (A ++ key :: C).length - (A.length + 1) = C.length by simp; omega] at this

theorem closePtrs_runs {n : Node} {x : Ptr} {A C : List Ptr} (ha : a < s.brk) (h : A ++ x :: C <+: n.pointers) :
    Runs (closeGap (getPtr a) (setPtr a) A.length (A ++ x :: C).length) (s.put a n) ()
      (s.put a { n with pointers := overlay n.pointers A.length C.length (n.pointers.drop (A.length + 1)) }) := by
  have := closeGap_runs (S := fun l => s.put a { n with pointers := l }) (fun l j x hx => getPtr_put ha hx)
    (fun l j x hj => setPtr_put ha hj) h.length_le (i := A.length) (by simp)
  rwa [show (A ++ x :: C).length - (A.length + 1) = C.length by simp; omega] at this

/-- A search without a bound finds the element that is there. -/
theorem indexOf_runs {α : Type} [DecidableEq α] {read : Nat → NodeProg α} {A C : List α} {x : α} {capacity : Nat}
    (hread : ∀ j y, (A ++ x :: C)[j]? = some y → Runs (read j) s y s) (hA : x ∉ A) (hlen : (A ++ x :: C).length ≤ capacity) :
    Runs (indexOf read x capacity) s A.length s := by
  refine Runs.scanUp_hit (q := fun y => decide (y ≠ x)) (C := C) (fun j y hy _ => Runs.bind (hread j y hy) Runs.pure)
    (fun y hy => ?_) (by simp) ?_
  · simpa using fun hyx : y = x => hA (hyx ▸ hy)
  · simp only [List.length_append, List.length_cons] at hlen
    omega

/-- The part of `remove_entry_from_node` before the cleanup, for a node with the keys `K₁`, `key`, `K₂` and the
    pointers `P₁`, `x`, `P₂`. -/
theorem removeEntry_runs {c : BptCell} {K J : List Key} {P Q : List Ptr} {x : Ptr} (ha : a < s.brk)
    (hm : Matches order (s.mem a) c) (hK : pageKeys c.page = K ++ key :: J) (hP : pagePtrs c.page = P ++ x :: Q)
    (hkey : key ∉ K) (hx : x ∉ P)
    (hlen : (P ++ x :: Q).length = if pageIsLeaf c.page then (K ++ key :: J).length else (K ++ key :: J).length + 1) :
    ∀ {s' : Slab Node}, Runs (do
        (if pageIsLeaf c.page then clearPointers a (K ++ J).length (order - 1)
          else clearPointers a (K ++ key :: J).length order)
        pure a)
      (s.put a { s.mem a with
        keys := overlay (s.mem a).keys K.length J.length ((s.mem a).keys.drop (K.length + 1))
        pointers := overlay (s.mem a).pointers P.length Q.length ((s.mem a).pointers.drop (P.length + 1))
        numKeys := (K ++ J).length }) a s' →
      Runs (removeEntryFromNode order a key x) s a s' := by
  intro s' hrest
  have hkeys := hm.keys
  have hptrs := hm.pointers
  rw [hK] at hkeys
  rw [hP] at hptrs
  have hnum : (s.mem a).numKeys = (K ++ key :: J).length := by rw [hm.numKeys, hK]
  have hcap := hkeys.length_le
  have hcap' := hptrs.length_le
  rw [hm.keys_length] at hcap
  rw [hm.pointers_length] at hcap'
  have hnum' : (K ++ key :: J).length - 1 = (K ++ J).length := by
    simp only [List.length_append, List.length_cons]
    omega
  refine Runs.bind (load_runs ha) (Runs.bind (indexOf_runs (C := J) (fun j y hy => getKey_runs ha (getElem?_of_isPrefix hkeys hy))
    hkey hcap) (Runs.bind (Runs.guardOr ?_) ?_))
  · rw [hnum]
    simp
  rw [hnum, hm.isLeaf]
  refine Runs.bind (Runs.of_put rfl (closeKeys_runs ha hkeys)) ?_
  refine Runs.bind (indexOf_runs (C := Q) (fun j y hy => getPtr_put ha (getElem?_of_isPrefix hptrs hy)) hx hcap')
    (Runs.bind (Runs.guardOr ?_) ?_)
  · rw [← hlen]
    simp
  rw [← hlen]
  refine Runs.bind (closePtrs_runs (n := { s.mem a with keys := _ }) ha hptrs) ?_
  have hpos : 0 < (s.mem a).numKeys := by
    rw [hnum, List.length_append, List.length_cons]
    omega
  refine Runs.bind (decNumKeys_put ha hpos) ?_
  rw [hnum, hnum']
  exact hrest

/-- A leaf loses an entry. -/
theorem removeFromLeaf_runs {A C : List (Key × RecId)} {r : RecId}
    (h : Holds order s ((a, ⟨.leaf (A ++ (key, r) :: C) nx, q⟩) :: L) D) (hkey : ∀ e ∈ A, e.1 ≠ key) (hr : ∀ e ∈ A, e.2 ≠ r) :
    ∃ s', Runs (removeEntryFromNode order a key (.record r)) s a s' ∧ Holds order s' ((a, ⟨.leaf (A ++ C) nx, q⟩) :: L) D := by
  have ha := h.lt (List.mem_cons_self ..)
  have hm := h.holds _ (List.mem_cons_self ..)
  have hkeys := hm.keys
  have hptrs := hm.pointers
  have hle := hm.length_le
  have hpos := hm.order_pos
  simp only [pageKeys_leaf, pagePtrs_leaf, List.map_append, List.map_cons] at hkeys hptrs
  simp only [List.length_append, List.length_cons] at hle
  have hK : A.length + C.length ≤ (s.mem a).keys.length := by rw [hm.keys_length]; omega
  have hP : A.length + C.length ≤ (s.mem a).pointers.length := by rw [hm.pointers_length]; omega
  have hm' : Matches order { s.mem a with
      keys := overlay (s.mem a).keys A.length C.length ((s.mem a).keys.drop (A.length + 1))
      pointers := overlay (s.mem a).pointers A.length C.length ((s.mem a).pointers.drop (A.length + 1))
      numKeys := (A ++ C).length } ⟨.leaf (A ++ C) nx, q⟩ := by
    refine ⟨(length_overlay hK ?_).trans hm.keys_length, (length_overlay hP ?_).trans hm.pointers_length, hm.parent, hm.isLeaf,
      by simp, ?_, ?_, ?_⟩
    · rw [List.length_drop, hm.keys_length]
      omega
    · rw [List.length_drop, hm.pointers_length]
      omega
    · simpa using erase_overlay hkeys
    · simpa using erase_overlay hptrs
    · rintro entries next ⟨⟩
      refine (getElem?_overlay_ge (by omega) hP ?_).trans (hm.next _ _ rfl)
      rw [List.length_drop, hm.pointers_length]
      omega
  obtain ⟨s', hclear, h'⟩ := clearLeaf_runs (h.put_head hm') rfl
  refine ⟨s', removeEntry_runs (K := A.map Prod.fst) (J := C.map Prod.fst) (P := A.map fun e => .record e.2)
    (Q := C.map fun e => .record e.2) ha hm (by simp) (by simp) ?_ ?_ (by simp) ?_, h'⟩
  · simpa using fun r' he => hkey _ he rfl
  · simpa using fun k he => hr (k, r) he rfl
  · simp only [← List.map_append, List.length_map]
    exact Runs.bind hclear Runs.pure

/-- The unused pointers of a branch are cleared. -/
theorem clearBranch_runs {ks : List Key} {cs : List NodeId} {m : Nat} (h : Holds order s ((a, ⟨.branch ks cs, q⟩) :: L) D)
    (hm : m = cs.length) : ∃ s', Runs (clearPointers a m order) s () s' ∧ Holds order s' ((a, ⟨.branch ks cs, q⟩) :: L) D := by
  subst hm
  have hm := h.holds _ (List.mem_cons_self ..)
  have hle := hm.pointers.length_le
  rw [pagePtrs_branch, List.length_map, hm.pointers_length] at hle
  have hend : cs.length + (order - cs.length) ≤ (s.mem a).pointers.length := by rw [hm.pointers_length]; omega
  refine ⟨_, Runs.of_put rfl (clearPointers_runs (h.lt (List.mem_cons_self ..)) (by rw [hm.pointers_length]) hle),
    h.put_head { hm with pointers_length := ?_, pointers := ?_, next := nofun }⟩
  · exact (length_overlay hend (by simp)).trans hm.pointers_length
  · have := append_overlay (K := (s.mem a).pointers) hm.pointers (List.prefix_refl (List.replicate (order - cs.length) Ptr.null))
    rw [List.length_replicate, pagePtrs_branch, List.length_map] at this
    exact (List.prefix_append ..).trans this

/-- A branch loses a separator and the child behind it. -/
theorem removeFromBranch_runs {K J : List Key} {B E : List NodeId} {p : NodeId}
    (h : Holds order s ((a, ⟨.branch (K ++ key :: J) (B ++ p :: E), q⟩) :: L) D) (hB : B.length = K.length + 1)
    (hE : E.length = J.length) (hkey : key ∉ K) (hp : p ∉ B) :
    ∃ s', Runs (removeEntryFromNode order a key (.node p)) s a s' ∧
      Holds order s' ((a, ⟨.branch (K ++ J) (B ++ E), q⟩) :: L) D := by
  have ha := h.lt (List.mem_cons_self ..)
  have hm := h.holds _ (List.mem_cons_self ..)
  have hkeys := hm.keys
  have hptrs := hm.pointers
  have hleK := hkeys.length_le
  have hleP := hptrs.length_le
  simp only [pageKeys_branch, pagePtrs_branch, List.map_append, List.map_cons] at hkeys hptrs
  simp only [pageKeys_branch, pagePtrs_branch, hm.keys_length, hm.pointers_length, List.length_map, List.length_append,
    List.length_cons] at hleK hleP
  have hm' : Matches order { s.mem a with
      keys := overlay (s.mem a).keys K.length J.length ((s.mem a).keys.drop (K.length + 1))
      pointers := overlay (s.mem a).pointers B.length E.length ((s.mem a).pointers.drop (B.length + 1))
      numKeys := (K ++ J).length } ⟨.branch (K ++ J) (B ++ E), q⟩ := by
    refine ⟨(length_overlay ?_ ?_).trans hm.keys_length, (length_overlay ?_ ?_).trans hm.pointers_length, hm.parent, hm.isLeaf,
      rfl, erase_overlay hkeys, ?_, nofun⟩
    · rw [hm.keys_length]
      omega
    · rw [List.length_drop, hm.keys_length]
      omega
    · rw [hm.pointers_length]
      omega
    · rw [List.length_drop, hm.pointers_length]
      omega
    · simpa using erase_overlay hptrs
  obtain ⟨s', hclear, h'⟩ := clearBranch_runs (m := (K ++ key :: J).length) (h.put_head hm') (by simp; omega)
  refine ⟨s', removeEntry_runs (K := K) (J := J) (P := B.map .node) (Q := E.map .node) ha hm rfl (by simp) hkey ?_
    (by simp; omega) ?_, h'⟩
  · simpa using hp
  · simp only [List.length_map]
    exact Runs.bind hclear Runs.pure

end NuKSM.BTree
