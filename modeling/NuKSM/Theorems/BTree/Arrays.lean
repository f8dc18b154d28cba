import NuKSM.Theorems.BTree.Search
import NuKSM.Lib.Overlay

/-! The loops over the arrays of one node: what they leave in its arrays. Each runs from a state in which the
node was put to the state in which it is replaced. -/

namespace NuKSM.BTree
open BPlus

variable {s : Slab Node} {a : NodeId} {n : Node} {p m : Nat}

/-- A run from the state where a node is put again. -/
theorem Runs.of_put {α : Type} {q : NodeProg α} {r : α} {s' : Slab Node} (hn : s.mem a = n)
    (h : Runs q (s.put a n) r s') : Runs q s r s' := by
  subst hn
  rwa [Slab.put_mem_eq] at h

/-- The loop that moves entries up by one place. -/
theorem shiftEntry_loop (ha : a < s.brk) (hK : p + m < n.keys.length) (hP : p + m < n.pointers.length) :
    Runs (Prog.loopDown (shiftEntry a) p m) (s.put a n) ()
      (s.put a { n with keys := shifted n.keys p m 0, pointers := shifted n.pointers p m 0 }) := by
  have hloop := Runs.loopDown (g := shiftEntry a) (l := p) (n := m)
    (S := fun j => s.put a { n with keys := shifted n.keys p m j, pointers := shifted n.pointers p m j }) fun j hj => by
    obtain ⟨x, hx⟩ : ∃ x, n.keys[p + j]? = some x := ⟨_, List.getElem?_eq_getElem (by omega)⟩
    obtain ⟨y, hy⟩ : ∃ y, n.pointers[p + j]? = some y := ⟨_, List.getElem?_eq_getElem (by omega)⟩
    have hK' : p + j + 1 < (shifted n.keys p m (j + 1)).length := by rw [length_shifted hj hK]; omega
    have hP' : p + j + 1 < (shifted n.pointers p m (j + 1)).length := by rw [length_shifted hj hP]; omega
    have h1 := getKey_put (n := { n with keys := shifted n.keys p m (j + 1), pointers := shifted n.pointers p m (j + 1) })
      (i := p + j) (k := x) ha (by rw [getElem?_shifted hK hj]; exact hx)
    have h2 := getPtr_put (n := { n with keys := shifted n.keys p m j, pointers := shifted n.pointers p m (j + 1) })
      (i := p + j) (p := y) ha (by rw [getElem?_shifted hP hj]; exact hy)
    refine Runs.bind h1 (Runs.bind (setKey_put ha hK') ?_)
    rw [shifted_set hK hj hx]
    refine Runs.bind h2 ?_
    have h3 := setPtr_put (n := { n with keys := shifted n.keys p m j, pointers := shifted n.pointers p m (j + 1) })
      (i := p + j + 1) (p := y) ha hP'
    rwa [shifted_set hP hj hy] at h3
  simp only [shifted_self] at hloop
  exact hloop

/-- The loop of `insert_into_node`: the pointers move one place behind the keys. -/
theorem shiftNode_loop (ha : a < s.brk) (hK : p + m < n.keys.length) (hP : p + 1 + m < n.pointers.length) :
    Runs (Prog.loopDown (fun i => do
      let q ← getPtr a i
      setPtr a (i + 1) q
      let k ← getKey a (i - 1)
      setKey a i k) p m) (s.put a n) ()
      (s.put a { n with keys := shifted n.keys p m 0, pointers := shifted n.pointers (p + 1) m 0 }) := by
  have hloop := Runs.loopDown (l := p) (n := m) (g := fun i => do
      let q ← getPtr a i
      setPtr a (i + 1) q
      let k ← getKey a (i - 1)
      setKey a i k)
    (S := fun j => s.put a { n with keys := shifted n.keys p m j, pointers := shifted n.pointers (p + 1) m j }) fun j hj => by
    obtain ⟨x, hx⟩ : ∃ x, n.keys[p + j]? = some x := ⟨_, List.getElem?_eq_getElem (by omega)⟩
    obtain ⟨y, hy⟩ : ∃ y, n.pointers[p + 1 + j]? = some y := ⟨_, List.getElem?_eq_getElem (by omega)⟩
    have hK' : p + j + 1 < (shifted n.keys p m (j + 1)).length := by rw [length_shifted hj hK]; omega
    have hP' : p + 1 + j + 1 < (shifted n.pointers (p + 1) m (j + 1)).length := by rw [length_shifted hj hP]; omega
    have h1 := getPtr_put (n := { n with keys := shifted n.keys p m (j + 1), pointers := shifted n.pointers (p + 1) m (j + 1) })
      (i := p + 1 + j) (p := y) ha (by rw [getElem?_shifted hP hj]; exact hy)
    have h2 := getKey_put (n := { n with keys := shifted n.keys p m (j + 1), pointers := shifted n.pointers (p + 1) m j })
      (i := p + j) (k := x) ha (by rw [getElem?_shifted hK hj]; exact hx)
    rw [show p + j + 1 = p + 1 + j by omega] at hK' ⊢
    refine Runs.bind h1 (Runs.bind (setPtr_put ha hP') ?_)
    rw [shifted_set hP hj hy, show p + 1 + j - 1 = p + j by omega]
    refine Runs.bind h2 ?_
    have h3 := setKey_put (n := { n with keys := shifted n.keys p m (j + 1), pointers := shifted n.pointers (p + 1) m j })
      (i := p + 1 + j) (k := x) ha hK'
    have e := shifted_set hK hj hx
    rw [show p + j + 1 = p + 1 + j by omega] at e
    rwa [e] at h3
  simp only [shifted_self] at hloop
  exact hloop

/-- A copy that leaves a gap for a new element. -/
theorem copyAround_runs {α : Type} {read : Nat → NodeProg α} {xs temp : List α} {gap : Nat}
    (hread : ∀ i x, xs[i]? = some x → Runs (read i) s x s) (htemp : xs.length < temp.length) :
    Runs (copyAround read gap xs.length temp) s (gapOverlay temp gap xs.length xs) s := by
  have hloop := Runs.loopUp (l := 0) (n := xs.length) (g := fun i (r : Nat × List α) => do
      let j := if r.1 = gap then r.1 + 1 else r.1
      let x ← read i
      let temp ← setAt r.2 j x
      pure (j + 1, temp))
    (B := fun i => (if i ≤ gap then i else i + 1, gapOverlay temp gap i xs)) (S := fun _ => s) fun j hj => by
    obtain ⟨x, hx⟩ : ∃ x, xs[j]? = some x := ⟨_, List.getElem?_eq_getElem hj⟩
    have hlen : (gapOverlay temp gap j xs).length = temp.length := length_gapOverlay (by omega) (by omega)
    have hidx : (if (if j ≤ gap then j else j + 1) = gap then (if j ≤ gap then j else j + 1) + 1
        else if j ≤ gap then j else j + 1) = gapIdx gap j := by
      unfold gapIdx
      split <;> split <;> split <;> omega
    have hnext : gapIdx gap j + 1 = if j + 1 ≤ gap then j + 1 else j + 1 + 1 := by
      unfold gapIdx
      split <;> split <;> omega
    simp only [Nat.zero_add, hidx]
    refine Runs.bind (hread j x hx) (Runs.bind (setAt_runs ?_) ?_)
    · rw [hlen]
      unfold gapIdx
      split <;> omega
    · rw [gapOverlay_set hx (by omega), hnext]
      exact Runs.pure
  simp only [Nat.zero_le, if_true, gapOverlay_zero] at hloop
  exact Runs.bind hloop Runs.pure

/-- The temporary array of a split: the old elements with the new one between them. -/
theorem copyAround_insert {α : Type} {f : Nat → NodeProg α} {A B : List α} {x y : α} {N : Nat}
    (hread : ∀ i z, (A ++ B)[i]? = some z → Runs (f i) s z s) (hN : (A ++ B).length < N) :
    ∃ temp, Runs (copyAround f A.length (A ++ B).length (List.replicate N y)) s temp s ∧ A.length < temp.length ∧
      A ++ x :: B <+: temp.set A.length x := by
  have hrep : (A ++ B).length < (List.replicate N y).length := by simpa using hN
  refine ⟨_, copyAround_runs hread hrep, ?_, insert_gapOverlay (List.prefix_refl _) hrep⟩
  rw [length_gapOverlay hrep (Nat.le_refl _)]
  simp only [List.length_append] at hrep
  omega

/-- The loop that fills a node from the temporary arrays. -/
theorem takeEntry_loop {tempKeys : List Key} {tempPointers : List Ptr} {lo : Nat} (ha : a < s.brk)
    (hTK : m ≤ (tempKeys.drop lo).length) (hTP : m ≤ (tempPointers.drop lo).length)
    (hK : m ≤ n.keys.length) (hP : m ≤ n.pointers.length) :
    Runs (Prog.loopUp (fun j _ => takeEntry a tempKeys tempPointers (lo + j) j) 0 m ()) (s.put a n) ()
      (s.put a { n with
        keys := overlay n.keys 0 m (tempKeys.drop lo)
        pointers := overlay n.pointers 0 m (tempPointers.drop lo)
        numKeys := n.numKeys + m }) := by
  rw [List.length_drop] at hTK hTP
  have hloop := Runs.loopUp (l := 0) (n := m) (B := fun _ => ())
    (g := fun j (_ : Unit) => takeEntry a tempKeys tempPointers (lo + j) j)
    (S := fun j => s.put a { n with
        keys := overlay n.keys 0 j (tempKeys.drop lo)
        pointers := overlay n.pointers 0 j (tempPointers.drop lo)
        numKeys := n.numKeys + j }) fun j hj => by
    obtain ⟨x, hx⟩ : ∃ x, tempKeys[lo + j]? = some x := ⟨_, List.getElem?_eq_getElem (by omega)⟩
    obtain ⟨y, hy⟩ : ∃ y, tempPointers[lo + j]? = some y := ⟨_, List.getElem?_eq_getElem (by omega)⟩
    have hk := overlay_set (l := n.keys) (p := 0) (j := j) (s := tempKeys.drop lo) (by simpa using hx) (by omega)
    have hp := overlay_set (l := n.pointers) (p := 0) (j := j) (s := tempPointers.drop lo) (by simpa using hy) (by omega)
    rw [Nat.zero_add] at hk hp ⊢
    refine Runs.bind (at?_runs hy) (Runs.bind (setPtr_put ha ?_) ?_)
    · rw [length_overlay (by omega) (by simp; omega)]
      omega
    rw [hp]
    refine Runs.bind (at?_runs hx) (Runs.bind (setKey_put ha ?_) ?_)
    · rw [length_overlay (by omega) (by simp; omega)]
      omega
    rw [hk]
    exact incNumKeys_put ha
  simp only [overlay_zero, Nat.add_zero] at hloop
  exact hloop

/-- The loop that clears pointers. -/
theorem clearPointers_runs {lo hi : Nat} (ha : a < s.brk) (hhi : hi ≤ n.pointers.length) (hlo : lo ≤ hi) :
    Runs (clearPointers a lo hi) (s.put a n) ()
      (s.put a { n with pointers := overlay n.pointers lo (hi - lo) (List.replicate (hi - lo) .null) }) := by
  have hloop := Runs.loopUp (l := lo) (n := hi - lo) (B := fun _ => ())
    (g := fun i (_ : Unit) => setPtr a i .null)
    (S := fun j => s.put a { n with pointers := overlay n.pointers lo j (List.replicate (hi - lo) .null) }) fun j hj => by
    have hp := overlay_set (l := n.pointers) (p := lo) (j := j) (s := List.replicate (hi - lo) Ptr.null) (x := .null)
      (by simp [hj]) (by omega)
    have h1 := setPtr_put (s := s) (n := { n with pointers := overlay n.pointers lo j (List.replicate (hi - lo) .null) })
      (i := lo + j) (p := .null) ha (by
        show lo + j < (overlay _ _ _ _).length
        rw [length_overlay (by omega) (by simp; omega)]
        omega)
    rwa [hp] at h1
  simp only [overlay_zero] at hloop
  exact hloop

end NuKSM.BTree
