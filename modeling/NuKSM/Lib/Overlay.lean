import Mathlib.Data.List.Basic
import Mathlib.Data.List.TakeDrop

/-! # Array sections written by a loop

A loop that copies, shifts or clears part of an array leaves, after each of its steps, the old array with a
section of another list laid over it. `overlay l p j s` has the first `j` elements of `s` at the places from
`p` on. The lemmas on `<+:` give what the used front part of an array holds after such a loop. -/

namespace NuKSM
variable {α : Type}

/-- `l` with the first `j` elements of `s` written over the places `p, …, p + j - 1`. -/
def overlay (l : List α) (p j : Nat) (s : List α) : List α := l.take p ++ s.take j ++ l.drop (p + j)

section overlay
variable {l s : List α} {p j i : Nat} {x : α}

@[simp] theorem overlay_zero : overlay l p 0 s = l := by
  simp [overlay]

theorem length_overlay (hp : p + j ≤ l.length) (hj : j ≤ s.length) : (overlay l p j s).length = l.length := by
  simp only [overlay, List.length_append, List.length_take, List.length_drop]
  omega

theorem getElem?_overlay_lt (h : i < p) (hp : p ≤ l.length) : (overlay l p j s)[i]? = l[i]? := by
  rw [overlay, List.append_assoc, List.getElem?_append_left (by simp; omega), List.getElem?_take_of_lt h]

theorem getElem?_overlay_ge (h : p + j ≤ i) (hp : p + j ≤ l.length) (hj : j ≤ s.length) :
    (overlay l p j s)[i]? = l[i]? := by
  rw [overlay, List.getElem?_append_right (by simp; omega), List.getElem?_drop]
  congr 1
  simp only [List.length_append, List.length_take]
  omega

/-- The next place of a section that is written upwards. -/
theorem overlay_set (hs : s[j]? = some x) (hp : p + j < l.length) :
    (overlay l p j s).set (p + j) x = overlay l p (j + 1) s := by
  obtain ⟨hj, rfl⟩ := List.getElem?_eq_some_iff.mp hs
  have hlen : (l.take p ++ s.take j).length = p + j := by
    simp only [List.length_append, List.length_take]
    omega
  rw [overlay, List.set_append_right (p + j) _ (by omega), hlen, Nat.sub_self, List.drop_eq_getElem_cons hp,
    List.set_cons_zero, overlay, List.take_succ_eq_append_getElem hj]
  simp only [List.append_assoc, List.cons_append, List.nil_append, Nat.add_assoc]

/-- The next place of a section that is written downwards. -/
theorem overlay_set_pred (hi : i < l.length) : (overlay l (i + 1) j s).set i x = overlay l i (j + 1) (x :: s) := by
  rw [overlay, List.take_succ_eq_append_getElem hi, List.append_assoc, List.append_assoc,
    List.set_append_right i _ (List.length_take_le i l), List.length_take_of_le (by omega), Nat.sub_self]
  simp only [List.cons_append, List.nil_append, List.set_cons_zero, overlay, List.take_succ_cons, List.append_assoc]
  rw [Nat.add_right_comm, Nat.add_assoc]

end overlay

section front
variable {A B K T : List α} {x : α}

/-- `B` appended behind the front part `A`. -/
theorem append_overlay (hA : A <+: K) (hB : B <+: T) : A ++ B <+: overlay K A.length B.length T := by
  obtain ⟨K, rfl⟩ := hA
  obtain ⟨T, rfl⟩ := hB
  simp [overlay]

theorem copy_overlay (hB : B <+: T) : B <+: overlay K 0 B.length T := append_overlay (A := []) (List.nil_prefix ..) hB

/-- A write behind a front part. -/
theorem prefix_set {i : Nat} (h : A <+: K) (hi : A.length ≤ i) : A <+: K.set i x := by
  obtain ⟨J, rfl⟩ := h
  rw [List.set_append_right _ _ hi]
  exact List.prefix_append ..

/-- A write right behind a front part. -/
theorem append_set (h : A <+: K) (hlt : A.length < K.length) : A ++ [x] <+: K.set A.length x := by
  obtain ⟨J, rfl⟩ := h
  cases J with
  | nil => simp at hlt
  | cons y J => exact ⟨J, by simp⟩

/-- A front part shifted up by one place from `B` on, with `x` written into the gap. -/
theorem insert_overlay (h : A ++ B <+: K) (hlt : (A ++ B).length < K.length) :
    A ++ x :: B <+: (overlay K (A.length + 1) B.length (K.drop A.length)).set A.length x := by
  obtain ⟨J, rfl⟩ := h
  rw [overlay_set_pred (by simp only [List.length_append] at hlt ⊢; omega)]
  exact append_overlay (B := x :: B) (by simp) (by simp)

/-- A front part shifted down by one place over `x`. -/
theorem erase_overlay (h : A ++ x :: B <+: K) : A ++ B <+: overlay K A.length B.length (K.drop (A.length + 1)) := by
  obtain ⟨J, rfl⟩ := h
  refine append_overlay (by simp) ?_
  have hdrop : (A ++ x :: B ++ J).drop (A.length + 1) = B ++ J := by
    rw [List.append_assoc, List.cons_append, List.drop_length_add_append]
    rfl
  exact ⟨J, hdrop.symm⟩

end front

/-! ### Shifts -/

/-- `l` while its elements `p, …, p + m - 1` are moved up by one place, from the last one down to `p + j`. -/
def shifted (l : List α) (p m j : Nat) : List α := overlay l (p + j + 1) (m - j) (l.drop (p + j))

section shifted
variable {l : List α} {p m j : Nat} {x : α}

@[simp] theorem shifted_self : shifted l p m m = l := by
  simp [shifted]

theorem length_shifted (hj : j ≤ m) (h : p + m < l.length) : (shifted l p m j).length = l.length :=
  length_overlay (by omega) (by simp; omega)

theorem getElem?_shifted (h : p + m < l.length) (hj : j < m) : (shifted l p m (j + 1))[p + j]? = l[p + j]? :=
  getElem?_overlay_lt (by omega) (by omega)

theorem getElem?_shifted_ge {i : Nat} (hi : p + m < i) (h : p + m < l.length) (hj : j ≤ m) : (shifted l p m j)[i]? = l[i]? :=
  getElem?_overlay_ge (by omega) (by omega) (by simp; omega)

theorem shifted_set (h : p + m < l.length) (hj : j < m) (hx : l[p + j]? = some x) :
    (shifted l p m (j + 1)).set (p + j + 1) x = shifted l p m j := by
  obtain ⟨hlt, rfl⟩ := List.getElem?_eq_some_iff.mp hx
  rw [shifted, ← Nat.add_assoc, overlay_set_pred (by omega), ← List.drop_eq_getElem_cons hlt, shifted]
  congr 1
  omega

/-- A front part `A ++ B`, with `x` written into the place that the shift of `B` has freed. -/
theorem insert_shifted {A B : List α} (h : A ++ B <+: l) (hp : A.length = p) (hm : B.length = m) (hlt : p + m < l.length) :
    A ++ x :: B <+: (shifted l p m 0).set p x := by
  subst hp hm
  exact insert_overlay h (by simpa using hlt)

end shifted

/-! ### Copies that leave a gap -/

/-- Where the element `i` of a list goes when the place `g` is left free. -/
def gapIdx (g i : Nat) : Nat := if i < g then i else i + 1

/-- `l` after the first `i` elements of `s` were written to their places around the gap `g`. -/
def gapOverlay (l : List α) (g i : Nat) (s : List α) : List α :=
  if i ≤ g then overlay l 0 i s else overlay (overlay l 0 g s) (g + 1) (i - g) (s.drop g)

section gap
variable {l s A B T : List α} {g i : Nat} {x : α}

@[simp] theorem gapOverlay_zero : gapOverlay l g 0 s = l := by
  simp [gapOverlay]

theorem length_gapOverlay (hi : i < l.length) (hs : i ≤ s.length) : (gapOverlay l g i s).length = l.length := by
  unfold gapOverlay
  split
  · exact length_overlay (by omega) hs
  · have h0 : (overlay l 0 g s).length = l.length := length_overlay (by omega) (by omega)
    rw [length_overlay (by omega) (by simp; omega), h0]

theorem gapOverlay_set (hs : s[i]? = some x) (hi : i + 1 < l.length) :
    (gapOverlay l g i s).set (gapIdx g i) x = gapOverlay l g (i + 1) s := by
  have hlen : i < s.length := (List.getElem?_eq_some_iff.mp hs).1
  rcases Nat.lt_trichotomy i g with h | rfl | h
  · have := overlay_set (l := l) (p := 0) hs (by omega)
    simpa [gapOverlay, gapIdx, h, Nat.le_of_lt h, Nat.succ_le_of_lt h] using this
  · have h0 : (overlay l 0 i s).length = l.length := length_overlay (by omega) (by omega)
    have := overlay_set (l := overlay l 0 i s) (p := i + 1) (j := 0) (s := s.drop i) (x := x) (by simpa using hs) (by omega)
    simpa [gapOverlay, gapIdx, Nat.not_succ_le_self] using this
  · have h0 : (overlay l 0 g s).length = l.length := length_overlay (by omega) (by omega)
    have hidx : (s.drop g)[i - g]? = some x := by
      rw [List.getElem?_drop, Nat.add_sub_cancel' (Nat.le_of_lt h)]
      exact hs
    have := overlay_set (l := overlay l 0 g s) (p := g + 1) hidx (by omega)
    have e1 : g + 1 + (i - g) = i + 1 := by omega
    have e2 : i - g + 1 = i + 1 - g := by omega
    rw [e1, e2] at this
    simpa [gapOverlay, gapIdx, Nat.not_lt.mpr (Nat.le_of_lt h), Nat.not_le.mpr h, Nat.not_le.mpr (Nat.lt_succ_of_lt h)]
      using this

/-- All of `A ++ B` copied around the gap, with `x` written into the gap. -/
theorem insert_gapOverlay (h : A ++ B <+: s) (hlt : (A ++ B).length < T.length) :
    A ++ x :: B <+: (gapOverlay T A.length (A ++ B).length s).set A.length x := by
  obtain ⟨J, rfl⟩ := h
  have hA : A <+: overlay T 0 A.length (A ++ B ++ J) := copy_overlay (by simp)
  cases B with
  | nil =>
    obtain ⟨K, hK⟩ := hA
    have hlen := length_overlay (l := T) (p := 0) (j := A.length) (s := A ++ [] ++ J)
      (by simp only [List.append_nil] at hlt; omega) (by simp)
    rw [← hK] at hlen
    cases K with
    | nil => simp at hlen hlt; omega
    | cons y K =>
      simp only [List.append_nil] at hK ⊢
      rw [gapOverlay, if_pos (Nat.le_refl _), ← hK]
      simp
  | cons b B =>
    have hgt : ¬(A ++ b :: B).length ≤ A.length := by simp
    rw [gapOverlay, if_neg hgt, List.length_append, Nat.add_sub_cancel_left]
    have hlen : (overlay T 0 A.length (A ++ b :: B ++ J)).length = T.length :=
      length_overlay (by simp at hlt; omega) (by simp)
    rw [overlay_set_pred (by simp at hlt; omega)]
    exact append_overlay (B := x :: b :: B) hA (by simp)

end gap
end NuKSM
