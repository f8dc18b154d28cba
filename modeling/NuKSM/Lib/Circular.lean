import Mathlib

/-! # Circular lists with a head

The items of a list are linked in a circle that passes through the head of the list. The head is no item, so whoever goes round
the list passes over it. -/

namespace NuKSM

/-- Where each item is linked to. -/
structure Links (κ : Type) where
  next : κ → κ
  prev : κ → κ

namespace Links
variable {κ : Type} [DecidableEq κ]

/-- The list has no items. -/
def init (l : Links κ) (head : κ) : Links κ where
  next := Function.update l.next head head
  prev := Function.update l.prev head head

/-- The item becomes the last one. -/
def addTail (l : Links κ) (item head : κ) : Links κ where
  next := Function.update (Function.update l.next item head) (l.prev head) item
  prev := Function.update (Function.update l.prev item (l.prev head)) head item

def isEmpty (l : Links κ) (head : κ) : Bool := l.next head = head

/-- The next item of the list after `pos`. -/
def cycle (l : Links κ) (head pos : κ) : κ := if l.next pos = head then l.next (l.next pos) else l.next pos

end Links

/-- The items of a list, in their order. -/
structure Circular {κ : Type} (l : Links κ) (head : κ) (items : List κ) : Prop where
  nodup : (head :: items).Nodup
  linked : (head :: (items ++ [head])).IsChain fun a b => l.next a = b ∧ l.prev b = a

namespace Circular
variable {κ : Type} {l l' : Links κ} {head item : κ} {items : List κ}

/-! ### Lists as they are made -/

theorem mem_circle {a : κ} : a ∈ head :: (items ++ [head]) ↔ a ∈ head :: items := by
  simp only [List.mem_cons, List.mem_append, List.not_mem_nil, or_false]
  tauto

/-- A list is not changed by links of other items. -/
theorem congr (hlist : Circular l head items) (hnext : ∀ a ∈ head :: items, l'.next a = l.next a)
    (hprev : ∀ a ∈ head :: items, l'.prev a = l.prev a) : Circular l' head items := by
  refine ⟨hlist.nodup, hlist.linked.imp_of_mem_imp fun a b ha hb h => ?_⟩
  rw [hnext a (mem_circle.mp ha), hprev b (mem_circle.mp hb)]
  exact h

/-- The head is linked to the last item, or to itself. -/
theorem last (hlist : Circular l head items) :
    l.prev head = (head :: items).getLast (List.cons_ne_nil _ _) ∧ l.next (l.prev head) = head := by
  have hchain : (head :: items ++ [head]).IsChain fun a b => l.next a = b ∧ l.prev b = a := hlist.linked
  obtain ⟨hnext, hprev⟩ := hchain.rel_getLast_head_of_append (List.cons_ne_nil _ _) (List.cons_ne_nil _ _)
  rw [List.head_cons] at hnext hprev
  exact ⟨hprev, hprev ▸ hnext⟩

section making
variable [DecidableEq κ]

theorem init (l : Links κ) (head : κ) : Circular (l.init head) head [] := by
  refine ⟨List.nodup_singleton _, List.isChain_pair.mpr ⟨?_, ?_⟩⟩
  · exact Function.update_self ..
  · exact Function.update_self ..

/-- Other lists are not changed. -/
theorem init_other {other : κ} {others : List κ} (hother : Circular l other others) (hnew : head ∉ other :: others) :
    Circular (l.init head) other others := by
  refine hother.congr (fun a ha => ?_) fun a ha => ?_
  · exact Function.update_of_ne (ne_of_mem_of_not_mem ha hnew) ..
  · exact Function.update_of_ne (ne_of_mem_of_not_mem ha hnew) ..

theorem addTail (hlist : Circular l head items) (hnew : item ∉ head :: items) :
    Circular (l.addTail item head) head (items ++ [item]) := by
  obtain ⟨hlast, hhead⟩ := hlist.last
  have hchain : (head :: items ++ [head]).IsChain fun a b => l.next a = b ∧ l.prev b = a := hlist.linked
  have hmem : l.prev head ∈ head :: items := hlast ▸ List.getLast_mem _
  have hne : ∀ a ∈ head :: items, a ≠ item := fun a ha => ne_of_mem_of_not_mem ha hnew
  refine ⟨?_, ?_⟩
  · rw [← List.cons_append, List.nodup_append]
    exact ⟨hlist.nodup, List.nodup_singleton _, fun a ha b hb => List.mem_singleton.mp hb ▸ hne a ha⟩
  · rw [List.append_assoc, ← List.cons_append]
    refine .append ?_ (List.isChain_pair.mpr ⟨?_, Function.update_self ..⟩) fun a ha b hb => ?_
    · refine hchain.left_of_append.imp_of_mem_tail_imp fun a b ha hb h => ?_
      -- The last item is linked to the head, so this is not the link after it.
      have hb' : b ≠ head := fun heq => (List.nodup_cons.mp hlist.nodup).1 (heq ▸ hb)
      have ha' : a ≠ l.prev head := fun heq => hb' (h.1.symm.trans (heq ▸ hhead))
      refine ⟨?_, ?_⟩
      · exact ((Function.update_of_ne ha' ..).trans (Function.update_of_ne (hne a ha) ..)).trans h.1
      · exact ((Function.update_of_ne hb' ..).trans (Function.update_of_ne (hne b (List.mem_of_mem_tail hb)) ..)).trans h.2
    · exact (Function.update_of_ne (hne _ hmem).symm ..).trans (Function.update_self ..)
    · rw [List.getLast?_eq_some_getLast (List.cons_ne_nil _ _), Option.mem_some_iff, ← hlast] at ha
      obtain rfl : item = b := Option.some.inj hb
      subst ha
      refine ⟨Function.update_self .., ?_⟩
      exact (Function.update_of_ne (hne head List.mem_cons_self).symm ..).trans (Function.update_self ..)

theorem addTail_other {other : κ} {others : List κ} (hlist : Circular l head items) (hother : Circular l other others)
    (hnew : item ∉ other :: others) (hdisjoint : ∀ a ∈ other :: others, a ∉ head :: items) :
    Circular (l.addTail item head) other others := by
  have hlast : l.prev head ∈ head :: items := hlist.last.1 ▸ List.getLast_mem _
  have hne : ∀ a ∈ other :: others, ∀ b ∈ head :: items, a ≠ b := fun a ha b hb heq => hdisjoint a ha (heq ▸ hb)
  have hitem : ∀ a ∈ other :: others, a ≠ item := fun a ha => ne_of_mem_of_not_mem ha hnew
  refine hother.congr (fun a ha => ?_) fun a ha => ?_
  · exact (Function.update_of_ne (hne a ha _ hlast) ..).trans (Function.update_of_ne (hitem a ha) ..)
  · exact (Function.update_of_ne (hne a ha _ List.mem_cons_self) ..).trans (Function.update_of_ne (hitem a ha) ..)

end making

/-! ### Going round -/

theorem item_ne_head (hlist : Circular l head items) {a : κ} (ha : a ∈ items) : a ≠ head :=
  fun heq => (List.nodup_cons.mp hlist.nodup).1 (heq ▸ ha)

/-- The item of a list that is come to after `k` items. -/
def around (items : List κ) (hne : items ≠ []) (k : ℕ) : κ :=
  items.get ⟨k % items.length, Nat.mod_lt _ (List.length_pos_iff.mpr hne)⟩

theorem around_mem (hne : items ≠ []) (k : ℕ) : around items hne k ∈ items := List.get_mem ..

theorem around_congr (hne : items ≠ []) {i j : ℕ} (h : i % items.length = j % items.length) :
    around items hne i = around items hne j := by
  simp only [around, h]

theorem next_head (hlist : Circular l head items) (hne : items ≠ []) : l.next head = around items hne 0 := by
  cases items with
  | nil => exact absurd rfl hne
  | cons a items => exact (List.isChain_cons_cons.mp hlist.linked).1.1

theorem next_around (hlist : Circular l head items) (hne : items ≠ []) (k : ℕ) :
    l.next (around items hne k) = if (k + 1) % items.length = 0 then head else around items hne (k + 1) := by
  have hlt : k % items.length < items.length := Nat.mod_lt _ (List.length_pos_iff.mpr hne)
  have hlink := (List.isChain_iff_getElem.mp hlist.linked (k % items.length + 1) (by simp; omega)).1
  simp only [List.getElem_cons_succ, List.getElem_append_left hlt] at hlink
  refine hlink.trans ?_
  rcases Nat.lt_or_ge (k % items.length + 1) items.length with hnext | hlast
  · have hmod : (k + 1) % items.length = k % items.length + 1 := by
      rw [Nat.add_mod, Nat.mod_eq_of_lt (by omega : 1 < items.length), Nat.mod_eq_of_lt hnext]
    rw [if_neg (by omega), List.getElem_append_left hnext, around, List.get_eq_getElem]
    simp only [hmod]
  · have hend : k % items.length + 1 = items.length := by omega
    have hmod : (k + 1) % items.length = 0 := by
      rw [← Nat.mod_add_mod, hend, Nat.mod_self]
    rw [if_pos hmod, List.getElem_append_right hlast]
    simp

section cycling
variable [DecidableEq κ]

theorem isEmpty_iff (hlist : Circular l head items) : l.isEmpty head = true ↔ items = [] := by
  rw [Links.isEmpty, decide_eq_true_iff]
  constructor
  · intro hempty
    by_contra hne
    rw [hlist.next_head hne] at hempty
    exact hlist.item_ne_head (around_mem hne 0) hempty
  · rintro rfl
    exact (List.isChain_cons_cons.mp hlist.linked).1.1

theorem cycle_head (hlist : Circular l head items) (hne : items ≠ []) : l.cycle head head = around items hne 0 := by
  rw [Links.cycle, hlist.next_head hne, if_neg (hlist.item_ne_head (around_mem hne 0))]

theorem cycle_around (hlist : Circular l head items) (hne : items ≠ []) (k : ℕ) :
    l.cycle head (around items hne k) = around items hne (k + 1) := by
  rw [Links.cycle, hlist.next_around hne]
  split
  · rename_i hmod
    rw [if_pos rfl, hlist.next_head hne]
    exact around_congr hne ((Nat.zero_mod _).trans hmod.symm)
  · rw [if_neg (hlist.item_ne_head (around_mem hne _))]

end cycling

end Circular

end NuKSM
