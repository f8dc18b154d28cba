import Mathlib.Data.List.Induction
import Mathlib.Data.Option.Basic
import Mathlib.Logic.Function.Basic

/-! # Maps that are written key by key

A history of writes leads to a map, in which the last write to a key counts. An association list denotes a
map as well, and an entry that is put in, replaced or taken out is a write to its key. -/

namespace NuKSM

/-- A finite map. -/
abbrev Dict (κ α : Type) := κ → Option α

namespace Dict
variable {κ α : Type} [DecidableEq κ]

/-- A write puts a value under a key, or erases the key. -/
def write (m : Dict κ α) (w : κ × Option α) : Dict κ α := Function.update m w.1 w.2

/-- The map after some writes to the empty one. -/
def after (ws : List (κ × Option α)) : Dict κ α := ws.foldl write fun _ => none

theorem after_append {ws : List (κ × Option α)} {w : κ × Option α} : after (ws ++ [w]) = (after ws).write w := by
  simp [after]

/-- Writes to other keys do not count. -/
theorem foldl_write_of_ne {m : Dict κ α} {k : κ} {ws : List (κ × Option α)} (h : ∀ w ∈ ws, w.1 ≠ k) :
    ws.foldl write m k = m k := by
  induction ws generalizing m with
  | nil => rfl
  | cons w ws ih =>
    rw [List.foldl_cons, ih fun w' h' => h w' (List.mem_cons_of_mem _ h'), write,
      Function.update_of_ne (h w List.mem_cons_self).symm]

/-- A key holds what was written to it last. -/
theorem foldl_write_last {m : Dict κ α} {k : κ} {v : Option α} {A C : List (κ × Option α)} (h : ∀ w ∈ C, w.1 ≠ k) :
    (A ++ (k, v) :: C).foldl write m k = v := by
  rw [List.foldl_append, List.foldl_cons, foldl_write_of_ne h, write, Function.update_self]

/-- The last write to a key counts. -/
theorem after_eq {k : κ} {ws : List (κ × Option α)} : after ws k = (ws.reverse.lookup k).join := by
  induction ws using List.reverseRecOn with
  | nil => rfl
  | append_singleton ws w ih =>
    obtain ⟨j, v⟩ := w
    rw [after_append, List.reverse_append, List.reverse_singleton, List.singleton_append, write]
    by_cases hk : k = j
    · subst hk
      rw [Function.update_self, List.lookup_cons_self, Option.join_some]
    · have hne : (k == j) = false := by simpa using hk
      rw [Function.update_of_ne hk, ih, List.lookup_cons, hne]

theorem after_of_notMem {k : κ} {ws : List (κ × Option α)} (h : k ∉ ws.map Prod.fst) : after ws k = none := by
  rw [after_eq, List.lookup_eq_none_iff.mpr, Option.join_none]
  intro w hw
  refine bne_iff_ne.mpr ?_
  rintro rfl
  exact h (List.mem_map_of_mem (List.mem_reverse.mp hw))

/-- A key that is written once holds what was written. -/
theorem after_of_mem {k : κ} {v : Option α} {ws : List (κ × Option α)} (hnodup : (ws.map Prod.fst).Nodup) (h : (k, v) ∈ ws) :
    after ws k = v := by
  obtain ⟨A, C, rfl⟩ := List.append_of_mem h
  rw [List.map_append, List.map_cons] at hnodup
  have hC : ∀ w ∈ C.reverse, k != w.1 := by
    intro w hw
    refine bne_iff_ne.mpr ?_
    rintro rfl
    exact (List.nodup_cons.mp (List.nodup_append.mp hnodup).2.1).1 (List.mem_map.mpr ⟨w, List.mem_reverse.mp hw, rfl⟩)
  rw [after_eq, List.reverse_append, List.reverse_cons, List.append_assoc, List.lookup_append, List.lookup_eq_none_iff.mpr hC,
    Option.none_or, List.singleton_append, List.lookup_cons_self, Option.join_some]

/-- The order of writes to different keys does not count. -/
theorem after_perm {ws ws' : List (κ × Option α)} (hnodup : (ws.map Prod.fst).Nodup) (h : ws.Perm ws') : after ws = after ws' := by
  funext k
  by_cases hk : k ∈ ws.map Prod.fst
  · obtain ⟨⟨_, v⟩, hw, rfl⟩ := List.mem_map.mp hk
    rw [after_of_mem hnodup hw, after_of_mem ((h.map _).nodup_iff.mp hnodup) (h.mem_iff.mp hw)]
  · rw [after_of_notMem hk, after_of_notMem fun hk' => hk ((h.map _).mem_iff.mpr hk')]

/-- The map of an association list. -/
def ofList (es : List (κ × α)) : Dict κ α := fun k => es.lookup k

variable {A C : List (κ × α)} {k : κ} {v : α}

theorem lookup_none_of_ne (h : ∀ e ∈ A, e.1 ≠ k) : A.lookup k = none :=
  List.lookup_eq_none_iff.mpr fun e he => by simpa using (h e he).symm

theorem ofList_append_right (h : ∀ e ∈ A, e.1 ≠ k) : ofList (A ++ C) k = ofList C k := by
  rw [ofList, List.lookup_append, lookup_none_of_ne h, Option.none_or, ofList]

theorem ofList_append_left (h : ∀ e ∈ C, e.1 ≠ k) : ofList (A ++ C) k = ofList A k := by
  rw [ofList, List.lookup_append, lookup_none_of_ne h, Option.or_none, ofList]

/-- An entry that is put in. -/
theorem ofList_insert (h : ∀ e ∈ A, e.1 ≠ k) : ofList (A ++ (k, v) :: C) = (ofList (A ++ C)).write (k, some v) := by
  funext j
  unfold ofList write
  by_cases hj : j = k
  · subst hj
    rw [Function.update_self, List.lookup_append, lookup_none_of_ne h, Option.none_or, List.lookup_cons_self]
  · have hne : (j == k) = false := by simpa using hj
    rw [Function.update_of_ne hj, List.lookup_append, List.lookup_append, List.lookup_cons, hne]

/-- An entry that is replaced. -/
theorem ofList_replace {u : α} (h : ∀ e ∈ A, e.1 ≠ k) :
    ofList (A ++ (k, v) :: C) = (ofList (A ++ (k, u) :: C)).write (k, some v) := by
  rw [ofList_insert h, ofList_insert h]
  simp [write]

/-- An entry that is taken out. -/
theorem ofList_erase (hA : ∀ e ∈ A, e.1 ≠ k) (hC : ∀ e ∈ C, e.1 ≠ k) :
    ofList (A ++ C) = (ofList (A ++ (k, v) :: C)).write (k, none) := by
  have hnone : ofList (A ++ C) k = none := by
    rw [ofList_append_right hA, ofList, lookup_none_of_ne hC]
  rw [ofList_insert hA, write, write, Function.update_idem, ← hnone, Function.update_eq_self]

/-- A key that is absent may be erased. -/
theorem write_none {m : Dict κ α} (h : m k = none) : m.write (k, none) = m := by
  rw [write, ← h, Function.update_eq_self]

theorem ofList_eq_none : ofList A k = none ↔ ∀ e ∈ A, e.1 ≠ k := by
  simp only [ofList, List.lookup_eq_none_iff, bne_iff_ne]
  exact forall₂_congr fun _ _ => ne_comm

theorem ofList_eq_some (h : ofList A k = some v) : ∃ B C, A = B ++ (k, v) :: C ∧ ∀ e ∈ B, e.1 ≠ k := by
  obtain ⟨B, C, rfl, hB⟩ := List.lookup_eq_some_iff.mp h
  exact ⟨B, C, rfl, fun e he => (bne_iff_ne.mp (hB e he)).symm⟩

end Dict
end NuKSM
