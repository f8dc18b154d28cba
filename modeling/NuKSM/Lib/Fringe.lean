import NuKSM.Lib.BPlusTree

/-! # The row of leaves of a B+ tree

Keys and separators are put in one linear order: `keyMark k` and `sepMark k` compare as `k`, and at the
same `k` the separator comes first. A row is `Ordered` when its marks increase strictly, which says at once
that the keys increase, that everything left of a separator is below it and everything right of it is not.
-/

namespace NuKSM.BPlus
variable {κ ρ ι : Type}

section Marks
variable [LinearOrder κ]

def sepMark (k : κ) : κ ×ₗ Bool := toLex (k, false)

def keyMark (k : κ) : κ ×ₗ Bool := toLex (k, true)

variable {a b : κ}

@[simp] theorem sepMark_lt_sepMark : sepMark a < sepMark b ↔ a < b := by
  simp [sepMark, Prod.Lex.toLex_lt_toLex]

@[simp] theorem sepMark_lt_keyMark : sepMark a < keyMark b ↔ a ≤ b := by
  simp [sepMark, keyMark, Prod.Lex.toLex_lt_toLex, le_iff_lt_or_eq]

@[simp] theorem keyMark_lt_sepMark : keyMark a < sepMark b ↔ a < b := by
  simp [sepMark, keyMark, Prod.Lex.toLex_lt_toLex]

@[simp] theorem keyMark_lt_keyMark : keyMark a < keyMark b ↔ a < b := by
  simp [keyMark, Prod.Lex.toLex_lt_toLex]

end Marks

namespace Item

def entries : Item κ ρ ι → List (κ × ρ)
  | leaf l => l.entries
  | sep _ => []

def leaf? : Item κ ρ ι → Option (Leaf κ ρ ι)
  | leaf l => some l
  | sep _ => none

def marks [LinearOrder κ] : Item κ ρ ι → List (κ ×ₗ Bool)
  | leaf l => l.entries.map fun e => keyMark e.1
  | sep k => [sepMark k]

end Item

/-- The entries of all leaves, from left to right. -/
def entries (f : List (Item κ ρ ι)) : List (κ × ρ) := f.flatMap Item.entries

def leaves (f : List (Item κ ρ ι)) : List (Leaf κ ρ ι) := f.filterMap Item.leaf?

def marks [LinearOrder κ] (f : List (Item κ ρ ι)) : List (κ ×ₗ Bool) := f.flatMap Item.marks

section simps
variable {f g : List (Item κ ρ ι)} {l : Leaf κ ρ ι} {k : κ}

@[simp] theorem entries_nil : entries ([] : List (Item κ ρ ι)) = [] := rfl

@[simp] theorem entries_append : entries (f ++ g) = entries f ++ entries g := List.flatMap_append

@[simp] theorem entries_leaf : entries (.leaf l :: f) = l.entries ++ entries f := rfl

@[simp] theorem entries_sep : entries (.sep k :: f) = entries f := rfl

@[simp] theorem leaves_nil : leaves ([] : List (Item κ ρ ι)) = [] := rfl

@[simp] theorem leaves_append : leaves (f ++ g) = leaves f ++ leaves g := List.filterMap_append

@[simp] theorem leaves_leaf : leaves (.leaf l :: f) = l :: leaves f := rfl

@[simp] theorem leaves_sep : leaves (.sep k :: f) = leaves f := rfl

variable [LinearOrder κ]

@[simp] theorem marks_nil : marks ([] : List (Item κ ρ ι)) = [] := rfl

@[simp] theorem marks_append : marks (f ++ g) = marks f ++ marks g := List.flatMap_append

@[simp] theorem marks_leaf : marks (.leaf l :: f) = (l.entries.map fun e => keyMark e.1) ++ marks f := rfl

@[simp] theorem marks_sep : marks (.sep k :: f) = sepMark k :: marks f := rfl

end simps

/-- The leaves of a branch are those of its children. -/
theorem leaves_branch {d : Nat} {b : Branch κ ι (Tree κ ρ ι d)} :
    leaves (Tree.branch b).fringe = b.children.flatMap fun u => leaves u.fringe := by
  rw [Tree.fringe_branch, leaves_append, Branch.children, List.flatMap_cons, List.flatMap_map]
  exact congrArg _ List.filterMap_flatMap

/-- The row of a child is a part of the row of its branch. -/
theorem fringe_child {d : Nat} {b : Branch κ ι (Tree κ ρ ι d)} {u : Tree κ ρ ι d} (hu : u ∈ b.children) :
    ∃ X Y, (Tree.branch b).fringe = X ++ u.fringe ++ Y := by
  rcases List.mem_cons.mp hu with rfl | hu
  · exact ⟨[], _, rfl⟩
  · obtain ⟨x, hx, rfl⟩ := List.mem_map.mp hu
    obtain ⟨A, B, hdiv⟩ := List.append_of_mem hx
    refine ⟨b.first.fringe ++ (A.flatMap fun x => .sep x.1 :: x.2.fringe) ++ [.sep x.1],
      B.flatMap fun x => .sep x.1 :: x.2.fringe, ?_⟩
    simp [Tree.fringe_branch, hdiv]

theorem marks_child [LinearOrder κ] {d : Nat} {b : Branch κ ι (Tree κ ρ ι d)} {u : Tree κ ρ ι d} (hu : u ∈ b.children) :
    (marks u.fringe).Sublist (marks (Tree.branch b).fringe) := by
  obtain ⟨X, Y, hrow⟩ := fringe_child hu
  rw [hrow, marks_append, marks_append]
  exact (List.sublist_append_right ..).trans (List.sublist_append_left ..)

theorem entries_eq_leaves : ∀ {f : List (Item κ ρ ι)}, entries f = (leaves f).flatMap Leaf.entries
  | [] => rfl
  | .leaf l :: f => by rw [entries_leaf, leaves_leaf, List.flatMap_cons, entries_eq_leaves]
  | .sep _ :: f => by rw [entries_sep, leaves_sep, entries_eq_leaves]

/-- A tree whose nodes all have a key has an entry. -/
theorem entries_ne_nil {B : Bounds} (hB : ∀ d, 0 < B.min d) : ∀ {d m : Nat} {t : Tree κ ρ ι d}, 0 < m → t.SizedFrom B m →
    entries t.fringe ≠ []
  | 0, m, t, hm, h => by
    have hpos : 0 < t.toLeaf.entries.length := Nat.lt_of_lt_of_le hm h.1
    simpa [Tree.fringe] using List.ne_nil_of_length_pos hpos
  | d + 1, m, t, _, h => by
    have hfirst := entries_ne_nil hB (hB d) (h.2.2 t.toBranch.first (List.mem_cons_self ..))
    rw [Tree.fringe, entries_append]
    exact List.append_ne_nil_of_left_ne_nil hfirst _

/-! ### Order -/

section Ordered
variable [LinearOrder κ]

def Ordered (f : List (Item κ ρ ι)) : Prop := (marks f).Pairwise (· < ·)

theorem keyMarks_sublist : ∀ {f : List (Item κ ρ ι)}, ((entries f).map fun e => keyMark e.1).Sublist (marks f)
  | [] => by simp
  | .leaf l :: f => by
    rw [entries_leaf, List.map_append, marks_leaf]
    exact (List.Sublist.refl _).append keyMarks_sublist
  | .sep _ :: f => by
    rw [entries_sep, marks_sep]
    exact keyMarks_sublist.cons _

theorem keyMark_mem {f : List (Item κ ρ ι)} {e : κ × ρ} (he : e ∈ entries f) : keyMark e.1 ∈ marks f :=
  keyMarks_sublist.subset (List.mem_map_of_mem he)

/-- The keys of an ordered row increase. -/
theorem Ordered.entries {f : List (Item κ ρ ι)} (h : Ordered f) : (entries f).Pairwise fun a b => a.1 < b.1 := by
  have := List.Pairwise.sublist keyMarks_sublist h
  rw [List.pairwise_map] at this
  exact this.imp fun hab => keyMark_lt_keyMark.mp hab

/-- The separators of a branch are among its marks, in order. -/
theorem sepMarks_sublist {d : Nat} {b : Branch κ ι (Tree κ ρ ι d)} : (b.keys.map sepMark).Sublist (marks (Tree.branch b).fringe) := by
  have hrest : ∀ R : List (κ × Tree κ ρ ι d),
      ((R.map Prod.fst).map sepMark).Sublist (marks (R.flatMap fun x => .sep x.1 :: x.2.fringe)) := by
    intro R
    induction R with
    | nil => exact .slnil
    | cons x R ih =>
      rw [List.flatMap_cons, marks_append, marks_sep]
      exact ((List.nil_sublist _).append ih).cons_cons _
  rw [Tree.fringe_branch, marks_append]
  exact (hrest b.rest).trans (List.sublist_append_right ..)

/-- A mark fits where everything before is below and everything behind is above it. -/
theorem pairwise_insert {α : Type} [Preorder α] {P Q : List α} {m : α} (h : (P ++ Q).Pairwise (· < ·))
    (hP : ∀ p ∈ P, p < m) (hQ : ∀ q ∈ Q, m < q) : (P ++ m :: Q).Pairwise (· < ·) := by
  rw [List.pairwise_append] at h ⊢
  refine ⟨h.1, List.pairwise_cons.mpr ⟨hQ, h.2.1⟩, fun p hp q hq => ?_⟩
  rcases List.mem_cons.mp hq with rfl | hq
  · exact hP p hp
  · exact h.2.2 p hp q hq

/-- Of increasing keys, those up to a bound come first. -/
theorem takeWhile_eq_filter {α : Type} {k : κ} : ∀ {es : List (κ × α)}, es.Pairwise (fun a b => a.1 < b.1) →
    es.takeWhile (·.1 ≤ k) = es.filter (·.1 ≤ k)
  | [], _ => rfl
  | e :: es, h => by
    obtain ⟨he, hes⟩ := List.pairwise_cons.mp h
    by_cases hk : e.1 ≤ k
    · simp [hk, takeWhile_eq_filter hes]
    · have hnone : es.filter (·.1 ≤ k) = [] :=
        List.filter_eq_nil_iff.mpr fun a ha => by simpa using (not_le.mp hk).trans (he a ha)
      simp [hk, hnone]

/-- Increasing keys are divided by a bound. -/
theorem exists_cut {α : Type} (k : κ) : ∀ {es : List (κ × α)}, es.Pairwise (fun a b => a.1 < b.1) →
    ∃ A C, es = A ++ C ∧ (∀ a ∈ A, a.1 < k) ∧ ∀ a ∈ C, k ≤ a.1
  | [], _ => ⟨[], [], rfl, by simp, by simp⟩
  | e :: es, h => by
    obtain ⟨he, hes⟩ := List.pairwise_cons.mp h
    rcases lt_or_ge e.1 k with hlt | hge
    · obtain ⟨A, C, rfl, hA, hC⟩ := exists_cut k hes
      exact ⟨e :: A, C, rfl, List.forall_mem_cons.mpr ⟨hlt, hA⟩, hC⟩
    · exact ⟨[], e :: es, rfl, by simp, List.forall_mem_cons.mpr ⟨hge, fun a ha => hge.trans (he a ha).le⟩⟩

/-- The place of an absent key among increasing ones. -/
theorem exists_place {α : Type} {k : κ} {es : List (κ × α)} (h : es.Pairwise fun a b => a.1 < b.1) (hne : ∀ e ∈ es, e.1 ≠ k) :
    ∃ A C, es = A ++ C ∧ (∀ a ∈ A, a.1 < k) ∧ ∀ a ∈ C, k < a.1 := by
  obtain ⟨A, C, rfl, hA, hC⟩ := exists_cut k h
  exact ⟨A, C, rfl, hA, fun a ha => lt_of_le_of_ne (hC a ha) (hne a (List.mem_append_right _ ha)).symm⟩

variable {X Y : List (Item κ ρ ι)} {A C : List (κ × ρ)} {l l₁ l₂ : Leaf κ ρ ι} {k : κ} {r : ρ}

/-- A new entry in the leaf where a search for its key ends. -/
theorem Ordered.insert (h : Ordered (X ++ .leaf l :: Y)) (hl : l.entries = A ++ C) (hl₁ : l₁.entries = A ++ (k, r) :: C)
    (hX : ∀ m ∈ marks X, m < keyMark k) (hA : ∀ a ∈ A, a.1 < k) (hC : ∀ a ∈ C, k < a.1)
    (hY : ∀ m ∈ marks Y, keyMark k < m) : Ordered (X ++ .leaf l₁ :: Y) := by
  unfold Ordered at h ⊢
  simp only [marks_append, marks_leaf, hl, hl₁, List.map_append, List.map_cons, List.append_assoc, List.cons_append] at h ⊢
  rw [← List.append_assoc] at h ⊢
  refine pairwise_insert h ?_ ?_
  · intro p hp
    rcases List.mem_append.mp hp with hp | hp
    · exact hX p hp
    · obtain ⟨a, ha, rfl⟩ := List.mem_map.mp hp
      exact keyMark_lt_keyMark.mpr (hA a ha)
  · intro q hq
    rcases List.mem_append.mp hq with hq | hq
    · obtain ⟨a, ha, rfl⟩ := List.mem_map.mp hq
      exact keyMark_lt_keyMark.mpr (hC a ha)
    · exact hY q hq

/-- A leaf may lose entries. -/
theorem Ordered.erase (h : Ordered (X ++ .leaf l :: Y)) (hl : l₁.entries.Sublist l.entries) :
    Ordered (X ++ .leaf l₁ :: Y) := by
  unfold Ordered at h ⊢
  simp only [marks_append, marks_leaf] at h ⊢
  exact h.sublist ((List.Sublist.refl _).append ((hl.map _).append (List.Sublist.refl _)))

/-- A leaf divided before `k`, with `k` as the separator. -/
theorem Ordered.split (h : Ordered (X ++ .leaf l :: Y)) (hl : l.entries = A ++ (k, r) :: C) (hA : A ≠ [])
    (hl₁ : l₁.entries = A) (hl₂ : l₂.entries = (k, r) :: C) :
    Ordered (X ++ .leaf l₁ :: .sep k :: .leaf l₂ :: Y) := by
  unfold Ordered at h ⊢
  simp only [marks_append, marks_leaf, marks_sep, hl, hl₁, hl₂, List.map_append, List.append_assoc] at h ⊢
  rw [← List.append_assoc] at h ⊢
  obtain ⟨hXA, hkC, hlt⟩ := List.pairwise_append.mp h
  refine pairwise_insert h ?_ ?_
  · -- The first entry of `A` is below `k`, and everything before it is below that entry.
    have hAk : ∀ a ∈ A, keyMark a.1 < sepMark k := fun a ha => by
      have := hlt (keyMark a.1) (List.mem_append_right _ (List.mem_map.mpr ⟨a, ha, rfl⟩)) (keyMark k) (by simp)
      exact keyMark_lt_sepMark.mpr (keyMark_lt_keyMark.mp this)
    obtain ⟨a, A', rfl⟩ := List.exists_cons_of_ne_nil hA
    intro p hp
    rcases List.mem_append.mp hp with hp | hp
    · have hpa := (List.pairwise_append.mp hXA).2.2 p hp (keyMark a.1) (by simp)
      exact hpa.trans (hAk a (List.mem_cons_self ..))
    · obtain ⟨a', ha', rfl⟩ := List.mem_map.mp hp
      exact hAk a' ha'
  · have hsk : sepMark k < keyMark k := sepMark_lt_keyMark.mpr (le_refl k)
    intro q hq
    simp only [List.map_cons, List.cons_append, List.mem_cons, List.pairwise_cons] at hq hkC
    rcases hq with rfl | hq
    · exact hsk
    · exact hsk.trans (hkC.1 q hq)

/-- Two neighbouring leaves in one. -/
theorem Ordered.merge (h : Ordered (X ++ .leaf l₁ :: .sep k :: .leaf l₂ :: Y)) (hl : l.entries = l₁.entries ++ l₂.entries) :
    Ordered (X ++ .leaf l :: Y) := by
  unfold Ordered at h ⊢
  simp only [marks_append, marks_leaf, marks_sep, hl, List.map_append, List.append_assoc] at h ⊢
  exact h.sublist ((List.Sublist.refl _).append ((List.Sublist.refl _).append (List.sublist_cons_self ..)))

end Ordered

/-! ### The chain -/

/-- The identity of the first leaf, or `e` when there is none. -/
def headId (ls : List (Leaf κ ρ ι)) (e : Option ι) : Option ι :=
  match ls with
  | [] => e
  | l :: _ => some l.id

/-- Each leaf names the one behind it, the last one `e`. -/
def Linked : List (Leaf κ ρ ι) → Option ι → Prop
  | [], _ => True
  | l :: ls, e => l.next = headId ls e ∧ Linked ls e

section Linked
variable {P Q : List (Leaf κ ρ ι)} {l l₁ l₂ : Leaf κ ρ ι} {e : Option ι}

theorem headId_append : headId (P ++ Q) e = headId P (headId Q e) := by
  cases P <;> rfl

theorem linked_append : Linked (P ++ Q) e ↔ Linked P (headId Q e) ∧ Linked Q e := by
  induction P with
  | nil => simp [Linked]
  | cons l P ih => simp only [List.cons_append, Linked, ih, headId_append, and_assoc]

theorem Linked.set (h : Linked (P ++ l :: Q) e) (hid : l₁.id = l.id) (hnext : l₁.next = l.next) :
    Linked (P ++ l₁ :: Q) e := by
  rw [linked_append] at h ⊢
  simpa only [headId, Linked, hid, hnext] using h

theorem Linked.split (h : Linked (P ++ l :: Q) e) (hid : l₁.id = l.id) (hnext₁ : l₁.next = some l₂.id)
    (hnext₂ : l₂.next = l.next) : Linked (P ++ l₁ :: l₂ :: Q) e := by
  rw [linked_append] at h ⊢
  simpa only [headId, Linked, hid, hnext₁, hnext₂, true_and] using h

theorem Linked.merge (h : Linked (P ++ l₁ :: l₂ :: Q) e) (hid : l.id = l₁.id) (hnext : l.next = l₂.next) :
    Linked (P ++ l :: Q) e := by
  rw [linked_append] at h ⊢
  simp only [headId, Linked] at h ⊢
  exact ⟨hid ▸ h.1, hnext ▸ h.2.2.1, h.2.2.2⟩

theorem Linked.next_eq (h : Linked (P ++ l₁ :: l₂ :: Q) e) : l₁.next = some l₂.id := by
  rw [linked_append] at h
  exact h.2.1

end Linked

/-- An ordered row whose chain ends at its last leaf. -/
structure Good [LinearOrder κ] (f : List (Item κ ρ ι)) : Prop where
  ordered : Ordered f
  linked : Linked (leaves f) none

/-- `g` holds the entries of `f`, in a good row if `f` is one. -/
structure Regroups [LinearOrder κ] (f g : List (Item κ ρ ι)) : Prop where
  entries : entries g = entries f
  good : Good f → Good g

namespace Regroups
variable [LinearOrder κ] {f g h X Y : List (Item κ ρ ι)} {l a b m n : Leaf κ ρ ι} {k j : κ}

theorem refl : Regroups f f := ⟨rfl, id⟩

theorem trans (h₁ : Regroups f g) (h₂ : Regroups g h) : Regroups f h := ⟨h₂.entries.trans h₁.entries, h₂.good ∘ h₁.good⟩

theorem merge (hid : l.id = a.id) (hentries : l.entries = a.entries ++ b.entries) (hnext : l.next = b.next) :
    Regroups (X ++ .leaf a :: .sep k :: .leaf b :: Y) (X ++ .leaf l :: Y) where
  entries := by simp [hentries]
  good h := ⟨h.ordered.merge hentries, by
    have := h.linked
    simp only [leaves_append, leaves_leaf, leaves_sep] at this ⊢
    exact this.merge hid hnext⟩

theorem split {A C : List (κ × ρ)} {r : ρ} (hl : l.entries = A ++ (k, r) :: C) (hA : A ≠ []) (hl₁ : a.entries = A)
    (hl₂ : b.entries = (k, r) :: C) (hid : a.id = l.id) (hnext₁ : a.next = some b.id) (hnext₂ : b.next = l.next) :
    Regroups (X ++ .leaf l :: Y) (X ++ .leaf a :: .sep k :: .leaf b :: Y) where
  entries := by simp [hl, hl₁, hl₂]
  good h := ⟨h.ordered.split hl hA hl₁ hl₂, by
    have := h.linked
    simp only [leaves_append, leaves_leaf, leaves_sep] at this ⊢
    exact this.split hid hnext₁ hnext₂⟩

/-- Two neighbouring leaves divided at another place. -/
theorem resplit {A C : List (κ × ρ)} {r : ρ} (hl : a.entries ++ b.entries = A ++ (j, r) :: C) (hA : A ≠ [])
    (hm₁ : m.entries = A) (hm₂ : n.entries = (j, r) :: C) (hid₁ : m.id = a.id) (hnext₁ : m.next = some n.id)
    (hnext₂ : n.next = b.next) :
    Regroups (X ++ .leaf a :: .sep k :: .leaf b :: Y) (X ++ .leaf m :: .sep j :: .leaf n :: Y) := by
  have hmerge : Regroups (X ++ .leaf a :: .sep k :: .leaf b :: Y)
      (X ++ .leaf ⟨a.id, a.entries ++ b.entries, b.next⟩ :: Y) := merge rfl rfl rfl
  exact hmerge.trans (split hl hA hm₁ hm₂ hid₁ hnext₁ hnext₂)

end Regroups
end NuKSM.BPlus
