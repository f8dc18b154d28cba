import Mathlib.Data.List.Perm.Basic
import Mathlib.Data.List.Pairwise
import Mathlib.Data.Prod.Lex
import Mathlib.Data.Bool.Basic
import Mathlib.Order.BoundedOrder.Basic

/-! # B+ trees

A tree of height `d` is a leaf when `d = 0`, and otherwise a branch over trees of height `d - 1`: all
leaves are at one depth by construction, and a branch has one more child than it has separators. A node
carries the identity `ι` under which a memory may hold it.

Read from left to right, a tree is a row of leaves with a separator between any two (`Tree.fringe`). What
a B+ tree must keep for searches is a property of that row alone: `Ordered` puts the keys and separators
in one strict order in which a separator comes right before an equal key, and `Linked` lets each leaf name
the next one. Splitting, merging and rotating branches leaves the row as it is. -/

namespace NuKSM.BPlus
variable {κ ρ ι τ : Type}

structure Leaf (κ ρ ι : Type) where
  id : ι
  entries : List (κ × ρ)
  next : Option ι

/-- A branch: its leftmost child, and the others, each behind its separator. -/
structure Branch (κ ι τ : Type) where
  id : ι
  first : τ
  rest : List (κ × τ)

/-- The trees of height `d`. -/
def Tree (κ ρ ι : Type) : (d : Nat) → Type
  | 0 => Leaf κ ρ ι
  | d + 1 => Branch κ ι (Tree κ ρ ι d)

namespace Branch

def keys (b : Branch κ ι τ) : List κ := b.rest.map Prod.fst

def children (b : Branch κ ι τ) : List τ := b.first :: b.rest.map Prod.snd

theorem length_children (b : Branch κ ι τ) : b.children.length = b.keys.length + 1 := by
  simp [children, keys]

theorem keys_split {b : Branch κ ι τ} {R₁ R₂ : List (κ × τ)} {k : κ} {t : τ} (h : b.rest = R₁ ++ (k, t) :: R₂) :
    b.keys = R₁.map Prod.fst ++ k :: R₂.map Prod.fst := by
  simp [keys, h]

theorem children_split {b : Branch κ ι τ} {R₁ R₂ : List (κ × τ)} {k : κ} {t : τ} (h : b.rest = R₁ ++ (k, t) :: R₂) :
    b.children = (b.first :: R₁.map Prod.snd) ++ t :: R₂.map Prod.snd := by
  simp [children, h]

/-- The branch with the children `L`, `t` and `R`, where a separator follows each of `L` and precedes each
    of `R`. -/
def fill (i : ι) : (L : List (τ × κ)) → (t : τ) → (R : List (κ × τ)) → Branch κ ι τ
  | [], t, R => ⟨i, t, R⟩
  | (u, s) :: L, t, R => ⟨i, u, (s, (fill i L t R).first) :: (fill i L t R).rest⟩

section fill
variable {i : ι} {t : τ} {R : List (κ × τ)}

@[simp] theorem fill_id : ∀ {L : List (τ × κ)}, (fill i L t R).id = i
  | [] => rfl
  | _ :: _ => rfl

@[simp] theorem fill_keys : ∀ {L : List (τ × κ)}, (fill i L t R).keys = L.map Prod.snd ++ R.map Prod.fst
  | [] => rfl
  | (_, s) :: _ => congrArg (s :: ·) fill_keys

@[simp] theorem fill_children : ∀ {L : List (τ × κ)}, (fill i L t R).children = L.map Prod.fst ++ t :: R.map Prod.snd
  | [] => rfl
  | (u, _) :: _ => congrArg (u :: ·) fill_children

theorem length_fill_rest {L : List (τ × κ)} : (fill i L t R).rest.length = L.length + R.length := by
  have := congrArg List.length (fill_keys (i := i) (t := t) (R := R) (L := L))
  simpa [keys] using this

end fill
end Branch

/-- A piece of the row: a leaf or a separator. -/
inductive Item (κ ρ ι : Type)
  | leaf (l : Leaf κ ρ ι)
  | sep (k : κ)

namespace Tree
variable {d : Nat}

def leaf (l : Leaf κ ρ ι) : Tree κ ρ ι 0 := l

def branch (b : Branch κ ι (Tree κ ρ ι d)) : Tree κ ρ ι (d + 1) := b

def toLeaf (t : Tree κ ρ ι 0) : Leaf κ ρ ι := t

def toBranch (t : Tree κ ρ ι (d + 1)) : Branch κ ι (Tree κ ρ ι d) := t

@[simp] theorem toLeaf_leaf (l : Leaf κ ρ ι) : (leaf l).toLeaf = l := rfl

@[simp] theorem toBranch_branch (b : Branch κ ι (Tree κ ρ ι d)) : (branch b).toBranch = b := rfl

@[simp] theorem leaf_toLeaf (t : Tree κ ρ ι 0) : leaf t.toLeaf = t := rfl

@[simp] theorem branch_toBranch (t : Tree κ ρ ι (d + 1)) : branch t.toBranch = t := rfl

def id : {d : Nat} → Tree κ ρ ι d → ι
  | 0, t => t.toLeaf.id
  | _ + 1, t => t.toBranch.id

/-- The leaves from left to right, with the separators between them. -/
def fringe : {d : Nat} → Tree κ ρ ι d → List (Item κ ρ ι)
  | 0, t => [.leaf t.toLeaf]
  | _ + 1, t => fringe t.toBranch.first ++ t.toBranch.rest.flatMap fun x => .sep x.1 :: fringe x.2

/-- The number of keys of the root node. -/
def count : {d : Nat} → Tree κ ρ ι d → Nat
  | 0, t => t.toLeaf.entries.length
  | _ + 1, t => t.toBranch.rest.length

@[simp] theorem id_leaf (l : Leaf κ ρ ι) : (leaf l).id = l.id := rfl

@[simp] theorem id_branch (b : Branch κ ι (Tree κ ρ ι d)) : (branch b).id = b.id := rfl

@[simp] theorem fringe_leaf (l : Leaf κ ρ ι) : (leaf l).fringe = [.leaf l] := rfl

theorem fringe_branch (b : Branch κ ι (Tree κ ρ ι d)) :
    (branch b).fringe = b.first.fringe ++ b.rest.flatMap fun x => .sep x.1 :: x.2.fringe := rfl

/-- The row of a branch that is divided at a separator. -/
theorem fringe_split {b : Branch κ ι (Tree κ ρ ι d)} {R₁ R₂ : List (κ × Tree κ ρ ι d)} {k : κ} {t : Tree κ ρ ι d} {i j : ι}
    (h : b.rest = R₁ ++ (k, t) :: R₂) :
    (branch b).fringe = (branch ⟨i, b.first, R₁⟩).fringe ++ .sep k :: (branch ⟨j, t, R₂⟩).fringe := by
  simp [fringe_branch, h]

@[simp] theorem count_leaf (l : Leaf κ ρ ι) : (leaf l).count = l.entries.length := rfl

@[simp] theorem count_branch (b : Branch κ ι (Tree κ ρ ι d)) : (branch b).count = b.rest.length := rfl

end Tree

/-! ### Contexts -/

/-- A branch without one of its children. -/
structure Frame (κ ι τ : Type) where
  id : ι
  lefts : List (τ × κ)
  rights : List (κ × τ)

namespace Frame

def fill (f : Frame κ ι τ) (t : τ) : Branch κ ι τ := Branch.fill f.id f.lefts t f.rights

/-- The number of separators. -/
def count (f : Frame κ ι τ) : Nat := f.lefts.length + f.rights.length

variable {d : Nat}

def before (f : Frame κ ι (Tree κ ρ ι d)) : List (Item κ ρ ι) := f.lefts.flatMap fun x => x.1.fringe ++ [.sep x.2]

def after (f : Frame κ ι (Tree κ ρ ι d)) : List (Item κ ρ ι) := f.rights.flatMap fun x => .sep x.1 :: x.2.fringe

theorem fringe_fill {i : ι} {t : Tree κ ρ ι d} {R : List (κ × Tree κ ρ ι d)} :
    ∀ {L : List (Tree κ ρ ι d × κ)}, (Tree.branch (Branch.fill i L t R)).fringe =
      before ⟨i, L, R⟩ ++ t.fringe ++ after ⟨i, L, R⟩
  | [] => rfl
  | (u, s) :: L => by
    have ih := fringe_fill (i := i) (t := t) (R := R) (L := L)
    simp only [Tree.fringe_branch, before, after, Branch.fill, List.flatMap_cons, List.append_assoc,
      List.cons_append, List.nil_append] at ih ⊢
    rw [ih]

end Frame

/-- What surrounds a tree of height `d` in a larger tree. -/
inductive Ctx (κ ρ ι : Type) : Nat → Type
  | top {d : Nat} : Ctx κ ρ ι d
  | up {d : Nat} (f : Frame κ ι (Tree κ ρ ι d)) (c : Ctx κ ρ ι (d + 1)) : Ctx κ ρ ι d

namespace Ctx

/-- The larger tree. -/
def plug : {d : Nat} → Ctx κ ρ ι d → Tree κ ρ ι d → (D : Nat) × Tree κ ρ ι D
  | d, top, t => ⟨d, t⟩
  | _, up f c, t => plug c (.branch (f.fill t))

def before : {d : Nat} → Ctx κ ρ ι d → List (Item κ ρ ι)
  | _, top => []
  | _, up f c => before c ++ f.before

def after : {d : Nat} → Ctx κ ρ ι d → List (Item κ ρ ι)
  | _, top => []
  | _, up f c => f.after ++ after c

/-- The branch right above. -/
def parent : {d : Nat} → Ctx κ ρ ι d → Option ι
  | _, top => none
  | _, up f _ => some f.id

/-- The root of the larger tree. -/
def root : {d : Nat} → Ctx κ ρ ι d → (hole : ι) → ι
  | _, top, hole => hole
  | _, up f c, _ => root c f.id

/-- The number of branches above. -/
def depth : {d : Nat} → Ctx κ ρ ι d → Nat
  | _, top => 0
  | _, up _ c => depth c + 1

theorem fringe_plug : ∀ {d : Nat} {c : Ctx κ ρ ι d} {t : Tree κ ρ ι d},
    (c.plug t).2.fringe = c.before ++ t.fringe ++ c.after
  | _, top, t => by simp [plug, before, after]
  | _, up f c, t => by
    rw [plug, fringe_plug, Frame.fill, Frame.fringe_fill]
    simp [before, after]

theorem id_plug : ∀ {d : Nat} {c : Ctx κ ρ ι d} {t : Tree κ ρ ι d}, (c.plug t).2.id = c.root t.id
  | _, top, _ => rfl
  | _, up f c, t => by
    rw [plug, id_plug, Tree.id_branch, Frame.fill, Branch.fill_id]
    rfl

end Ctx

/-! ### Sizes -/

/-- How many keys a node may have: the least number depends on its height. -/
structure Bounds where
  min : Nat → Nat
  max : Nat

/-- The root node has at least `m` keys and at most the maximum, and the nodes below it are within the bounds. -/
def Tree.SizedFrom (B : Bounds) : {d : Nat} → (m : Nat) → Tree κ ρ ι d → Prop
  | 0, m, t => m ≤ t.count ∧ t.count ≤ B.max
  | d + 1, m, t => m ≤ t.count ∧ t.count ≤ B.max ∧ ∀ u ∈ t.toBranch.children, SizedFrom B (B.min d) u

/-- All nodes are within the bounds. -/
def Tree.Sized (B : Bounds) {d : Nat} (t : Tree κ ρ ι d) : Prop := t.SizedFrom B (B.min d)

/-- As `Sized`, but the root node needs only one key. -/
def Tree.Rooted (B : Bounds) {d : Nat} (t : Tree κ ρ ι d) : Prop := t.SizedFrom B 1

/-- The children of a frame are within the bounds. -/
def Frame.Sized (B : Bounds) {d : Nat} (f : Frame κ ι (Tree κ ρ ι d)) : Prop :=
  (∀ x ∈ f.lefts, x.1.Sized B) ∧ ∀ x ∈ f.rights, x.2.Sized B

/-- The least number of keys of a node in this place: the root of all may have a single one. -/
def Ctx.least (B : Bounds) : {d : Nat} → Ctx κ ρ ι d → Nat
  | _, .top => 1
  | d, .up _ _ => B.min d

/-- The nodes of a context are within the bounds. -/
def Ctx.Sized (B : Bounds) : {d : Nat} → Ctx κ ρ ι d → Prop
  | _, .top => True
  | _, .up f c => f.Sized B ∧ c.least B ≤ f.count ∧ f.count ≤ B.max ∧ Sized B c

section Sized
variable {B : Bounds} {d m : Nat}

theorem Tree.sizedFrom_branch {b : Branch κ ι (Tree κ ρ ι d)} :
    (Tree.branch b).SizedFrom B m ↔
      m ≤ b.rest.length ∧ b.rest.length ≤ B.max ∧ b.first.Sized B ∧ ∀ x ∈ b.rest, x.2.Sized B := by
  simp only [Tree.SizedFrom, Tree.Sized, Branch.children, Tree.count_branch, Tree.toBranch_branch, List.mem_cons,
    List.mem_map, forall_eq_or_imp]
  refine and_congr_right fun _ => and_congr_right fun _ => and_congr_right fun _ => ⟨fun h x hx => h _ ⟨x, hx, rfl⟩, ?_⟩
  rintro h _ ⟨x, hx, rfl⟩
  exact h x hx

theorem Tree.sizedFrom_leaf {l : Leaf κ ρ ι} :
    (Tree.leaf l).SizedFrom B m ↔ m ≤ l.entries.length ∧ l.entries.length ≤ B.max := by
  simp [Tree.SizedFrom]

theorem Tree.SizedFrom.count_le {t : Tree κ ρ ι d} (h : t.SizedFrom B m) : t.count ≤ B.max := by
  cases d with
  | zero => exact h.2
  | succ d => exact h.2.1

theorem Tree.SizedFrom.le_count {t : Tree κ ρ ι d} (h : t.SizedFrom B m) : m ≤ t.count := by
  cases d with
  | zero => exact h.1
  | succ d => exact h.1

theorem Tree.SizedFrom.mono {t : Tree κ ρ ι d} {m' : Nat} (h : t.SizedFrom B m) (hm : m' ≤ t.count) : t.SizedFrom B m' := by
  cases d with
  | zero => exact ⟨hm, h.2⟩
  | succ d => exact ⟨hm, h.2⟩

theorem Frame.sizedFrom_fill {f : Frame κ ι (Tree κ ρ ι d)} {t : Tree κ ρ ι d} :
    (Tree.branch (f.fill t)).SizedFrom B m ↔ m ≤ f.count ∧ f.count ≤ B.max ∧ f.Sized B ∧ t.Sized B := by
  have hcount : (Tree.branch (f.fill t)).count = f.count := Branch.length_fill_rest
  have hch : (f.fill t).children = f.lefts.map Prod.fst ++ t :: f.rights.map Prod.snd := Branch.fill_children
  simp only [Tree.SizedFrom, hcount, Tree.toBranch_branch, hch, List.mem_append, List.mem_cons, List.mem_map,
    Frame.Sized, Tree.Sized]
  constructor
  · rintro ⟨h1, h2, h3⟩
    exact ⟨h1, h2, ⟨fun x hx => h3 _ (Or.inl ⟨x, hx, rfl⟩), fun x hx => h3 _ (Or.inr (Or.inr ⟨x, hx, rfl⟩))⟩,
      h3 _ (Or.inr (Or.inl rfl))⟩
  · rintro ⟨h1, h2, ⟨h3, h4⟩, h5⟩
    refine ⟨h1, h2, ?_⟩
    rintro u (⟨x, hx, rfl⟩ | rfl | ⟨x, hx, rfl⟩)
    · exact h3 x hx
    · exact h5
    · exact h4 x hx

/-- A tree is within the bounds when the parts of any division of it are. -/
theorem Ctx.rooted_plug : ∀ {d : Nat} {c : Ctx κ ρ ι d} {t : Tree κ ρ ι d},
    (c.plug t).2.Rooted B ↔ c.Sized B ∧ t.SizedFrom B (c.least B)
  | _, .top, t => by simp [plug, Ctx.Sized, least, Tree.Rooted]
  | d, .up f c, t => by
    rw [plug, rooted_plug, Frame.sizedFrom_fill]
    simp only [Ctx.Sized, least, Tree.Sized]
    tauto

end Sized
end NuKSM.BPlus
