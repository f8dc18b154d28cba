import NuKSM.Lib.Thread

/-! # A thread that takes several turns

While the others wait, a thread goes on from one operation to the next. That is how runs are put together that exist. -/

namespace NuKSM

namespace Thread
variable {σ Op : Type} {Res : Op → Type} {α β : Type}

/-- The thread performs the operations one after the other, with these results, and is left with another thread. -/
inductive Advances (exec : (op : Op) → σ → Res op → σ → Prop) :
    Thread Op Res α → σ → List ((op : Op) × Res op) → Thread Op Res α → σ → Prop
  | refl {p s} : Advances exec p s [] p s
  | act {op next r s s' l p s''} : exec op s r s' → Advances exec (next r) s' l p s'' →
      Advances exec (.act op next) s (⟨op, r⟩ :: l) p s''

namespace Advances
variable {exec : (op : Op) → σ → Res op → σ → Prop} {s s' s'' : σ} {l l' : List ((op : Op) × Res op)}

/-- The first part of a thread comes to its end, and the second goes on. -/
theorem bind {p : Thread Op Res α} {f : α → Thread Op Res β} {a : α} {q : Thread Op Res β}
    (h : Advances exec p s l (done a) s') (h' : Advances exec (f a) s' l' q s'') : Advances exec (p >>= f) s (l ++ l') q s'' := by
  generalize hdone : done a = d at h
  induction h with
  | refl =>
    subst hdone
    exact h'
  | act hexec _ ih => exact .act hexec (ih h' hdone)

end Advances

end Thread

variable {σ ι Op : Type} {Res : Op → Type} {Call : ι → Type} {α : Type} [DecidableEq ι]
  {exec : ι → (op : Op) → σ → Res op → σ → Prop} {body : (t : ι) → Call t → Thread Op Res α}

theorem Interleaving.thenAdvance {s₀ s s' : σ} {t : ι} {c : Call t} {p p' : Thread Op Res α} {l : List ((op : Op) × Res op)}
    (hadvances : p.Advances (exec t) s l p' s') :
    ∀ {h : List (Event ι Op Res Call α)} {running : (t : ι) → Option (Call t × Thread Op Res α)},
      Interleaving exec body s₀ h ⟨s, running⟩ → running t = some (c, p) →
      Interleaving exec body s₀ (h ++ l.map fun r => .act t r.1 r.2) ⟨s', Function.update running t (some (c, p'))⟩ := by
  induction hadvances with
  | @refl p s =>
    intro h running hrun hrunning
    rw [List.map_nil, List.append_nil, ← hrunning, Function.update_eq_self]
    exact hrun
  | @act op next r s s' l p s'' hexec _ ih =>
    intro h running hrun hrunning
    have hnext := ih (hrun.thenAct t op r hrunning hexec) (Function.update_self ..)
    rw [Function.update_idem, List.append_assoc] at hnext
    exact hnext

end NuKSM
