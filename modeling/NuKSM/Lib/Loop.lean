import NuKSM.Lib.Thread

/-! # Loops without a bound

A thread is a finite tree, so a loop that may go on for ever is given for each number of rounds: a thread that has used up its
rounds goes on with `rest`, an operation that never ends. What holds for every number of rounds holds of the loop. -/

namespace NuKSM

namespace Thread
variable {Op : Type} {Res : Op → Type} {α β : Type}

/-- At most so many rounds of a loop. A round goes on with `inl` and leaves the loop with `inr`. -/
def rounds (rest : Thread Op Res α) (body : β → Thread Op Res (β ⊕ α)) : ℕ → β → Thread Op Res α
  | 0, _ => rest
  | n + 1, b => do
    match ← body b with
    | .inl b => rounds rest body n b
    | .inr a => return a

end Thread

namespace Protocol
variable {σ ι Op : Type} {Res : Op → Type} {Call : ι → Type} {α β γ : Type} {P : Protocol σ ι Op Res Call α} {t : ι}

/-- A loop keeps an invariant, whatever its number of rounds. -/
theorem wp_rounds {rest : Thread Op Res γ} {body : β → Thread Op Res (β ⊕ γ)} {I : β → World σ ι Op Res Call α → Prop}
    {Q : γ → World σ ι Op Res Call α → Prop} (hrest : ∀ b w, I b w → P.wp t rest Q w)
    (hbody : ∀ b w, I b w → P.wp t (body b) (Sum.elim I Q) w) :
    ∀ {n b w}, I b w → P.wp t (Thread.rounds rest body n b) Q w := by
  intro n
  induction n with
  | zero => exact fun h => hrest _ _ h
  | succ n ih =>
    refine fun h => wp_bind.mpr (wp_mono (fun r w hr => ?_) (hbody _ _ h))
    cases r with
    | inl b => exact ih hr
    | inr a => exact hr

/-- An operation that never ends keeps every protocol. -/
theorem wp_never {op : Op} {next : Res op → Thread Op Res γ} {Q : γ → World σ ι Op Res Call α → Prop}
    {w : World σ ι Op Res Call α} (hnever : ∀ s r s', ¬P.exec t op s r s') : P.wp t (.act op next) Q w :=
  fun _ _ _ _ _ _ hexec => absurd hexec (hnever _ _ _)

end Protocol

end NuKSM
