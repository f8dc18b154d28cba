import NuKSM.Lib.Thread

/-! # What a thread may do

`Performs P p` says that each operation that the thread `p` comes to satisfies `P`, whatever the results of the operations
before it. -/

namespace NuKSM

namespace Thread
variable {Op : Type} {Res : Op → Type} {α β : Type}

/-- Each operation of the thread satisfies `P`. -/
def Performs (P : Op → Prop) : Thread Op Res α → Prop
  | done _ => True
  | act op next => P op ∧ ∀ r, (next r).Performs P

section rules
variable {P : Op → Prop} {p : Thread Op Res α} {f : α → Thread Op Res β}

@[simp] theorem performs_pure (a : α) : (Pure.pure a : Thread Op Res α).Performs P := trivial

@[simp] theorem performs_perform {op : Op} : (perform op : Thread Op Res (Res op)).Performs P ↔ P op := and_iff_left fun _ => trivial

theorem Performs.mono {P' : Op → Prop} (hP : ∀ op, P op → P' op) (hp : p.Performs P) : p.Performs P' := by
  induction p with
  | done a => trivial
  | act op next ih => exact ⟨hP op hp.1, fun r => ih r (hp.2 r)⟩

theorem Performs.bind (hp : p.Performs P) (hf : ∀ a, (f a).Performs P) : (p >>= f).Performs P := by
  induction p with
  | done a => exact hf a
  | act op next ih => exact ⟨hp.1, fun r => ih r (hp.2 r)⟩

theorem Performs.onlyIf {c : Prop} [Decidable c] {p : Thread Op Res Unit} (hp : c → p.Performs P) : (onlyIf c p).Performs P := by
  unfold Thread.onlyIf
  split
  · exact hp ‹_›
  · trivial

theorem Performs.ite {c : Prop} [Decidable c] {p q : Thread Op Res α} (hp : c → p.Performs P) (hq : ¬c → q.Performs P) :
    (if c then p else q).Performs P := by
  split
  · exact hp ‹_›
  · exact hq ‹_›

end rules

end Thread

/-- Operations that keep the protocol and an invariant may follow each other in any way. -/
theorem Protocol.wp_of_performs {σ ι Op : Type} {Res : Op → Type} {Call : ι → Type} {α β : Type} {P : Protocol σ ι Op Res Call α}
    {t : ι} {A : Op → Prop} {I : World σ ι Op Res Call α → Prop}
    (hstep : ∀ op h s r s', A op → I (h, s) → P.inv (h, s) → P.exec t op s r s' →
      P.Guards t (h, s) (h ++ [.act t op r], s') ∧ I (h ++ [.act t op r], s'))
    (hrely : ∀ {w w'}, I w → P.rely t w w' → I w') {p : Thread Op Res β} (hp : p.Performs A) :
    ∀ {w}, I w → P.wp t p (fun _ => I) w := by
  induction p with
  | done b => exact id
  | act op next ih =>
    intro w hw h s r s' hsame hinv hexec
    obtain ⟨hguards, hnext⟩ := hstep op h s r s' hp.1 (hrely hw hsame) hinv hexec
    exact ⟨hguards, ih r (hp.2 r) hnext⟩

end NuKSM
