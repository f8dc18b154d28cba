import NuKSM.Lib.Thread

/-! # A thread that runs alone

Where no other thread takes turns and an operation has one outcome at most, a thread is a partial function of the
state. It has no outcome where one of its operations has none. -/

namespace NuKSM.Thread
variable {σ Op : Type} {Res : Op → Type} {α β : Type} (step : (op : Op) → σ → Option (Res op × σ))

/-- The result of a thread that runs alone, and the state that it leaves. -/
def solo : Thread Op Res α → σ → Option (α × σ)
  | done a, s => some (a, s)
  | act op next, s => (step op s).bind fun r => (next r.1).solo r.2

/-- The thread ends with `Q`. -/
def Ends (p : Thread Op Res α) (s : σ) (Q : α → σ → Prop) : Prop := ∃ a s', p.solo step s = some (a, s') ∧ Q a s'

section rules
variable {step} {p : Thread Op Res α} {f : α → Thread Op Res β} {s : σ}

theorem solo_bind (p : Thread Op Res α) (f : α → Thread Op Res β) (s : σ) :
    (p >>= f).solo step s = (p.solo step s).bind fun r => (f r.1).solo step r.2 := by
  induction p generalizing s with
  | done a => rfl
  | act op next ih =>
    show (step op s).bind (fun r => ((next r.1) >>= f).solo step r.2) = _
    rw [solo, Option.bind_assoc]
    exact Option.bind_congr fun r _ => ih r.1 r.2

theorem solo_perform_bind {op : Op} {f : Res op → Thread Op Res β} {r : Res op} {s' : σ} (hstep : step op s = some (r, s')) :
    (Thread.perform op >>= f).solo step s = (f r).solo step s' := by
  rw [solo_bind, Thread.perform, solo, hstep]
  rfl

theorem Ends.pure {Q : α → σ → Prop} {a : α} (h : Q a s) : Ends step (Pure.pure a) s Q := ⟨a, s, rfl, h⟩

theorem Ends.perform {op : Op} {r : Res op} {s' : σ} {Q : Res op → σ → Prop} (hstep : step op s = some (r, s'))
    (h : Q r s') : Ends step (perform op) s Q :=
  ⟨r, s', by simp only [Thread.perform, solo, hstep, Option.bind_some], h⟩

theorem Ends.mono {Q Q' : α → σ → Prop} (h : Ends step p s Q) (hQ : ∀ a s, Q a s → Q' a s) : Ends step p s Q' := by
  obtain ⟨a, s', hrun, ha⟩ := h
  exact ⟨a, s', hrun, hQ a s' ha⟩

theorem Ends.bind {Q : β → σ → Prop} {R : α → σ → Prop} (h : Ends step p s R)
    (hf : ∀ a s, R a s → Ends step (f a) s Q) : Ends step (p >>= f) s Q := by
  obtain ⟨a, s', hrun, ha⟩ := h
  obtain ⟨b, s'', hrun', hb⟩ := hf a s' ha
  exact ⟨b, s'', by rw [solo_bind, hrun, Option.bind_some, hrun'], hb⟩

theorem Ends.perform_bind {op : Op} {f : Res op → Thread Op Res β} {r : Res op} {s' : σ} {Q : β → σ → Prop}
    (hstep : step op s = some (r, s')) (h : Ends step (f r) s' Q) : Ends step (Thread.perform op >>= f) s Q :=
  Ends.bind (R := fun a s => a = r ∧ s = s') (Ends.perform hstep ⟨rfl, rfl⟩) fun a s ha => by rwa [ha.1, ha.2]

theorem Ends.onlyIf {c : Prop} [Decidable c] {p : Thread Op Res Unit} {Q : Unit → σ → Prop}
    (hp : c → Ends step p s Q) (hQ : ¬c → Q () s) : Ends step (onlyIf c p) s Q := by
  unfold Thread.onlyIf
  split
  · exact hp ‹_›
  · exact Ends.pure (hQ ‹_›)

theorem Ends.ite {c : Prop} [Decidable c] {p q : Thread Op Res α} {Q : α → σ → Prop} (hp : c → Ends step p s Q)
    (hq : ¬c → Ends step q s Q) : Ends step (if c then p else q) s Q := by
  split
  · exact hp ‹_›
  · exact hq ‹_›

/-- A counting loop keeps an invariant that counts its steps. -/
theorem Ends.loopUp {body : ℕ → β → Thread Op Res β} {I : ℕ → β → σ → Prop} {n : ℕ} :
    ∀ {lo b s}, I lo b s → (∀ i b s, lo ≤ i → i < lo + n → I i b s → Ends step (body i b) s (I (i + 1))) →
      Ends step (loopUp body lo n b) s (I (lo + n)) := by
  induction n with
  | zero => exact fun h _ => Ends.pure h
  | succ n ih =>
    intro lo b s h hstep
    refine Ends.bind (hstep lo b s le_rfl (by omega) h) fun b s hb => ?_
    rw [show lo + (n + 1) = lo + 1 + n by omega]
    exact ih hb fun i b s hlo hi => hstep i b s (by omega) (by omega)

end rules

end NuKSM.Thread
