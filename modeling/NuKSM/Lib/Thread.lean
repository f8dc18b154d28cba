import Mathlib

/-! # Threads that share a state

A thread is a tree of atomic operations on the shared state. Threads take turns operation by operation, in any order.
What a thread may rely on while others take their turns, and what it guarantees to them, are relations between worlds: a
world is the shared state with the history that led there. `wp` is the weakest precondition of a thread in such
surroundings, with one rule for each way to put threads together. -/

namespace NuKSM

/-- A program of one thread, which goes on with the result of each of its operations. -/
inductive Thread (Op : Type) (Res : Op → Type) (α : Type)
  | done (a : α)
  | act (op : Op) (next : Res op → Thread Op Res α)

namespace Thread
variable {Op : Type} {Res : Op → Type} {α β : Type}

def bind : Thread Op Res α → (α → Thread Op Res β) → Thread Op Res β
  | done a, f => f a
  | act op next, f => act op fun r => (next r).bind f

instance instMonadThread : Monad (Thread Op Res) where
  pure := done
  bind := bind

/-- One operation. -/
def perform (op : Op) : Thread Op Res (Res op) := act op done

/-- `if (c) p`. -/
def onlyIf (c : Prop) [Decidable c] (p : Thread Op Res Unit) : Thread Op Res Unit := if c then p else done ()

/-- `for (i = lo; i < lo + n; i++) b = body(i, b)`. -/
def loopUp (body : ℕ → β → Thread Op Res β) : (lo n : ℕ) → β → Thread Op Res β
  | _, 0, b => done b
  | lo, n + 1, b => do
    let b ← body lo b
    loopUp body (lo + 1) n b

end Thread

/-! ### Interleavings -/

/-- What happens in a run: a thread starts a call, performs an operation of it, or returns from it. -/
inductive Event (ι Op : Type) (Res : Op → Type) (Call : ι → Type) (α : Type)
  | call (t : ι) (c : Call t)
  | act (t : ι) (op : Op) (r : Res op)
  | ret (t : ι) (c : Call t) (a : α)

/-- The shared state, and what each thread still has to do of the call that it is in. -/
structure Config (σ ι Op : Type) (Res : Op → Type) (Call : ι → Type) (α : Type) where
  shared : σ
  running : (t : ι) → Option (Call t × Thread Op Res α)

section interleave
variable {σ ι Op : Type} {Res : Op → Type} {Call : ι → Type} {α : Type} [DecidableEq ι]
  (exec : ι → (op : Op) → σ → Res op → σ → Prop) (body : (t : ι) → Call t → Thread Op Res α)

/-- The turn of one thread. -/
inductive Step : Config σ ι Op Res Call α → Event ι Op Res Call α → Config σ ι Op Res Call α → Prop
  | call {s running t} (c : Call t) : running t = none →
      Step ⟨s, running⟩ (.call t c) ⟨s, Function.update running t (some (c, body t c))⟩
  | act {s s' running t op next r} {c : Call t} : running t = some (c, .act op next) → exec t op s r s' →
      Step ⟨s, running⟩ (.act t op r) ⟨s', Function.update running t (some (c, next r))⟩
  | ret {s running t a} {c : Call t} : running t = some (c, .done a) →
      Step ⟨s, running⟩ (.ret t c a) ⟨s, Function.update running t none⟩

/-- The runs from the shared state `s₀`, where no thread is in a call, with their histories. -/
inductive Interleaving (s₀ : σ) : List (Event ι Op Res Call α) → Config σ ι Op Res Call α → Prop
  | nil : Interleaving s₀ [] ⟨s₀, fun _ => none⟩
  | snoc {h c e c'} : Interleaving s₀ h c → Step exec body c e c' → Interleaving s₀ (h ++ [e]) c'

namespace Interleaving
variable {exec body} {s₀ s s' : σ} {h : List (Event ι Op Res Call α)}
  {running : (t : ι) → Option (Call t × Thread Op Res α)}

theorem thenCall (hrun : Interleaving exec body s₀ h ⟨s, running⟩) (t : ι) (c : Call t) (hidle : running t = none) :
    Interleaving exec body s₀ (h ++ [.call t c]) ⟨s, Function.update running t (some (c, body t c))⟩ :=
  .snoc hrun (.call c hidle)

theorem thenAct (hrun : Interleaving exec body s₀ h ⟨s, running⟩) (t : ι) (op : Op) (r : Res op) {c : Call t}
    {next : Res op → Thread Op Res α} (hrunning : running t = some (c, .act op next)) (hexec : exec t op s r s') :
    Interleaving exec body s₀ (h ++ [.act t op r]) ⟨s', Function.update running t (some (c, next r))⟩ :=
  .snoc hrun (.act hrunning hexec)

theorem thenRet (hrun : Interleaving exec body s₀ h ⟨s, running⟩) (t : ι) {c : Call t} {a : α}
    (hrunning : running t = some (c, .done a)) :
    Interleaving exec body s₀ (h ++ [.ret t c a]) ⟨s, Function.update running t none⟩ :=
  .snoc hrun (.ret hrunning)

/-- Where operations may do more, there are no fewer runs. -/
theorem mono {exec' : ι → (op : Op) → σ → Res op → σ → Prop} (hexec : ∀ {t op s r s'}, exec t op s r s' → exec' t op s r s')
    {c : Config σ ι Op Res Call α} (hrun : Interleaving exec body s₀ h c) : Interleaving exec' body s₀ h c := by
  induction hrun with
  | nil => exact .nil
  | snoc _ hstep ih =>
    refine ih.snoc ?_
    cases hstep with
    | call call hidle => exact .call call hidle
    | act hrunning hop => exact .act hrunning (hexec hop)
    | ret hrunning => exact .ret hrunning

end Interleaving

end interleave

/-! ### Weakest preconditions under interference -/

/-- The shared state and how it came about. -/
abbrev World (σ ι Op : Type) (Res : Op → Type) (Call : ι → Type) (α : Type) := List (Event ι Op Res Call α) × σ

/-- What the threads of a system promise each other. -/
structure Protocol (σ ι Op : Type) (Res : Op → Type) (Call : ι → Type) (α : Type) where
  exec : ι → (op : Op) → σ → Res op → σ → Prop
  /-- Holds of every world. -/
  inv : World σ ι Op Res Call α → Prop
  /-- Holds of a world for a thread that is in no call. -/
  idle : ι → World σ ι Op Res Call α → Prop
  /-- What the turns of the other threads may change. -/
  rely : ι → World σ ι Op Res Call α → World σ ι Op Res Call α → Prop
  rely_refl : ∀ t w, rely t w w
  rely_trans : ∀ {t w₁ w₂ w₃}, rely t w₁ w₂ → rely t w₂ w₃ → rely t w₁ w₃
  idle_rely : ∀ {t w w'}, idle t w → rely t w w' → idle t w'

namespace Protocol
variable {σ ι Op : Type} {Res : Op → Type} {Call : ι → Type} {α β γ : Type}

section rules
variable (P : Protocol σ ι Op Res Call α) {t : ι} {w w' : World σ ι Op Res Call α}

/-- A turn of the thread `t` keeps the invariant and what the others rely on. -/
def Guards (t : ι) (w w' : World σ ι Op Res Call α) : Prop := P.inv w' ∧ ∀ u, u ≠ t → P.rely u w w'

/-- From `w` on the thread `t` keeps to the protocol while it runs `p`, and ends with `Q`. -/
def wp (t : ι) : Thread Op Res β → (β → World σ ι Op Res Call α → Prop) → World σ ι Op Res Call α → Prop
  | .done b, Q, w => Q b w
  | .act op next, Q, w => ∀ h s r s', P.rely t w (h, s) → P.inv (h, s) → P.exec t op s r s' →
      P.Guards t (h, s) (h ++ [.act t op r], s') ∧ wp t (next r) Q (h ++ [.act t op r], s')

variable {P}

theorem wp_mono {p : Thread Op Res β} {Q Q' : β → World σ ι Op Res Call α → Prop} (hQ : ∀ b w, Q b w → Q' b w) :
    ∀ {w}, P.wp t p Q w → P.wp t p Q' w := by
  induction p with
  | done b => exact fun h => hQ b _ h
  | act op next ih =>
    intro w h hist s r s' hrely hinv hexec
    obtain ⟨hguard, hnext⟩ := h hist s r s' hrely hinv hexec
    exact ⟨hguard, ih r hnext⟩

theorem wp_bind {p : Thread Op Res β} {f : β → Thread Op Res γ} {Q : γ → World σ ι Op Res Call α → Prop} :
    ∀ {w}, P.wp t (p >>= f) Q w ↔ P.wp t p (fun b w => P.wp t (f b) Q w) w := by
  induction p with
  | done b => exact Iff.rfl
  | act op next ih =>
    intro w
    exact forall₄_congr fun hist s r s' => imp_congr Iff.rfl (imp_congr Iff.rfl (imp_congr Iff.rfl
      (and_congr Iff.rfl (ih r))))

theorem wp_perform {op : Op} {f : Res op → Thread Op Res β} {Q : β → World σ ι Op Res Call α → Prop}
    (h : ∀ hist s r s', P.rely t w (hist, s) → P.inv (hist, s) → P.exec t op s r s' →
      P.Guards t (hist, s) (hist ++ [.act t op r], s') ∧ P.wp t (f r) Q (hist ++ [.act t op r], s')) :
    P.wp t (Thread.perform op >>= f) Q w := h

/-- A precondition survives the turns of the others if the postcondition does. -/
theorem wp_rely {p : Thread Op Res β} {Q : β → World σ ι Op Res Call α → Prop}
    (hQ : ∀ {b w w'}, Q b w → P.rely t w w' → Q b w') (h : P.wp t p Q w) (hrely : P.rely t w w') : P.wp t p Q w' := by
  cases p with
  | done b => exact hQ h hrely
  | act op next => exact fun hist s r s' hrely' => h hist s r s' (P.rely_trans hrely hrely')

theorem wp_onlyIf {c : Prop} [Decidable c] {p : Thread Op Res Unit} {Q : Unit → World σ ι Op Res Call α → Prop}
    (hp : c → P.wp t p Q w) (hQ : ¬c → Q () w) : P.wp t (Thread.onlyIf c p) Q w := by
  unfold Thread.onlyIf
  split
  · exact hp ‹_›
  · exact hQ ‹_›

/-- A counting loop keeps an invariant that counts its steps. -/
theorem wp_loopUp {body : ℕ → β → Thread Op Res β} {I : ℕ → β → World σ ι Op Res Call α → Prop} {n : ℕ} :
    ∀ {lo b w}, I lo b w → (∀ i b w, lo ≤ i → i < lo + n → I i b w → P.wp t (body i b) (I (i + 1)) w) →
      P.wp t (Thread.loopUp body lo n b) (I (lo + n)) w := by
  induction n with
  | zero => exact fun h _ => h
  | succ n ih =>
    intro lo b w h hstep
    refine wp_bind.mpr (wp_mono (fun b w hb => ?_) (hstep lo b w le_rfl (by omega) h))
    rw [show lo + (n + 1) = lo + 1 + n by omega]
    exact ih hb fun i b w hlo hi => hstep i b w (by omega) (by omega)

end rules

/-! ### Systems that keep to a protocol -/

/-- The end of a call. -/
def Returns (P : Protocol σ ι Op Res Call α) (t : ι) (c : Call t) (a : α) (w : World σ ι Op Res Call α) : Prop :=
  ∀ h s, P.rely t w (h, s) → P.inv (h, s) →
    P.Guards t (h, s) (h ++ [.ret t c a], s) ∧ P.idle t (h ++ [.ret t c a], s)

/-- Every call of every thread keeps to the protocol. -/
def Kept (P : Protocol σ ι Op Res Call α) (body : (t : ι) → Call t → Thread Op Res α) : Prop :=
  ∀ t c h s, P.inv (h, s) → P.idle t (h, s) →
    P.Guards t (h, s) (h ++ [.call t c], s) ∧ P.wp t (body t c) (P.Returns t c) (h ++ [.call t c], s)

/-- What holds for a thread between two turns. -/
def Ready (P : Protocol σ ι Op Res Call α) (w : World σ ι Op Res Call α) (t : ι) :
    Option (Call t × Thread Op Res α) → Prop
  | none => P.idle t w
  | some (c, p) => P.wp t p (P.Returns t c) w

theorem Ready.rely {P : Protocol σ ι Op Res Call α} {w w' : World σ ι Op Res Call α} {t : ι}
    {r : Option (Call t × Thread Op Res α)} (h : P.Ready w t r) (hrely : P.rely t w w') : P.Ready w' t r := by
  cases r with
  | none => exact P.idle_rely h hrely
  | some r => exact wp_rely (fun hQ hrely hist s hrely' => hQ hist s (P.rely_trans hrely hrely')) h hrely

/-- Every interleaving of threads that keep to a protocol keeps its invariant. -/
theorem Kept.interleaving [DecidableEq ι] {P : Protocol σ ι Op Res Call α} {body : (t : ι) → Call t → Thread Op Res α}
    (hkept : P.Kept body) {s₀ : σ} (hinv : P.inv ([], s₀)) (hidle : ∀ t, P.idle t ([], s₀))
    {h : List (Event ι Op Res Call α)} {c : Config σ ι Op Res Call α} (hrun : Interleaving P.exec body s₀ h c) :
    P.inv (h, c.shared) ∧ ∀ t, P.Ready (h, c.shared) t (c.running t) := by
  induction hrun with
  | nil => exact ⟨hinv, hidle⟩
  | snoc _ hstep ih =>
    obtain ⟨hinv, hready⟩ := ih
    -- The thread whose turn it is, and the others.
    have hturn : ∀ {h e s s' t} {running : (t : ι) → Option (Call t × Thread Op Res α)} {r}, P.Guards t (h, s) (h ++ [e], s') →
        (∀ u, P.Ready (h, s) u (running u)) → P.Ready (h ++ [e], s') t r →
        P.inv (h ++ [e], s') ∧ ∀ u, P.Ready (h ++ [e], s') u (Function.update running t r u) := by
      intro h e s s' t running r hguard hall ht
      refine ⟨hguard.1, fun u => ?_⟩
      rcases eq_or_ne u t with rfl | hne
      · rwa [Function.update_self]
      · rw [Function.update_of_ne hne]
        exact (hall u).rely (hguard.2 u hne)
    cases hstep with
    | @call s running t c hidle =>
      have hid : P.Ready (_, s) t (running t) := hready t
      rw [hidle] at hid
      obtain ⟨hguard, hwp⟩ := hkept t c _ s hinv hid
      exact hturn hguard hready hwp
    | @act s s' running t op next r c hrunning hexec =>
      have hwp : P.Ready (_, s) t (running t) := hready t
      rw [hrunning] at hwp
      obtain ⟨hguard, hnext⟩ := hwp _ s r s' (P.rely_refl t _) hinv hexec
      exact hturn hguard hready hnext
    | @ret s running t a c hrunning =>
      have hwp : P.Ready (_, s) t (running t) := hready t
      rw [hrunning] at hwp
      obtain ⟨hguard, hid⟩ := hwp _ s (P.rely_refl t _) hinv
      exact hturn hguard hready hid

end Protocol

end NuKSM
