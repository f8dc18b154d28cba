import NuKSM.Lib.Reach
import NuKSM.Lib.Schedule
import NuKSM.Lib.Solo
import NuKSM.Lib.Turns

/-! # Linearizable histories

Threads that share an object call it as if each call took effect at one moment: after the call has started, before it
returns, and in an order in which a sequential object gives the same results. -/

namespace NuKSM
variable {S ι Op : Type} {Res : Op → Type} {Call : ι → Type} {α : Type}

/-- A call and its result. -/
structure Effect (ι : Type) (Call : ι → Type) (α : Type) where
  thread : ι
  call : Call thread
  result : α

/-- A turn of a thread, or the moment at which a call takes effect. -/
inductive Moment (ι Op : Type) (Res : Op → Type) (Call : ι → Type) (α : Type)
  | turn (e : Event ι Op Res Call α)
  | effect (x : Effect ι Call α)

namespace Moment

def turn? : Moment ι Op Res Call α → Option (Event ι Op Res Call α)
  | turn e => some e
  | effect _ => none

def effect? : Moment ι Op Res Call α → Option (Effect ι Call α)
  | turn _ => none
  | effect x => some x

end Moment

variable {t : ι} {l l' : List (Moment ι Op Res Call α)} {e : Event ι Op Res Call α} {x : Effect ι Call α}

def turns (l : List (Moment ι Op Res Call α)) : List (Event ι Op Res Call α) := l.filterMap Moment.turn?

def effects (l : List (Moment ι Op Res Call α)) : List (Effect ι Call α) := l.filterMap Moment.effect?

@[simp] theorem turns_append : turns (l ++ l') = turns l ++ turns l' := List.filterMap_append

@[simp] theorem effects_append : effects (l ++ l') = effects l ++ effects l' := List.filterMap_append

@[simp] theorem turns_turn : turns [.turn e] = [e] := rfl

@[simp] theorem turns_effect : turns [(.effect x : Moment ι Op Res Call α)] = [] := rfl

@[simp] theorem effects_turn : effects [.turn e] = [] := rfl

@[simp] theorem effects_effect : effects [(.effect x : Moment ι Op Res Call α)] = [x] := rfl

@[simp] theorem turns_effects (xs : List (Effect ι Call α)) : turns (xs.map (.effect : _ → Moment ι Op Res Call α)) = [] := by
  simp [turns, Moment.turn?]

@[simp] theorem effects_effects (xs : List (Effect ι Call α)) : effects (xs.map (.effect : _ → Moment ι Op Res Call α)) = xs := by
  rw [effects, List.filterMap_map]
  exact List.filterMap_some

/-- Where a thread is after some moments: in no call, or in a call that has taken effect with a result or has not yet. A call
starts, takes effect once, and returns its result. -/
inductive InCall (t : ι) : List (Moment ι Op Res Call α) → Option (Call t × Option α) → Prop
  | start : InCall t [] none
  | call {l : List (Moment ι Op Res Call α)} (c : Call t) : InCall t l none → InCall t (l ++ [.turn (.call t c)]) (some (c, none))
  | effect {l : List (Moment ι Op Res Call α)} {c : Call t} (a : α) : InCall t l (some (c, none)) → InCall t (l ++ [.effect ⟨t, c, a⟩]) (some (c, some a))
  | ret {l : List (Moment ι Op Res Call α)} {c : Call t} {a : α} : InCall t l (some (c, some a)) → InCall t (l ++ [.turn (.ret t c a)]) none
  | act {l : List (Moment ι Op Res Call α)} {p} (u : ι) (op : Op) (r : Res op) : InCall t l p → InCall t (l ++ [.turn (.act u op r)]) p
  | otherCall {l : List (Moment ι Op Res Call α)} {p u} (c : Call u) : u ≠ t → InCall t l p → InCall t (l ++ [.turn (.call u c)]) p
  | otherEffect {l : List (Moment ι Op Res Call α)} {p} (x : Effect ι Call α) : x.thread ≠ t → InCall t l p → InCall t (l ++ [.effect x]) p
  | otherRet {l : List (Moment ι Op Res Call α)} {p u} (c : Call u) (a : α) : u ≠ t → InCall t l p → InCall t (l ++ [.turn (.ret u c a)]) p

/-- The turns of other threads leave a thread where it is. -/
theorem InCall.other {p : Option (Call t × Option α)} (h : InCall t l p) (hne : e.thread ≠ t) : InCall t (l ++ [.turn e]) p := by
  cases e with
  | call u c => exact h.otherCall c hne
  | act u op r => exact h.act u op r
  | ret u c a => exact h.otherRet c a hne

/-- The calls of a history have their results from a sequential object, which starts in `s₀` and takes their effects one after
the other. -/
def Linearizable (spec : Monitor S (Effect ι Call α)) (s₀ : S) (h : List (Event ι Op Res Call α)) : Prop :=
  ∃ l s, turns l = h ∧ spec.reads s₀ (effects l) = some s ∧ ∀ t, ∃ p, InCall t l p

/-! ### The calls of one thread -/

/-- A thread that takes no turns is in no call. -/
theorem InCall.none_of_turns {p : Option (Call t × Option α)} (h : InCall t l p) : (∀ e ∈ turns l, e.thread ≠ t) → p = none := by
  induction h with
  | start => exact fun _ => rfl
  | call c _ _ => exact fun hne => absurd rfl (hne (.call t c) (by simp))
  | effect a _ ih => exact fun hne => absurd (ih (by simpa using hne)) nofun
  | ret _ _ => exact fun _ => rfl
  | act u op r _ ih => exact fun hne => ih fun e he => hne e (by simp [he])
  | otherCall c _ _ ih => exact fun hne => ih fun e he => hne e (by simp [he])
  | otherEffect x _ _ ih => exact fun hne => ih (by simpa using hne)
  | otherRet c a _ _ ih => exact fun hne => ih fun e he => hne e (by simp [he])

/-- What a thread has yet to return, if its call has taken effect. -/
def unreturned : Option (Call t × Option α) → List (Call t × α)
  | some (c, some a) => [(c, a)]
  | _ => []

@[simp] theorem unreturned_none : unreturned (none : Option (Call t × Option α)) = [] := rfl

section own
variable [DecidableEq ι]

/-- The effect, if it is one of a call of `t`. -/
def Effect.own (t : ι) (x : Effect ι Call α) : Option (Call t × α) :=
  if ht : x.thread = t then some (ht ▸ x.call, x.result) else none

/-- The call that returns, if it is one of `t`. -/
def Event.returned (t : ι) : Event ι Op Res Call α → Option (Call t × α)
  | ret u c a => if ht : u = t then some (ht ▸ c, a) else none
  | _ => none

@[simp] theorem Effect.own_self (c : Call t) (a : α) : (⟨t, c, a⟩ : Effect ι Call α).own t = some (c, a) := dif_pos rfl

theorem Effect.own_other (h : x.thread ≠ t) : x.own t = none := dif_neg h

@[simp] theorem Event.returned_call {u : ι} (c : Call u) : (call u c : Event ι Op Res Call α).returned t = none := rfl

@[simp] theorem Event.returned_act {u : ι} (op : Op) (r : Res op) : (act u op r : Event ι Op Res Call α).returned t = none := rfl

@[simp] theorem Event.returned_self (c : Call t) (a : α) : (ret t c a : Event ι Op Res Call α).returned t = some (c, a) := dif_pos rfl

theorem Event.returned_other {u : ι} (h : u ≠ t) (c : Call u) (a : α) : (ret u c a : Event ι Op Res Call α).returned t = none :=
  dif_neg h

theorem Event.thread_of_returned {r : Call t × α} (h : e.returned t = some r) : e.thread = t := by
  cases e with
  | call u c => cases h
  | act u op r => cases h
  | ret u c a =>
    by_contra hne
    rw [Event.returned_other (show u ≠ t from hne)] at h
    cases h

/-- The effects of the calls of a thread are those that it has returned from, and that of a call which it is still in. -/
theorem InCall.effects_own {p : Option (Call t × Option α)} (h : InCall t l p) :
    (effects l).filterMap (Effect.own t) = (turns l).filterMap (Event.returned t) ++ unreturned p := by
  induction h with
  | start => rfl
  | call c _ ih => simpa [List.filterMap_cons, unreturned] using ih
  | effect a _ ih => simpa [List.filterMap_cons, unreturned] using ih
  | ret _ ih => simpa [List.filterMap_cons, unreturned] using ih
  | act u op r _ ih => simpa [List.filterMap_cons] using ih
  | otherCall c _ _ ih => simpa [List.filterMap_cons] using ih
  | otherEffect x hne _ ih => simpa [List.filterMap_cons, Effect.own_other hne] using ih
  | otherRet c a hne _ ih => simpa [List.filterMap_cons, Event.returned_other hne] using ih

/-! ### Calls that nothing interferes with -/

variable {σ : Type} {step : ι → (op : Op) → σ → Option (Res op × σ)} {body : (t : ι) → Call t → Thread Op Res α}
  {running : (t : ι) → Option (Call t × Thread Op Res α)} {s₀ : σ}

/-- A thread may go on alone with the call that it is in, and return from it. -/
theorem Interleaving.alone (hidle : running t = none) {c : Call t} {a : α} {s' : σ} {p : Thread Op Res α} :
    ∀ {h s}, Interleaving (Outcome step) body s₀ h ⟨s, Function.update running t (some (c, p))⟩ →
      p.solo (step t) s = some (a, s') →
      ∃ l, Interleaving (Outcome step) body s₀ (h ++ l) ⟨s', running⟩ ∧ (∀ e ∈ l, e.thread = t) ∧
        l.filterMap (Event.returned t) = [(c, a)] := by
  induction p with
  | done b =>
    intro h s hrun hsolo
    obtain ⟨rfl, rfl⟩ := Prod.mk.inj (Option.some.inj hsolo)
    have hret := hrun.thenRet t (Function.update_self ..)
    rw [Function.update_idem, ← hidle, Function.update_eq_self] at hret
    refine ⟨[.ret t c b], hret, fun e he => ?_, ?_⟩
    · rw [List.mem_singleton.mp he]
      rfl
    · simp only [List.filterMap_cons, List.filterMap_nil, Event.returned_self]
  | act op next ih =>
    intro h s hrun hsolo
    obtain ⟨⟨r, s₁⟩, hstep, hnext⟩ := Option.bind_eq_some_iff.mp hsolo
    have hact := hrun.thenAct t op r (Function.update_self ..) hstep
    rw [Function.update_idem] at hact
    obtain ⟨l, hlast, hown, hreturned⟩ := ih r hact hnext
    refine ⟨.act t op r :: l, ?_, fun e he => ?_, ?_⟩
    · rwa [List.append_assoc] at hlast
    · rcases List.mem_cons.mp he with rfl | he
      · rfl
      · exact hown e he
    · rw [List.filterMap_cons, Event.returned_act]
      exact hreturned

theorem Interleaving.callAlone {h : List (Event ι Op Res Call α)} {s s' : σ} {a : α}
    (hrun : Interleaving (Outcome step) body s₀ h ⟨s, running⟩) (hidle : running t = none) (c : Call t)
    (hsolo : (body t c).solo (step t) s = some (a, s')) :
    ∃ l, Interleaving (Outcome step) body s₀ (h ++ l) ⟨s', running⟩ ∧ (∀ e ∈ l, e.thread = t) ∧
      l.filterMap (Event.returned t) = [(c, a)] := by
  obtain ⟨l, hlast, hown, hreturned⟩ := (hrun.thenCall t c hidle).alone hidle hsolo
  refine ⟨.call t c :: l, ?_, fun e he => ?_, ?_⟩
  · rwa [List.append_assoc] at hlast
  · rcases List.mem_cons.mp he with rfl | he
    · rfl
    · exact hown e he
  · rw [List.filterMap_cons, Event.returned_call]
    exact hreturned

theorem effects_eq_own {xs : List (Effect ι Call α)} (h : ∀ x ∈ xs, x.thread = t) :
    xs = (xs.filterMap (Effect.own t)).map fun r => ⟨t, r.1, r.2⟩ := by
  induction xs with
  | nil => rfl
  | cons x xs ih =>
    obtain ⟨u, c, a⟩ := x
    obtain rfl : u = t := h _ List.mem_cons_self
    rw [List.filterMap_cons, Effect.own_self, List.map_cons, ← ih fun x hx => h x (List.mem_cons_of_mem _ hx)]

/-- Where only one thread has made calls, they have their results from the sequential object in the order of the calls. -/
theorem Linearizable.alone {spec : Monitor S (Effect ι Call α)} {m : S} {h : List (Event ι Op Res Call α)}
    (hlinear : Linearizable spec m h) (hown : ∀ e ∈ h, e.thread = t) :
    ∃ m', spec.reads m ((h.filterMap (Event.returned t)).map fun r => ⟨t, r.1, r.2⟩) = some m' := by
  obtain ⟨l, m', rfl, hreads, hcalls⟩ := hlinear
  have hthread : ∀ x ∈ effects l, x.thread = t := by
    intro x hx
    by_contra hne
    obtain ⟨p, hp⟩ := hcalls x.thread
    have hturns : ∀ e ∈ turns l, e.thread ≠ x.thread := fun e he heq => hne (heq.symm.trans (hown e he))
    have hmem : (x.call, x.result) ∈ (effects l).filterMap (Effect.own x.thread) :=
      List.mem_filterMap.mpr ⟨x, hx, Effect.own_self ..⟩
    rw [hp.effects_own, hp.none_of_turns hturns, unreturned_none, List.append_nil] at hmem
    obtain ⟨e, he, hreturned⟩ := List.mem_filterMap.mp hmem
    exact hturns e he (Event.thread_of_returned hreturned)
  obtain ⟨p, hp⟩ := hcalls t
  rw [effects_eq_own hthread, hp.effects_own, List.map_append] at hreads
  obtain ⟨m', hm', -⟩ := Monitor.reads_split hreads
  exact ⟨m', hm'⟩

end own

end NuKSM
