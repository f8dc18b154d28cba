import NuKSM.Lib.Schedule
import NuKSM.Lib.Solo

/-! # Critical sections

Threads that go through the same critical section go through it one after the other. So the sections have the results that they
have when a thread that runs alone goes through it again and again, and no operation of a section finds itself without an
outcome. -/

namespace NuKSM

/-- An operation that belongs to a critical section, or one of the mutex. -/
inductive LockOp (Op : Type)
  | lock
  | unlock
  | within (op : Op)

@[reducible] def LockOp.Res {Op : Type} (Res : Op → Type) : LockOp Op → Type
  | lock | unlock => Unit
  | within op => Res op

/-- A state with the thread that has locked its mutex. -/
structure Mutexed (σ ι : Type) where
  state : σ
  owner : Option ι

section critical
variable {σ ι Op : Type} {Res : Op → Type} {α : Type}

def LockOp.step (step : (op : Op) → σ → Option (Res op × σ)) (t : ι) :
    (op : LockOp Op) → Mutexed σ ι → Option (LockOp.Res Res op × Mutexed σ ι)
  | lock, s => if s.owner.isNone then some ((), { s with owner := some t }) else none
  | unlock, s => some ((), { s with owner := none })
  | within op, s => (step op s.state).map fun r => (r.1, { s with state := r.2 })

namespace Thread

/-- The rest of a critical section, and the mutex is unlocked. -/
def leaving : Thread Op Res α → Thread (LockOp Op) (LockOp.Res Res) α
  | done a => act .unlock fun _ => done a
  | act op next => act (.within op) fun r => (next r).leaving

/-- The mutex is locked for the section. -/
def critical (p : Thread Op Res α) : Thread (LockOp Op) (LockOp.Res Res) α := act .lock fun _ => p.leaving

end Thread

abbrev SectionEvent (ι Op : Type) (Res : Op → Type) (α : Type) := Event ι (LockOp Op) (LockOp.Res Res) (fun _ : ι => Unit) α

abbrev SectionThreads (σ ι Op : Type) (Res : Op → Type) (α : Type) :=
  Config (Mutexed σ ι) ι (LockOp Op) (LockOp.Res Res) (fun _ : ι => Unit) α

/-- The sections that were entered, numbered as they were, with the number of each thread's section and the results. -/
structure SectionAudit (ι α : Type) where
  entered : ℕ
  number : ι → ℕ
  result : ℕ → Option α

variable [DecidableEq ι]

def SectionAudit.record (a : SectionAudit ι α) : SectionEvent ι Op Res α → SectionAudit ι α
  | .act t .lock _ => { a with entered := a.entered + 1, number := Function.update a.number t a.entered }
  | .ret t _ r => { a with result := Function.update a.result (a.number t) (some r) }
  | _ => a

def sectionAudit (h : List (SectionEvent ι Op Res α)) : SectionAudit ι α :=
  h.foldl SectionAudit.record ⟨0, fun _ => 0, fun _ => none⟩

theorem sectionAudit_snoc (h : List (SectionEvent ι Op Res α)) (e : SectionEvent ι Op Res α) :
    sectionAudit (h ++ [e]) = (sectionAudit h).record e := by
  simp only [sectionAudit, List.foldl_append, List.foldl_cons, List.foldl_nil]

variable (step : (op : Op) → σ → Option (Res op × σ)) (p : Thread Op Res α)

/-- Threads that call the section. -/
def criticalBody (_ : ι) (_ : Unit) : Thread (LockOp Op) (LockOp.Res Res) α := p.critical

/-- Where a thread is with respect to the section. -/
inductive SectionPlace (S : ℕ → σ) (r : ℕ → α) (a : SectionAudit ι α) (s : Mutexed σ ι) (t : ι) :
    Option (Unit × Thread (LockOp Op) (LockOp.Res Res) α) → Prop
  | idle : s.owner ≠ some t → SectionPlace S r a s t none
  | before : s.owner ≠ some t → SectionPlace S r a s t (some ((), p.critical))
  | inside {q : Thread Op Res α} : s.owner = some t → a.entered = a.number t + 1 →
      q.solo step s.state = some (r (a.number t), S (a.number t + 1)) → SectionPlace S r a s t (some ((), q.leaving))
  | after : s.owner ≠ some t → SectionPlace S r a s t (some ((), .done (r (a.number t))))

/-- What holds of a run of sections, where `S` are the states between them and `r` their results. -/
structure SectionInv (S : ℕ → σ) (r : ℕ → α) (h : List (SectionEvent ι Op Res α)) (c : SectionThreads σ ι Op Res α) : Prop where
  free : c.shared.owner = none → c.shared.state = S (sectionAudit h).entered
  place : ∀ t, SectionPlace step p S r (sectionAudit h) c.shared t (c.running t)
  results : ∀ k a, (sectionAudit h).result k = some a → a = r k

section invariant
variable {step p} {S : ℕ → σ} {r : ℕ → α} {a : SectionAudit ι α} {s : Mutexed σ ι} {t : ι}
  {h : List (SectionEvent ι Op Res α)} {c c' : SectionThreads σ ι Op Res α} {e : SectionEvent ι Op Res α}
  {x : Option (Unit × Thread (LockOp Op) (LockOp.Res Res) α)}

omit [DecidableEq ι] in
/-- A thread that is not in its section does not notice what the others do. -/
theorem SectionPlace.frame {a' : SectionAudit ι α} {s' : Mutexed σ ι} (hplace : SectionPlace step p S r a s t x)
    (howner : s.owner ≠ some t) (howner' : s'.owner ≠ some t) (hnumber : a'.number t = a.number t) :
    SectionPlace step p S r a' s' t x := by
  cases hplace with
  | idle => exact .idle howner'
  | before => exact .before howner'
  | inside hown => exact absurd hown howner
  | after =>
    rw [← hnumber]
    exact .after howner'

omit [DecidableEq ι] in
theorem SectionPlace.withResult (hplace : SectionPlace step p S r a s t x) (result : ℕ → Option α) :
    SectionPlace step p S r { a with result } s t x := by
  cases hplace with
  | idle hown => exact .idle hown
  | before hown => exact .before hown
  | inside hown hlast hsolo => exact .inside hown hlast hsolo
  | after hown => exact SectionPlace.after (a := { a with result }) hown

/-- A thread takes a turn, and the others stay where they are. -/
theorem SectionInv.turn {s' : Mutexed σ ι} (hinv : SectionInv step p S r h c)
    (hothers : ∀ u, u ≠ t → ∀ x, SectionPlace step p S r (sectionAudit h) c.shared u x →
      SectionPlace step p S r ((sectionAudit h).record e) s' u x)
    (hfree : s'.owner = none → s'.state = S ((sectionAudit h).record e).entered)
    (hplace : SectionPlace step p S r ((sectionAudit h).record e) s' t x)
    (hresults : ∀ k a, ((sectionAudit h).record e).result k = some a → a = r k) :
    SectionInv step p S r (h ++ [e]) ⟨s', Function.update c.running t x⟩ := by
  refine ⟨?_, fun u => ?_, ?_⟩ <;> rw [sectionAudit_snoc]
  · exact hfree
  · dsimp only
    rcases eq_or_ne u t with rfl | hne
    · rw [Function.update_self]
      exact hplace
    · rw [Function.update_of_ne hne]
      exact hothers u hne _ (hinv.place u)
  · exact hresults

theorem SectionInv.step_call (hinv : SectionInv step p S r h c) (hidle : c.running t = none) :
    SectionInv step p S r (h ++ [.call t ()]) ⟨c.shared, Function.update c.running t (some ((), p.critical))⟩ := by
  have hplace := hinv.place t
  rw [hidle] at hplace
  cases hplace with
  | idle hown => exact hinv.turn (fun _ _ _ hu => hu) hinv.free (.before hown) hinv.results

theorem SectionInv.step_ret (hinv : SectionInv step p S r h c) {b : α} (hrunning : c.running t = some ((), .done b)) :
    SectionInv step p S r (h ++ [.ret t () b]) ⟨c.shared, Function.update c.running t none⟩ := by
  have hplace := hinv.place t
  rw [hrunning] at hplace
  generalize hx : some ((), Thread.done b) = x at hplace
  cases hplace with
  | idle => cases hx
  | before => cases hx
  | @inside q =>
    cases q with
    | done => cases hx
    | act => cases hx
  | after hown =>
    cases hx
    refine hinv.turn (fun _ _ _ hu => hu.withResult _) hinv.free (.idle hown) fun k b hb => ?_
    have hb : Function.update (sectionAudit h).result ((sectionAudit h).number t) (some (r _)) k = some b := hb
    rcases eq_or_ne k ((sectionAudit h).number t) with rfl | hne
    · rw [Function.update_self] at hb
      exact (Option.some.inj hb).symm
    · rw [Function.update_of_ne hne] at hb
      exact hinv.results k b hb

/-- The mutex is locked, an operation of the section is performed, or the mutex is unlocked. -/
theorem SectionInv.step_act (hinv : SectionInv step p S r h c) (hsolo : ∀ k, p.solo step (S k) = some (r k, S (k + 1)))
    {op : LockOp Op} {next : LockOp.Res Res op → Thread (LockOp Op) (LockOp.Res Res) α}
    (hrunning : c.running t = some ((), .act op next)) {b : LockOp.Res Res op} {s' : Mutexed σ ι}
    (hexec : Outcome (LockOp.step step) t op c.shared b s') :
    SectionInv step p S r (h ++ [.act t op b]) ⟨s', Function.update c.running t (some ((), next b))⟩ := by
  have hplace := hinv.place t
  rw [hrunning] at hplace
  generalize hx : some ((), Thread.act op next) = x at hplace
  cases hplace with
  | idle => cases hx
  | before =>
    cases hx
    have hexec : (if c.shared.owner.isNone then some ((), { c.shared with owner := some t }) else none) = some (b, s') := hexec
    split at hexec
    · rename_i hnone
      rw [Option.isNone_iff_eq_none] at hnone
      cases hexec
      have hnumber : ((sectionAudit h).record (.act t .lock () : SectionEvent ι Op Res α)).number t = (sectionAudit h).entered :=
        Function.update_self ..
      refine hinv.turn (fun u hu y hy => hy.frame ?_ ?_ (Function.update_of_ne hu ..)) (fun h => by cases h)
        (.inside rfl ?_ ?_) hinv.results
      · exact fun hown => by cases hnone.symm.trans hown
      · exact fun hown => hu (Option.some.inj hown).symm
      · rw [hnumber]
        rfl
      · rw [hnumber, hinv.free hnone]
        exact hsolo _
    · cases hexec
  | @inside q hown hlast hq =>
    have hother : ∀ u, u ≠ t → c.shared.owner ≠ some u := fun u hu h => hu (Option.some.inj (h.symm.trans hown))
    cases q with
    | done b' =>
      cases hx
      cases hexec
      obtain ⟨hresult, hstate⟩ := Prod.mk.inj (Option.some.inj hq)
      refine hinv.turn (fun u hu y hy => hy.frame (hother u hu) (fun h => by cases h) rfl) (fun _ => ?_) ?_ hinv.results
      · exact hstate.trans (congrArg S hlast.symm)
      · rw [hresult]
        exact .after fun h => by cases h
    | act op q =>
      cases hx
      obtain ⟨⟨b', state⟩, hstep, hexec⟩ := Option.map_eq_some_iff.mp hexec
      cases hexec
      rw [Thread.solo, hstep, Option.bind_some] at hq
      refine hinv.turn (fun u hu y hy => hy.frame (hother u hu) (hother u hu) rfl) (fun hnone => ?_) (.inside hown hlast hq)
        hinv.results
      cases hown.symm.trans hnone
  | after => cases hx

/-- Sections in any interleaving have the results of one after the other, and none of their operations is without an outcome. -/
theorem critical_serial (hsolo : ∀ k, p.solo step (S k) = some (r k, S (k + 1)))
    (hrun : Interleaving (Outcome (LockOp.step step)) (criticalBody p) ⟨S 0, none⟩ h c) :
    (∀ k b, (sectionAudit h).result k = some b → b = r k) ∧
    ∀ t op next, c.running t = some ((), .act (.within op) next) → (step op c.shared.state).isSome := by
  have hinv : SectionInv step p S r h c := by
    induction hrun with
    | nil => exact ⟨fun _ => rfl, fun _ => .idle (fun h => by cases h), fun _ _ h => by cases h⟩
    | snoc _ hstep ih =>
      cases hstep with
      | call _ hidle => exact ih.step_call hidle
      | act hrunning hexec => exact ih.step_act hsolo hrunning hexec
      | ret hrunning => exact ih.step_ret hrunning
  refine ⟨hinv.results, fun t op next hrunning => ?_⟩
  have hplace := hinv.place t
  rw [hrunning] at hplace
  generalize hx : some ((), Thread.act (LockOp.within op) next) = x at hplace
  cases hplace with
  | idle => cases hx
  | before => cases hx
  | @inside q hown hlast hq =>
    cases q with
    | done => cases hx
    | act op q =>
      cases hx
      obtain ⟨b, hstep, -⟩ := Option.bind_eq_some_iff.mp hq
      rw [hstep]
      rfl
  | after => cases hx

end invariant

end critical

end NuKSM
