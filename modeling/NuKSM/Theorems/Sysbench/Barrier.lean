import NuKSM.Lib.Schedule
import NuKSM.Sysbench.Barrier

/-! # Generations of the thread barrier

Calls are numbered as they arrive: of `count` threads, call `k` belongs to generation `k / count`. Whoever has locked the mutex
knows the whole barrier, and leaves it as it should be. -/

namespace NuKSM.Sysbench
open Thread BarrierOp

variable {ι : Type}

abbrev BarrierEvent (ι : Type) := Event ι BarrierOp BarrierOp.Res (fun _ : ι => ℕ) Int32

abbrev BarrierWorld (ι : Type) := World (SbBarrier ι) ι BarrierOp BarrierOp.Res (fun _ : ι => ℕ) Int32

abbrev BarrierThreads (ι : Type) := Config (SbBarrier ι) ι BarrierOp BarrierOp.Res (fun _ : ι => ℕ) Int32

/-! ### What a run has done -/

/-- The number of calls that have arrived, the number of each thread's call, the calls that have yet to look at `error`, and how
often the callback ran in each generation, with its result. It was careless if it succeeded after a failure that others still
see, or failed while calls of an earlier generation that succeeded had yet to look at `error`. -/
structure BarrierBook (ι : Type) where
  arrived : ℕ
  number : ι → ℕ
  waiting : ι → Option ℕ
  runs : ℕ → ℕ
  verdict : ℕ → Option Int32
  careless : Prop

/-- The callback has failed in the generation. -/
def BarrierBook.Failed (a : BarrierBook ι) (g : ℕ) : Prop := ∃ v, a.verdict g = some v ∧ v ≠ 0

/-- The callback of generation `g` returns `v`. -/
def BarrierBook.judge (a : BarrierBook ι) (count g : ℕ) (v : Int32) : BarrierBook ι :=
  { a with
    runs := Function.update a.runs g (a.runs g + 1)
    verdict := Function.update a.verdict g (some v)
    careless := a.careless ∨ v = 0 ∧ 1 < count ∧ (∃ g, a.Failed g) ∨
      v ≠ 0 ∧ ∃ u k, a.waiting u = some k ∧ k / count ≠ g ∧ ¬a.Failed (k / count) }

/-- What calls have returned, by their numbers. -/
structure BarrierAudit (ι : Type) where
  book : BarrierBook ι
  result : ℕ → Option Int32

def BarrierAudit.zero : BarrierAudit ι := ⟨⟨0, fun _ => 0, fun _ => none, fun _ => 0, fun _ => none, False⟩, fun _ => none⟩

/-- A call returns after its generation has met and the callback has run once. If that failed, the result is negative, and
otherwise it is `SB_BARRIER_SERIAL_THREAD` for the last call of the generation and 0 for the others. -/
structure BarrierRight (b : BarrierConfig) (a : BarrierAudit ι) : Prop where
  met : ∀ k r, a.result k = some r → (k / b.initCount.toNat + 1) * b.initCount.toNat ≤ a.book.arrived
  once : ∀ g, a.book.runs g ≤ 1
  ran : b.hasCallback = true → ∀ k r, a.result k = some r → a.book.runs (k / b.initCount.toNat) = 1
  failed : ∀ k r, a.result k = some r → a.book.Failed (k / b.initCount.toNat) → r < 0
  served : ∀ k r, a.result k = some r → ¬a.book.Failed (k / b.initCount.toNat) →
    r = if (k + 1) % b.initCount.toNat = 0 then 1 else 0

/-! ### Between the generations -/

/-- The barrier while no thread has locked it. -/
structure Free (b : BarrierConfig) (a : BarrierBook ι) (s : SbBarrier ι) : Prop where
  count : s.count.toNat = b.initCount.toNat - a.arrived % b.initCount.toNat
  serial : s.serial = UInt32.ofNat (a.arrived / b.initCount.toNat)
  runs : ∀ g, a.runs g = if b.hasCallback = true ∧ g < a.arrived / b.initCount.toNat then 1 else 0
  verdict : ∀ g, a.runs g = 0 → a.verdict g = none
  error : s.error = true ↔ ∃ g, a.Failed g
  waiting : ∀ t k, a.waiting t = some k → k < a.arrived ∧ (k + 1) % b.initCount.toNat ≠ 0
  judged : ¬a.careless → ∀ t k, a.waiting t = some k → k / b.initCount.toNat < a.arrived / b.initCount.toNat →
    (s.error = true ↔ a.Failed (k / b.initCount.toNat))

theorem Free.owned {b : BarrierConfig} {a : BarrierBook ι} {s : SbBarrier ι} (hfree : Free b a s) (owner : Option ι) :
    Free b a { s with owner } :=
  ⟨hfree.count, hfree.serial, hfree.runs, hfree.verdict, hfree.error, hfree.waiting, hfree.judged⟩

/-- What call `k` may return. -/
structure Answered (b : BarrierConfig) (a : BarrierBook ι) (k : ℕ) (r : Int32) : Prop where
  met : (k / b.initCount.toNat + 1) * b.initCount.toNat ≤ a.arrived
  ran : b.hasCallback = true → a.runs (k / b.initCount.toNat) = 1
  failed : ¬a.careless → a.Failed (k / b.initCount.toNat) → r < 0
  served : ¬a.careless → ¬a.Failed (k / b.initCount.toNat) → r = if (k + 1) % b.initCount.toNat = 0 then 1 else 0

/-- The next call is the last of its generation, or another one of it. -/
theorem next_call {count : ℕ} (hcount : 0 < count) (k : ℕ) :
    k % count + 1 = count ∧ (k + 1) % count = 0 ∧ (k + 1) / count = k / count + 1 ∨
    k % count + 1 < count ∧ (k + 1) % count = k % count + 1 ∧ (k + 1) / count = k / count := by
  have hlt := Nat.mod_lt k hcount
  have hk := Nat.div_add_mod k count
  rcases Nat.lt_or_ge (k % count + 1) count with hne | hge
  · refine Or.inr ⟨hne, ?_, ?_⟩
    · conv_lhs => rw [← hk, Nat.add_assoc, Nat.mul_add_mod, Nat.mod_eq_of_lt hne]
    · conv_lhs => rw [← hk, Nat.add_assoc, Nat.mul_add_div hcount, Nat.div_eq_of_lt hne, Nat.add_zero]
  · have hlast : k % count + 1 = count := by omega
    have hk : k + 1 = count * (k / count + 1) := by rw [Nat.mul_add_one]; omega
    refine Or.inl ⟨hlast, ?_, ?_⟩
    · rw [hk, Nat.mul_mod_right]
    · rw [hk, Nat.mul_div_cancel_left _ hcount]

/-- The book goes on with turns of the thread `t`. -/
structure Extends (b : BarrierConfig) (t : ι) (a a' : BarrierBook ι) : Prop where
  number : ∀ u, u ≠ t → a'.number u = a.number u
  waiting : ∀ u, u ≠ t → a'.waiting u = a.waiting u
  answered : ∀ k r, Answered b a k r → Answered b a' k r
  once : (∀ g, a.runs g ≤ 1) → ∀ g, a'.runs g ≤ 1

theorem Extends.refl (b : BarrierConfig) (t : ι) (a : BarrierBook ι) : Extends b t a a :=
  ⟨fun _ _ => rfl, fun _ _ => rfl, fun _ _ h => h, fun h => h⟩

section generations
variable {b : BarrierConfig} {t : ι} {s : SbBarrier ι} {a : BarrierBook ι}

/-- A call is done with waiting. -/
theorem free_without (hfree : Free b a s) {waiting : ι → Option ℕ}
    (hwaiting : ∀ u j, waiting u = some j → a.waiting u = some j) : Free b { a with waiting } s :=
  ⟨hfree.count, hfree.serial, hfree.runs, hfree.verdict, hfree.error, fun u j hj => hfree.waiting u j (hwaiting u j hj),
    fun hcareful u j hj => hfree.judged hcareful u j (hwaiting u j hj)⟩

/-- Call `k` of the thread has arrived last, and the barrier is that of the generation before. -/
structure Completing (b : BarrierConfig) (t : ι) (k : ℕ) (a : BarrierBook ι) (s : SbBarrier ι) : Prop where
  number : a.number t = k
  arrived : a.arrived = k + 1
  last : (k + 1) % b.initCount.toNat = 0 ∧ (k + 1) / b.initCount.toNat = k / b.initCount.toNat + 1
  serial : s.serial = UInt32.ofNat (k / b.initCount.toNat)
  runs : ∀ g, a.runs g = if b.hasCallback = true ∧ g < k / b.initCount.toNat then 1 else 0
  verdict : ∀ g, a.runs g = 0 → a.verdict g = none
  error : s.error = true ↔ ∃ g, a.Failed g
  waiting : ∀ u j, a.waiting u = some j → j < k + 1 ∧ (j + 1) % b.initCount.toNat ≠ 0
  judged : ¬a.careless → ∀ u j, a.waiting u = some j → j / b.initCount.toNat < k / b.initCount.toNat →
    (s.error = true ↔ a.Failed (j / b.initCount.toNat))

/-- The barrier of the next generation. -/
def SbBarrier.next (b : BarrierConfig) (s : SbBarrier ι) : SbBarrier ι := { s with count := b.initCount, serial := s.serial + 1 }

section completing
variable {k : ℕ} (hC : Completing b t k a s)
include hC

theorem Completing.serial_next : s.serial + 1 = UInt32.ofNat (a.arrived / b.initCount.toNat) := by
  rw [hC.serial, hC.arrived, hC.last.2, UInt32.ofNat_add]
  rfl

/-- Without a callback nothing ever fails. -/
theorem Completing.free (hcallback : b.hasCallback = false) : Free b a { s.next b with owner := none } := by
  have hzero : ∀ g, a.runs g = 0 := fun g => by rw [hC.runs, hcallback]; simp
  have hnone : ∀ g, ¬a.Failed g := fun g ⟨v, hv, _⟩ => by rw [hC.verdict g (hzero g)] at hv; cases hv
  refine ⟨?_, hC.serial_next, fun g => ?_, hC.verdict, hC.error, ?_, fun _ u j hj _ => ?_⟩
  · rw [hC.arrived, hC.last.1]
    rfl
  · rw [hzero, hcallback]
    simp
  · rw [hC.arrived]
    exact hC.waiting
  · exact ⟨fun herror => absurd (hC.error.mp herror) fun ⟨g, hg⟩ => hnone g hg, fun hfailed => absurd hfailed (hnone _)⟩

/-- The callback has not run in this generation yet. -/
theorem Completing.not_run : a.runs (k / b.initCount.toNat) = 0 := by
  rw [hC.runs, if_neg fun hlt => absurd hlt.2 (lt_irrefl _)]

omit hC in
theorem failed_judge {g g' count : ℕ} {v : Int32} :
    (a.judge count g v).Failed g' ↔ if g' = g then v ≠ 0 else a.Failed g' := by
  unfold BarrierBook.Failed BarrierBook.judge
  rcases eq_or_ne g' g with rfl | hne
  · rw [if_pos rfl]
    simp only [Function.update_self, Option.some.injEq]
    exact ⟨fun ⟨v', hv', hne⟩ => hv' ▸ hne, fun hne => ⟨v, rfl, hne⟩⟩
  · rw [if_neg hne]
    simp only [Function.update_of_ne hne]

omit hC in
/-- With its first failure the barrier turns to an error for good. -/
theorem Completing.free_judge (hC : Completing b t k a s) (hcount : 0 < b.initCount.toNat)
    (hcallback : b.hasCallback = true) (v : Int32) {error : Bool}
    (herror : error = true ↔ s.error = true ∨ v ≠ 0) {results : ℕ → Int32} :
    Free b (a.judge b.initCount.toNat (k / b.initCount.toNat) v) ⟨b.initCount, s.serial + 1, error, none, results⟩ := by
  set g := k / b.initCount.toNat with hg
  have hself : Function.update a.runs g (a.runs g + 1) g = 1 := by rw [Function.update_self, hC.not_run]
  have hfailed : ¬a.Failed g := fun ⟨v, hv, _⟩ => by rw [hC.verdict g hC.not_run] at hv; cases hv
  refine ⟨?_, hC.serial_next, fun g' => ?_, fun g' hg' => ?_, ?_, ?_, fun hcareful u j hj hlt => ?_⟩
  · show b.initCount.toNat = _ - a.arrived % _
    rw [hC.arrived, hC.last.1]
    rfl
  · have hnext : a.arrived / b.initCount.toNat = g + 1 := by rw [hC.arrived, hC.last.2]
    rcases eq_or_ne g' g with rfl | hne
    · exact hself.trans (if_pos ⟨hcallback, hnext ▸ Nat.lt_succ_self _⟩).symm
    · refine (Function.update_of_ne hne _ _).trans ((hC.runs g').trans (if_congr (and_congr_right fun _ => ?_) rfl rfl))
      show g' < g ↔ g' < a.arrived / _
      rw [hnext]
      omega
  · have hg' : Function.update a.runs g (a.runs g + 1) g' = 0 := hg'
    rcases eq_or_ne g' g with rfl | hne
    · rw [hself] at hg'
      cases hg'
    · rw [Function.update_of_ne hne] at hg'
      exact (Function.update_of_ne hne _ _).trans (hC.verdict g' hg')
  · rw [herror, hC.error]
    constructor
    · rintro (⟨g', hg'⟩ | hv)
      · have hne : g' ≠ g := fun heq => hfailed (heq ▸ hg')
        exact ⟨g', failed_judge.mpr (by rwa [if_neg hne])⟩
      · exact ⟨g, failed_judge.mpr (by rwa [if_pos rfl])⟩
    · rintro ⟨g', hg'⟩
      have hg' := failed_judge.mp hg'
      split at hg'
      · exact Or.inr hg'
      · exact Or.inl ⟨g', hg'⟩
  · show ∀ u j, a.waiting u = some j → j < a.arrived ∧ _
    rw [hC.arrived]
    exact hC.waiting
  · have hlt : j / b.initCount.toNat < a.arrived / b.initCount.toNat := hlt
    rw [hC.arrived, hC.last.2] at hlt
    have hj : a.waiting u = some j := hj
    obtain ⟨hcareful, hnew⟩ := not_or.mp hcareful
    obtain ⟨hsuccess, hfailure⟩ := not_or.mp hnew
    have hmany : b.initCount.toNat ≠ 1 := fun hone => (hC.waiting u j hj).2 (by rw [hone, Nat.mod_one])
    rw [herror, failed_judge]
    split
    · -- The waiting call is one of this generation.
      refine ⟨fun hor => hor.elim (fun herr hv => ?_) id, Or.inr⟩
      exact hsuccess ⟨hv, by omega, hC.error.mp herr⟩
    · -- It is one of an earlier generation.
      rename_i hne
      have hold := hC.judged hcareful u j hj (by omega)
      rw [hold]
      exact ⟨fun hor => hor.elim id fun hv => by_contra fun hnot => hfailure ⟨hv, u, j, hj, hne, hnot⟩, Or.inl⟩

end completing

/-- The callback runs for the first time in a generation. -/
theorem Extends.judge {k : ℕ} (hrun : a.runs (k / b.initCount.toNat) = 0) (hcallback : b.hasCallback = true) (v : Int32) :
    Extends b t a (a.judge b.initCount.toNat (k / b.initCount.toNat) v) := by
  refine ⟨fun _ _ => rfl, fun _ _ => rfl, fun j r hj => ?_, fun honce g => ?_⟩
  · have hne : j / b.initCount.toNat ≠ k / b.initCount.toNat := fun heq => by
      have hran := hj.ran hcallback
      rw [heq, hrun] at hran
      cases hran
    have hfailed : (a.judge b.initCount.toNat (k / b.initCount.toNat) v).Failed (j / b.initCount.toNat) ↔
        a.Failed (j / b.initCount.toNat) := by rw [failed_judge, if_neg hne]
    refine ⟨hj.met, fun hcallback => (Function.update_of_ne hne _ _).trans (hj.ran hcallback), fun hcareful hf => ?_,
      fun hcareful hf => ?_⟩
    · exact hj.failed (fun hcareless => hcareful (Or.inl hcareless)) (hfailed.mp hf)
    · exact hj.served (fun hcareless => hcareful (Or.inl hcareless)) fun hf' => hf (hfailed.mpr hf')
  · show Function.update a.runs _ _ g ≤ 1
    rcases eq_or_ne g (k / b.initCount.toNat) with rfl | hne
    · rw [Function.update_self, hrun]
    · rw [Function.update_of_ne hne]
      exact honce g

end generations

/-! ### The protocol -/

variable [DecidableEq ι]

def BarrierBook.record (count : ℕ) (a : BarrierBook ι) : BarrierEvent ι → BarrierBook ι
  | .act t .decCount v =>
    { a with
      arrived := a.arrived + 1
      number := Function.update a.number t a.arrived
      waiting := if v = 0 then a.waiting else Function.update a.waiting t (some a.arrived) }
  | .act t .callback v => a.judge count (a.number t / count) v
  | .act t .loadError _ => { a with waiting := Function.update a.waiting t none }
  | _ => a

def BarrierAudit.record (count : ℕ) (a : BarrierAudit ι) (e : BarrierEvent ι) : BarrierAudit ι where
  book := a.book.record count e
  result :=
    match e with
    | .ret t _ r => Function.update a.result (a.book.number t) (some r)
    | _ => a.result

def barrierAudit (count : ℕ) (h : List (BarrierEvent ι)) : BarrierAudit ι := h.foldl (BarrierAudit.record count) .zero

theorem barrierAudit_snoc (count : ℕ) (h : List (BarrierEvent ι)) (e : BarrierEvent ι) :
    barrierAudit count (h ++ [e]) = (barrierAudit count h).record count e := by
  simp only [barrierAudit, List.foldl_append, List.foldl_cons, List.foldl_nil]

section protocol
variable (b : BarrierConfig)

structure BarrierInv (w : BarrierWorld ι) : Prop where
  free : w.2.owner = none → Free b (barrierAudit b.initCount.toNat w.1).book w.2
  once : ∀ g, (barrierAudit b.initCount.toNat w.1).book.runs g ≤ 1
  results : ∀ k r, (barrierAudit b.initCount.toNat w.1).result k = some r → Answered b (barrierAudit b.initCount.toNat w.1).book k r

/-- What a thread finds again after the turns of the others. -/
structure SameBarrier (t : ι) (w w' : BarrierWorld ι) : Prop where
  number : (barrierAudit b.initCount.toNat w'.1).book.number t = (barrierAudit b.initCount.toNat w.1).book.number t
  waiting : (barrierAudit b.initCount.toNat w'.1).book.waiting t = (barrierAudit b.initCount.toNat w.1).book.waiting t
  answered : ∀ k r, Answered b (barrierAudit b.initCount.toNat w.1).book k r → Answered b (barrierAudit b.initCount.toNat w'.1).book k r
  held : w.2.owner = some t →
    w'.2 = w.2 ∧ (barrierAudit b.initCount.toNat w'.1).book = (barrierAudit b.initCount.toNat w.1).book

def barrierProtocol : Protocol (SbBarrier ι) ι BarrierOp BarrierOp.Res (fun _ : ι => ℕ) Int32 where
  exec := Outcome BarrierOp.step
  inv := BarrierInv b
  idle _ _ := True
  rely := SameBarrier b
  rely_refl _ _ := ⟨rfl, rfl, fun _ _ h => h, fun _ => ⟨rfl, rfl⟩⟩
  rely_trans h₁ h₂ := by
    refine ⟨h₂.number.trans h₁.number, h₂.waiting.trans h₁.waiting, fun k r hk => h₂.answered k r (h₁.answered k r hk),
      fun howner => ?_⟩
    obtain ⟨hstate, hbook⟩ := h₁.held howner
    obtain ⟨hstate', hbook'⟩ := h₂.held (hstate ▸ howner)
    exact ⟨hstate'.trans hstate, hbook'.trans hbook⟩
  idle_rely _ _ := trivial

end protocol

/-! ### Turns -/

section turns
variable {b : BarrierConfig} {t : ι} {h : List (BarrierEvent ι)} {s s' : SbBarrier ι} {w w' : BarrierWorld ι}
  {e : BarrierEvent ι} {a a' : BarrierBook ι} {α : Type} {p : BarrierM α} {Q : α → BarrierWorld ι → Prop}

/-- An operation of a thread while no other has locked the mutex. -/
theorem barrier_guards {op : BarrierOp} {r : op.Res} (hinv : BarrierInv b (h, s))
    (ha' : (barrierAudit b.initCount.toNat h).book.record b.initCount.toNat (.act t op r) = a')
    (howner : ∀ u, s.owner = some u → u = t) (hextends : Extends b t (barrierAudit b.initCount.toNat h).book a')
    (hfree : s'.owner = none → Free b a' s') :
    (barrierProtocol b).Guards t (h, s) (h ++ [.act t op r], s') := by
  have hbook : (barrierAudit b.initCount.toNat (h ++ [.act t op r])).book = a' := by
    rw [barrierAudit_snoc]
    exact ha'
  have hresult : (barrierAudit b.initCount.toNat (h ++ [.act t op r])).result = (barrierAudit b.initCount.toNat h).result := by
    rw [barrierAudit_snoc]
    rfl
  refine ⟨⟨fun hnone => hbook ▸ hfree hnone, hbook ▸ hextends.once hinv.once, fun k r' hk => ?_⟩, fun u hu => ⟨?_, ?_, ?_, ?_⟩⟩
  · rw [hresult] at hk
    rw [hbook]
    exact hextends.answered k r' (hinv.results k r' hk)
  · rw [hbook]
    exact hextends.number u hu
  · rw [hbook]
    exact hextends.waiting u hu
  · rw [hbook]
    exact hextends.answered
  · exact fun hheld => absurd (howner u hheld) hu

/-- The thread has locked the mutex. -/
structure Owning (b : BarrierConfig) (t : ι) (a : BarrierBook ι) (s : SbBarrier ι) (w : BarrierWorld ι) : Prop where
  owner : s.owner = some t
  state : w.2 = s
  book : (barrierAudit b.initCount.toNat w.1).book = a

theorem Owning.rely (hO : Owning b t a s w) (hsame : SameBarrier b t w w') : Owning b t a s w' := by
  obtain ⟨hstate, hbook⟩ := hsame.held (hO.state ▸ hO.owner)
  exact ⟨hO.owner, hstate.trans hO.state, hbook.trans hO.book⟩

/-- An operation of the thread that has locked the mutex, which may unlock it. -/
theorem wp_owner {op : BarrierOp} {r : op.Res} {q : op.Res → BarrierM α} (hO : Owning b t a s w)
    (hstep : op.step t s = some (r, s')) (ha' : a.record b.initCount.toNat (.act t op r) = a') (hextends : Extends b t a a')
    (hfree : s'.owner = none → Free b a' s')
    (hnext : ∀ w', w'.2 = s' → (barrierAudit b.initCount.toNat w'.1).book = a' → (barrierProtocol b).wp t (q r) Q w') :
    (barrierProtocol b).wp t (perform op >>= q) Q w := by
  refine Protocol.wp_perform fun h s₁ r₁ s₁' hsame hinv hexec => ?_
  obtain ⟨hs, hstate, hbook⟩ := hO.rely hsame
  obtain rfl : s₁ = s := hstate
  have hexec : op.step t s₁ = some (r₁, s₁') := hexec
  rw [hstep] at hexec
  cases hexec
  have hbook : (barrierAudit b.initCount.toNat h).book = a := hbook
  refine ⟨barrier_guards hinv (hbook ▸ ha') (fun u hu => ?_) (hbook ▸ hextends) hfree, hnext _ rfl ?_⟩
  · exact Option.some.inj (hu.symm.trans hs)
  · rw [barrierAudit_snoc, ← ha', ← hbook]
    rfl

theorem wp_owning {op : BarrierOp} {r : op.Res} {q : op.Res → BarrierM α} (hO : Owning b t a s w)
    (hstep : op.step t s = some (r, s')) (ha' : a.record b.initCount.toNat (.act t op r) = a') (hextends : Extends b t a a')
    (howner : s'.owner = some t)
    (hnext : ∀ w', Owning b t a' s' w' → (barrierProtocol b).wp t (q r) Q w') :
    (barrierProtocol b).wp t (perform op >>= q) Q w :=
  wp_owner hO hstep ha' hextends (fun hnone => absurd (howner.symm.trans hnone) nofun)
    fun w' hstate hbook => hnext w' ⟨howner, hstate, hbook⟩

/-- The thread unlocks the mutex. -/
theorem wp_release {op : BarrierOp} {r : op.Res} {q : op.Res → BarrierM α} (hO : Owning b t a s w)
    (hstep : op.step t s = some (r, { s with owner := none })) (hnote : a.record b.initCount.toNat (.act t op r) = a)
    (hfree : Free b a { s with owner := none })
    (hnext : ∀ w', (barrierAudit b.initCount.toNat w'.1).book = a → (barrierProtocol b).wp t (q r) Q w') :
    (barrierProtocol b).wp t (perform op >>= q) Q w :=
  wp_owner hO hstep hnote (Extends.refl b t a) (fun _ => hfree) fun w' _ hbook => hnext w' hbook

/-- The thread locks the mutex, and finds the barrier as it should be. -/
theorem wp_acquire {op : BarrierOp} {r : op.Res} {q : op.Res → BarrierM α}
    (hstep : ∀ s, op.step t s = if s.owner.isNone then some (r, { s with owner := some t }) else none)
    (hnote : ∀ a : BarrierBook ι, a.record b.initCount.toNat (.act t op r) = a)
    (hnext : ∀ a s w', Owning b t a s w' → Free b a s →
      a.number t = (barrierAudit b.initCount.toNat w.1).book.number t →
      a.waiting t = (barrierAudit b.initCount.toNat w.1).book.waiting t → (barrierProtocol b).wp t (q r) Q w') :
    (barrierProtocol b).wp t (perform op >>= q) Q w := by
  refine Protocol.wp_perform fun h s r₁ s' hsame hinv hexec => ?_
  have hexec : op.step t s = some (r₁, s') := hexec
  rw [hstep] at hexec
  split at hexec
  · rename_i hnone
    have hnone : s.owner = none := Option.isNone_iff_eq_none.mp hnone
    cases hexec
    have hfree : Free b (barrierAudit b.initCount.toNat h).book s := hinv.free hnone
    refine ⟨barrier_guards hinv (hnote _) (fun u hu => ?_) (Extends.refl b t _) nofun,
      hnext (barrierAudit b.initCount.toNat h).book _ _ ⟨rfl, rfl, ?_⟩ ?_ hsame.number hsame.waiting⟩
    · rw [hnone] at hu
      cases hu
    · rw [barrierAudit_snoc]
      exact hnote _
    · exact hfree.owned (some t)
  · cases hexec

/-! ### `sb_barrier_wait` -/

/-- What a call returns is answered. -/
def Returning (b : BarrierConfig) (t : ι) (r : Int32) (w : BarrierWorld ι) : Prop :=
  Answered b (barrierAudit b.initCount.toNat w.1).book ((barrierAudit b.initCount.toNat w.1).book.number t) r

variable {k : ℕ}

/-- Changes of the barrier by its owner that the book does not note. -/
theorem wp_owning_unnoted {op : BarrierOp} {r : op.Res} {q : op.Res → BarrierM α} (hO : Owning b t a s w)
    (hstep : op.step t s = some (r, s')) (ha : a.record b.initCount.toNat (.act t op r) = a) (howner : s'.owner = some t)
    (hnext : ∀ w', Owning b t a s' w' → (barrierProtocol b).wp t (q r) Q w') :
    (barrierProtocol b).wp t (perform op >>= q) Q w :=
  wp_owning hO hstep ha (Extends.refl b t a) howner hnext

/-- The thread unlocks the mutex and returns. -/
theorem wp_unlock_return {r : Int32} (hO : Owning b t a s w) (hfree : Free b a { s with owner := none })
    (hanswered : Answered b a (a.number t) r) :
    (barrierProtocol b).wp t (do perform unlock; return r) (Returning b t) w :=
  wp_release (q := fun _ => pure r) hO rfl rfl hfree fun w' hbook => by
    show Answered b _ _ r
    rwa [hbook]

/-- The last thread to arrive releases the others, and returns what the callback makes of it. -/
theorem wp_releaseBarrier (hcount : 0 < b.initCount.toNat) (hO : Owning b t a s w) (hC : Completing b t k a s) :
    (barrierProtocol b).wp t (releaseBarrier b) (Returning b t) w := by
  have hmet : (k / b.initCount.toNat + 1) * b.initCount.toNat = k + 1 := by
    rw [← hC.last.2, Nat.div_mul_cancel (Nat.dvd_of_mod_eq_zero hC.last.1)]
  refine wp_owning_unnoted hO rfl rfl hO.owner fun w hO => ?_
  refine wp_owning_unnoted hO rfl rfl hO.owner fun w hO => ?_
  refine wp_owning_unnoted hO rfl rfl hO.owner fun w hO => ?_
  show (barrierProtocol b).wp t (if b.hasCallback = true then _ else _) _ w
  split
  · rename_i hcallback
    have hrecord : a.record b.initCount.toNat (.act t .callback (s.results 0)) =
      a.judge b.initCount.toNat (k / b.initCount.toNat) (s.results 0) := by
      show a.judge _ (a.number t / _) _ = _
      rw [hC.number]
    have hrun : (a.judge b.initCount.toNat (k / b.initCount.toNat) (s.results 0)).runs (k / b.initCount.toNat) = 1 := by
      show Function.update a.runs _ (a.runs _ + 1) _ = 1
      rw [Function.update_self, hC.not_run]
    have hfailed : (a.judge b.initCount.toNat (k / b.initCount.toNat) (s.results 0)).Failed (k / b.initCount.toNat) ↔
      s.results 0 ≠ 0 := by rw [failed_judge, if_pos rfl]
    have hanswered : ∀ r, (s.results 0 ≠ 0 → r < 0) → (s.results 0 = 0 → r = 1) →
        Answered b (a.judge b.initCount.toNat (k / b.initCount.toNat) (s.results 0)) (a.number t) r := by
      intro r hbad hgood
      rw [hC.number]
      refine ⟨hmet.le.trans hC.arrived.ge, fun _ => hrun, fun _ hf => hbad (hfailed.mp hf), fun _ hf => ?_⟩
      rw [if_pos hC.last.1]
      exact hgood (not_not.mp fun hne => hf (hfailed.mpr hne))
    refine wp_owning hO rfl hrecord (Extends.judge hC.not_run hcallback _) hO.owner fun w hO => ?_
    show (barrierProtocol b).wp t (if s.results 0 ≠ 0 then _ else _) _ w
    split
    · rename_i hbad
      refine wp_owning_unnoted hO rfl rfl hO.owner fun w hO => wp_unlock_return hO ?_
        (hanswered (-1) (fun _ => by decide) fun hgood => absurd hgood hbad)
      exact hC.free_judge hcount hcallback _ ⟨fun _ => Or.inr hbad, fun _ => rfl⟩
    · rename_i hgood
      refine wp_unlock_return hO ?_ (hanswered 1 (fun hbad => absurd hbad hgood) fun _ => rfl)
      exact hC.free_judge hcount hcallback _ ⟨Or.inl, fun hor => hor.resolve_right hgood⟩
  · rename_i hcallback
    have hcallback := Bool.eq_false_iff.mpr hcallback
    have hfree := hC.free hcallback
    refine wp_unlock_return hO hfree ?_
    rw [hC.number]
    refine ⟨hmet.le.trans hC.arrived.ge, fun htrue => absurd (hcallback.symm.trans htrue) nofun, fun _ hf => ?_, fun _ _ => ?_⟩
    · obtain ⟨v, hv, -⟩ := hf
      rw [hC.verdict _ hC.not_run] at hv
      cases hv
    · rw [if_pos hC.last.1]

/-- Call `k` of the thread has yet to look at `error`, and the thread has locked the mutex. -/
structure Awake (b : BarrierConfig) (t : ι) (k : ℕ) (a : BarrierBook ι) (s : SbBarrier ι) (w : BarrierWorld ι) : Prop where
  owning : Owning b t a s w
  free : Free b a s
  number : a.number t = k
  waiting : a.waiting t = some k

theorem wp_waitOn {α : Type} {Q : α → BarrierWorld ι → Prop} : (barrierProtocol b).wp t waitOn Q w :=
  Protocol.wp_never fun _ (r : Empty) => r.elim

/-- A thread goes on waiting while its generation has not met. -/
theorem wp_waitRound (hA : Awake b t k a s w) :
    (barrierProtocol b).wp t (waitRound (UInt32.ofNat (k / b.initCount.toNat)))
      (Sum.elim (fun _ w => ∃ a s, Awake b t k a s w)
        fun _ w => ∃ a s, Awake b t k a s w ∧ k / b.initCount.toNat < a.arrived / b.initCount.toNat) w := by
  refine wp_release hA.owning rfl rfl (hA.free.owned none) fun w hbook => ?_
  refine wp_acquire (fun _ => rfl) (fun _ => rfl) fun a' s w hO hfree hnumber hwaiting => ?_
  rw [hbook, hA.number] at hnumber
  rw [hbook, hA.waiting] at hwaiting
  refine wp_owning_unnoted hO rfl rfl hO.owner fun w hO => ?_
  have hA : Awake b t k a' s w := ⟨hO, hfree, hnumber, hwaiting⟩
  show (barrierProtocol b).wp t (if UInt32.ofNat (k / b.initCount.toNat) = s.serial then _ else _) _ w
  split
  · exact ⟨a', s, hA⟩
  · rename_i hne
    refine ⟨a', s, hA, lt_of_le_of_ne (Nat.div_le_div_right (hfree.waiting t k hwaiting).1.le) fun heq => hne ?_⟩
    rw [heq]
    exact hfree.serial.symm

/-- A thread that waits returns once its generation has met, with what `error` then is. -/
theorem wp_awaitRelease {n : ℕ} (hA : Awake b t k a s w) (hserial : s.serial = UInt32.ofNat (k / b.initCount.toNat)) :
    (barrierProtocol b).wp t (awaitRelease n) (Returning b t) w := by
  refine wp_owning_unnoted hA.owning rfl rfl hA.owning.owner fun w hO => ?_
  rw [hserial]
  have hA : ∃ a s, Awake b t k a s w := ⟨a, s, hO, hA.free, hA.number, hA.waiting⟩
  refine Protocol.wp_bind.mpr (Protocol.wp_mono (fun _ w hdone => ?_) (Protocol.wp_rounds
    (I := fun _ w => ∃ a s, Awake b t k a s w)
    (Q := fun _ w => ∃ a s, Awake b t k a s w ∧ k / b.initCount.toNat < a.arrived / b.initCount.toNat)
    (fun _ _ _ => wp_waitOn) (fun _ w hA => ?_) hA))
  · obtain ⟨a, s, hA, hmet⟩ := hdone
    set a' : BarrierBook ι := { a with waiting := Function.update a.waiting t none } with ha'
    have hother : ∀ u, u ≠ t → a'.waiting u = a.waiting u := fun u hu => Function.update_of_ne hu _ _
    have hextends : Extends b t a a' := ⟨fun _ _ => rfl, hother,
      fun j r hj => ⟨hj.met, hj.ran, hj.failed, hj.served⟩, fun h => h⟩
    refine wp_owning hA.owning rfl rfl hextends hA.owning.owner fun w hO => wp_unlock_return hO ?_ ?_
    · refine (free_without hA.free fun u j hj => ?_).owned none
      rcases eq_or_ne u t with rfl | hne
      · rw [Function.update_self] at hj
        cases hj
      · rwa [Function.update_of_ne hne] at hj
    · have hlast := (hA.free.waiting t k hA.waiting).2
      show Answered b a' (a.number t) _
      rw [hA.number]
      refine ⟨(Nat.mul_le_mul_right _ hmet).trans (Nat.div_mul_le_self _ _), fun hcallback => ?_, fun hcareful hf => ?_,
        fun hcareful hf => ?_⟩
      · exact (hA.free.runs _).trans (if_pos ⟨hcallback, hmet⟩)
      · rw [(hA.free.judged hcareful t k hA.waiting hmet).mpr hf]
        decide
      · rw [Bool.eq_false_iff.mpr fun herror => hf ((hA.free.judged hcareful t k hA.waiting hmet).mp herror), if_neg hlast]
        rfl
  · obtain ⟨a, s, hA⟩ := hA
    exact wp_waitRound hA

theorem wp_sbBarrierWait {n : ℕ} (hcount : 0 < b.initCount.toNat) :
    (barrierProtocol b).wp t (sbBarrierWait b n) (Returning b t) w := by
  refine wp_acquire (fun _ => rfl) (fun _ => rfl) fun a s w hO hfree _ _ => ?_
  set a' : BarrierBook ι := a.record b.initCount.toNat (.act t .decCount (s.count - 1)) with ha'
  have harrived : a'.arrived = a.arrived + 1 := rfl
  have hnumber : a'.number t = a.arrived := Function.update_self ..
  have hwaiting : ∀ u, u ≠ t → a'.waiting u = a.waiting u := fun u hu => by
    show (if s.count - 1 = 0 then a.waiting else Function.update a.waiting t _) u = _
    split
    · rfl
    · exact Function.update_of_ne hu _ _
  have hextends : Extends b t a a' := by
    refine ⟨fun u hu => Function.update_of_ne hu _ _, hwaiting, fun j r hj => ?_, fun h => h⟩
    exact ⟨hj.met.trans (Nat.le_succ _), hj.ran, hj.failed, hj.served⟩
  have hlt := Nat.mod_lt a.arrived hcount
  have hdec : (s.count - 1).toNat = b.initCount.toNat - a.arrived % b.initCount.toNat - 1 := by
    rw [UInt32.toNat_sub_of_le _ _ (UInt32.le_iff_toNat_le.mpr (by rw [hfree.count]; show 1 ≤ _; omega)), hfree.count]
    rfl
  refine wp_owning hO rfl rfl hextends hO.owner fun w hO => ?_
  show (barrierProtocol b).wp t (if s.count - 1 = 0 then _ else _) _ w
  rcases next_call hcount a.arrived with ⟨hlast, hmod, hdiv⟩ | ⟨hmore, hmod, hdiv⟩
  · have hzero : s.count - 1 = 0 := UInt32.toNat_inj.mp (hdec.trans (by show _ = 0; omega))
    have hsame : a'.waiting = a.waiting := if_pos hzero
    rw [if_pos hzero]
    refine wp_releaseBarrier hcount hO ⟨hnumber, harrived, ⟨hmod, hdiv⟩, hfree.serial, hfree.runs, hfree.verdict, hfree.error,
      fun u j hj => ?_, fun hcareful u j hj => hfree.judged hcareful u j (hsame ▸ hj)⟩
    obtain ⟨hj, hnot⟩ := hfree.waiting u j (hsame ▸ hj)
    exact ⟨hj.trans (Nat.lt_succ_self _), hnot⟩
  · have hne : s.count - 1 ≠ 0 := fun hzero => by
      rw [hzero] at hdec
      have : (0 : ℕ) = _ := hdec
      omega
    have hself : a'.waiting = Function.update a.waiting t (some a.arrived) := if_neg hne
    rw [if_neg hne]
    refine wp_awaitRelease ⟨hO, ⟨?_, ?_, ?_, hfree.verdict, hfree.error, ?_, ?_⟩, hnumber, ?_⟩ hfree.serial
    · show (s.count - 1).toNat = _ - a'.arrived % _
      rw [hdec, harrived, hmod]
      omega
    · show s.serial = UInt32.ofNat (a'.arrived / _)
      rw [harrived, hdiv]
      exact hfree.serial
    · intro g
      refine (hfree.runs g).trans (if_congr (and_congr_right fun _ => ?_) rfl rfl)
      rw [harrived, hdiv]
    · intro u j hj
      rcases eq_or_ne u t with rfl | hu
      · rw [hself, Function.update_self] at hj
        cases hj
        exact ⟨Nat.lt_succ_self _, by omega⟩
      · obtain ⟨hj, hnot⟩ := hfree.waiting u j (hwaiting u hu ▸ hj)
        exact ⟨hj.trans (Nat.lt_succ_self _), hnot⟩
    · intro hcareful u j hj hlt
      rw [harrived, hdiv] at hlt
      rcases eq_or_ne u t with rfl | hu
      · rw [hself, Function.update_self] at hj
        cases hj
        exact absurd hlt (lt_irrefl _)
      · exact hfree.judged hcareful u j (hwaiting u hu ▸ hj) hlt
    · rw [hself, Function.update_self]

theorem barrier_call {n : ℕ} (hinv : BarrierInv b (h, s)) : (barrierProtocol b).Guards t (h, s) (h ++ [.call t n], s) := by
  have hsnoc : barrierAudit b.initCount.toNat (h ++ [.call t n]) = barrierAudit b.initCount.toNat h := barrierAudit_snoc ..
  refine ⟨⟨fun hnone => hsnoc ▸ hinv.free hnone, hsnoc ▸ hinv.once, hsnoc ▸ hinv.results⟩, fun u _ => ?_⟩
  exact ⟨by rw [hsnoc], by rw [hsnoc], fun k r hk => hsnoc ▸ hk, fun _ => ⟨rfl, by rw [hsnoc]⟩⟩

theorem barrier_returns {n : ℕ} {r : Int32} (hr : Returning b t r w) : (barrierProtocol b).Returns t n r w := by
  intro h s hsame hinv
  have hsnoc := barrierAudit_snoc b.initCount.toNat h (.ret t n r)
  have hbook : (barrierAudit b.initCount.toNat (h ++ [.ret t n r])).book = (barrierAudit b.initCount.toNat h).book := by
    rw [hsnoc]
    rfl
  have hanswered : Answered b (barrierAudit b.initCount.toNat h).book ((barrierAudit b.initCount.toNat h).book.number t) r := by
    have hnumber : (barrierAudit b.initCount.toNat h).book.number t = _ := hsame.number
    rw [hnumber]
    exact hsame.answered _ _ hr
  refine ⟨⟨⟨fun hnone => hbook ▸ hinv.free hnone, hbook ▸ hinv.once, fun k r' hk => ?_⟩, fun u _ => ?_⟩, trivial⟩
  · have hk : Function.update (barrierAudit b.initCount.toNat h).result ((barrierAudit b.initCount.toNat h).book.number t)
        (some r) k = some r' := by
      have hk : (barrierAudit b.initCount.toNat (h ++ [_])).result k = some r' := hk
      rwa [hsnoc] at hk
    rw [hbook]
    rcases eq_or_ne k ((barrierAudit b.initCount.toNat h).book.number t) with rfl | hne
    · rw [Function.update_self] at hk
      cases hk
      exact hanswered
    · rw [Function.update_of_ne hne] at hk
      exact hinv.results k r' hk
  · exact ⟨by rw [hbook], by rw [hbook], fun k r hk => hbook ▸ hk, fun _ => ⟨rfl, by rw [hbook]⟩⟩

theorem barrier_kept (hcount : 0 < b.initCount.toNat) : (barrierProtocol b).Kept (barrierBody b (ι := ι)) := fun _ _ _ _ hinv _ =>
  ⟨barrier_call hinv, Protocol.wp_mono (fun _ _ hr => barrier_returns hr) (wp_sbBarrierWait hcount)⟩

end turns

/-! ### Whole runs -/

/-- No callback succeeded after one had failed, where there are others to see that, and none failed while calls of an earlier
generation that succeeded had yet to look at `error`. -/
def Careful (b : BarrierConfig) (h : List (BarrierEvent ι)) : Prop := ¬(barrierAudit b.initCount.toNat h).book.careless

/-- In a run whose callbacks are careful the barrier is right. -/
theorem barrierRight_of_careful {b : BarrierConfig} {results : ℕ → Int32} {s : SbBarrier ι}
    (hinit : sbBarrierInit b results = some s) {h : List (BarrierEvent ι)} {c : BarrierThreads ι}
    (hrun : Interleaving (Outcome BarrierOp.step) (barrierBody b) s h c) (hcareful : Careful b h) :
    BarrierRight b (barrierAudit b.initCount.toNat h) := by
  unfold sbBarrierInit at hinit
  split at hinit
  · cases hinit
  · rename_i hne
    cases hinit
    have hcount : 0 < b.initCount.toNat := Nat.pos_of_ne_zero fun hzero => hne (UInt32.toNat_inj.mp hzero)
    have hstart : BarrierInv b (([], ⟨b.initCount, 0, false, none, results⟩) : BarrierWorld ι) := by
      refine ⟨fun _ => ⟨?_, ?_, fun g => ?_, fun _ _ => rfl, ?_, nofun, fun _ => nofun⟩, fun _ => Nat.zero_le _, nofun⟩
      · show b.initCount.toNat = _ - 0 % _
        rw [Nat.zero_mod, Nat.sub_zero]
      · show 0 = UInt32.ofNat (0 / _)
        rw [Nat.zero_div]
        rfl
      · refine (if_neg fun hand => ?_).symm
        have hlt : g < 0 / b.initCount.toNat := hand.2
        rw [Nat.zero_div] at hlt
        exact Nat.not_lt_zero g hlt
      · exact ⟨nofun, fun ⟨g, v, hv, _⟩ => absurd hv nofun⟩
    obtain ⟨hinv, -⟩ := (barrier_kept hcount).interleaving (P := barrierProtocol b) hstart (fun _ => trivial) hrun
    exact ⟨fun k r hk => (hinv.results k r hk).met, hinv.once, fun hcallback k r hk => (hinv.results k r hk).ran hcallback,
      fun k r hk => (hinv.results k r hk).failed hcareful, fun k r hk => (hinv.results k r hk).served hcareful⟩

/-- Two threads, and a callback. -/
def pairBarrier : BarrierConfig := ⟨2, true⟩

/-- The turns of a generation: the first thread waits, the second releases it. -/
def generationTurns (releasing : ℕ) : List (Turn (Fin 2) fun _ => ℕ) :=
  [.call 0 1, .next 0, .next 0, .next 0, .next 0, .call 1 1] ++ List.replicate releasing (.next 1) ++ List.replicate 5 (.next 0)

/-- A generation whose callback succeeds. -/
theorem barrierRight_two : ∃ h c, Interleaving (Outcome BarrierOp.step) (barrierBody pairBarrier)
      (⟨2, 0, false, none, fun _ => 0⟩ : SbBarrier (Fin 2)) h c ∧
    (barrierAudit 2 h).result 0 = some 0 ∧ (barrierAudit 2 h).result 1 = some 1 ∧ BarrierRight pairBarrier (barrierAudit 2 h) := by
  obtain ⟨w, hplay, hwaiting, hreleasing, hcareful⟩ : ∃ w, play BarrierOp.step (barrierBody pairBarrier) (generationTurns 8)
      ([], ⟨(⟨2, 0, false, none, fun _ => 0⟩ : SbBarrier (Fin 2)), fun _ => none⟩) = some w ∧
      (barrierAudit 2 w.1).result 0 = some 0 ∧ (barrierAudit 2 w.1).result 1 = some 1 ∧ Careful pairBarrier w.1 := by
    refine ⟨_, rfl, rfl, rfl, ?_⟩
    rintro (hzero | ⟨-, -, g, v, hv, -⟩ | ⟨hne, -⟩)
    · exact hzero
    · cases hv
    · exact hne rfl
  have hrun := play_interleaving .nil hplay
  exact ⟨_, _, hrun, hwaiting, hreleasing, barrierRight_of_careful (b := pairBarrier) rfl hrun hcareful⟩

/-- The callback fails at first. -/
def failsAtFirst : SbBarrier (Fin 2) := ⟨2, 0, false, none, fun k => if k = 0 then 1 else 0⟩

/-- The thread that waits in the second generation, whose callback succeeds, is still told of the failure in the first. -/
theorem not_barrierRight : ∃ h c, Interleaving (Outcome BarrierOp.step) (barrierBody pairBarrier) failsAtFirst h c ∧
    (barrierAudit 2 h).book.verdict 1 = some 0 ∧ (barrierAudit 2 h).result 2 = some (-1) ∧
    ¬BarrierRight pairBarrier (barrierAudit 2 h) := by
  obtain ⟨w, hplay, hverdict, hresult⟩ : ∃ w, play BarrierOp.step (barrierBody pairBarrier) (generationTurns 9 ++ generationTurns 8)
      ([], ⟨failsAtFirst, fun _ => none⟩) = some w ∧
      (barrierAudit 2 w.1).book.verdict 1 = some 0 ∧ (barrierAudit 2 w.1).result 2 = some (-1) := ⟨_, rfl, rfl, rfl⟩
  refine ⟨_, _, play_interleaving .nil hplay, hverdict, hresult, fun hright => ?_⟩
  have hserved := hright.served 2 (-1) hresult fun ⟨v, hv, hne⟩ => hne (Option.some.inj (hv.symm.trans hverdict))
  exact absurd hserved (by decide)

end NuKSM.Sysbench
