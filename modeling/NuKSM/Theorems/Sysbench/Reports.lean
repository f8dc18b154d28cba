import NuKSM.Sysbench.Counter

/-! # Reports of counters

A report gives for each counter the increments between its own reads and those of the report of the same kind before it.
The reads of one report lie apart, and workers go on counting between them; what the next report starts from are the
values that this one read. -/

namespace NuKSM.Sysbench
open Thread CounterOp

variable {threads : ℕ}

abbrev CounterEvent (threads : ℕ) :=
  Event (CounterThread threads) CounterOp CounterOp.Res CounterThread.Call (Option (ℕ → UInt64))

abbrev CounterWorld (threads : ℕ) :=
  World Counters (CounterThread threads) CounterOp CounterOp.Res CounterThread.Call (Option (ℕ → UInt64))

/-! ### What a run has done -/

/-- A report: the values that it returned, the total of each counter that it read, and the increments of each counter of
each thread before it read that counter. -/
structure Report where
  val : ℕ → UInt64
  total : ℕ → UInt64
  seen : ℕ → ℕ → ℕ

/-- The increments so far, those seen by the last report of a kind, what it has read, and the reports, the latest first. -/
structure Audit where
  incs : ℕ → ℕ → ℕ
  seen : Kind → ℕ → ℕ → ℕ
  total : Kind → ℕ → UInt64
  reports : Kind → List Report

def Audit.zero : Audit := ⟨fun _ _ => 0, fun _ _ _ => 0, fun _ _ => 0, fun _ => []⟩

/-- A report sees the increments before its own reads, and adds up what it reads. -/
def Audit.record (a : Audit) : CounterEvent threads → Audit
  | .call (.reporter k) _ => { a with total := Function.update a.total k fun _ => 0 }
  | .act _ (.store i t _) _ =>
    { a with incs := Function.update a.incs i (Function.update (a.incs i) t (a.incs i t + 1)) }
  | .act (.reporter k) (.load i t) v =>
    { a with
      seen := Function.update a.seen k (Function.update (a.seen k) i (Function.update (a.seen k i) t (a.incs i t)))
      total := Function.update a.total k (Function.update (a.total k) t (a.total k t + v)) }
  | .ret (.reporter k) _ (some val) =>
    { a with reports := Function.update a.reports k (⟨val, a.total k, a.seen k⟩ :: a.reports k) }
  | _ => a

def audit (h : List (CounterEvent threads)) : Audit := h.foldl Audit.record .zero

theorem audit_snoc (h : List (CounterEvent threads)) (e : CounterEvent threads) :
    audit (h ++ [e]) = (audit h).record e := by
  simp only [audit, List.foldl_append, List.foldl_cons, List.foldl_nil]

/-! ### Reports that account for all increments -/

/-- What the latest report has seen. -/
def lastSeen : List Report → ℕ → ℕ → ℕ
  | [] => fun _ _ => 0
  | r :: _ => r.seen

/-- What the latest report has read. -/
def lastTotal : List Report → ℕ → UInt64
  | [] => fun _ => 0
  | r :: _ => r.total

/-- Each report has read what it has seen of the workers, and returns the increments since the report before it. -/
def Accounts (threads : ℕ) : List Report → Prop
  | [] => True
  | r :: rs => (∀ t < sbCntMax,
      (∀ i, lastSeen rs i t ≤ r.seen i t) ∧
      r.total t = UInt64.ofNat (∑ i ∈ Finset.range threads, r.seen i t) ∧
      r.val t = UInt64.ofNat (∑ i ∈ Finset.range threads, (r.seen i t - lastSeen rs i t))) ∧
    Accounts threads rs

/-- The values of all reports add up to what the latest has read. -/
theorem Accounts.sum {rs : List Report} (h : Accounts threads rs) {t : ℕ} (ht : t < sbCntMax) :
    (rs.map fun r => r.val t).sum = lastTotal rs t ∧
      lastTotal rs t = UInt64.ofNat (∑ i ∈ Finset.range threads, lastSeen rs i t) := by
  induction rs with
  | nil =>
    refine ⟨rfl, ?_⟩
    show 0 = UInt64.ofNat (∑ i ∈ Finset.range threads, 0)
    rw [Finset.sum_const_zero]
    rfl
  | cons r rs ih =>
    obtain ⟨hr, hrs⟩ := h
    obtain ⟨hle, htotal, hval⟩ := hr t ht
    obtain ⟨hsum, hlast⟩ := ih hrs
    refine ⟨?_, htotal⟩
    show r.val t + (rs.map fun r => r.val t).sum = r.total t
    rw [hsum, hlast, hval, htotal, ← UInt64.ofNat_add, ← Finset.sum_add_distrib]
    exact congrArg UInt64.ofNat (Finset.sum_congr rfl fun i _ => Nat.sub_add_cancel (hle i))

/-! ### The protocol -/

/-- The slots of the workers hold their increments, no report has seen more than there are, and the reports account for
them. -/
structure CounterInv (w : CounterWorld threads) : Prop where
  slots : ∀ i < threads, ∀ t, w.2.slots i t = UInt64.ofNat ((audit w.1).incs i t)
  seen : ∀ k i t, (audit w.1).seen k i t ≤ (audit w.1).incs i t
  accounts : ∀ k, Accounts threads ((audit w.1).reports k)

/-- What a thread finds again after the turns of the others: a worker its slot, a reporter what it has read and saved. -/
def CounterThread.Same : CounterThread threads → CounterWorld threads → CounterWorld threads → Prop
  | worker id, w, w' => w'.2.slots id = w.2.slots id
  | background _, _, _ => True
  | reporter k, w, w' => w'.2.last k = w.2.last k ∧ (audit w'.1).seen k = (audit w.1).seen k ∧
      (audit w'.1).total k = (audit w.1).total k ∧ (audit w'.1).reports k = (audit w.1).reports k

/-- Between two reports the saved array holds what the last report has read. -/
def CounterThread.Idle : CounterThread threads → CounterWorld threads → Prop
  | worker _, _ | background _, _ => True
  | reporter k, w => (audit w.1).seen k = lastSeen ((audit w.1).reports k) ∧
      ∀ t < sbCntMax, w.2.last k t = lastTotal ((audit w.1).reports k) t

def counterExec (_ : CounterThread threads) (op : CounterOp) (s : Counters) (r : op.Res) (s' : Counters) : Prop :=
  op.step s = (r, s')

def counterProtocol (threads : ℕ) : Protocol Counters (CounterThread threads) CounterOp CounterOp.Res
    CounterThread.Call (Option (ℕ → UInt64)) where
  exec := counterExec
  inv := CounterInv
  idle := CounterThread.Idle
  rely := CounterThread.Same
  rely_refl t _ := by cases t <;> simp only [CounterThread.Same, and_self]
  rely_trans {t} _ _ _ h₁ h₂ := by
    cases t with
    | worker id => exact Eq.trans h₂ h₁
    | background n => trivial
    | reporter k =>
      exact ⟨h₂.1.trans h₁.1, h₂.2.1.trans h₁.2.1, h₂.2.2.1.trans h₁.2.2.1, h₂.2.2.2.trans h₁.2.2.2⟩
  idle_rely {t} _ _ hidle h := by
    cases t with
    | worker id => trivial
    | background n => trivial
    | reporter k =>
      obtain ⟨hlast, hseen, -, hreports⟩ := h
      exact ⟨by rw [hseen, hreports]; exact hidle.1, fun t ht => by rw [hlast, hreports]; exact hidle.2 t ht⟩

theorem update_update_apply {ι κ α : Type} [DecidableEq ι] [DecidableEq κ] (f : ι → κ → α) (i j : ι) (t t' : κ) (v : α) :
    Function.update f i (Function.update (f i) t v) j t' = if j = i ∧ t' = t then v else f j t' := by
  rcases eq_or_ne j i with rfl | hj
  · rcases eq_or_ne t' t with rfl | ht
    · rw [Function.update_self, Function.update_self, if_pos ⟨rfl, rfl⟩]
    · rw [Function.update_self, Function.update_of_ne ht, if_neg fun hand => ht hand.2]
  · rw [Function.update_of_ne hj, if_neg fun hand => hj hand.1]

section turns
variable {h : List (CounterEvent threads)} {s : Counters} {k : Kind}

/-- A turn that the audit does not note, and that leaves the slots. -/
theorem CounterInv.unnoted {s' : Counters} {e : CounterEvent threads} (hinv : CounterInv (h, s))
    (he : (audit h).record e = audit h) (hs : s'.slots = s.slots) : CounterInv (h ++ [e], s') := by
  obtain ⟨hslots, hseen, haccounts⟩ := hinv
  have hl : audit (h ++ [e]) = audit h := (audit_snoc h e).trans he
  rw [← hl] at hslots hseen haccounts
  exact ⟨fun i hi t => (congrFun (congrFun hs i) t).trans (hslots i hi t), hseen, haccounts⟩

theorem CounterThread.Same.unnoted {s' : Counters} {e : CounterEvent threads} (u : CounterThread threads)
    (he : (audit h).record e = audit h) (hslots : s'.slots = s.slots) (hlast : ∀ k, u = .reporter k → s'.last k = s.last k) :
    u.Same (h, s) (h ++ [e], s') := by
  have hl : audit (h ++ [e]) = audit h := (audit_snoc h e).trans he
  cases u with
  | worker id => exact congrFun hslots id
  | background n => trivial
  | reporter k =>
    show s'.last k = s.last k ∧ (audit (h ++ [e])).seen k = (audit h).seen k ∧
      (audit (h ++ [e])).total k = (audit h).total k ∧ (audit (h ++ [e])).reports k = (audit h).reports k
    rw [hl]
    exact ⟨hlast k rfl, rfl, rfl, rfl⟩

/-- A turn that changes nothing. -/
theorem guards_unnoted {t : CounterThread threads} {e : CounterEvent threads} (hinv : CounterInv (h, s))
    (he : (audit h).record e = audit h) : (counterProtocol threads).Guards t (h, s) (h ++ [e], s) :=
  ⟨hinv.unnoted he rfl, fun u _ => .unnoted u he rfl fun _ _ => rfl⟩

/-- A turn of a reporter that the audit notes only for its kind of reports. -/
theorem same_of_reporter {a : Audit} {e : CounterEvent threads} (ha : (audit h).record e = a)
    (hkind : ∀ k', k' ≠ k → a.seen k' = (audit h).seen k' ∧ a.total k' = (audit h).total k' ∧
      a.reports k' = (audit h).reports k') (u : CounterThread threads) (hu : u ≠ .reporter k) :
    u.Same (h, s) (h ++ [e], s) := by
  cases u with
  | worker id => exact rfl
  | background n => trivial
  | reporter k' =>
    show s.last k' = s.last k' ∧ (audit (h ++ [e])).seen k' = (audit h).seen k' ∧
      (audit (h ++ [e])).total k' = (audit h).total k' ∧ (audit (h ++ [e])).reports k' = (audit h).reports k'
    rw [audit_snoc, ha]
    exact ⟨rfl, hkind k' fun heq => hu (heq ▸ rfl)⟩

/-- An increment: what is in the slot of a worker stays what it has counted. -/
theorem CounterInv.store {t : CounterThread threads} {id type : ℕ} {v : UInt64} (hinv : CounterInv (h, s))
    (hv : id < threads → v = s.slots id type + 1) :
    CounterInv (h ++ [.act t (.store id type v) ()],
      { s with slots := Function.update s.slots id (Function.update (s.slots id) type v) }) := by
  obtain ⟨hslots, hseen, haccounts⟩ := hinv
  have hincs : ∀ i t', (audit (h ++ [.act t (.store id type v) ()])).incs i t' =
      if i = id ∧ t' = type then (audit h).incs id type + 1 else (audit h).incs i t' := fun i t' => by
    rw [audit_snoc]
    exact update_update_apply _ _ _ _ _ _
  refine ⟨fun i hi t' => ?_, fun k i t' => ?_, fun k => ?_⟩
  · rw [hincs]
    show Function.update s.slots id (Function.update (s.slots id) type v) i t' = _
    rw [update_update_apply]
    split
    · rename_i hand
      rw [hv (hand.1 ▸ hi), UInt64.ofNat_add, hslots id (hand.1 ▸ hi)]
      rfl
    · exact hslots i hi t'
  · rw [hincs]
    have hle := hseen k i t'
    rw [audit_snoc]
    refine hle.trans ?_
    split
    · rename_i hand
      rw [hand.1, hand.2]
      exact Nat.le_succ _
    · exact le_rfl
  · rw [audit_snoc]
    exact haccounts k

/-! ### Increments -/

theorem wp_sbCounterInc {t : CounterThread threads} {id : ℕ} {w : CounterWorld threads} (type : SbCounterType)
    (hslot : ∀ {w w' : CounterWorld threads}, id < threads → t.Same w w' → w'.2.slots id = w.2.slots id)
    (hrep : ∀ k, t ≠ .reporter k) (hown : ∀ u : CounterThread threads, u ≠ t → ∀ j, u = .worker j → (j : ℕ) ≠ id) :
    (counterProtocol threads).wp t (sbCounterInc id type) (fun _ _ => True) w := by
  intro h₁ s₁ v s₁' _ hinv₁ hexec₁
  obtain ⟨rfl, rfl⟩ := Prod.mk.inj hexec₁
  have hnote : (audit h₁).record (.act t (.load id type.toNat) (s₁.slots id type.toNat)) = audit h₁ := by
    cases t with
    | worker j => rfl
    | background n => rfl
    | reporter k => exact absurd rfl (hrep k)
  refine ⟨guards_unnoted hinv₁ hnote, ?_⟩
  intro h₂ s₂ r₂ s₂' hrely₂ hinv₂ hexec₂
  obtain ⟨-, rfl⟩ := Prod.mk.inj hexec₂
  refine ⟨⟨hinv₂.store fun hid => ?_, fun u hu => ?_⟩, trivial⟩
  · rw [show s₂.slots id = s₁.slots id from hslot hid hrely₂]
  · cases u with
    | worker j => exact Function.update_of_ne (hown _ hu j rfl) _ _
    | background n => trivial
    | reporter k =>
      show s₂.last k = s₂.last k ∧ (audit (_ ++ [_])).seen k = _ ∧ (audit (_ ++ [_])).total k = _ ∧
        (audit (_ ++ [_])).reports k = _
      rw [audit_snoc]
      exact ⟨rfl, rfl, rfl, rfl⟩

end turns

/-! ### Reports -/

section report
variable {k : Kind} {L : ℕ → UInt64} {R : List Report} {w w' : CounterWorld threads}

/-- A report has read the counters below `t` of all workers, and counter `t` of the workers below `i`. -/
structure Reading (k : Kind) (L : ℕ → UInt64) (R : List Report) (t i : ℕ) (dst : ℕ → UInt64) (w : CounterWorld threads) :
    Prop where
  last : w.2.last k = L
  reports : (audit w.1).reports k = R
  mono : ∀ j t', lastSeen R j t' ≤ (audit w.1).seen k j t'
  total : (audit w.1).total k = dst
  sum : ∀ t', dst t' = UInt64.ofNat (∑ j ∈ Finset.range (if t' < t then threads else if t' = t then i else 0),
    (audit w.1).seen k j t')

theorem Reading.rely {t i : ℕ} {dst : ℕ → UInt64} (h : Reading k L R t i dst w)
    (hrely : CounterThread.Same (.reporter k) w w') : Reading k L R t i dst w' := by
  obtain ⟨hlast, hseen, htotal, hreports⟩ := hrely
  refine ⟨hlast.trans h.last, hreports.trans h.reports, ?_, htotal.trans h.total, ?_⟩ <;> rw [hseen]
  · exact h.mono
  · exact h.sum

theorem wp_readCounter {t i : ℕ} {dst : ℕ → UInt64} (hi : i < threads) (h : Reading k L R t i dst w) :
    (counterProtocol threads).wp (.reporter k) (do
        let v ← sbCounterVal i t
        return Function.update dst t (dst t + v)) (Reading k L R t (i + 1)) w := by
  intro h₁ s₁ v s₁' hrely₁ hinv₁ hexec₁
  obtain ⟨rfl, rfl⟩ := Prod.mk.inj hexec₁
  obtain ⟨hlast, hreports, hmono, htotal, hsum⟩ := h.rely hrely₁
  set v := s₁.slots i t with hv
  set e : CounterEvent threads := .act (.reporter k) (.load i t) v
  have hseen : ∀ k' j t', (audit (h₁ ++ [e])).seen k' j t' =
      if k' = k ∧ j = i ∧ t' = t then (audit h₁).incs i t else (audit h₁).seen k' j t' := by
    intro k' j t'
    rw [audit_snoc]
    show Function.update (audit h₁).seen k (Function.update ((audit h₁).seen k) i
      (Function.update ((audit h₁).seen k i) t ((audit h₁).incs i t))) k' j t' = _
    rcases eq_or_ne k' k with rfl | hk
    · rw [Function.update_self, update_update_apply]
      exact if_congr (and_iff_right rfl).symm rfl rfl
    · rw [Function.update_of_ne hk, if_neg fun hand => hk hand.1]
  refine ⟨⟨⟨?_, fun k' j t' => ?_, fun k' => ?_⟩, fun u hu => same_of_reporter (k := k) rfl (fun k' hne => ?_) u hu⟩,
    hlast, ?_, fun j t' => ?_, ?_, fun t' => ?_⟩
  · rw [audit_snoc]
    exact hinv₁.slots
  · rw [hseen, audit_snoc]
    split
    · rename_i hand
      rw [hand.2.1, hand.2.2]
      exact le_rfl
    · exact hinv₁.seen k' j t'
  · rw [audit_snoc]
    exact hinv₁.accounts k'
  · exact ⟨Function.update_of_ne hne _ _, Function.update_of_ne hne _ _, rfl⟩
  · rw [audit_snoc]
    exact hreports
  · rw [hseen]
    split
    · rename_i hand
      rw [hand.2.1, hand.2.2]
      exact (hmono i t).trans (hinv₁.seen k i t)
    · exact hmono j t'
  · rw [audit_snoc]
    show Function.update (audit h₁).total k (Function.update ((audit h₁).total k) t ((audit h₁).total k t + v)) k = _
    rw [Function.update_self, htotal]
  · rcases eq_or_ne t' t with rfl | hne
    · have hold := hsum t'
      rw [if_neg (lt_irrefl t'), if_pos rfl] at hold ⊢
      rw [Function.update_self, hold, Finset.sum_range_succ, UInt64.ofNat_add, hseen, if_pos ⟨rfl, rfl, rfl⟩, hv,
        hinv₁.slots i hi t']
      refine congrArg (UInt64.ofNat · + _) (Finset.sum_congr rfl fun j hj => ?_)
      rw [hseen, if_neg fun hand => (Finset.mem_range.mp hj).ne hand.2.1]
    · rw [Function.update_of_ne hne, hsum t', if_neg hne, if_neg hne]
      refine congrArg UInt64.ofNat (Finset.sum_congr rfl fun j hj => ?_)
      rw [hseen, if_neg fun hand => hne hand.2.2]

theorem Reading.next {t : ℕ} {dst : ℕ → UInt64} (h : Reading k L R t threads dst w) : Reading k L R (t + 1) 0 dst w :=
  ⟨h.last, h.reports, h.mono, h.total, fun t' => by
    rw [h.sum t']
    rcases lt_trichotomy t' t with hlt | rfl | hgt
    · rw [if_pos hlt, if_pos (by omega)]
    · rw [if_neg (lt_irrefl t'), if_pos rfl, if_pos (Nat.lt_succ_self t')]
    · rw [if_neg (by omega), if_neg (by omega), if_neg (by omega)]
      split <;> rfl⟩

theorem wp_sbCountersMerge {dst : ℕ → UInt64} (h : Reading k L R 0 0 dst w) :
    (counterProtocol threads).wp (.reporter k) (sbCountersMerge threads dst) (Reading k L R sbCntMax 0) w := by
  refine Protocol.wp_loopUp (I := fun t => Reading k L R t 0) h fun t dst w _ _ hw => Protocol.wp_mono (fun dst w hw => ?_)
    (Protocol.wp_loopUp (I := Reading k L R t) hw fun i dst w _ hi hw => wp_readCounter (by omega) hw)
  rw [Nat.zero_add] at hw
  exact hw.next

/-- A report has saved the counters below `i` of what it has read, `D`, and taken the difference. -/
structure Saving (k : Kind) (L : ℕ → UInt64) (R : List Report) (D : ℕ → UInt64) (i : ℕ) (dst : ℕ → UInt64)
    (w : CounterWorld threads) : Prop where
  last : ∀ t, w.2.last k t = if t < i then D t else L t
  val : ∀ t, dst t = if t < i then D t - L t else D t
  reports : (audit w.1).reports k = R
  mono : ∀ j t, lastSeen R j t ≤ (audit w.1).seen k j t
  total : (audit w.1).total k = D
  sum : ∀ t < sbCntMax, D t = UInt64.ofNat (∑ j ∈ Finset.range threads, (audit w.1).seen k j t)

theorem Saving.rely {D dst : ℕ → UInt64} {i : ℕ} (h : Saving k L R D i dst w)
    (hrely : CounterThread.Same (.reporter k) w w') : Saving k L R D i dst w' := by
  obtain ⟨hlast, hseen, htotal, hreports⟩ := hrely
  refine ⟨fun t => (congrFun hlast t).trans (h.last t), h.val, hreports.trans h.reports, ?_, htotal.trans h.total, ?_⟩ <;> rw [hseen]
  · exact h.mono
  · exact h.sum

theorem wp_saveCounter {D dst : ℕ → UInt64} {i : ℕ} (h : Saving k L R D i dst w) :
    (counterProtocol threads).wp (.reporter k) (do
        let tmp ← perform (loadLast k i)
        perform (storeLast k i (dst i))
        return Function.update dst i (dst i - tmp)) (Saving k L R D (i + 1)) w := by
  intro h₁ s₁ tmp s₁' hrely₁ hinv₁ hexec₁
  obtain ⟨rfl, rfl⟩ := Prod.mk.inj hexec₁
  have hs₁ := h.rely hrely₁
  have hnote₁ : (audit h₁).record (.act (.reporter k) (.loadLast k i) (s₁.last k i) : CounterEvent threads) = audit h₁ := rfl
  refine ⟨guards_unnoted hinv₁ hnote₁, ?_⟩
  intro h₂ s₂ r₂ s₂' hrely₂ hinv₂ hexec₂
  obtain ⟨-, rfl⟩ := Prod.mk.inj hexec₂
  have hs₂ := (hs₁.rely (CounterThread.Same.unnoted (.reporter k) hnote₁ rfl fun _ _ => rfl)).rely hrely₂
  obtain ⟨hlast, hval, hreports, hmono, htotal, hsum⟩ := hs₂
  have hnote₂ : (audit h₂).record (.act (.reporter k) (.storeLast k i (dst i)) () : CounterEvent threads) = audit h₂ := rfl
  refine ⟨⟨hinv₂.unnoted hnote₂ rfl, fun u hu => .unnoted u hnote₂ rfl fun k' hk' => ?_⟩, ?_⟩
  · exact Function.update_of_ne (fun heq => hu (hk'.trans (congrArg _ heq))) _ _
  · have hl := (audit_snoc h₂ (.act (.reporter k) (.storeLast k i (dst i)) ())).trans hnote₂
    refine ⟨fun t => ?_, fun t => ?_, by rw [hl]; exact hreports, by rw [hl]; exact hmono, by rw [hl]; exact htotal,
      by rw [hl]; exact hsum⟩
    · show Function.update s₂.last k (Function.update (s₂.last k) i (dst i)) k t = _
      rw [Function.update_self]
      rcases eq_or_ne t i with rfl | hne
      · rw [Function.update_self, hval t, if_neg (lt_irrefl t), if_pos (Nat.lt_succ_self t)]
      · rw [Function.update_of_ne hne]
        exact (hlast t).trans (if_congr (by omega) rfl rfl)
    · rcases eq_or_ne t i with rfl | hne
      · rw [Function.update_self, hval t, if_neg (lt_irrefl t), if_pos (Nat.lt_succ_self t)]
        exact congrArg (D t - ·) ((hs₁.last t).trans (if_neg (lt_irrefl t)))
      · rw [Function.update_of_ne hne]
        exact (hval t).trans (if_congr (by omega) rfl rfl)

theorem Reading.saving {D : ℕ → UInt64} (h : Reading k L R sbCntMax 0 D w) : Saving k L R D 0 D w :=
  ⟨fun t => (congrFun h.last t).trans (if_neg (Nat.not_lt_zero t)).symm, fun t => (if_neg (Nat.not_lt_zero t)).symm,
    h.reports, h.mono, h.total, fun t ht => by rw [h.sum t, if_pos ht]⟩

/-- What a report returns are the increments since the last one. -/
theorem Saving.accounts {D val : ℕ → UInt64} (h : Saving k L R D sbCntMax val w) (hR : Accounts threads R)
    (hL : ∀ t < sbCntMax, L t = lastTotal R t) :
    Accounts threads (⟨val, (audit w.1).total k, (audit w.1).seen k⟩ :: R) := by
  refine ⟨fun t ht => ⟨fun i => h.mono i t, ?_, ?_⟩, hR⟩
  · rw [h.total]
    exact h.sum t ht
  · show val t = _
    rw [h.val t, if_pos ht, h.sum t ht, hL t ht, (hR.sum ht).2, sub_eq_iff_eq_add, ← UInt64.ofNat_add,
      ← Finset.sum_add_distrib]
    exact congrArg UInt64.ofNat (Finset.sum_congr rfl fun i _ => (Nat.sub_add_cancel (h.mono i t)).symm)

theorem sbCountersAgg_returns {D val : ℕ → UInt64} (h : Saving k L R D sbCntMax val w)
    (hL : ∀ t < sbCntMax, L t = lastTotal R t) :
    (counterProtocol threads).Returns (.reporter k) () (some val) w := by
  intro h₁ s₁ hrely hinv
  have hs := h.rely hrely
  have hreports : (audit (h₁ ++ [.ret (.reporter k) () (some val)])).reports =
      Function.update (audit h₁).reports k (⟨val, (audit h₁).total k, (audit h₁).seen k⟩ :: R) := by
    rw [audit_snoc, ← hs.reports]
    rfl
  refine ⟨⟨⟨?_, ?_, fun k' => ?_⟩, fun u hu => same_of_reporter (k := k) rfl (fun k' hne => ?_) u hu⟩, ?_, fun t ht => ?_⟩
  · rw [audit_snoc]
    exact hinv.slots
  · rw [audit_snoc]
    exact hinv.seen
  · rw [hreports]
    rcases eq_or_ne k' k with rfl | hne
    · rw [Function.update_self]
      exact hs.accounts (hs.reports ▸ hinv.accounts k') hL
    · rw [Function.update_of_ne hne]
      exact hinv.accounts k'
  · exact ⟨rfl, rfl, Function.update_of_ne hne _ _⟩
  · rw [hreports, Function.update_self, audit_snoc]
    rfl
  · rw [hreports, Function.update_self]
    exact (hs.last t).trans ((if_pos ht).trans (congrFun hs.total t).symm)

theorem wp_sbCountersAgg (h : Reading k L R 0 0 (fun _ => 0) w) (hL : ∀ t < sbCntMax, L t = lastTotal R t) :
    (counterProtocol threads).wp (.reporter k) (do return some (← sbCountersAgg threads k))
      ((counterProtocol threads).Returns (.reporter k) ()) w := by
  refine Protocol.wp_bind.mpr (Protocol.wp_bind.mpr (Protocol.wp_mono (fun D w hw => ?_) (wp_sbCountersMerge h)))
  refine Protocol.wp_mono (fun val w hw => sbCountersAgg_returns (D := D) ?_ hL)
    (Protocol.wp_loopUp (I := Saving k L R D) hw.saving fun i dst w _ _ hw => wp_saveCounter hw)
  rwa [Nat.zero_add] at hw

end report

/-! ### Whole runs -/

theorem counters_kept : (counterProtocol threads).Kept (counterBody threads) := by
  intro t c h s hinv hidle
  cases t with
  | worker id =>
    refine ⟨guards_unnoted hinv rfl, Protocol.wp_bind.mpr (Protocol.wp_mono (fun _ w _ => ?_)
      (wp_sbCounterInc c (fun _ hsame => hsame) (fun k heq => by cases heq) fun u hu j hj heq => hu ?_))⟩
    · exact fun h s _ hinv => ⟨guards_unnoted hinv rfl, trivial⟩
    · rw [hj, Fin.ext heq]
  | background n =>
    refine ⟨guards_unnoted hinv rfl, Protocol.wp_bind.mpr (Protocol.wp_mono (fun _ w _ => ?_)
      (wp_sbCounterInc c (fun hlt => absurd hlt (lt_irrefl _)) (fun k heq => by cases heq) fun u hu j hj heq => ?_))⟩
    · exact fun h s _ hinv => ⟨guards_unnoted hinv rfl, trivial⟩
    · exact absurd j.isLt heq.ge.not_gt
  | reporter k =>
    obtain ⟨hseen, hlast⟩ := hidle
    have hstart : Reading k (s.last k) ((audit h).reports k) 0 0 (fun _ => 0)
        ((h ++ [.call (.reporter k) c], s) : CounterWorld threads) := by
      refine ⟨rfl, ?_, fun j t => ?_, ?_, fun t => ?_⟩
      · rw [audit_snoc]
        rfl
      · rw [audit_snoc, ← hseen]
        exact le_rfl
      · rw [audit_snoc]
        exact Function.update_self _ _ _
      · rw [if_neg (Nat.not_lt_zero t)]
        split <;> rfl
    refine ⟨⟨⟨?_, ?_, ?_⟩, fun u hu => same_of_reporter (k := k) rfl (fun k' hne => ?_) u hu⟩, ?_⟩
    · rw [audit_snoc]
      exact hinv.slots
    · rw [audit_snoc]
      exact hinv.seen
    · rw [audit_snoc]
      exact hinv.accounts
    · exact ⟨rfl, Function.update_of_ne hne _ _, rfl⟩
    · cases k with
      | intermediate => exact wp_sbCountersAgg hstart hlast
      | cumulative => exact wp_sbCountersAgg hstart hlast

end NuKSM.Sysbench
