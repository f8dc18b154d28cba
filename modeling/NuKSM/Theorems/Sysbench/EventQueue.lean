import NuKSM.Lib.Schedule
import NuKSM.Sysbench.EventQueue

/-! # Time stamps of queued events

The generator uses the entries of `queue_array` in turn, with the period by which the ring limits the events in it. An entry
is written again one period later, though a worker that has its address may not have read it yet. -/

namespace NuKSM.Sysbench
open Thread QueueOp

variable {L : ℕ}

abbrev QueueEvent := Event QueueThread QueueOp QueueOp.Res (fun _ => ℕ) (Option UInt64)

abbrev QueueWorld := World EventQueue QueueThread QueueOp QueueOp.Res (fun _ => ℕ) (Option UInt64)

/-! ### What a run has done -/

/-- A worker reads the time stamp of an event that it has taken. -/
structure StampRead where
  worker : ℕ
  event : ℕ
  stamp : UInt64

/-- The events are numbered as they enter the queue. -/
structure QueueAudit where
  /-- The time stamp that was stored last. -/
  stamp : UInt64
  /-- The entries of the events and their time stamps. -/
  events : List (ℕ × UInt64)
  /-- The workers that have taken events, and the addresses that they have. -/
  delivered : List (ℕ × ℕ)
  /-- The event and the address with which a worker has not been at `queue_array` yet. -/
  held : ℕ → Option (ℕ × ℕ)
  reads : List StampRead
  /-- An entry was written while it was that of an event not read yet. -/
  overwritten : Prop
  /-- A time stamp was stored before the event one period earlier was read. -/
  late : Prop

def QueueAudit.zero : QueueAudit := ⟨0, [], [], fun _ => none, [], False, False⟩

/-- The event is in the queue, or its worker has not read its time stamp yet. -/
def QueueAudit.Unread (a : QueueAudit) (k : ℕ) : Prop :=
  k < a.events.length ∧ (a.delivered.length ≤ k ∨ ∃ id ptr, a.held id = some (k, ptr))

def QueueAudit.record (L : ℕ) (a : QueueAudit) : QueueEvent → QueueAudit
  | .act _ (.storeStamp i v) _ =>
    { a with
      stamp := v
      overwritten := a.overwritten ∨ ∃ k e, a.events[k]? = some e ∧ a.Unread k ∧ e.1 = i
      late := a.late ∨ ∃ k, a.Unread k ∧ k + (L - 1) = a.events.length }
  | .act _ (.enqueue i) true => { a with events := a.events ++ [(i, a.stamp)] }
  | .act (.worker id) .dequeue (some ptr) =>
    { a with
      delivered := a.delivered ++ [(id, ptr)]
      held := Function.update a.held id (some (a.delivered.length, ptr)) }
  | .act (.worker id) (.loadStamp _) v =>
    match a.held id with
    | some (k, _) => { a with reads := a.reads ++ [⟨id, k, v⟩], held := Function.update a.held id none }
    | none => a
  | .ret (.worker id) _ _ => { a with held := Function.update a.held id none }
  | _ => a

def queueAudit (L : ℕ) (h : List QueueEvent) : QueueAudit := h.foldl (QueueAudit.record L) .zero

theorem queueAudit_snoc (h : List QueueEvent) (e : QueueEvent) : queueAudit L (h ++ [e]) = (queueAudit L h).record L e := by
  simp only [queueAudit, List.foldl_append, List.foldl_cons, List.foldl_nil]

/-- Events are delivered in their order, each to one worker, which reads its time stamp, and no entry is written before. -/
structure QueueRight (L : ℕ) (h : List QueueEvent) : Prop where
  inOrder : (queueAudit L h).delivered.map (·.2) <+: (queueAudit L h).events.map (·.1)
  reads : ∀ r ∈ (queueAudit L h).reads, (∃ ptr, (queueAudit L h).delivered[r.event]? = some (r.worker, ptr)) ∧
    ∃ i, (queueAudit L h).events[r.event]? = some (i, r.stamp)
  kept : ¬(queueAudit L h).overwritten

/-- Each time stamp was stored after the event one period earlier had been read. -/
def ReadInTime (L : ℕ) (h : List QueueEvent) : Prop := ¬(queueAudit L h).late

/-! ### The protocol -/

/-- The entries of the events that are not read yet have their time stamps. -/
structure Stamped (L : ℕ) (a : QueueAudit) (s : EventQueue) : Prop where
  near : ∀ k, a.Unread k → a.events.length ≤ k + (L - 1)
  stamp : ∀ k e, a.events[k]? = some e → a.Unread k → s.queueArray e.1 = e.2
  reads : ∀ r ∈ a.reads, ∃ i, a.events[r.event]? = some (i, r.stamp)
  kept : ¬a.overwritten

structure QueueInv (L : ℕ) (w : QueueWorld) : Prop where
  entry : ∀ k e, (queueAudit L w.1).events[k]? = some e → e.1 = k % (L - 1)
  fifo : (queueAudit L w.1).delivered.map (·.2) ++ w.2.queueRing = (queueAudit L w.1).events.map (·.1)
  held : ∀ id k ptr, (queueAudit L w.1).held id = some (k, ptr) → (queueAudit L w.1).delivered[k]? = some (id, ptr)
  reads : ∀ r ∈ (queueAudit L w.1).reads, ∃ ptr, (queueAudit L w.1).delivered[r.event]? = some (r.worker, ptr)
  stamped : ReadInTime L w.1 → Stamped L (queueAudit L w.1) w.2

/-- What a thread finds again after the turns of the others: the generator what it has written, a worker what it holds. -/
def QueueThread.Same (L : ℕ) : QueueThread → QueueWorld → QueueWorld → Prop
  | eventgen, w, w' => (queueAudit L w'.1).events = (queueAudit L w.1).events ∧
      (queueAudit L w'.1).stamp = (queueAudit L w.1).stamp ∧ w'.2.queueArray = w.2.queueArray ∧
      (queueAudit L w'.1).late = (queueAudit L w.1).late ∧
      ∀ k, (queueAudit L w'.1).Unread k → (queueAudit L w.1).Unread k
  | worker id, w, w' => (queueAudit L w'.1).held id = (queueAudit L w.1).held id

def queueProtocol (L : ℕ) : Protocol EventQueue QueueThread QueueOp QueueOp.Res (fun _ => ℕ) (Option UInt64) where
  exec := Outcome fun _ => QueueOp.step L
  inv := QueueInv L
  idle t w := t = .eventgen → (queueAudit L w.1).events = []
  rely := QueueThread.Same L
  rely_refl t _ := by cases t <;> simp only [QueueThread.Same, imp_self, implies_true, and_self]
  rely_trans {t} _ _ _ h₁ h₂ := by
    cases t with
    | eventgen =>
      exact ⟨h₂.1.trans h₁.1, h₂.2.1.trans h₁.2.1, h₂.2.2.1.trans h₁.2.2.1, h₂.2.2.2.1.trans h₁.2.2.2.1,
        fun k hk => h₁.2.2.2.2 k (h₂.2.2.2.2 k hk)⟩
    | worker id => exact Eq.trans h₂ h₁
  idle_rely hidle hsame heventgen := by
    subst heventgen
    exact hsame.1.trans (hidle rfl)

section turns
variable {h : List QueueEvent} {s s' : EventQueue} {id : ℕ}

/-- A turn that the audit does not note, and that leaves the entries and the ring. -/
theorem queueGuards_unnoted {t : QueueThread} {e : QueueEvent} (hinv : QueueInv L (h, s))
    (he : (queueAudit L h).record L e = queueAudit L h) (harray : s'.queueArray = s.queueArray)
    (hring : s'.queueRing = s.queueRing) : (queueProtocol L).Guards t (h, s) (h ++ [e], s') := by
  have ha : queueAudit L (h ++ [e]) = queueAudit L h := (queueAudit_snoc h e).trans he
  obtain ⟨hentry, hfifo, hheld, hreads, hstamped⟩ := hinv
  refine ⟨⟨ha ▸ hentry, ?_, ha ▸ hheld, ha ▸ hreads, fun htime => ?_⟩, fun u _ => ?_⟩
  · show _ ++ s'.queueRing = _
    rw [ha, hring]
    exact hfifo
  · obtain ⟨hnear, hstamp, hread, hkept⟩ := hstamped (show ¬_ from ha ▸ htime)
    exact ⟨ha ▸ hnear, fun k e hk hunread => by
      rw [harray]
      exact hstamp k e (ha ▸ hk) (ha ▸ hunread), ha ▸ hread, ha ▸ hkept⟩
  · cases u with
    | eventgen =>
      show _ ∧ _ ∧ _ ∧ _ ∧ _
      rw [ha]
      exact ⟨rfl, rfl, harray, rfl, fun k hk => hk⟩
    | worker id =>
      show (queueAudit L _).held id = _
      rw [ha]

/-- A turn of a worker that takes an event or reads one. -/
theorem queueGuards_worker {e : QueueEvent} {a : QueueAudit} (hinv : QueueInv L (h, s))
    (ha : (queueAudit L h).record L e = a) (harray : s'.queueArray = s.queueArray)
    (hevents : a.events = (queueAudit L h).events) (hstamp : a.stamp = (queueAudit L h).stamp)
    (hlate : a.late = (queueAudit L h).late) (hover : a.overwritten = (queueAudit L h).overwritten)
    (hothers : ∀ j, j ≠ id → a.held j = (queueAudit L h).held j)
    (hfifo : a.delivered.map (·.2) ++ s'.queueRing = (queueAudit L h).events.map (·.1))
    (hheld : ∀ j k ptr, a.held j = some (k, ptr) → a.delivered[k]? = some (j, ptr))
    (hdelivered : ∀ r ∈ a.reads, ∃ ptr, a.delivered[r.event]? = some (r.worker, ptr))
    (hunread : ∀ k, a.Unread k → (queueAudit L h).Unread k)
    (hreads : Stamped L (queueAudit L h) s → ∀ r ∈ a.reads, ∃ i, (queueAudit L h).events[r.event]? = some (i, r.stamp)) :
    (queueProtocol L).Guards (.worker id) (h, s) (h ++ [e], s') := by
  have hsnoc : queueAudit L (h ++ [e]) = a := (queueAudit_snoc h e).trans ha
  refine ⟨⟨?_, ?_, ?_, ?_, fun htime => ?_⟩, fun u hu => ?_⟩
  · show ∀ k e', (queueAudit L (h ++ [e])).events[k]? = some e' → _
    rw [hsnoc, hevents]
    exact hinv.entry
  · show (queueAudit L (h ++ [e])).delivered.map _ ++ _ = (queueAudit L (h ++ [e])).events.map _
    rw [hsnoc, hevents]
    exact hfifo
  · show ∀ j k ptr, (queueAudit L (h ++ [e])).held j = _ → (queueAudit L (h ++ [e])).delivered[k]? = _
    rwa [hsnoc]
  · show ∀ r ∈ (queueAudit L (h ++ [e])).reads, ∃ ptr, (queueAudit L (h ++ [e])).delivered[r.event]? = _
    rwa [hsnoc]
  · have hstamped := hinv.stamped (show ¬(queueAudit L h).late by rw [← hlate, ← hsnoc]; exact htime)
    show Stamped L (queueAudit L (h ++ [e])) s'
    rw [hsnoc]
    refine ⟨fun k hk => hevents ▸ hstamped.near k (hunread k hk), fun k e' hk hk' => ?_, hevents ▸ hreads hstamped,
      hover ▸ hstamped.kept⟩
    rw [harray]
    exact hstamped.stamp k e' (hevents ▸ hk) (hunread k hk')
  · cases u with
    | eventgen =>
      show (queueAudit L (h ++ [e])).events = _ ∧ (queueAudit L (h ++ [e])).stamp = _ ∧ _ ∧ (queueAudit L (h ++ [e])).late = _ ∧
        ∀ k, (queueAudit L (h ++ [e])).Unread k → _
      rw [hsnoc]
      exact ⟨hevents, hstamp, harray, hlate, hunread⟩
    | worker j =>
      show (queueAudit L (h ++ [e])).held j = _
      rw [hsnoc]
      exact hothers j fun heq => hu (heq ▸ rfl)

end turns

/-! ### The generator -/

section eventgen
variable {w w' : QueueWorld}

/-- The generator comes to entry `i`. -/
def AtEntry (L i : ℕ) (w : QueueWorld) : Prop := (queueAudit L w.1).events.length % (L - 1) = i

/-- The generator has stored the time stamp of the next event in entry `i`, and no event that is not read has it. -/
structure StoredAt (L i : ℕ) (w : QueueWorld) : Prop where
  entry : AtEntry L i w
  stamp : w.2.queueArray i = (queueAudit L w.1).stamp
  near : ReadInTime L w.1 → ∀ k, (queueAudit L w.1).Unread k → (queueAudit L w.1).events.length < k + (L - 1)

theorem AtEntry.rely {i : ℕ} (h : AtEntry L i w) (hsame : QueueThread.Same L .eventgen w w') : AtEntry L i w' := by
  unfold AtEntry
  rwa [hsame.1]

theorem StoredAt.rely {i : ℕ} (h : StoredAt L i w) (hsame : QueueThread.Same L .eventgen w w') : StoredAt L i w' := by
  refine ⟨h.entry.rely hsame, ?_, fun htime k hk => ?_⟩
  · rw [hsame.2.2.1, hsame.2.1]
    exact h.stamp
  · rw [hsame.1]
    exact h.near (show ¬_ from hsame.2.2.2.1 ▸ htime) k (hsame.2.2.2.2 k hk)

theorem mod_ne_of_lt_add {k n p : ℕ} (hk : k < n) (hn : n < k + p) : k % p ≠ n % p := by
  intro heq
  have hdvd := (Nat.modEq_iff_dvd' hk.le).mp heq
  have := Nat.le_of_dvd (by omega) hdvd
  omega

/-- The time stamp goes to an entry that is no longer needed. -/
theorem storeStamp_guards {h : List QueueEvent} {s : EventQueue} {i : ℕ} {v : UInt64} (hinv : QueueInv L (h, s))
    (hentry : AtEntry L i (h, s)) :
    let w' : QueueWorld := (h ++ [.act .eventgen (.storeStamp i v) ()], { s with queueArray := Function.update s.queueArray i v })
    (queueProtocol L).Guards .eventgen (h, s) w' ∧ StoredAt L i w' := by
  set a := queueAudit L h with ha
  have hsnoc : queueAudit L (h ++ [.act .eventgen (.storeStamp i v) ()]) =
    { a with
      stamp := v
      overwritten := a.overwritten ∨ ∃ k e, a.events[k]? = some e ∧ a.Unread k ∧ e.1 = i
      late := a.late ∨ ∃ k, a.Unread k ∧ k + (L - 1) = a.events.length } := queueAudit_snoc _ _
  -- An event that is not read is less than a period old, and so has another entry.
  have hnear : ¬(a.late ∨ ∃ k, a.Unread k ∧ k + (L - 1) = a.events.length) →
      ∀ k, a.Unread k → a.events.length < k + (L - 1) := by
    intro htime k hk
    have hle := (hinv.stamped fun hlate => htime (Or.inl hlate)).near k hk
    exact lt_of_le_of_ne hle fun heq => htime (Or.inr ⟨k, hk, heq.symm⟩)
  have hother : ¬(a.late ∨ ∃ k, a.Unread k ∧ k + (L - 1) = a.events.length) →
      ∀ k e, a.events[k]? = some e → a.Unread k → e.1 ≠ i := by
    intro htime k e hk hunread heq
    rw [hinv.entry k e hk, ← hentry] at heq
    exact mod_ne_of_lt_add hunread.1 (hnear htime k hunread) heq
  refine ⟨⟨⟨?_, ?_, ?_, ?_, fun htime => ?_⟩, fun u hu => ?_⟩, ?_, ?_, fun htime => ?_⟩
  · rw [hsnoc]
    exact hinv.entry
  · rw [hsnoc]
    exact hinv.fifo
  · rw [hsnoc]
    exact hinv.held
  · rw [hsnoc]
    exact hinv.reads
  · rw [ReadInTime, hsnoc] at htime
    have hstamped := hinv.stamped fun hlate => htime (Or.inl hlate)
    rw [hsnoc]
    refine ⟨hstamped.near, fun k e hk hunread => ?_, hstamped.reads, fun hover => ?_⟩
    · exact (Function.update_of_ne (hother htime k e hk hunread) _ _).trans (hstamped.stamp k e hk hunread)
    · rcases hover with hover | ⟨k, e, hk, hunread, heq⟩
      · exact hstamped.kept hover
      · exact hother htime k e hk hunread heq
  · cases u with
    | eventgen => exact absurd rfl hu
    | worker id =>
      show (queueAudit L _).held id = _
      rw [hsnoc]
  · rw [AtEntry, hsnoc]
    exact hentry
  · rw [hsnoc]
    exact Function.update_self ..
  · rw [ReadInTime, hsnoc] at htime
    rw [hsnoc]
    exact hnear htime

/-- The event that enters the queue has its time stamp in its entry. -/
theorem enqueue_guards {h : List QueueEvent} {s : EventQueue} {i : ℕ} (hL : 3 ≤ L) (hinv : QueueInv L (h, s))
    (hstored : StoredAt L i (h, s)) :
    let w' : QueueWorld := (h ++ [.act .eventgen (.enqueue i) true], { s with queueRing := s.queueRing ++ [i] })
    (queueProtocol L).Guards .eventgen (h, s) w' ∧ AtEntry L (if i + 1 ≥ L - 1 then 0 else i + 1) w' := by
  set a := queueAudit L h with ha
  have hsnoc : queueAudit L (h ++ [.act .eventgen (.enqueue i) true]) = { a with events := a.events ++ [(i, a.stamp)] } :=
    queueAudit_snoc _ _
  have hentry : a.events.length % (L - 1) = i := hstored.entry
  have hlast : ∀ k e, (a.events ++ [(i, a.stamp)])[k]? = some e → a.events[k]? = some e ∨ (k = a.events.length ∧ e = (i, a.stamp)) := by
    intro k e hk
    rw [List.getElem?_append] at hk
    split at hk
    · exact Or.inl hk
    · rw [List.getElem?_singleton] at hk
      split at hk
      · exact Or.inr ⟨by omega, (Option.some.inj hk).symm⟩
      · cases hk
  have hold : ∀ k, k < a.events.length → ({ a with events := a.events ++ [(i, a.stamp)] } : QueueAudit).Unread k → a.Unread k :=
    fun k hk hunread => ⟨hk, hunread.2⟩
  refine ⟨⟨⟨?_, ?_, ?_, ?_, fun htime => ?_⟩, fun u hu => ?_⟩, ?_⟩
  · rw [hsnoc]
    intro k e hk
    rcases hlast k e hk with hk | ⟨rfl, rfl⟩
    · exact hinv.entry k e hk
    · exact hentry.symm
  · rw [hsnoc]
    show a.delivered.map _ ++ (s.queueRing ++ [i]) = (a.events ++ [(i, a.stamp)]).map _
    rw [← List.append_assoc, hinv.fifo, List.map_append]
    rfl
  · rw [hsnoc]
    exact hinv.held
  · rw [hsnoc]
    exact hinv.reads
  · rw [ReadInTime, hsnoc] at htime
    have hstamped := hinv.stamped htime
    rw [hsnoc]
    refine ⟨fun k hunread => ?_, fun k e hk hunread => ?_, fun r hr => ?_, hstamped.kept⟩
    · have hlt := hunread.1
      rw [List.length_append, List.length_singleton] at hlt ⊢
      rcases Nat.lt_succ_iff_lt_or_eq.mp hlt with hlt | rfl
      · exact hstored.near htime k (hold k hlt hunread)
      · omega
    · rcases hlast k e hk with hk | ⟨rfl, rfl⟩
      · exact hstamped.stamp k e hk (hold k (List.getElem?_eq_some_iff.mp hk).1 hunread)
      · exact hstored.stamp
    · obtain ⟨j, hj⟩ := hstamped.reads r hr
      exact ⟨j, (List.getElem?_append_left (List.getElem?_eq_some_iff.mp hj).1).trans hj⟩
  · cases u with
    | eventgen => exact absurd rfl hu
    | worker id =>
      show (queueAudit L _).held id = _
      rw [hsnoc]
  · rw [AtEntry, hsnoc, List.length_append, List.length_singleton]
    have hlt : i < L - 1 := hentry ▸ Nat.mod_lt _ (by omega)
    rw [Nat.add_mod, hentry, Nat.mod_eq_of_lt (show 1 < L - 1 by omega)]
    split
    · rw [show i + 1 = L - 1 by omega, Nat.mod_self]
    · exact Nat.mod_eq_of_lt (by omega)

theorem wp_generateEvent {i : ℕ} (hL : 3 ≤ L) (h : AtEntry L i w) :
    (queueProtocol L).wp .eventgen (generateEvent L i) (Sum.elim (AtEntry L) fun _ _ => True) w := by
  -- The clock is read, and the time stamp stored.
  intro h₁ s₁ v s₁' hrely₁ hinv₁ hexec₁
  obtain ⟨rfl, rfl⟩ := Prod.mk.inj (Option.some.inj hexec₁)
  have hnote₁ : (queueAudit L h₁).record L (.act .eventgen .timerValue (s₁.execTimer 0)) = queueAudit L h₁ := rfl
  have hguards₁ : (queueProtocol L).Guards .eventgen (h₁, s₁)
      (h₁ ++ [.act .eventgen .timerValue (s₁.execTimer 0)], { s₁ with execTimer := fun k => s₁.execTimer (k + 1) }) :=
    queueGuards_unnoted hinv₁ hnote₁ rfl rfl
  refine ⟨hguards₁, ?_⟩
  have hentry₁ : AtEntry L i (h₁ ++ [.act .eventgen .timerValue (s₁.execTimer 0)], s₁) := by
    rw [AtEntry, queueAudit_snoc, hnote₁]
    exact h.rely hrely₁
  intro h₂ s₂ r₂ s₂' hrely₂ hinv₂ hexec₂
  obtain ⟨-, rfl⟩ := Prod.mk.inj (Option.some.inj hexec₂)
  obtain ⟨hguards₂, hstored⟩ := storeStamp_guards hinv₂ (AtEntry.rely hentry₁ hrely₂)
  refine ⟨hguards₂, ?_⟩
  -- It enters the queue, or the queue is full.
  intro h₃ s₃ r₃ s₃' hrely₃ hinv₃ hexec₃
  have hstored₃ := hstored.rely hrely₃
  have hexec₃ : (if s₃.queueRing.length < L - 1 then some (true, { s₃ with queueRing := s₃.queueRing ++ [i] })
    else some (false, s₃)) = some (r₃, s₃') := hexec₃
  split at hexec₃
  · obtain ⟨rfl, rfl⟩ := Prod.mk.inj (Option.some.inj hexec₃)
    exact enqueue_guards hL hinv₃ hstored₃
  · obtain ⟨rfl, rfl⟩ := Prod.mk.inj (Option.some.inj hexec₃)
    refine ⟨queueGuards_unnoted hinv₃ rfl rfl rfl, ?_⟩
    intro h₄ s₄ r₄ s₄' _ hinv₄ hexec₄
    obtain ⟨-, rfl⟩ := Prod.mk.inj (Option.some.inj hexec₄)
    exact ⟨queueGuards_unnoted hinv₄ rfl rfl rfl, trivial⟩

theorem wp_halted {α : Type} {t : QueueThread} {Q : α → QueueWorld → Prop} : (queueProtocol L).wp t halted Q w :=
  Protocol.wp_never fun _ r => r.elim

theorem wp_eventgenThreadProc {n : ℕ} {Q : Option UInt64 → QueueWorld → Prop} (hL : 3 ≤ L) (h : AtEntry L 0 w) :
    (queueProtocol L).wp .eventgen (eventgenThreadProc L n) Q w :=
  Protocol.wp_bind.mpr (Protocol.wp_mono (fun _ _ _ => wp_halted)
    (Protocol.wp_rounds (fun _ _ _ => wp_halted) (fun _ _ h => wp_generateEvent hL h) h))

end eventgen

/-! ### The workers -/

section worker
variable {w w' : QueueWorld} {id : ℕ}

/-- The worker has the address of an event. -/
def Holds (L id ptr : ℕ) (w : QueueWorld) : Prop := ∃ k, (queueAudit L w.1).held id = some (k, ptr)

theorem Holds.rely {ptr : ℕ} (h : Holds L id ptr w) (hsame : QueueThread.Same L (.worker id) w w') : Holds L id ptr w' := by
  obtain ⟨k, hk⟩ := h
  exact ⟨k, Eq.trans hsame hk⟩

theorem getElem?_snoc_length {α : Type} (l : List α) (x : α) : (l ++ [x])[l.length]? = some x := by
  rw [List.getElem?_append_right le_rfl, Nat.sub_self]
  rfl

/-- The oldest event goes to one worker. -/
theorem dequeue_guards {h : List QueueEvent} {s : EventQueue} {ptr : ℕ} {ring : List ℕ} (hinv : QueueInv L (h, s))
    (hring : s.queueRing = ptr :: ring) :
    let w' : QueueWorld := (h ++ [.act (.worker id) .dequeue (some ptr)], { s with queueRing := ring })
    (queueProtocol L).Guards (.worker id) (h, s) w' ∧ Holds L id ptr w' := by
  set a := queueAudit L h with ha
  have hsnoc : queueAudit L (h ++ [.act (.worker id) .dequeue (some ptr)]) =
    { a with
      delivered := a.delivered ++ [(id, ptr)]
      held := Function.update a.held id (some (a.delivered.length, ptr)) } := queueAudit_snoc _ _
  have hfifo : a.delivered.map (·.2) ++ ptr :: ring = a.events.map (·.1) := by
    rw [← hring]
    exact hinv.fifo
  have hlt : a.delivered.length < a.events.length := by
    have := congrArg List.length hfifo
    rw [List.length_append, List.length_map, List.length_map, List.length_cons] at this
    omega
  have hkept : ∀ {k : ℕ} {p : ℕ × ℕ}, a.delivered[k]? = some p → (a.delivered ++ [(id, ptr)])[k]? = some p := fun hk =>
    (List.getElem?_append_left (List.getElem?_eq_some_iff.mp hk).1).trans hk
  refine ⟨queueGuards_worker hinv rfl rfl rfl rfl rfl rfl (fun j hj => Function.update_of_ne hj _ _) ?_ (fun j k p hk => ?_)
    (fun r hr => ?_) (fun k hunread => ⟨hunread.1, ?_⟩) fun hstamped => hstamped.reads, a.delivered.length, ?_⟩
  · show (a.delivered ++ [(id, ptr)]).map _ ++ ring = _
    rw [List.map_append, List.append_assoc]
    exact hfifo
  · rcases eq_or_ne j id with rfl | hj
    · have hk : Function.update a.held j (some (a.delivered.length, ptr)) j = some (k, p) := hk
      rw [Function.update_self] at hk
      obtain ⟨rfl, rfl⟩ := Prod.mk.inj (Option.some.inj hk)
      exact getElem?_snoc_length ..
    · exact hkept (hinv.held j k p ((Function.update_of_ne hj _ _).symm.trans hk))
  · obtain ⟨p, hp⟩ := hinv.reads r hr
    exact ⟨p, hkept hp⟩
  · rcases hunread.2 with hle | ⟨j, p, hk⟩
    · have hle : (a.delivered ++ [(id, ptr)]).length ≤ k := hle
      rw [List.length_append, List.length_singleton] at hle
      exact Or.inl (show a.delivered.length ≤ k by omega)
    · rcases eq_or_ne j id with rfl | hj
      · have hk : Function.update a.held j (some (a.delivered.length, ptr)) j = some (k, p) := hk
        rw [Function.update_self] at hk
        obtain ⟨rfl, -⟩ := Prod.mk.inj (Option.some.inj hk)
        exact Or.inl le_rfl
      · exact Or.inr ⟨j, p, (Function.update_of_ne hj _ _).symm.trans hk⟩
  · rw [hsnoc]
    exact Function.update_self ..

/-- What the worker reads is the time stamp of its event. -/
theorem loadStamp_guards {h : List QueueEvent} {s : EventQueue} {ptr : ℕ} (hinv : QueueInv L (h, s))
    (hholds : Holds L id ptr (h, s)) :
    (queueProtocol L).Guards (.worker id) (h, s) (h ++ [.act (.worker id) (.loadStamp ptr) (s.queueArray ptr)], s) := by
  obtain ⟨k, hk⟩ := hholds
  set a := queueAudit L h with ha
  have hrecord : a.record L (.act (.worker id) (.loadStamp ptr) (s.queueArray ptr)) =
      { a with
        reads := a.reads ++ [⟨id, k, s.queueArray ptr⟩]
        held := Function.update a.held id none } := by
    have hk : a.held id = some (k, ptr) := hk
    show (match a.held id with | some (k, _) => _ | none => _) = _
    rw [hk]
  have hdelivered := hinv.held id k ptr hk
  have hheld : ∀ j k' p, Function.update a.held id none j = some (k', p) → a.held j = some (k', p) := by
    intro j k' p hj
    rcases eq_or_ne j id with rfl | hne
    · rw [Function.update_self] at hj
      cases hj
    · rwa [Function.update_of_ne hne] at hj
  -- The address is that of the entry of event `k`.
  obtain ⟨e, he, heq⟩ : ∃ e, a.events[k]? = some e ∧ e.1 = ptr := by
    have hlt := (List.getElem?_eq_some_iff.mp hdelivered).1
    have hptr : (a.events.map (·.1))[k]? = some ptr := by
      rw [← hinv.fifo, List.getElem?_append_left (by rwa [List.length_map]), List.getElem?_map, hdelivered]
      rfl
    rw [List.getElem?_map] at hptr
    exact Option.map_eq_some_iff.mp hptr
  have hunread : a.Unread k := ⟨(List.getElem?_eq_some_iff.mp he).1, Or.inr ⟨id, ptr, hk⟩⟩
  have hreads : ∀ r ∈ a.reads ++ [⟨id, k, s.queueArray ptr⟩], r ∈ a.reads ∨ r = ⟨id, k, s.queueArray ptr⟩ := fun r hr =>
    (List.mem_append.mp hr).imp_right List.mem_singleton.mp
  refine queueGuards_worker hinv hrecord rfl rfl rfl rfl rfl (fun j hj => Function.update_of_ne hj _ _) hinv.fifo
    (fun j k' p hj => hinv.held j k' p (hheld j k' p hj)) (fun r hr => ?_) (fun k' hunread' => ⟨hunread'.1, ?_⟩)
    fun hstamped r hr => ?_
  · rcases hreads r hr with hr | rfl
    · exact hinv.reads r hr
    · exact ⟨ptr, hdelivered⟩
  · rcases hunread'.2 with hle | ⟨j, p, hj⟩
    · exact Or.inl hle
    · exact Or.inr ⟨j, p, hheld j k' p hj⟩
  · rcases hreads r hr with hr | rfl
    · exact hstamped.reads r hr
    · refine ⟨e.1, ?_⟩
      show a.events[k]? = some (e.1, s.queueArray ptr)
      rw [← heq, hstamped.stamp k e he hunread, he]

/-- A worker that returns holds no event. -/
theorem worker_returns {n : ℕ} {r : Option UInt64} : (queueProtocol L).Returns (.worker id) n r w := by
  intro h s _ hinv
  have hheld : ∀ j k p, Function.update (queueAudit L h).held id none j = some (k, p) → (queueAudit L h).held j = some (k, p) := by
    intro j k p hj
    rcases eq_or_ne j id with rfl | hne
    · rw [Function.update_self] at hj
      cases hj
    · rwa [Function.update_of_ne hne] at hj
  refine ⟨queueGuards_worker hinv rfl rfl rfl rfl rfl rfl (fun j hj => Function.update_of_ne hj _ _) hinv.fifo
    (fun j k p hj => hinv.held j k p (hheld j k p hj)) hinv.reads (fun k hunread => ⟨hunread.1, ?_⟩)
    fun hstamped => hstamped.reads, fun hnot => by cases hnot⟩
  rcases hunread.2 with hle | ⟨j, p, hj⟩
  · exact Or.inl hle
  · exact Or.inr ⟨j, p, hheld j k p hj⟩

theorem wp_loadQueueIsFull {α : Type} {next : Bool → QueueM α} {Q : α → QueueWorld → Prop} {I : QueueWorld → Prop}
    (hI : I w) (hrely : ∀ {w w'}, I w → QueueThread.Same L (.worker id) w w' → I w')
    (hnext : ∀ r w, I w → (queueProtocol L).wp (.worker id) (next r) Q w) :
    (queueProtocol L).wp (.worker id) (perform loadQueueIsFull >>= next) Q w := by
  intro h s r s' hsame hinv hexec
  obtain ⟨rfl, rfl⟩ := Prod.mk.inj (Option.some.inj hexec)
  have hguards : (queueProtocol L).Guards (.worker id) (h, s) (h ++ [.act (.worker id) .loadQueueIsFull s.queueIsFull], s) :=
    queueGuards_unnoted hinv rfl rfl rfl
  refine ⟨hguards, hnext _ _ (hrely (hrely hI hsame) ?_)⟩
  show (queueAudit L _).held id = _
  rw [queueAudit_snoc]
  rfl

theorem wp_tryDequeue : (queueProtocol L).wp (.worker id) tryDequeue
    (Sum.elim (fun _ _ => True) fun r w => ∀ ptr ∈ r, Holds L id ptr w) w := by
  intro h s r s' _ hinv hexec
  obtain ⟨rfl, rfl⟩ := Prod.mk.inj (Option.some.inj hexec)
  cases hring : s.queueRing with
  | nil =>
    refine ⟨queueGuards_unnoted hinv rfl rfl hring.symm, ?_⟩
    refine wp_loadQueueIsFull (I := fun _ => True) trivial (fun _ _ => trivial) fun full w _ => ?_
    cases full with
    | true => exact nofun
    | false => trivial
  | cons ptr ring =>
    obtain ⟨hguards, hholds⟩ : (queueProtocol L).Guards (.worker id) (h, s)
        (h ++ [.act (.worker id) .dequeue (some ptr)], { s with queueRing := ring }) ∧ Holds L id ptr _ := dequeue_guards hinv hring
    exact ⟨hguards, fun p hp => Option.some.inj hp ▸ hholds⟩

theorem wp_takeQueued {n : ℕ} :
    (queueProtocol L).wp (.worker id) (takeQueued n) ((queueProtocol L).Returns (.worker id) n) w := by
  refine Protocol.wp_bind.mpr (Protocol.wp_mono (fun ptr w hptr => ?_) (Protocol.wp_rounds (I := fun _ _ => True)
    (fun _ _ _ => wp_halted) (fun _ _ _ => wp_tryDequeue) trivial))
  refine wp_loadQueueIsFull (I := fun w => ∀ p ∈ ptr, Holds L id p w) hptr (fun hI hsame p hp => (hI p hp).rely hsame)
    fun full w hholds => ?_
  cases full with
  | true => exact worker_returns
  | false =>
    cases ptr with
    | none => exact wp_halted
    | some ptr =>
      intro h₁ s₁ v s₁' hrely₁ hinv₁ hexec₁
      obtain ⟨rfl, rfl⟩ := Prod.mk.inj (Option.some.inj hexec₁)
      have hholds₁ := (hholds ptr rfl).rely hrely₁
      refine ⟨queueGuards_unnoted hinv₁ rfl rfl rfl, ?_⟩
      intro h₂ s₂ stamp s₂' hrely₂ hinv₂ hexec₂
      obtain ⟨rfl, rfl⟩ := Prod.mk.inj (Option.some.inj hexec₂)
      have hholds₂ : Holds L id ptr (h₂, s₂) := by
        obtain ⟨k, hk⟩ := hholds₁
        exact Holds.rely ⟨k, (congrArg (·.held id) (queueAudit_snoc _ _)).trans hk⟩ hrely₂
      exact ⟨loadStamp_guards hinv₂ hholds₂, worker_returns⟩

end worker

/-! ### Whole runs -/

theorem queue_kept (hL : 3 ≤ L) : (queueProtocol L).Kept (queueBody L) := by
  intro t n h s hinv hidle
  refine ⟨queueGuards_unnoted hinv rfl rfl rfl, ?_⟩
  cases t with
  | eventgen =>
    refine wp_eventgenThreadProc hL ?_
    rw [AtEntry, queueAudit_snoc]
    show (queueAudit L h).events.length % (L - 1) = 0
    rw [hidle rfl]
    exact Nat.zero_mod _
  | worker id => exact wp_takeQueued

/-- In a run where each time stamp is stored after the event one period earlier has been read, events are delivered in
order, each to one worker, which reads its time stamp, and no entry is written before. -/
theorem queueRight_of_readInTime (hL : 3 ≤ L) {s : EventQueue} (hempty : s.queueRing = []) {h : List QueueEvent}
    {c : Config EventQueue QueueThread QueueOp QueueOp.Res (fun _ => ℕ) (Option UInt64)}
    (hrun : Interleaving (Outcome fun _ => QueueOp.step L) (queueBody L) s h c) (htime : ReadInTime L h) : QueueRight L h := by
  have hstart : QueueInv L ([], s) := by
    refine ⟨nofun, ?_, nofun, nofun, fun _ => ⟨?_, nofun, nofun, not_false⟩⟩
    · exact congrArg ([] ++ ·) hempty
    · rintro k ⟨hlt, -⟩
      exact absurd hlt (Nat.not_lt_zero k)
  obtain ⟨-, hfifo, -, hdelivered, hstamped⟩ := ((queue_kept hL).interleaving hstart (fun t _ => rfl) hrun).1
  have hright := hstamped htime
  exact ⟨⟨_, hfifo⟩, fun r hr => ⟨hdelivered r hr, hright.reads r hr⟩, hright.kept⟩

/-- An empty queue with a clock that counts. -/
def emptyQueue : EventQueue := ⟨fun _ => 0, [], false, fun k => UInt64.ofNat k⟩

/-- One event goes through a queue of length three. -/
theorem queueRight_one : ∃ h c, Interleaving (Outcome fun _ => QueueOp.step 3) (queueBody 3) emptyQueue h c ∧
    (queueAudit 3 h).reads.map (·.stamp) = [0] ∧ QueueRight 3 h := by
  have begin : Interleaving (Outcome fun _ => QueueOp.step 3) (queueBody 3) emptyQueue [] ⟨emptyQueue, fun _ => none⟩ := .nil
  have stored := ((begin.thenCall .eventgen 5 rfl).thenAct .eventgen .timerValue 0 rfl rfl).thenAct .eventgen
    (.storeStamp 0 0) () rfl rfl
  have queued := stored.thenAct .eventgen (.enqueue 0) true rfl rfl
  have taken := ((queued.thenCall (.worker 0) 5 rfl).thenAct (.worker 0) .dequeue (some 0) rfl rfl).thenAct (.worker 0)
    .loadQueueIsFull false rfl rfl
  have read := (taken.thenAct (.worker 0) .timerValue 1 rfl rfl).thenAct (.worker 0) (.loadStamp 0) 0 rfl rfl
  refine ⟨_, _, read, rfl, queueRight_of_readInTime le_rfl rfl read ?_⟩
  rintro (hnot | ⟨k, ⟨hlt, -⟩, -⟩)
  · exact hnot
  · exact absurd hlt (Nat.not_lt_zero k)

/-- In a queue of length three the third time stamp goes where a worker still has to read the first. -/
theorem not_queueRight : ∃ h c, Interleaving (Outcome fun _ => QueueOp.step 3) (queueBody 3) emptyQueue h c ∧
    (queueAudit 3 h).reads.map (fun r => (r.event, r.stamp)) = [(0, 2)] ∧ (queueAudit 3 h).events[0]? = some (0, 0) ∧
    ¬QueueRight 3 h := by
  have begin : Interleaving (Outcome fun _ => QueueOp.step 3) (queueBody 3) emptyQueue [] ⟨emptyQueue, fun _ => none⟩ := .nil
  have first := (((begin.thenCall .eventgen 5 rfl).thenAct .eventgen .timerValue 0 rfl rfl).thenAct .eventgen
    (.storeStamp 0 0) () rfl rfl).thenAct .eventgen (.enqueue 0) true rfl rfl
  have second := ((first.thenAct .eventgen .timerValue 1 rfl rfl).thenAct .eventgen (.storeStamp 1 1) () rfl rfl).thenAct
    .eventgen (.enqueue 1) true rfl rfl
  have taken := ((second.thenCall (.worker 0) 5 rfl).thenAct (.worker 0) .dequeue (some 0) rfl rfl).thenAct (.worker 0)
    .loadQueueIsFull false rfl rfl
  have third := (taken.thenAct .eventgen .timerValue 2 rfl rfl).thenAct .eventgen (.storeStamp 0 2) () rfl rfl
  have read := (third.thenAct (.worker 0) .timerValue 3 rfl rfl).thenAct (.worker 0) (.loadStamp 0) 2 rfl rfl
  refine ⟨_, _, read, rfl, rfl, fun hright => ?_⟩
  obtain ⟨-, i, hi⟩ := hright.reads ⟨0, 0, 2⟩ (List.mem_singleton_self _)
  cases hi

end NuKSM.Sysbench
