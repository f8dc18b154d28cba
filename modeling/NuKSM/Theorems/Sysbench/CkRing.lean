import NuKSM.Lib.Schedule
import NuKSM.Sysbench.CkRing

/-! # The ring as a queue

A ring whose size is a power of two is a queue, whoever is in a call of it when. The indices of its slots are counters that wrap
around, and so a consumer that is overtaken by a whole period of them is mistaken about where it is. -/

namespace NuKSM.Sysbench
open Thread RingOp

/-! ### Counters and slots -/

section counters
variable {mask : UInt32} {k a b : ℕ}

/-- Counters that are less than a period apart are told apart. -/
theorem eq_of_counter (hle : a ≤ b) (hlt : b < a + 2 ^ 32) (h : UInt32.ofNat a = UInt32.ofNat b) : a = b := by
  have hmod : a % 2 ^ 32 = b % 2 ^ 32 := by
    have := congrArg UInt32.toNat h
    rwa [UInt32.toNat_ofNat', UInt32.toNat_ofNat'] at this
  omega

theorem toNat_slot (hmask : mask.toNat + 1 = 2 ^ k) : (UInt32.ofNat a &&& mask).toNat = a % 2 ^ k := by
  have hk : k ≤ 32 := by
    by_contra hk
    have hlt := mask.toNat_lt
    have := Nat.pow_le_pow_right (n := 2) (by omega) (show 33 ≤ k by omega)
    omega
  rw [UInt32.toNat_and, UInt32.toNat_ofNat', show mask.toNat = 2 ^ k - 1 by omega, Nat.and_two_pow_sub_one_eq_mod,
    Nat.mod_mod_of_dvd _ (Nat.pow_dvd_pow 2 hk)]

theorem slot_eq_iff (hmask : mask.toNat + 1 = 2 ^ k) :
    UInt32.ofNat a &&& mask = UInt32.ofNat b &&& mask ↔ a % (mask.toNat + 1) = b % (mask.toNat + 1) := by
  rw [← UInt32.toNat_inj, toNat_slot hmask, toNat_slot hmask, hmask]

/-- The ring is taken for full exactly when it is. -/
theorem full_iff (hmask : mask.toNat + 1 = 2 ^ k) (hle : a ≤ b) (hnear : b ≤ a + mask.toNat) :
    (UInt32.ofNat b + 1) &&& mask = UInt32.ofNat a &&& mask ↔ b = a + mask.toNat := by
  have hsucc : UInt32.ofNat b + 1 = UInt32.ofNat (b + 1) := (UInt32.ofNat_add b 1).symm
  rw [hsucc, slot_eq_iff hmask]
  constructor
  · intro h
    have hdvd : mask.toNat + 1 ∣ b + 1 - a := (Nat.modEq_iff_dvd' (by omega)).mp h.symm
    have := Nat.le_of_dvd (by omega) hdvd
    omega
  · rintro rfl
    rw [Nat.add_assoc, Nat.add_mod_right]

/-- The slots of the entries of a ring are different. -/
theorem slot_ne (hmask : mask.toNat + 1 = 2 ^ k) (hlt : a < b) (hnear : b ≤ a + mask.toNat) :
    UInt32.ofNat a &&& mask ≠ UInt32.ofNat b &&& mask := by
  rw [Ne, slot_eq_iff hmask]
  intro h
  have hdvd : mask.toNat + 1 ∣ b - a := (Nat.modEq_iff_dvd' hlt.le).mp h
  have := Nat.le_of_dvd (by omega) hdvd
  omega

end counters

/-! ### What a run has done -/

variable {V : Type}

abbrev RingEvent (V : Type) := Event RingThread (RingOp V) RingOp.Res (RingCall V) (RingResult V)

abbrev RingMoment (V : Type) := Moment RingThread (RingOp V) RingOp.Res (RingCall V) (RingResult V)

abbrev RingWorld (V : Type) := World (CkRing V) RingThread (RingOp V) RingOp.Res (RingCall V) (RingResult V)

structure RingAudit (V : Type) where
  moments : List (RingMoment V)
  /-- The entries that have been enqueued. -/
  entered : List V
  /-- How many of them have been dequeued. -/
  taken : ℕ
  calls : (t : RingThread) → Option (RingCall V t)
  /-- How many had been dequeued when a consumer last found out. -/
  snapshot : ℕ → ℕ
  /-- What a consumer has read from a slot. -/
  data : ℕ → Option V
  /-- A consumer has been overtaken by a period of the counters. -/
  late : Prop

namespace RingAudit

def zero : RingAudit V := ⟨[], [], 0, fun _ => none, fun _ => 0, fun _ => none, False⟩

/-- The call that takes effect. An entry is enqueued or dequeued when its counter moves on. A ring is found to be full when
`c_head` is read, and empty when `p_tail` is. -/
def effect? (mask : UInt32) (a : RingAudit V) : RingEvent V → Option (Effect RingThread (RingCall V) (RingResult V))
  | .act .producer .loadCHead consumer =>
    if (UInt32.ofNat a.entered.length + 1) &&& mask = consumer &&& mask then
      (a.calls .producer).map fun c => ⟨.producer, c, .enqueued false⟩
    else none
  | .act .producer (.storePTail _) _ => (a.calls .producer).map fun c => ⟨.producer, c, .enqueued true⟩
  | .act (.consumer id) .loadPTail _ =>
    if a.snapshot id = a.entered.length then (a.calls (.consumer id)).map fun c => ⟨.consumer id, c, .dequeued none⟩ else none
  | .act (.consumer id) (.casCHead _ _) (true, _) => (a.calls (.consumer id)).map fun c => ⟨.consumer id, c, .dequeued (a.data id)⟩
  | _ => none

/-- What becomes of the rest. -/
def note (a : RingAudit V) : RingEvent V → RingAudit V
  | .call t c => { a with calls := Function.update a.calls t (some c) }
  | .act .producer (.storePTail _) _ => { a with entered := a.entered ++ (a.calls .producer).toList }
  | .act (.consumer id) .loadCHead _ => { a with snapshot := Function.update a.snapshot id a.taken }
  | .act (.consumer id) .loadPTail _ => { a with late := a.late ∨ a.snapshot id + 2 ^ 32 ≤ a.entered.length }
  | .act (.consumer id) (.loadSlot _) v => { a with data := Function.update a.data id (some v) }
  | .act (.consumer id) (.casCHead _ _) (ok, _) =>
    { a with
      late := a.late ∨ a.snapshot id + 2 ^ 32 ≤ a.entered.length
      taken := if ok then a.taken + 1 else a.taken
      snapshot := Function.update a.snapshot id a.taken }
  | _ => a

def record (mask : UInt32) (a : RingAudit V) (e : RingEvent V) : RingAudit V :=
  { a.note e with moments := a.moments ++ [.turn e] ++ (a.effect? mask e).toList.map .effect }

end RingAudit

def ringAudit (mask : UInt32) (h : List (RingEvent V)) : RingAudit V := h.foldl (RingAudit.record mask) .zero

/-- While a consumer tries to dequeue an entry, fewer than 2³² are enqueued. -/
def RingTimely (mask : UInt32) (h : List (RingEvent V)) : Prop := ¬(ringAudit mask h).late

theorem ringAudit_snoc (mask : UInt32) (h : List (RingEvent V)) (e : RingEvent V) :
    ringAudit mask (h ++ [e]) = (ringAudit mask h).record mask e := by
  simp only [ringAudit, List.foldl_append, List.foldl_cons, List.foldl_nil]

/-! ### The protocol -/

/-- The counters and the slots, as the audit has them. -/
structure RingState [DecidableEq V] (mask : UInt32) (a : RingAudit V) (s : CkRing V) : Prop where
  head : s.cHead = .ofNat a.taken
  tail : s.pTail = .ofNat a.entered.length
  taken_le : a.taken ≤ a.entered.length
  near : a.entered.length ≤ a.taken + mask.toNat
  slots : ∀ k v, a.taken ≤ k → a.entered[k]? = some v → s.buffer (.ofNat k &&& mask) = v
  queue : (fifo mask.toNat).reads [] (effects a.moments) = some (a.entered.drop a.taken)

/-- What a thread finds again after the turns of the others: the producer what it has written, a consumer what it has read. -/
def RingThread.Own : RingThread → RingAudit V → CkRing V → RingAudit V → CkRing V → Prop
  | producer, a, s, a', s' => a'.entered = a.entered ∧ s'.buffer = s.buffer
  | consumer id, a, _, a', _ => a'.snapshot id = a.snapshot id ∧ a'.data id = a.data id

structure RingThread.Same (t : RingThread) (a : RingAudit V) (s : CkRing V) (a' : RingAudit V) (s' : CkRing V) : Prop where
  late : a.late → a'.late
  entered : a.entered <+: a'.entered
  taken : a.taken ≤ a'.taken
  call : a'.calls t = a.calls t
  inCall : ∀ p, InCall t a.moments p → InCall t a'.moments p
  own : t.Own a s a' s'

theorem RingThread.Same.refl {t : RingThread} {a : RingAudit V} {s : CkRing V} : t.Same a s a s :=
  ⟨id, List.prefix_rfl, le_rfl, rfl, fun _ => id, by cases t <;> exact ⟨rfl, rfl⟩⟩

theorem RingThread.Same.trans {t : RingThread} {a₁ a₂ a₃ : RingAudit V} {s₁ s₂ s₃ : CkRing V} (h₁ : t.Same a₁ s₁ a₂ s₂)
    (h₂ : t.Same a₂ s₂ a₃ s₃) : t.Same a₁ s₁ a₃ s₃ := by
  refine ⟨h₂.late ∘ h₁.late, h₁.entered.trans h₂.entered, h₁.taken.trans h₂.taken, h₂.call.trans h₁.call,
    fun p => h₂.inCall p ∘ h₁.inCall p, ?_⟩
  cases t <;> exact ⟨h₂.own.1.trans h₁.own.1, h₂.own.2.trans h₁.own.2⟩

def ringProtocol [DecidableEq V] (mask : UInt32) :
    Protocol (CkRing V) RingThread (RingOp V) RingOp.Res (RingCall V) (RingResult V) where
  exec := Outcome fun _ => RingOp.step
  inv w := turns (ringAudit mask w.1).moments = w.1 ∧ (RingTimely mask w.1 →
    RingState mask (ringAudit mask w.1) w.2 ∧ ∀ t, ∃ p, InCall t (ringAudit mask w.1).moments p)
  idle t w := RingTimely mask w.1 → InCall t (ringAudit mask w.1).moments none
  rely t w w' := t.Same (ringAudit mask w.1) w.2 (ringAudit mask w'.1) w'.2
  rely_refl _ _ := .refl
  rely_trans := .trans
  idle_rely hidle hsame htime := hsame.inCall none (hidle fun hlate => htime (hsame.late hlate))

/-! ### Turns -/

section turns
variable {mask : UInt32} {a : RingAudit V} {e : RingEvent V} {id : ℕ}

theorem RingAudit.note_late (h : a.late) : (a.note e).late := by
  unfold RingAudit.note
  split
  all_goals first | exact h | exact Or.inl h

theorem RingAudit.note_entered : a.entered <+: (a.note e).entered := by
  unfold RingAudit.note
  split
  all_goals first | exact List.prefix_rfl | exact List.prefix_append ..

theorem RingAudit.note_entered_consumer (hturn : e.thread ≠ .producer) : (a.note e).entered = a.entered := by
  unfold RingAudit.note
  split
  all_goals first | rfl | exact absurd rfl hturn

theorem RingAudit.note_taken : a.taken ≤ (a.note e).taken := by
  unfold RingAudit.note
  split
  all_goals first | exact le_rfl | (dsimp only; split <;> omega)

theorem RingAudit.note_calls {t : RingThread} (hturn : e.thread ≠ t) : (a.note e).calls t = a.calls t := by
  unfold RingAudit.note
  split
  all_goals first | rfl | exact Function.update_of_ne (Ne.symm hturn) ..

theorem RingAudit.note_reads (hturn : e.thread ≠ .consumer id) :
    (a.note e).snapshot id = a.snapshot id ∧ (a.note e).data id = a.data id := by
  have hne : ∀ {j : ℕ}, RingThread.consumer j ≠ .consumer id → id ≠ j := fun h hj => h (hj ▸ rfl)
  unfold RingAudit.note
  split
  all_goals first
    | exact ⟨rfl, rfl⟩
    | exact ⟨Function.update_of_ne (hne hturn) .., rfl⟩
    | exact ⟨rfl, Function.update_of_ne (hne hturn) ..⟩

theorem RingAudit.thread_of_effect? {x : Effect RingThread (RingCall V) (RingResult V)} (h : a.effect? mask e = some x) :
    x.thread = e.thread := by
  have hmap : ∀ {t : RingThread} {r : RingResult V}, ((a.calls t).map fun c => (⟨t, c, r⟩ : Effect RingThread (RingCall V) (RingResult V))) = some x →
      x.thread = t := by
    intro t r hx
    obtain ⟨c, -, rfl⟩ := Option.map_eq_some_iff.mp hx
    rfl
  unfold RingAudit.effect? at h
  split at h
  case h_1 =>
    split at h
    · exact hmap h
    · cases h
  case h_2 => exact hmap h
  case h_3 =>
    split at h
    · exact hmap h
    · cases h
  case h_4 => exact hmap h
  case h_5 => cases h

/-- The other threads find the calls where they were. -/
theorem RingAudit.record_inCall {t : RingThread} {p : Option (RingCall V t × Option (RingResult V))} (hturn : e.thread ≠ t)
    (h : InCall t a.moments p) : InCall t (a.record mask e).moments p := by
  have hcall := h.other hturn
  unfold RingAudit.record
  cases heffect : a.effect? mask e with
  | none => exact (List.append_nil _).symm ▸ hcall
  | some x => exact hcall.otherEffect x (thread_of_effect? heffect ▸ hturn)

/-- What a turn of one thread means for another. -/
theorem RingThread.same_of_turn {t : RingThread} {s s' : CkRing V} (hturn : e.thread ≠ t)
    (hbuffer : e.thread ≠ .producer → s'.buffer = s.buffer) : t.Same a s (a.record mask e) s' := by
  refine ⟨RingAudit.note_late, RingAudit.note_entered, RingAudit.note_taken, RingAudit.note_calls hturn,
    fun p => RingAudit.record_inCall hturn, ?_⟩
  cases t with
  | producer => exact ⟨RingAudit.note_entered_consumer hturn, hbuffer hturn⟩
  | consumer id => exact RingAudit.note_reads hturn

/-! ### Calls -/

variable {t : RingThread} {c : RingCall V t} {w w' : RingWorld V} {h : List (RingEvent V)}

/-- The call has not taken effect yet. -/
def RingWaiting (mask : UInt32) (t : RingThread) (c : RingCall V t) (w : RingWorld V) : Prop :=
  RingTimely mask w.1 → InCall t (ringAudit mask w.1).moments (some (c, none)) ∧ (ringAudit mask w.1).calls t = some c

/-- The call has taken effect with a result. -/
def Decided (mask : UInt32) (t : RingThread) (c : RingCall V t) (r : RingResult V) (w : RingWorld V) : Prop :=
  RingTimely mask w.1 → InCall t (ringAudit mask w.1).moments (some (c, some r))

/-- What the thread relies on leaves it in time. -/
theorem timely_of_same (hsame : t.Same (ringAudit mask w.1) w.2 (ringAudit mask w'.1) w'.2) (htime : RingTimely mask w'.1) :
    RingTimely mask w.1 := fun hlate => htime (hsame.late hlate)

theorem timely_of_snoc (htime : RingTimely mask (h ++ [e])) : RingTimely mask h := by
  refine fun hlate => htime ?_
  rw [ringAudit_snoc]
  exact RingAudit.note_late hlate

theorem RingWaiting.rely (hwait : RingWaiting mask t c w) (hsame : t.Same (ringAudit mask w.1) w.2 (ringAudit mask w'.1) w'.2) :
    RingWaiting mask t c w' := by
  intro htime
  obtain ⟨hcall, hcalls⟩ := hwait (timely_of_same hsame htime)
  exact ⟨hsame.inCall _ hcall, hsame.call.trans hcalls⟩

theorem Decided.rely {r : RingResult V} (hdecided : Decided mask t c r w)
    (hsame : t.Same (ringAudit mask w.1) w.2 (ringAudit mask w'.1) w'.2) : Decided mask t c r w' :=
  fun htime => hsame.inCall _ (hdecided (timely_of_same hsame htime))

theorem RingAudit.effects_record : effects (a.record mask e).moments = effects a.moments ++ (a.effect? mask e).toList := by
  unfold RingAudit.record
  rw [effects_append, effects_append, effects_turn, effects_effects, List.append_nil]

/-- An operation with no effect leaves its thread where it is in its call. -/
theorem RingAudit.act_inCall {op : RingOp V} {r : op.Res} {p : Option (RingCall V t × Option (RingResult V))}
    (heffect : a.effect? mask (.act t op r) = none) (hcall : InCall t a.moments p) :
    InCall t (a.record mask (.act t op r)).moments p := by
  unfold RingAudit.record
  rw [heffect]
  exact (List.append_nil _).symm ▸ hcall.act t op r

theorem RingAudit.act_effect {op : RingOp V} {r : op.Res} {x : RingResult V}
    (heffect : a.effect? mask (.act t op r) = some ⟨t, c, x⟩) (hcall : InCall t a.moments (some (c, none))) :
    InCall t (a.record mask (.act t op r)).moments (some (c, some x)) := by
  unfold RingAudit.record
  rw [heffect]
  exact (hcall.act t op r).effect x

variable [DecidableEq V] {s s' : CkRing V}

theorem ringGuards (hinv : (ringProtocol mask).inv (h, s)) (hbuffer : e.thread ≠ .producer → s'.buffer = s.buffer)
    (hstate : RingTimely mask (h ++ [e]) → RingState mask (ringAudit mask h) s →
      RingState mask ((ringAudit mask h).record mask e) s')
    (hcall : RingTimely mask (h ++ [e]) → ∃ p, InCall e.thread ((ringAudit mask h).record mask e).moments p) :
    (ringProtocol mask).Guards e.thread (h, s) (h ++ [e], s') := by
  have hsnoc := ringAudit_snoc mask h e
  obtain ⟨hturns, hright⟩ := hinv
  refine ⟨⟨?_, fun htime => ?_⟩, fun u hu => ?_⟩
  · show turns (ringAudit mask (h ++ [e])).moments = h ++ [e]
    have hturns : turns (ringAudit mask h).moments = h := hturns
    rw [hsnoc, RingAudit.record, turns_append, turns_append, turns_effects, turns_turn, hturns, List.append_nil]
  · have hbefore : RingTimely mask h := fun hlate => htime (show (ringAudit mask (h ++ [e])).late by
      rw [hsnoc]
      exact RingAudit.note_late hlate)
    obtain ⟨hstate₀, hcalls₀⟩ := hright hbefore
    show RingState mask (ringAudit mask (h ++ [e])) s' ∧ ∀ t, ∃ p, InCall t (ringAudit mask (h ++ [e])).moments p
    rw [hsnoc]
    refine ⟨hstate htime hstate₀, fun t => ?_⟩
    by_cases ht : e.thread = t
    · exact ht ▸ hcall htime
    · obtain ⟨p, hp⟩ := hcalls₀ t
      exact ⟨p, RingAudit.record_inCall ht hp⟩
  · show u.Same (ringAudit mask h) s (ringAudit mask (h ++ [e])) s'
    rw [hsnoc]
    exact RingThread.same_of_turn (Ne.symm hu) hbuffer

/-- An operation that only reads, and that the audit has nothing to say about. -/
theorem RingState.quiet (hstate : RingState mask a s) (heffect : a.effect? mask e = none)
    (hentered : (a.note e).entered = a.entered) (htaken : (a.note e).taken = a.taken) : RingState mask (a.record mask e) s := by
  obtain ⟨hhead, htail, hle, hnear, hslots, hqueue⟩ := hstate
  have hentered' : (a.record mask e).entered = a.entered := hentered
  have htaken' : (a.record mask e).taken = a.taken := htaken
  refine ⟨htaken'.symm ▸ hhead, hentered'.symm ▸ htail, ?_, ?_, ?_, ?_⟩
  · rwa [hentered', htaken']
  · rwa [hentered', htaken']
  · rwa [hentered', htaken']
  · rw [RingAudit.effects_record, heffect, hentered', htaken']
    exact (List.append_nil (effects a.moments)).symm ▸ hqueue

theorem ring_call (hinv : (ringProtocol mask).inv (h, s)) (hidle : (ringProtocol mask).idle t (h, s)) :
    (ringProtocol mask).Guards t (h, s) (h ++ [.call t c], s) ∧ RingWaiting mask t c (h ++ [.call t c], s) := by
  have hcall : RingTimely mask (h ++ [.call t c]) →
      InCall t ((ringAudit mask h).record mask (.call t c)).moments (some (c, none)) := by
    intro htime
    unfold RingAudit.record
    exact (List.append_nil _).symm ▸ (hidle (timely_of_snoc htime)).call c
  refine ⟨ringGuards hinv (fun _ => rfl) (fun _ hstate => hstate.quiet rfl rfl rfl) fun htime => ⟨_, hcall htime⟩, fun htime => ?_⟩
  show InCall t (ringAudit mask (h ++ [.call t c])).moments _ ∧ (ringAudit mask (h ++ [.call t c])).calls t = some c
  rw [ringAudit_snoc]
  exact ⟨hcall htime, Function.update_self ..⟩

theorem ring_returns {r : RingResult V} (hdecided : Decided mask t c r w) : (ringProtocol mask).Returns t c r w := by
  intro h s hrely hinv
  have hcall : RingTimely mask (h ++ [.ret t c r]) → InCall t ((ringAudit mask h).record mask (.ret t c r)).moments none := by
    intro htime
    unfold RingAudit.record
    exact (List.append_nil _).symm ▸ (hdecided.rely hrely (timely_of_snoc htime)).ret
  refine ⟨ringGuards hinv (fun _ => rfl) (fun _ hstate => hstate.quiet rfl rfl rfl) fun htime => ⟨_, hcall htime⟩, fun htime => ?_⟩
  show InCall t (ringAudit mask (h ++ [.ret t c r])).moments none
  rw [ringAudit_snoc]
  exact hcall htime

end turns

/-! ### The producer -/

section producer
variable {mask : UInt32} {k : ℕ} {entry : V} {h : List (RingEvent V)} {s : CkRing V} {w w' : RingWorld V}

/-- The producer has read `consumer` from `c_head`, and either the ring was full then or there is room since. -/
def RingLoaded (mask : UInt32) (entry : V) (consumer : UInt32) (w : RingWorld V) : Prop :=
  if (.ofNat (ringAudit mask w.1).entered.length + 1) &&& mask = consumer &&& mask then
    Decided mask .producer entry (.enqueued false) w
  else
    RingWaiting mask .producer entry w ∧ (RingTimely mask w.1 →
      (ringAudit mask w.1).entered.length < (ringAudit mask w.1).taken + mask.toNat)

/-- The entry is in the slot that it will have in the ring. -/
def RingPlaced (mask : UInt32) (entry : V) (w : RingWorld V) : Prop :=
  RingWaiting mask .producer entry w ∧ (RingTimely mask w.1 →
    (ringAudit mask w.1).entered.length < (ringAudit mask w.1).taken + mask.toNat ∧
      w.2.buffer (.ofNat (ringAudit mask w.1).entered.length &&& mask) = entry)

theorem RingLoaded.rely {consumer : UInt32} (hloaded : RingLoaded mask entry consumer w)
    (hsame : RingThread.producer.Same (ringAudit mask w.1) w.2 (ringAudit mask w'.1) w'.2) : RingLoaded mask entry consumer w' := by
  unfold RingLoaded at *
  rw [hsame.own.1]
  split
  · rw [if_pos ‹_›] at hloaded
    exact hloaded.rely hsame
  · rw [if_neg ‹_›] at hloaded
    exact ⟨hloaded.1.rely hsame, fun htime => (hloaded.2 (timely_of_same hsame htime)).trans_le
      (Nat.add_le_add_right hsame.taken _)⟩

theorem RingPlaced.rely (hplaced : RingPlaced mask entry w)
    (hsame : RingThread.producer.Same (ringAudit mask w.1) w.2 (ringAudit mask w'.1) w'.2) : RingPlaced mask entry w' := by
  refine ⟨hplaced.1.rely hsame, fun htime => ?_⟩
  obtain ⟨hroom, hslot⟩ := hplaced.2 (timely_of_same hsame htime)
  rw [hsame.own.1, hsame.own.2]
  exact ⟨hroom.trans_le (Nat.add_le_add_right hsame.taken _), hslot⟩

variable [DecidableEq V]

theorem loadCHead_guards (hmask : mask.toNat + 1 = 2 ^ k) (hinv : (ringProtocol mask).inv (h, s))
    (hwait : RingWaiting mask .producer entry (h, s)) :
    (ringProtocol mask).Guards .producer (h, s) (h ++ [.act .producer .loadCHead s.cHead], s) ∧
      RingLoaded mask entry s.cHead (h ++ [.act .producer .loadCHead s.cHead], s) := by
  set a := ringAudit mask h with ha
  set e : RingEvent V := .act .producer .loadCHead s.cHead with he
  have hsnoc : ringAudit mask (h ++ [e]) = a.record mask e := ringAudit_snoc ..
  have heffect : a.effect? mask e = if (UInt32.ofNat a.entered.length + 1) &&& mask = s.cHead &&& mask then
      (a.calls .producer).map fun c => ⟨.producer, c, .enqueued false⟩ else none := rfl
  have hentered : (a.record mask e).entered = a.entered := rfl
  have htaken : (a.record mask e).taken = a.taken := rfl
  by_cases hfull : (UInt32.ofNat a.entered.length + 1) &&& mask = s.cHead &&& mask
  -- The ring is full, and the call takes effect.
  · rw [if_pos hfull] at heffect
    have hcall : RingTimely mask (h ++ [e]) →
        InCall .producer (a.record mask e).moments (some (entry, some (.enqueued false))) := by
      intro htime
      obtain ⟨hin, hcalls⟩ := hwait (timely_of_snoc htime)
      exact RingAudit.act_effect (by rw [heffect, hcalls]; rfl) hin
    refine ⟨ringGuards hinv (fun _ => rfl) (fun htime hstate => ?_) fun htime => ⟨_, hcall htime⟩, ?_⟩
    · obtain ⟨hhead, htail, hle, hnear, hslots, hqueue⟩ : RingState mask a s := hstate
      refine ⟨hhead, htail, hle, hnear, hslots, ?_⟩
      have hlength := (full_iff hmask hle hnear).mp (hhead ▸ hfull)
      rw [RingAudit.effects_record, heffect, (hwait (timely_of_snoc htime)).2, Option.map_some, Option.toList_some,
        Monitor.reads_snoc hqueue]
      have hnot : ¬(a.entered.drop a.taken).length < mask.toNat := by
        rw [List.length_drop]
        omega
      show (if false = decide ((a.entered.drop a.taken).length < mask.toNat) then _ else none) = _
      rw [decide_eq_false hnot, if_pos rfl]
      rfl
    · have hloaded : (UInt32.ofNat (ringAudit mask (h ++ [e])).entered.length + 1) &&& mask = s.cHead &&& mask := by
        rw [hsnoc]
        exact hfull
      unfold RingLoaded
      rw [if_pos hloaded]
      intro htime
      show InCall .producer (ringAudit mask (h ++ [e])).moments _
      rw [hsnoc]
      exact hcall htime
  -- There is room, and only the producer takes any of it.
  · rw [if_neg hfull] at heffect
    have hcall : RingTimely mask (h ++ [e]) → InCall .producer (a.record mask e).moments (some (entry, none)) := fun htime =>
      RingAudit.act_inCall heffect (hwait (timely_of_snoc htime)).1
    refine ⟨ringGuards hinv (fun _ => rfl) (fun _ hstate => hstate.quiet heffect rfl rfl) fun htime => ⟨_, hcall htime⟩, ?_⟩
    have hloaded : ¬(UInt32.ofNat (ringAudit mask (h ++ [e])).entered.length + 1) &&& mask = s.cHead &&& mask := by
      rw [hsnoc]
      exact hfull
    unfold RingLoaded
    rw [if_neg hloaded]
    refine ⟨fun htime => ?_, fun htime => ?_⟩
    · show InCall .producer (ringAudit mask (h ++ [e])).moments _ ∧ (ringAudit mask (h ++ [e])).calls .producer = _
      rw [hsnoc]
      exact ⟨hcall htime, (hwait (timely_of_snoc htime)).2⟩
    · obtain ⟨hhead, -, hle, hnear, -⟩ := (hinv.2 (timely_of_snoc htime)).1
      show (ringAudit mask (h ++ [e])).entered.length < (ringAudit mask (h ++ [e])).taken + _
      rw [hsnoc, hentered, htaken]
      refine lt_of_le_of_ne hnear fun heq => hfull ?_
      rw [show s.cHead = _ from hhead]
      exact (full_iff hmask hle hnear).mpr heq

/-- The entry goes to a slot that no entry in the ring has. -/
theorem storeSlot_guards (hmask : mask.toNat + 1 = 2 ^ k) (hinv : (ringProtocol mask).inv (h, s))
    (hwait : RingWaiting mask .producer entry (h, s)) {i : UInt32}
    (hroom : RingTimely mask h → (ringAudit mask h).entered.length < (ringAudit mask h).taken + mask.toNat ∧
      i = .ofNat (ringAudit mask h).entered.length &&& mask) :
    let w' : RingWorld V := (h ++ [.act .producer (.storeSlot i entry) ()], { s with buffer := Function.update s.buffer i entry })
    (ringProtocol mask).Guards .producer (h, s) w' ∧ RingPlaced mask entry w' := by
  set a := ringAudit mask h with ha
  set e : RingEvent V := .act .producer (.storeSlot i entry) () with he
  have hsnoc : ringAudit mask (h ++ [e]) = a.record mask e := ringAudit_snoc ..
  have hentered : (a.record mask e).entered = a.entered := rfl
  have htaken : (a.record mask e).taken = a.taken := rfl
  have hcall : RingTimely mask (h ++ [e]) → InCall .producer (a.record mask e).moments (some (entry, none)) := fun htime =>
    RingAudit.act_inCall rfl (hwait (timely_of_snoc htime)).1
  refine ⟨ringGuards hinv (fun hne => absurd rfl hne) (fun htime hstate => ?_) fun htime => ⟨_, hcall htime⟩, fun htime => ?_,
    fun htime => ?_⟩
  · obtain ⟨hhead, htail, hle, hnear, hslots, hqueue⟩ := RingState.quiet (e := e) hstate rfl rfl rfl
    refine ⟨hhead, htail, hle, hnear, fun j v hj hv => ?_, hqueue⟩
    obtain ⟨hlt, rfl⟩ := hroom (timely_of_snoc htime)
    have hlength : j < a.entered.length := (List.getElem?_eq_some_iff.mp hv).1
    have hj : a.taken ≤ j := hj
    exact (Function.update_of_ne (slot_ne hmask hlength (by omega)) ..).trans (hslots j v hj hv)
  · show InCall .producer (ringAudit mask (h ++ [e])).moments _ ∧ (ringAudit mask (h ++ [e])).calls .producer = _
    rw [hsnoc]
    exact ⟨hcall htime, (hwait (timely_of_snoc htime)).2⟩
  · show (ringAudit mask (h ++ [e])).entered.length < (ringAudit mask (h ++ [e])).taken + _ ∧
      Function.update s.buffer i entry (.ofNat (ringAudit mask (h ++ [e])).entered.length &&& mask) = entry
    rw [hsnoc, hentered, htaken]
    obtain ⟨hlt, rfl⟩ := hroom (timely_of_snoc htime)
    exact ⟨hlt, Function.update_self ..⟩

/-- The entry is in the ring from the moment when `p_tail` moves on. -/
theorem storePTail_guards (hinv : (ringProtocol mask).inv (h, s)) (hplaced : RingPlaced mask entry (h, s)) {p : UInt32}
    (hp : RingTimely mask h → p = .ofNat ((ringAudit mask h).entered.length + 1)) :
    let w' : RingWorld V := (h ++ [.act .producer (.storePTail p) ()], { s with pTail := p })
    (ringProtocol mask).Guards .producer (h, s) w' ∧ Decided mask .producer entry (.enqueued true) w' := by
  set a := ringAudit mask h with ha
  set e : RingEvent V := .act .producer (.storePTail p) () with he
  have hsnoc : ringAudit mask (h ++ [e]) = a.record mask e := ringAudit_snoc ..
  have heffect : a.effect? mask e = (a.calls .producer).map fun c => ⟨.producer, c, .enqueued true⟩ := rfl
  have hcall : RingTimely mask (h ++ [e]) →
      InCall .producer (a.record mask e).moments (some (entry, some (.enqueued true))) := by
    intro htime
    obtain ⟨hin, hcalls⟩ := hplaced.1 (timely_of_snoc htime)
    exact RingAudit.act_effect (by rw [heffect, hcalls]; rfl) hin
  refine ⟨ringGuards hinv (fun _ => rfl) (fun htime hstate => ?_) fun htime => ⟨_, hcall htime⟩, fun htime => ?_⟩
  · obtain ⟨hhead, -, hle, hnear, hslots, hqueue⟩ : RingState mask a s := hstate
    have hcalls : a.calls .producer = some entry := (hplaced.1 (timely_of_snoc htime)).2
    obtain ⟨hlt, hslot⟩ := hplaced.2 (timely_of_snoc htime)
    have hlt : a.entered.length < a.taken + mask.toNat := hlt
    have hentered : (a.record mask e).entered = a.entered ++ [entry] := by
      show a.entered ++ (a.calls .producer).toList = _
      rw [hcalls]
      rfl
    have htaken : (a.record mask e).taken = a.taken := rfl
    refine ⟨hhead, ?_, ?_, ?_, fun j v hj hv => ?_, ?_⟩
    · rw [hentered, List.length_append, List.length_singleton]
      exact hp (timely_of_snoc htime)
    · rw [hentered, htaken, List.length_append]
      omega
    · rw [hentered, htaken, List.length_append, List.length_singleton]
      omega
    · rw [hentered, List.getElem?_append] at hv
      split at hv
      · exact hslots j v hj hv
      · obtain ⟨hj, rfl⟩ := List.getElem?_eq_some_iff.mp hv
        rw [List.length_singleton] at hj
        obtain rfl : j = a.entered.length := by omega
        simpa using hslot
    · rw [RingAudit.effects_record, heffect, hcalls, Option.map_some, Option.toList_some, Monitor.reads_snoc hqueue, hentered, htaken,
        List.drop_append_of_le_length hle]
      have hroom : (a.entered.drop a.taken).length < mask.toNat := by
        rw [List.length_drop]
        omega
      show (if true = decide ((a.entered.drop a.taken).length < mask.toNat) then _ else none) = _
      rw [decide_eq_true hroom, if_pos rfl]
      rfl
  · show InCall .producer (ringAudit mask (h ++ [e])).moments _
    rw [hsnoc]
    exact hcall htime

/-- `p_tail` is as the producer has left it. -/
theorem loadPTail_guards {consumer : UInt32} (hinv : (ringProtocol mask).inv (h, s)) (hloaded : RingLoaded mask entry consumer (h, s)) :
    let w' : RingWorld V := (h ++ [.act .producer .loadPTail s.pTail], s)
    (ringProtocol mask).Guards .producer (h, s) w' ∧ RingLoaded mask entry consumer w' ∧
      (RingTimely mask w'.1 → s.pTail = .ofNat (ringAudit mask w'.1).entered.length) := by
  set a := ringAudit mask h with ha
  set e : RingEvent V := .act .producer .loadPTail s.pTail with he
  have hsnoc : ringAudit mask (h ++ [e]) = a.record mask e := ringAudit_snoc ..
  have hcalls : ∀ {p}, InCall .producer a.moments p → InCall .producer (a.record mask e).moments p := fun hin =>
    RingAudit.act_inCall rfl hin
  have hsame : RingThread.producer.Same (ringAudit mask h) s (ringAudit mask (h ++ [e])) s := by
    rw [hsnoc]
    exact ⟨id, List.prefix_rfl, le_rfl, rfl, fun _ => hcalls, rfl, rfl⟩
  refine ⟨ringGuards hinv (fun _ => rfl) (fun _ hstate => hstate.quiet rfl rfl rfl) fun htime => ?_,
    show RingLoaded mask entry consumer (h ++ [e], s) from hloaded.rely hsame, fun htime => ?_⟩
  · obtain ⟨p, hp⟩ := (hinv.2 (timely_of_snoc htime)).2 .producer
    exact ⟨p, hcalls hp⟩
  · have htail : s.pTail = .ofNat a.entered.length := (hinv.2 (timely_of_snoc htime)).1.tail
    show s.pTail = .ofNat (ringAudit mask (h ++ [e])).entered.length
    rwa [hsnoc]

/-- With what the producer has read it enqueues the entry, unless the ring was full. -/
theorem wp_storeEntry {consumer p : UInt32} (hmask : mask.toNat + 1 = 2 ^ k) (hloaded : RingLoaded mask entry consumer w)
    (hp : RingTimely mask w.1 → p = .ofNat (ringAudit mask w.1).entered.length) :
    (ringProtocol mask).wp .producer
      (if p + 1 &&& mask = consumer &&& mask then return false
        else do
          perform (storeSlot (p &&& mask) entry)
          perform (storePTail (p + 1))
          return true)
      (fun ok => Decided mask .producer entry (.enqueued ok)) w := by
  unfold RingLoaded at hloaded
  split
  case isTrue hyes =>
    intro htime
    rw [← hp htime, if_pos hyes] at hloaded
    exact hloaded htime
  case isFalse hno =>
    have hroom : RingTimely mask w.1 → RingWaiting mask .producer entry w ∧
        (ringAudit mask w.1).entered.length < (ringAudit mask w.1).taken + mask.toNat := by
      intro htime
      rw [← hp htime, if_neg hno] at hloaded
      exact ⟨hloaded.1, hloaded.2 htime⟩
    have hwait : RingWaiting mask .producer entry w := fun htime => (hroom htime).1 htime
    intro h₁ s₁ r₁ s₁' hrely₁ hinv₁ hexec₁
    obtain ⟨-, rfl⟩ := Prod.mk.inj (Option.some.inj hexec₁)
    obtain ⟨hguards₁, hplaced⟩ := storeSlot_guards (i := p &&& mask) hmask hinv₁ (hwait.rely hrely₁) fun htime => by
      have hbefore := timely_of_same hrely₁ htime
      have hentered : (ringAudit mask h₁).entered = (ringAudit mask w.1).entered := hrely₁.own.1
      rw [hentered, ← hp hbefore]
      exact ⟨(hroom hbefore).2.trans_le (Nat.add_le_add_right hrely₁.taken _), rfl⟩
    refine ⟨hguards₁, ?_⟩
    intro h₂ s₂ r₂ s₂' hrely₂ hinv₂ hexec₂
    obtain ⟨-, rfl⟩ := Prod.mk.inj (Option.some.inj hexec₂)
    obtain ⟨hguards₂, hdecided⟩ := storePTail_guards (p := p + 1) hinv₂ (hplaced.rely hrely₂) fun htime => by
      have hentered : (ringAudit mask h₂).entered = (ringAudit mask h₁).entered := by
        rw [show (ringAudit mask h₂).entered = _ from hrely₂.own.1]
        show (ringAudit mask (h₁ ++ _)).entered = _
        rw [ringAudit_snoc]
        rfl
      have hbefore := timely_of_same hrely₁ (timely_of_snoc (timely_of_same hrely₂ htime))
      rw [hentered, show (ringAudit mask h₁).entered = _ from hrely₁.own.1, hp hbefore]
      exact (UInt32.ofNat_add _ 1).symm
    exact ⟨hguards₂, hdecided⟩

theorem wp_enqueue (hmask : mask.toNat + 1 = 2 ^ k) (hwait : RingWaiting mask .producer entry w) :
    (ringProtocol mask).wp .producer (ckRingEnqueueSp mask entry) (fun ok => Decided mask .producer entry (.enqueued ok)) w := by
  intro h₁ s₁ consumer s₁' hrely₁ hinv₁ hexec₁
  obtain ⟨rfl, rfl⟩ := Prod.mk.inj (Option.some.inj hexec₁)
  obtain ⟨hguards₁, hloaded₁⟩ := loadCHead_guards hmask hinv₁ (hwait.rely hrely₁)
  refine ⟨hguards₁, ?_⟩
  intro h₂ s₂ producer s₂' hrely₂ hinv₂ hexec₂
  obtain ⟨rfl, rfl⟩ := Prod.mk.inj (Option.some.inj hexec₂)
  obtain ⟨hguards₂, hloaded₂, htail⟩ := loadPTail_guards hinv₂ (hloaded₁.rely hrely₂)
  exact ⟨hguards₂, wp_storeEntry hmask hloaded₂ htail⟩

end producer

/-! ### The consumers -/

section consumer
variable {mask : UInt32} {k id n : ℕ} {consumer : UInt32} {v : V} {h : List (RingEvent V)} {s : CkRing V} {w w' : RingWorld V}

/-- The consumer has `c_head` as it was when it last found out. -/
def Knows (mask : UInt32) (id n : ℕ) (consumer : UInt32) (w : RingWorld V) : Prop :=
  RingWaiting mask (.consumer id) n w ∧ (RingTimely mask w.1 → consumer = .ofNat ((ringAudit mask w.1).snapshot id) ∧
    (ringAudit mask w.1).snapshot id ≤ (ringAudit mask w.1).taken)

/-- There was an entry when the consumer read `p_tail`. -/
def RingFound (mask : UInt32) (id n : ℕ) (consumer : UInt32) (w : RingWorld V) : Prop :=
  Knows mask id n consumer w ∧ (RingTimely mask w.1 →
    (ringAudit mask w.1).snapshot id < (ringAudit mask w.1).entered.length)

/-- The consumer has read the entry, if no other consumer has dequeued it. -/
def HasRead (mask : UInt32) (id n : ℕ) (consumer : UInt32) (v : V) (w : RingWorld V) : Prop :=
  RingFound mask id n consumer w ∧ (RingTimely mask w.1 → (ringAudit mask w.1).data id = some v ∧
    ((ringAudit mask w.1).taken = (ringAudit mask w.1).snapshot id →
      (ringAudit mask w.1).entered[(ringAudit mask w.1).snapshot id]? = some v))

theorem Knows.rely (hknows : Knows mask id n consumer w)
    (hsame : (RingThread.consumer id).Same (ringAudit mask w.1) w.2 (ringAudit mask w'.1) w'.2) : Knows mask id n consumer w' := by
  refine ⟨hknows.1.rely hsame, fun htime => ?_⟩
  obtain ⟨hconsumer, hle⟩ := hknows.2 (timely_of_same hsame htime)
  rw [hsame.own.1]
  exact ⟨hconsumer, hle.trans hsame.taken⟩

theorem RingFound.rely (hfound : RingFound mask id n consumer w)
    (hsame : (RingThread.consumer id).Same (ringAudit mask w.1) w.2 (ringAudit mask w'.1) w'.2) : RingFound mask id n consumer w' := by
  refine ⟨hfound.1.rely hsame, fun htime => ?_⟩
  rw [hsame.own.1]
  exact (hfound.2 (timely_of_same hsame htime)).trans_le hsame.entered.length_le

theorem HasRead.rely (hread : HasRead mask id n consumer v w)
    (hsame : (RingThread.consumer id).Same (ringAudit mask w.1) w.2 (ringAudit mask w'.1) w'.2) : HasRead mask id n consumer v w' := by
  refine ⟨hread.1.rely hsame, fun htime => ?_⟩
  have hbefore := timely_of_same hsame htime
  obtain ⟨hdata, hentry⟩ := hread.2 hbefore
  rw [hsame.own.1, hsame.own.2]
  refine ⟨hdata, fun htaken => ?_⟩
  have hle := (hread.1.1.2 hbefore).2
  have hgrown := hsame.taken
  obtain ⟨hlt, hget⟩ := List.getElem?_eq_some_iff.mp (hentry (by omega))
  rw [List.getElem?_eq_getElem (hlt.trans_le hsame.entered.length_le), ← hsame.entered.getElem hlt, hget]

variable [DecidableEq V]

theorem loadCHead_knows (hinv : (ringProtocol mask).inv (h, s)) (hwait : RingWaiting mask (.consumer id) n (h, s)) :
    let w' : RingWorld V := (h ++ [.act (.consumer id) .loadCHead s.cHead], s)
    (ringProtocol mask).Guards (.consumer id) (h, s) w' ∧ Knows mask id n s.cHead w' := by
  set a := ringAudit mask h with ha
  set e : RingEvent V := .act (.consumer id) .loadCHead s.cHead with he
  have hsnoc : ringAudit mask (h ++ [e]) = a.record mask e := ringAudit_snoc ..
  have hcall : RingTimely mask (h ++ [e]) → InCall (.consumer id) (a.record mask e).moments (some (n, none)) := fun htime =>
    RingAudit.act_inCall rfl (hwait (timely_of_snoc htime)).1
  refine ⟨ringGuards hinv (fun _ => rfl) (fun _ hstate => hstate.quiet rfl rfl rfl) fun htime => ⟨_, hcall htime⟩,
    fun htime => ?_, fun htime => ?_⟩
  · show InCall (.consumer id) (ringAudit mask (h ++ [e])).moments _ ∧ (ringAudit mask (h ++ [e])).calls (.consumer id) = _
    rw [hsnoc]
    exact ⟨hcall htime, (hwait (timely_of_snoc htime)).2⟩
  · have hsnapshot : (ringAudit mask (h ++ [e])).snapshot id = a.taken := by
      rw [hsnoc]
      exact Function.update_self ..
    have htaken : (ringAudit mask (h ++ [e])).taken = a.taken := by
      rw [hsnoc]
      rfl
    show s.cHead = .ofNat ((ringAudit mask (h ++ [e])).snapshot id) ∧
      (ringAudit mask (h ++ [e])).snapshot id ≤ (ringAudit mask (h ++ [e])).taken
    rw [hsnapshot, htaken]
    exact ⟨(hinv.2 (timely_of_snoc htime)).1.head, le_rfl⟩

/-- A consumer that finds the ring empty is right about the moment when it reads `p_tail`. -/
theorem loadPTail_found (hinv : (ringProtocol mask).inv (h, s)) (hknows : Knows mask id n consumer (h, s)) :
    let w' : RingWorld V := (h ++ [.act (.consumer id) .loadPTail s.pTail], s)
    (ringProtocol mask).Guards (.consumer id) (h, s) w' ∧
      if consumer = s.pTail then Decided mask (.consumer id) n (.dequeued none) w' else RingFound mask id n consumer w' := by
  set a := ringAudit mask h with ha
  set e : RingEvent V := .act (.consumer id) .loadPTail s.pTail with he
  have hsnoc : ringAudit mask (h ++ [e]) = a.record mask e := ringAudit_snoc ..
  have heffect : a.effect? mask e = if a.snapshot id = a.entered.length then
      (a.calls (.consumer id)).map fun c => ⟨.consumer id, c, .dequeued none⟩ else none := rfl
  have hcalls : RingTimely mask (h ++ [e]) → a.calls (.consumer id) = some n := fun htime =>
    (hknows.1 (timely_of_snoc htime)).2
  -- The reading is recent enough to be told from later ones.
  have hnear : RingTimely mask (h ++ [e]) → a.entered.length < a.snapshot id + 2 ^ 32 := by
    intro htime
    rw [RingTimely, hsnoc] at htime
    by_contra hlate
    exact htime (Or.inr (by omega))
  have hempty : RingTimely mask (h ++ [e]) → (consumer = s.pTail ↔ a.snapshot id = a.entered.length) := by
    intro htime
    obtain ⟨hconsumer, hle⟩ := hknows.2 (timely_of_snoc htime)
    obtain ⟨-, htail, htaken, -⟩ := (hinv.2 (timely_of_snoc htime)).1
    rw [show consumer = .ofNat (a.snapshot id) from hconsumer, show s.pTail = .ofNat a.entered.length from htail]
    exact ⟨eq_of_counter (hle.trans htaken) (hnear htime), congrArg UInt32.ofNat⟩
  have hstate' : RingTimely mask (h ++ [e]) → RingState mask a s → RingState mask (a.record mask e) s := by
    intro htime hstate
    by_cases hsame : a.snapshot id = a.entered.length
    · obtain ⟨hhead, htail, hle, hbound, hslots, hqueue⟩ := hstate
      refine ⟨hhead, htail, hle, hbound, hslots, ?_⟩
      have hlast : a.snapshot id ≤ a.taken := (hknows.2 (timely_of_snoc htime)).2
      have hnil : a.entered.drop a.taken = [] := List.drop_eq_nil_of_le (by omega)
      rw [RingAudit.effects_record, heffect, if_pos hsame, hcalls htime, Option.map_some, Option.toList_some,
        Monitor.reads_snoc hqueue, hnil]
      show some [] = some (a.entered.drop a.taken)
      rw [hnil]
    · exact hstate.quiet (heffect.trans (if_neg hsame)) rfl rfl
  intro w'
  by_cases hyes : consumer = s.pTail
  · rw [if_pos hyes]
    have hcall : RingTimely mask (h ++ [e]) →
        InCall (.consumer id) (a.record mask e).moments (some (n, some (.dequeued none))) := fun htime =>
      RingAudit.act_effect (by rw [heffect, if_pos ((hempty htime).mp hyes), hcalls htime]; rfl)
        (hknows.1 (timely_of_snoc htime)).1
    refine ⟨ringGuards hinv (fun _ => rfl) hstate' fun htime => ⟨_, hcall htime⟩, fun htime => ?_⟩
    show InCall (.consumer id) (ringAudit mask (h ++ [e])).moments _
    rw [hsnoc]
    exact hcall htime
  · rw [if_neg hyes]
    have hcall : RingTimely mask (h ++ [e]) → InCall (.consumer id) (a.record mask e).moments (some (n, none)) := fun htime =>
      RingAudit.act_inCall (heffect.trans (if_neg fun hsame => hyes ((hempty htime).mpr hsame)))
        (hknows.1 (timely_of_snoc htime)).1
    refine ⟨ringGuards hinv (fun _ => rfl) hstate' fun htime => ⟨_, hcall htime⟩, ⟨fun htime => ?_, fun htime => ?_⟩, fun htime => ?_⟩
    · show InCall (.consumer id) (ringAudit mask (h ++ [e])).moments _ ∧ (ringAudit mask (h ++ [e])).calls (.consumer id) = _
      rw [hsnoc]
      exact ⟨hcall htime, hcalls htime⟩
    · show consumer = .ofNat ((ringAudit mask (h ++ [e])).snapshot id) ∧
        (ringAudit mask (h ++ [e])).snapshot id ≤ (ringAudit mask (h ++ [e])).taken
      rw [hsnoc]
      exact hknows.2 (timely_of_snoc htime)
    · show (ringAudit mask (h ++ [e])).snapshot id < (ringAudit mask (h ++ [e])).entered.length
      have hle := (hknows.2 (timely_of_snoc htime)).2.trans (hinv.2 (timely_of_snoc htime)).1.taken_le
      rw [hsnoc]
      exact lt_of_le_of_ne hle fun hsame => hyes ((hempty htime).mpr hsame)

theorem loadSlot_read (hinv : (ringProtocol mask).inv (h, s)) (hfound : RingFound mask id n consumer (h, s)) :
    let v := s.buffer (consumer &&& mask)
    let w' : RingWorld V := (h ++ [.act (.consumer id) (.loadSlot (consumer &&& mask)) v], s)
    (ringProtocol mask).Guards (.consumer id) (h, s) w' ∧ HasRead mask id n consumer v w' := by
  set a := ringAudit mask h with ha
  set e : RingEvent V := .act (.consumer id) (.loadSlot (consumer &&& mask)) (s.buffer (consumer &&& mask)) with he
  have hsnoc : ringAudit mask (h ++ [e]) = a.record mask e := ringAudit_snoc ..
  have hcall : RingTimely mask (h ++ [e]) → InCall (.consumer id) (a.record mask e).moments (some (n, none)) := fun htime =>
    RingAudit.act_inCall rfl (hfound.1.1 (timely_of_snoc htime)).1
  refine ⟨ringGuards hinv (fun _ => rfl) (fun _ hstate => hstate.quiet rfl rfl rfl) fun htime => ⟨_, hcall htime⟩,
    ⟨⟨fun htime => ?_, fun htime => ?_⟩, fun htime => ?_⟩, fun htime => ?_⟩
  · show InCall (.consumer id) (ringAudit mask (h ++ [e])).moments _ ∧ (ringAudit mask (h ++ [e])).calls (.consumer id) = _
    rw [hsnoc]
    exact ⟨hcall htime, (hfound.1.1 (timely_of_snoc htime)).2⟩
  · show consumer = .ofNat ((ringAudit mask (h ++ [e])).snapshot id) ∧
      (ringAudit mask (h ++ [e])).snapshot id ≤ (ringAudit mask (h ++ [e])).taken
    rw [hsnoc]
    exact hfound.1.2 (timely_of_snoc htime)
  · show (ringAudit mask (h ++ [e])).snapshot id < (ringAudit mask (h ++ [e])).entered.length
    rw [hsnoc]
    exact hfound.2 (timely_of_snoc htime)
  · show (ringAudit mask (h ++ [e])).data id = some (s.buffer (consumer &&& mask)) ∧
      ((ringAudit mask (h ++ [e])).taken = (ringAudit mask (h ++ [e])).snapshot id →
        (ringAudit mask (h ++ [e])).entered[(ringAudit mask (h ++ [e])).snapshot id]? = some (s.buffer (consumer &&& mask)))
    rw [hsnoc]
    refine ⟨Function.update_self .., fun htaken => ?_⟩
    have htaken : a.taken = a.snapshot id := htaken
    have hlt : a.snapshot id < a.entered.length := hfound.2 (timely_of_snoc htime)
    have hconsumer : consumer = .ofNat (a.snapshot id) := (hfound.1.2 (timely_of_snoc htime)).1
    have hslot := (hinv.2 (timely_of_snoc htime)).1.slots (a.snapshot id) _ htaken.le (List.getElem?_eq_getElem hlt)
    show a.entered[a.snapshot id]? = _
    rw [List.getElem?_eq_getElem hlt, hconsumer]
    exact congrArg some hslot.symm

/-- The consumer whose compare-and-swap succeeds has the oldest entry, and one whose compare-and-swap fails knows `c_head`
again. -/
theorem casCHead_guards (hinv : (ringProtocol mask).inv (h, s)) (hread : HasRead mask id n consumer v (h, s)) {ok : Bool}
    {value : UInt32} {s' : CkRing V} (hexec : RingOp.step (.casCHead consumer (consumer + 1)) s = some ((ok, value), s')) :
    let w' : RingWorld V := (h ++ [.act (.consumer id) (.casCHead consumer (consumer + 1)) (ok, value)], s')
    (ringProtocol mask).Guards (.consumer id) (h, s) w' ∧
      if ok then Decided mask (.consumer id) n (.dequeued (some v)) w' else Knows mask id n value w' := by
  set a := ringAudit mask h with ha
  set e : RingEvent V := .act (.consumer id) (.casCHead consumer (consumer + 1)) (ok, value) with he
  have hsnoc : ringAudit mask (h ++ [e]) = a.record mask e := ringAudit_snoc ..
  have hin : RingTimely mask (h ++ [e]) → InCall (.consumer id) a.moments (some (n, none)) ∧ a.calls (.consumer id) = some n :=
    fun htime => hread.1.1.1 (timely_of_snoc htime)
  have hexec : (if s.cHead = consumer then some ((true, s.cHead), ({ s with cHead := consumer + 1 } : CkRing V))
    else some ((false, s.cHead), s)) = some ((ok, value), s') := hexec
  split at hexec
  case isTrue hsame =>
    obtain ⟨hok, rfl⟩ := Prod.mk.inj (Option.some.inj hexec)
    obtain ⟨rfl, rfl⟩ := Prod.mk.inj hok
    have heffect : a.effect? mask e = (a.calls (.consumer id)).map fun c => ⟨.consumer id, c, .dequeued (a.data id)⟩ := rfl
    have hdata : RingTimely mask (h ++ [e]) → a.data id = some v := fun htime => (hread.2 (timely_of_snoc htime)).1
    have hcall : RingTimely mask (h ++ [e]) →
        InCall (.consumer id) (a.record mask e).moments (some (n, some (.dequeued (some v)))) := fun htime =>
      RingAudit.act_effect (by rw [heffect, (hin htime).2, hdata htime]; rfl) (hin htime).1
    refine ⟨ringGuards hinv (fun _ => rfl) (fun htime hstate => ?_) fun htime => ⟨_, hcall htime⟩, fun htime => ?_⟩
    · obtain ⟨hhead, htail, hle, hnear, hslots, hqueue⟩ : RingState mask a s := hstate
      obtain ⟨hconsumer, hlast⟩ := hread.1.1.2 (timely_of_snoc htime)
      have hconsumer : consumer = .ofNat (a.snapshot id) := hconsumer
      have hlast : a.snapshot id ≤ a.taken := hlast
      have hlt : a.snapshot id < a.entered.length := hread.1.2 (timely_of_snoc htime)
      -- No other consumer was faster, as `c_head` is not a period ahead.
      have hrecent : a.taken < a.snapshot id + 2 ^ 32 := by
        rw [RingTimely, hsnoc] at htime
        by_contra hlate
        exact htime (Or.inr (by omega))
      have htaken : a.snapshot id = a.taken := by
        refine eq_of_counter hlast hrecent ?_
        rw [← hconsumer, ← hhead, hsame]
      have hentry : a.entered[a.taken]? = some v := htaken ▸ (hread.2 (timely_of_snoc htime)).2 htaken.symm
      have htaken' : (a.record mask e).taken = a.taken + 1 := rfl
      have hentered : (a.record mask e).entered = a.entered := rfl
      refine ⟨?_, htail, ?_, ?_, fun j x hj hx => ?_, ?_⟩
      · rw [htaken', hconsumer, htaken]
        exact (UInt32.ofNat_add _ 1).symm
      · rw [htaken', hentered]
        omega
      · rw [htaken', hentered]
        omega
      · rw [htaken'] at hj
        exact hslots j x (by omega) hx
      · rw [RingAudit.effects_record, heffect, (hin htime).2, hdata htime, Option.map_some, Option.toList_some,
          Monitor.reads_snoc hqueue, htaken', hentered]
        have hfirst : some v = (a.entered.drop a.taken).head? := by
          rw [List.head?_drop, hentry]
        show (if some v = (a.entered.drop a.taken).head? then some (a.entered.drop a.taken).tail else none) = _
        rw [if_pos hfirst, List.tail_drop]
    · show InCall (.consumer id) (ringAudit mask (h ++ [e])).moments _
      rw [hsnoc]
      exact hcall htime
  case isFalse hother =>
    obtain ⟨hok, rfl⟩ := Prod.mk.inj (Option.some.inj hexec)
    obtain ⟨rfl, rfl⟩ := Prod.mk.inj hok
    have hcall : RingTimely mask (h ++ [e]) → InCall (.consumer id) (a.record mask e).moments (some (n, none)) := fun htime =>
      RingAudit.act_inCall rfl (hin htime).1
    refine ⟨ringGuards hinv (fun _ => rfl) (fun _ hstate => hstate.quiet rfl rfl rfl) fun htime => ⟨_, hcall htime⟩,
      fun htime => ?_, fun htime => ?_⟩
    · show InCall (.consumer id) (ringAudit mask (h ++ [e])).moments _ ∧ (ringAudit mask (h ++ [e])).calls (.consumer id) = _
      rw [hsnoc]
      exact ⟨hcall htime, (hin htime).2⟩
    · have hsnapshot : (ringAudit mask (h ++ [e])).snapshot id = a.taken := by
        rw [hsnoc]
        exact Function.update_self ..
      have htaken : (ringAudit mask (h ++ [e])).taken = a.taken := by
        rw [hsnoc]
        rfl
      show s.cHead = .ofNat ((ringAudit mask (h ++ [e])).snapshot id) ∧
        (ringAudit mask (h ++ [e])).snapshot id ≤ (ringAudit mask (h ++ [e])).taken
      rw [hsnapshot, htaken]
      exact ⟨(hinv.2 (timely_of_snoc htime)).1.head, le_rfl⟩

/-- With what the consumer has read it dequeues the entry, unless the ring was empty or another consumer is faster. -/
theorem wp_takeEntry {producer : UInt32} (hempty : if consumer = producer then Decided mask (.consumer id) n (.dequeued none) w
      else RingFound mask id n consumer w) :
    (ringProtocol mask).wp (.consumer id)
      (if consumer = producer then return .inr none
        else do
          let data ← perform (loadSlot (consumer &&& mask))
          let (ok, value) ← perform (casCHead consumer (consumer + 1))
          return if ok then .inr (some data) else .inl value)
      (Sum.elim (Knows mask id n) fun entry => Decided mask (.consumer id) n (.dequeued entry)) w := by
  split
  case isTrue hyes =>
    rwa [if_pos hyes] at hempty
  case isFalse hno =>
    rw [if_neg hno] at hempty
    intro h₁ s₁ data s₁' hrely₁ hinv₁ hexec₁
    obtain ⟨rfl, rfl⟩ := Prod.mk.inj (Option.some.inj hexec₁)
    obtain ⟨hguards₁, hread⟩ := loadSlot_read hinv₁ (hempty.rely hrely₁)
    refine ⟨hguards₁, ?_⟩
    intro h₂ s₂ r s₂' hrely₂ hinv₂ hexec₂
    obtain ⟨ok, value⟩ := r
    obtain ⟨hguards₂, hswapped⟩ := casCHead_guards hinv₂ (hread.rely hrely₂) hexec₂
    refine ⟨hguards₂, ?_⟩
    cases ok with
    | false => exact hswapped
    | true => exact hswapped

/-- A round of the loop dequeues an entry, finds the ring empty, or goes on with the `c_head` of the moment. -/
theorem wp_tryDequeueMc (hknows : Knows mask id n consumer w) :
    (ringProtocol mask).wp (.consumer id) (tryDequeueMc mask consumer)
      (Sum.elim (Knows mask id n) fun entry => Decided mask (.consumer id) n (.dequeued entry)) w := by
  intro h₁ s₁ producer s₁' hrely₁ hinv₁ hexec₁
  obtain ⟨rfl, rfl⟩ := Prod.mk.inj (Option.some.inj hexec₁)
  obtain ⟨hguards₁, hfound⟩ := loadPTail_found hinv₁ (hknows.rely hrely₁)
  exact ⟨hguards₁, wp_takeEntry hfound⟩

theorem wp_dequeue (hwait : RingWaiting mask (.consumer id) n w) :
    (ringProtocol mask).wp (.consumer id) (ckRingDequeueMc mask n)
      (fun entry => Decided mask (.consumer id) n (.dequeued entry)) w := by
  intro h₁ s₁ consumer s₁' hrely₁ hinv₁ hexec₁
  obtain ⟨rfl, rfl⟩ := Prod.mk.inj (Option.some.inj hexec₁)
  obtain ⟨hguards₁, hknows⟩ := loadCHead_knows hinv₁ (hwait.rely hrely₁)
  refine ⟨hguards₁, Protocol.wp_rounds (I := Knows mask id n) (fun consumer w hknows => ?_) (fun consumer w => wp_tryDequeueMc) hknows⟩
  exact Protocol.wp_never fun s r => r.elim

end consumer

/-! ### Runs -/

section runs
variable [DecidableEq V] {mask : UInt32} {k : ℕ} {buffer : UInt32 → V} {h : List (RingEvent V)}
  {c : Config (CkRing V) RingThread (RingOp V) RingOp.Res (RingCall V) (RingResult V)}

theorem ring_kept (hmask : mask.toNat + 1 = 2 ^ k) : (ringProtocol mask).Kept (ringBody (V := V) mask) := by
  intro t call h s hinv hidle
  obtain ⟨hguards, hwait⟩ := ring_call (c := call) hinv hidle
  refine ⟨hguards, ?_⟩
  cases t with
  | producer => exact Protocol.wp_bind.mpr (Protocol.wp_mono (fun ok w => ring_returns) (wp_enqueue hmask hwait))
  | consumer id => exact Protocol.wp_bind.mpr (Protocol.wp_mono (fun entry w => ring_returns) (wp_dequeue hwait))

theorem ringState_init : RingState mask .zero (ckRingInit buffer) where
  head := rfl
  tail := rfl
  taken_le := le_rfl
  near := Nat.zero_le _
  slots k v _ hv := by cases hv
  queue := rfl

/-- A ring whose size is a power of two is a queue of one entry less, whoever calls it when. -/
theorem ckRing_linearizable (hmask : mask.toNat + 1 = 2 ^ k)
    (hrun : Interleaving (Outcome fun _ => RingOp.step) (ringBody mask) (ckRingInit buffer) h c) (htime : RingTimely mask h) :
    Linearizable (fifo mask.toNat) [] h := by
  have hinit : (ringProtocol mask).inv ([], ckRingInit buffer) := ⟨rfl, fun _ => ⟨ringState_init, fun t => ⟨none, .start⟩⟩⟩
  obtain ⟨⟨hturns, hright⟩, -⟩ := (ring_kept hmask).interleaving hinit (fun t _ => .start) hrun
  obtain ⟨hstate, hcalls⟩ := hright htime
  exact ⟨_, _, hturns, hstate.queue, hcalls⟩

end runs

/-! ### Other sizes

The lowest bit that `mask` does not have bounds the ring: while nothing is dequeued, the counter of the producer looks like that of
the consumers when it comes to this bit. -/

section sizes
variable {mask : UInt32} {j n : ℕ} {buffer : UInt32 → V} {entry : V} {h : List (RingEvent V)} {s : CkRing V}

theorem and_mask_of_lt (hbits : ∀ i < j, mask.toNat.testBit i = true) (hn : n < 2 ^ j) : n &&& mask.toNat = n := by
  refine Nat.eq_of_testBit_eq fun i => ?_
  rw [Nat.testBit_and]
  rcases lt_or_ge i j with hi | hi
  · rw [hbits i hi, Bool.and_true]
  · rw [Nat.testBit_lt_two_pow (hn.trans_le (Nat.pow_le_pow_right two_pos hi)), Bool.false_and]

/-- The lowest bit that is missing in a `mask`. -/
theorem exists_gap (hmask : ¬∃ k, mask.toNat + 1 = 2 ^ k) :
    ∃ j, (∀ i < j, mask.toNat.testBit i = true) ∧ mask.toNat.testBit j = false ∧ 2 ^ j ≤ mask.toNat ∧ j < 32 := by
  have hgap : ∃ j, mask.toNat.testBit j = false := ⟨32, Nat.testBit_lt_two_pow mask.toNat_lt⟩
  have hbits : ∀ i < Nat.find hgap, mask.toNat.testBit i = true := fun i hi => by
    simpa using Nat.find_min hgap hi
  have hle : 2 ^ Nat.find hgap ≤ mask.toNat := by
    by_contra hlt
    have hall : (2 ^ Nat.find hgap - 1) &&& mask.toNat = 2 ^ Nat.find hgap - 1 :=
      and_mask_of_lt hbits (Nat.sub_lt (Nat.two_pow_pos _) one_pos)
    rw [Nat.and_comm, Nat.and_two_pow_sub_one_of_lt_two_pow (not_le.mp hlt)] at hall
    have hpos := Nat.two_pow_pos (Nat.find hgap)
    exact hmask ⟨Nat.find hgap, by omega⟩
  exact ⟨_, hbits, Nat.find_spec hgap, hle, (Nat.pow_lt_pow_iff_right one_lt_two).mp (hle.trans_lt mask.toNat_lt)⟩

theorem toNat_counter_and (hn : n < 2 ^ 32) : (UInt32.ofNat n &&& mask).toNat = n &&& mask.toNat := by
  rw [UInt32.toNat_and, UInt32.toNat_ofNat', Nat.mod_eq_of_lt hn]

/-- The turns of the producer alone leave every consumer in time. -/
theorem timely_of_producer (hown : ∀ e ∈ h, e.thread = .producer) : RingTimely mask h := by
  induction h using List.reverseRecOn with
  | nil => exact id
  | append_singleton h e ih =>
    have htime := ih fun x hx => hown x (List.mem_append_left _ hx)
    have he : e.thread = .producer := hown e (List.mem_append_right _ (List.mem_singleton_self e))
    rw [RingTimely, ringAudit_snoc]
    show ¬((ringAudit mask h).note e).late
    unfold RingAudit.note
    split
    all_goals first | exact htime | cases he

/-- The producer alone. -/
theorem enqueue_solo : (ringBody mask .producer entry).solo RingOp.step s =
    if s.pTail + 1 &&& mask = s.cHead &&& mask then some (.enqueued false, s)
    else some (.enqueued true, { s with pTail := s.pTail + 1, buffer := Function.update s.buffer (s.pTail &&& mask) entry }) := by
  show (ckRingEnqueueSp mask entry >>= fun ok => pure (RingResult.enqueued ok)).solo RingOp.step s = _
  unfold ckRingEnqueueSp
  rw [solo_bind, solo_perform_bind (show RingOp.step loadCHead s = some (s.cHead, s) from rfl),
    solo_perform_bind (show RingOp.step loadPTail s = some (s.pTail, s) from rfl)]
  dsimp only
  split
  · rfl
  · rfl

/-- The producer fills the ring up to the gap in `mask`. -/
theorem exists_filled (hbits : ∀ i < j, mask.toNat.testBit i = true) (hj : j < 32) (hn : n < 2 ^ j) : ∃ h s,
    Interleaving (Outcome fun _ => RingOp.step) (ringBody mask) (ckRingInit buffer) h ⟨s, fun _ => none⟩ ∧
      (∀ e ∈ h, e.thread = .producer) ∧ s.cHead = 0 ∧ s.pTail = .ofNat n ∧
      h.filterMap (Event.returned .producer) = List.replicate n (entry, .enqueued true) := by
  induction n with
  | zero => exact ⟨[], ckRingInit buffer, .nil, fun e he => (List.not_mem_nil he).elim, rfl, rfl, rfl⟩
  | succ n ih =>
    obtain ⟨h, s, hrun, hown, hhead, htail, hreturned⟩ := ih (Nat.lt_of_succ_lt hn)
    have hroom : ¬(s.pTail + 1 &&& mask = s.cHead &&& mask) := by
      rw [htail, hhead, UInt32.zero_and, show UInt32.ofNat n + 1 = UInt32.ofNat (n + 1) from (UInt32.ofNat_add n 1).symm,
        ← UInt32.toNat_inj, toNat_counter_and (hn.trans (Nat.pow_lt_pow_right one_lt_two hj)), and_mask_of_lt hbits hn]
      exact Nat.succ_ne_zero n
    obtain ⟨l, hlast, hownl, hreturnedl⟩ := hrun.callAlone (t := .producer) rfl entry (enqueue_solo.trans (if_neg hroom))
    refine ⟨h ++ l, _, hlast, fun e he => (List.mem_append.mp he).elim (hown e) (hownl e), hhead, ?_, ?_⟩
    · show s.pTail + 1 = _
      rw [htail]
      exact (UInt32.ofNat_add n 1).symm
    · rw [List.filterMap_append, hreturned, hreturnedl, List.replicate_succ']

variable [DecidableEq V]

/-- A queue with room for more takes the entries. -/
theorem fifo_reads_replicate {capacity : ℕ} (hn : n ≤ capacity) :
    (fifo capacity).reads [] ((List.replicate n (entry, RingResult.enqueued true)).map fun r => ⟨.producer, r.1, r.2⟩) =
      some (List.replicate n entry) := by
  induction n with
  | zero => rfl
  | succ n ih =>
    rw [List.replicate_succ', List.map_append, List.map_singleton, Monitor.reads_snoc (ih (Nat.le_of_succ_le hn))]
    show (if true = decide ((List.replicate n entry).length < capacity) then some (List.replicate n entry ++ [entry]) else none) = _
    rw [List.length_replicate, decide_eq_true (Nat.lt_of_succ_le hn), if_pos rfl, List.replicate_succ']

/-- A ring of another size is full too early. -/
theorem ckRing_not_linearizable [Inhabited V] (hmask : ¬∃ k, mask.toNat + 1 = 2 ^ k) (buffer : UInt32 → V) : ∃ h c,
    Interleaving (Outcome fun _ => RingOp.step) (ringBody mask) (ckRingInit buffer) h c ∧ RingTimely mask h ∧
      ¬Linearizable (fifo mask.toNat) [] h := by
  obtain ⟨j, hbits, hgap, hle, hj⟩ := exists_gap hmask
  obtain ⟨h, s, hrun, hown, hhead, htail, hreturned⟩ :=
    @exists_filled _ mask j _ buffer default hbits hj (Nat.sub_lt (Nat.two_pow_pos j) one_pos)
  have hfull : s.pTail + 1 &&& mask = s.cHead &&& mask := by
    rw [htail, hhead, UInt32.zero_and, show UInt32.ofNat (2 ^ j - 1) + 1 = UInt32.ofNat (2 ^ j - 1 + 1) from
      (UInt32.ofNat_add _ 1).symm, Nat.sub_add_cancel (Nat.two_pow_pos j), ← UInt32.toNat_inj,
      toNat_counter_and (Nat.pow_lt_pow_right one_lt_two hj), Nat.and_comm, Nat.and_two_pow, hgap]
    exact Nat.zero_mul _
  obtain ⟨l, hlast, hownl, hreturnedl⟩ := hrun.callAlone (t := .producer) rfl default (enqueue_solo.trans (if_pos hfull))
  have hall : ∀ e ∈ h ++ l, e.thread = .producer := fun e he => (List.mem_append.mp he).elim (hown e) (hownl e)
  refine ⟨h ++ l, _, hlast, timely_of_producer hall, fun hlinear => ?_⟩
  obtain ⟨q, hq⟩ := hlinear.alone hall
  rw [List.filterMap_append, hreturned, hreturnedl, List.map_append, List.map_singleton,
    Monitor.reads_snoc (fifo_reads_replicate ((Nat.sub_le _ 1).trans hle))] at hq
  have hroom : (List.replicate (2 ^ j - 1) (default : V)).length < mask.toNat := by
    rw [List.length_replicate]
    exact (Nat.sub_lt (Nat.two_pow_pos j) one_pos).trans_le hle
  have hq : (if false = decide ((List.replicate (2 ^ j - 1) (default : V)).length < mask.toNat) then _ else none) = some q := hq
  rw [decide_eq_true hroom, if_neg nofun] at hq
  cases hq

/-- A ring is a queue of one entry less than its size, whoever calls it when, exactly if the size is a power of two. -/
theorem ckRing_linearizable_iff [Inhabited V] (mask : UInt32) (buffer : UInt32 → V) :
    (∀ h c, Interleaving (Outcome fun _ => RingOp.step) (ringBody mask) (ckRingInit buffer) h c → RingTimely mask h →
      Linearizable (fifo mask.toNat) [] h) ↔ ∃ k, mask.toNat + 1 = 2 ^ k := by
  constructor
  · intro hlinear
    by_contra hmask
    obtain ⟨h, c, hrun, htime, hnot⟩ := ckRing_not_linearizable hmask buffer
    exact hnot (hlinear h c hrun htime)
  · rintro ⟨k, hmask⟩ h c hrun htime
    exact ckRing_linearizable hmask hrun htime

-- `MAX_QUEUE_LEN` is a power of two.
example : ∃ k, (ckRingMask 131072).toNat + 1 = 2 ^ k := ⟨17, rfl⟩

end sizes

end NuKSM.Sysbench
