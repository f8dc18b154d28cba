import NuKSM.Lib.Thread

/-! # The turns of one thread

What is noted of the turns of each thread by itself adds up to what is noted of the whole run. -/

namespace NuKSM
variable {ι Op : Type} {Res : Op → Type} {Call : ι → Type} {α β : Type}

/-- The thread whose turn it is. -/
def Event.thread : Event ι Op Res Call α → ι
  | call t _ | act t _ _ | ret t _ _ => t

variable [DecidableEq ι] {t : ι} {h : List (Event ι Op Res Call α)} {e : Event ι Op Res Call α}

/-- The turns of a thread. -/
def turnsOf (t : ι) (h : List (Event ι Op Res Call α)) : List (Event ι Op Res Call α) := h.filter (·.thread = t)

theorem turnsOf_snoc_self (hturn : e.thread = t) : turnsOf t (h ++ [e]) = turnsOf t h ++ [e] := by
  unfold turnsOf
  simp [hturn]

theorem thread_of_mem_turnsOf (he : e ∈ turnsOf t h) : e.thread = t := by
  simpa using (List.mem_filter.mp he).2

theorem turnsOf_snoc_other (hturn : e.thread ≠ t) : turnsOf t (h ++ [e]) = turnsOf t h := by
  unfold turnsOf
  simp [hturn]

/-- A note about a turn of a thread is a note that the thread owns. -/
theorem filterMap_turnsOf {f : Event ι Op Res Call α → Option β} {owner : β → ι} (howner : ∀ e b, f e = some b → owner b = e.thread) :
    (turnsOf t h).filterMap f = (h.filterMap f).filter (owner · = t) := by
  induction h with
  | nil => rfl
  | cons e h ih =>
    have hcons : turnsOf t (e :: h) = if e.thread = t then e :: turnsOf t h else turnsOf t h := by
      unfold turnsOf
      rw [List.filter_cons]
      simp
    rw [hcons]
    cases hnote : f e with
    | none =>
      rw [List.filterMap_cons_none hnote, ← ih]
      split
      · exact List.filterMap_cons_none hnote
      · rfl
    | some b =>
      rw [List.filterMap_cons_some hnote, List.filter_cons, ← ih, howner e b hnote]
      by_cases hturn : e.thread = t
      · simp [hturn, hnote]
      · simp [hturn]

/-- Two kinds of notes agree if those of each thread do. -/
theorem perm_of_turnsOf [DecidableEq β] {f g : Event ι Op Res Call α → Option β} {owner : β → ι}
    (hf : ∀ e b, f e = some b → owner b = e.thread) (hg : ∀ e b, g e = some b → owner b = e.thread)
    (hturns : ∀ t, ((turnsOf t h).filterMap f).Perm ((turnsOf t h).filterMap g)) : (h.filterMap f).Perm (h.filterMap g) := by
  rw [List.perm_iff_count]
  intro b
  have hcount : ∀ notes : List β, (notes.filter (owner · = owner b)).count b = notes.count b := fun notes =>
    List.count_filter (decide_eq_true rfl)
  rw [← hcount, ← hcount (h.filterMap g), ← filterMap_turnsOf hf, ← filterMap_turnsOf hg]
  exact (hturns (owner b)).count_eq b

/-- A thread whose last turn is a return is in no call. -/
theorem Interleaving.running_eq_none {σ : Type} {exec : ι → (op : Op) → σ → Res op → σ → Prop}
    {body : (t : ι) → Call t → Thread Op Res α} {s₀ : σ} {k : Config σ ι Op Res Call α} {call : Call t} {a : α}
    (hrun : Interleaving exec body s₀ h k) (hlast : (turnsOf t h).getLast? = some (.ret t call a)) : k.running t = none := by
  induction hrun with
  | nil => rfl
  | @snoc h _ e _ _ hstep ih =>
    have hother : e.thread ≠ t → (turnsOf t h).getLast? = some (.ret t call a) := fun hne => by
      rwa [turnsOf_snoc_other hne] at hlast
    have hown : e.thread = t → e = .ret t call a := fun hturn => by
      rw [turnsOf_snoc_self hturn, List.getLast?_concat] at hlast
      exact Option.some.inj hlast
    cases hstep with
    | @call _ _ u _ _ =>
      rcases eq_or_ne t u with rfl | hne
      · cases hown rfl
      · exact (Function.update_of_ne hne ..).trans (ih (hother hne.symm))
    | @act _ _ _ u _ _ _ _ _ _ =>
      rcases eq_or_ne t u with rfl | hne
      · cases hown rfl
      · exact (Function.update_of_ne hne ..).trans (ih (hother hne.symm))
    | @ret _ _ u _ _ _ =>
      rcases eq_or_ne t u with rfl | hne
      · exact Function.update_self ..
      · exact (Function.update_of_ne hne ..).trans (ih (hother hne.symm))

end NuKSM
