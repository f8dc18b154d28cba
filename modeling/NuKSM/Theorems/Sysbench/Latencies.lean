import NuKSM.Sysbench.LatencyReport

/-! # Timers as summaries of latencies

The counters of a timer summarise a list of latencies, and merged timers summarise the lists one after the other. -/

namespace NuKSM.Sysbench

/-- The counters are the number and the sum of the latencies, the least and the greatest, up to `2 ^ 64`. -/
structure Summarizes (t : TimerField → UInt64) (l : List UInt64) : Prop where
  events : t .events = UInt64.ofNat l.length
  sum : t .sumTime = l.sum
  min_le : ∀ x ∈ l, t .minTime ≤ x
  min_mem : t .minTime ∈ l ∨ l = [] ∧ t .minTime = 18446744073709551615
  le_max : ∀ x ∈ l, x ≤ t .maxTime
  max_mem : t .maxTime ∈ l ∨ l = [] ∧ t .maxTime = 0

namespace Summarizes
variable {t t' : TimerField → UInt64} {l l' : List UInt64} {x : UInt64}

theorem init : Summarizes initCounts [] := ⟨rfl, rfl, nofun, Or.inr ⟨rfl, rfl⟩, nofun, Or.inr ⟨rfl, rfl⟩⟩

theorem congr (h : Summarizes t l) (ht : ∀ f, f ≠ .queueTime → t' f = t f) : Summarizes t' l := by
  obtain ⟨hevents, hsum, hminLe, hminMem, hleMax, hmaxMem⟩ := h
  rw [← ht .events (by decide)] at hevents
  rw [← ht .sumTime (by decide)] at hsum
  rw [← ht .minTime (by decide)] at hminLe hminMem
  rw [← ht .maxTime (by decide)] at hleMax hmaxMem
  exact ⟨hevents, hsum, hminLe, hminMem, hleMax, hmaxMem⟩

theorem perm (h : Summarizes t l) (hl : l.Perm l') : Summarizes t l' := by
  have hnil : l = [] → l' = [] := fun hnil => List.perm_nil.mp (hnil ▸ hl.symm)
  exact ⟨hl.length_eq ▸ h.events, hl.sum_eq ▸ h.sum, fun x hx => h.min_le x (hl.mem_iff.mpr hx),
    h.min_mem.imp hl.mem_iff.mp fun hand => ⟨hnil hand.1, hand.2⟩, fun x hx => h.le_max x (hl.mem_iff.mpr hx),
    h.max_mem.imp hl.mem_iff.mp fun hand => ⟨hnil hand.1, hand.2⟩⟩

theorem singleton (hevents : t .events = 1) (hsum : t .sumTime = x) (hmin : t .minTime = x) (hmax : t .maxTime = x) :
    Summarizes t [x] := by
  have hmem : ∀ y ∈ [x], y = x := fun y hy => List.mem_singleton.mp hy
  refine ⟨hevents, hsum.trans (List.sum_singleton ..).symm, fun y hy => ?_, Or.inl ?_, fun y hy => ?_, Or.inl ?_⟩
  · exact UInt64.le_of_eq (hmin.trans (hmem y hy).symm)
  · exact List.mem_singleton.mpr hmin
  · exact UInt64.le_of_eq ((hmem y hy).trans hmax.symm)
  · exact List.mem_singleton.mpr hmax

/-- Counters that add up, with the lesser least and the greater greatest latency, summarise both lists. -/
theorem append {r : TimerField → UInt64} (h : Summarizes t l) (h' : Summarizes t' l') (hevents : r .events = t .events + t' .events)
    (hsum : r .sumTime = t .sumTime + t' .sumTime)
    (hmin : r .minTime = t .minTime ∧ t .minTime ≤ t' .minTime ∨ r .minTime = t' .minTime ∧ t' .minTime ≤ t .minTime)
    (hmax : r .maxTime = t .maxTime ∧ t' .maxTime ≤ t .maxTime ∨ r .maxTime = t' .maxTime ∧ t .maxTime ≤ t' .maxTime) :
    Summarizes r (l ++ l') := by
  have htop : ∀ {y : UInt64}, 18446744073709551615 ≤ y → y = 18446744073709551615 := fun {y} hy =>
    UInt64.toNat_inj.mp (by
      have := UInt64.le_iff_toNat_le.mp hy
      have := y.toNat_lt
      rw [show (18446744073709551615 : UInt64).toNat = 18446744073709551615 from rfl] at *
      omega)
  have hbot : ∀ {y : UInt64}, y ≤ 0 → y = 0 := fun {y} hy =>
    UInt64.toNat_inj.mp (Nat.le_zero.mp (UInt64.le_iff_toNat_le.mp hy))
  have hnil : l = [] → l' = [] → l ++ l' = [] := fun hl hl' => List.append_eq_nil_iff.mpr ⟨hl, hl'⟩
  refine ⟨?_, ?_, fun y hy => ?_, ?_, fun y hy => ?_, ?_⟩
  · rw [hevents, h.events, h'.events, List.length_append, UInt64.ofNat_add]
  · rw [hsum, h.sum, h'.sum, List.sum_append]
  · rcases List.mem_append.mp hy with hy | hy
    · have := h.min_le y hy
      grind
    · have := h'.min_le y hy
      grind
  · rcases hmin with ⟨hr, hle⟩ | ⟨hr, hle⟩
    · rw [hr]
      rcases h.min_mem with hmem | ⟨hl, heq⟩
      · exact Or.inl (List.mem_append_left _ hmem)
      · rcases h'.min_mem with hmem' | ⟨hl', -⟩
        · rw [heq] at hle
          exact Or.inl (List.mem_append_right _ (by rwa [heq, ← htop hle]))
        · exact Or.inr ⟨hnil hl hl', heq⟩
    · rw [hr]
      rcases h'.min_mem with hmem' | ⟨hl', heq⟩
      · exact Or.inl (List.mem_append_right _ hmem')
      · rcases h.min_mem with hmem | ⟨hl, -⟩
        · rw [heq] at hle
          exact Or.inl (List.mem_append_left _ (by rwa [heq, ← htop hle]))
        · exact Or.inr ⟨hnil hl hl', heq⟩
  · rcases List.mem_append.mp hy with hy | hy
    · have := h.le_max y hy
      grind
    · have := h'.le_max y hy
      grind
  · rcases hmax with ⟨hr, hle⟩ | ⟨hr, hle⟩
    · rw [hr]
      rcases h.max_mem with hmem | ⟨hl, heq⟩
      · exact Or.inl (List.mem_append_left _ hmem)
      · rcases h'.max_mem with hmem' | ⟨hl', -⟩
        · rw [heq] at hle
          exact Or.inl (List.mem_append_right _ (by rwa [heq, ← hbot hle]))
        · exact Or.inr ⟨hnil hl hl', heq⟩
    · rw [hr]
      rcases h'.max_mem with hmem' | ⟨hl', heq⟩
      · exact Or.inl (List.mem_append_right _ hmem')
      · rcases h.max_mem with hmem | ⟨hl, -⟩
        · rw [heq] at hle
          exact Or.inl (List.mem_append_left _ (by rwa [heq, ← hbot hle]))
        · exact Or.inr ⟨hnil hl hl', heq⟩

/-- A latency is recorded. -/
theorem snoc (h : Summarizes t l) (hevents : t' .events = t .events + 1) (hsum : t' .sumTime = t .sumTime + x)
    (hmin : t' .minTime = if x < t .minTime then x else t .minTime)
    (hmax : t' .maxTime = if x > t .maxTime then x else t .maxTime) : Summarizes t' (l ++ [x]) := by
  have hone : Summarizes (fun f => if f = .events then 1 else x) [x] := singleton rfl rfl rfl rfl
  refine h.append hone hevents hsum ?_ ?_
  · rw [hmin]
    show _ ∧ t .minTime ≤ x ∨ _ = x ∧ x ≤ t .minTime
    split
    · exact Or.inr ⟨rfl, UInt64.le_of_lt ‹_›⟩
    · exact Or.inl ⟨rfl, UInt64.not_lt.mp ‹_›⟩
  · rw [hmax]
    show _ ∧ x ≤ t .maxTime ∨ _ = x ∧ t .maxTime ≤ x
    split
    · exact Or.inr ⟨rfl, UInt64.le_of_lt ‹_›⟩
    · exact Or.inl ⟨rfl, UInt64.not_lt.mp ‹_›⟩

theorem merge (h : Summarizes t l) (h' : Summarizes t' l') : Summarizes (sbTimerMerge t t') (l ++ l') := by
  refine h.append h' rfl rfl ?_ ?_
  · show (if t .minTime < t' .minTime then _ else _) = _ ∧ _ ∨ (if t .minTime < t' .minTime then _ else _) = _ ∧ _
    split
    · exact Or.inl ⟨rfl, UInt64.le_of_lt ‹_›⟩
    · exact Or.inr ⟨rfl, UInt64.not_lt.mp ‹_›⟩
  · show (if t .maxTime > t' .maxTime then _ else _) = _ ∧ _ ∨ (if t .maxTime > t' .maxTime then _ else _) = _ ∧ _
    split
    · exact Or.inl ⟨rfl, UInt64.le_of_lt ‹_›⟩
    · exact Or.inr ⟨rfl, UInt64.not_lt.mp ‹_›⟩

end Summarizes

/-! ### What a report says -/

/-- The number, the sum, the least, the greatest and the average of the latencies, where none of them gives zeros. -/
structure LatencyStat.Of (stat : LatencyStat) (l : List UInt64) : Prop where
  events : stat.events.toNat = l.length
  sum : stat.latencySum.toNat = (l.map UInt64.toNat).sum
  min : if l = [] then stat.latencyMin = 0 else stat.latencyMin ∈ l ∧ ∀ x ∈ l, stat.latencyMin ≤ x
  max : if l = [] then stat.latencyMax = 0 else stat.latencyMax ∈ l ∧ ∀ x ∈ l, x ≤ stat.latencyMax
  avg : stat.latencyAvg.toNat = if l = [] then 0 else (l.map UInt64.toNat).sum / l.length

theorem toNat_sum (l : List UInt64) : l.sum.toNat = (l.map UInt64.toNat).sum % 2 ^ 64 := by
  induction l with
  | nil => rfl
  | cons x l ih =>
    rw [List.sum_cons, UInt64.toNat_add, ih, List.map_cons, List.sum_cons, Nat.add_mod_mod]

/-- Where number and sum do not wrap, a report on a timer is one on the latencies that it summarises. -/
theorem Summarizes.stat {t : TimerField → UInt64} {l : List UInt64} (h : Summarizes t l) (hlength : l.length < 2 ^ 64)
    (hsum : (l.map UInt64.toNat).sum < 2 ^ 64) : (LatencyStat.of t).Of l := by
  have hevents : (t .events).toNat = l.length := by
    rw [h.events, UInt64.toNat_ofNat', Nat.mod_eq_of_lt hlength]
  have hsum' : (t .sumTime).toNat = (l.map UInt64.toNat).sum := by
    rw [h.sum, toNat_sum, Nat.mod_eq_of_lt hsum]
  have hzero : t .events = 0 ↔ l = [] := by
    rw [← UInt64.toNat_inj, hevents]
    exact List.length_eq_zero_iff
  refine ⟨hevents, hsum', ?_, ?_, ?_⟩
  · show if l = [] then (if t .events = 0 then 0 else t .minTime) = 0 else
      (if t .events = 0 then 0 else t .minTime) ∈ l ∧ ∀ x ∈ l, (if t .events = 0 then 0 else t .minTime) ≤ x
    split
    · exact if_pos (hzero.mpr ‹_›)
    · rename_i hne
      rw [if_neg fun h0 => hne (hzero.mp h0)]
      exact ⟨h.min_mem.resolve_right fun hand => hne hand.1, h.min_le⟩
  · show if l = [] then t .maxTime = 0 else t .maxTime ∈ l ∧ ∀ x ∈ l, x ≤ t .maxTime
    split
    · rename_i hnil
      exact (h.max_mem.resolve_left fun hmem => List.not_mem_nil (hnil ▸ hmem)).2
    · rename_i hne
      exact ⟨h.max_mem.resolve_right fun hand => hne hand.1, h.le_max⟩
  · show (if t .events = 0 then 0 else t .sumTime / t .events).toNat = _
    split
    · rw [if_pos (hzero.mp ‹_›)]
      rfl
    · rename_i hne
      rw [if_neg fun hnil => hne (hzero.mpr hnil), UInt64.toNat_div, hsum', hevents]

end NuKSM.Sysbench
