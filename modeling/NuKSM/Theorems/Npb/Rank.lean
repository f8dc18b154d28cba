import NuKSM.Theorems.Npb.Buckets

/-! # The ranks of the keys

However the keys and the buckets are shared out and whoever takes turns when, a parallel region leaves the number of keys that are
not greater than `k` for each `k`. -/

namespace NuKSM.Npb
open Thread CellM IsCell

/-! ### The first two loops -/

section loops
variable {cls : IsClass} {keys : ℕ → ℕ} {numThreads : ℕ} {σ : Sharing numThreads cls.numKeys} {s s' : IsMemory}
  {a : Fin numThreads → Unit}

theorem countFootprint_apart {t u : ℕ} (h : t ≠ u) : Disjoint (countFootprint cls t).writes (countFootprint cls u).reads := by
  rw [Set.disjoint_left]
  rintro c ⟨b, -, rfl⟩ (⟨b', -, hc⟩ | ⟨i, -, hc⟩)
  · exact h (IsCell.bucketSize.inj hc).1
  · cases hc

/-- The keys are counted. -/
theorem counted_of_teamRuns (hkeys : HasKeys cls keys s)
    (hrun : TeamRuns (fun t : Fin numThreads => countKeys cls t (σ.share t)) s a s') : Counted keys σ s' := by
  obtain ⟨hends, hkeeps⟩ := hrun.apart (fun t u h => @countFootprint_apart cls _ _ (Fin.val_injective.ne h)) fun t =>
    does_countKeys (t := t) hkeys fun i hi => σ.lt t.isLt hi
  refine ⟨⟨fun i hi => ?_, hkeys.lt⟩, fun t ht b hb => ?_⟩
  · rw [hkeeps (keyArray i) (fun t ⟨b, _, h⟩ => by cases h), hkeys.array i hi]
  · obtain ⟨v, hv, hsame⟩ := hends ⟨t, ht⟩
    rw [hsame (bucketSize t b) (Or.inl ⟨b, hb, rfl⟩)]
    exact hv b hb

theorem placeFootprint_apart {t u : ℕ} (ht : t < numThreads) (hu : u < numThreads) (h : t ≠ u) :
    Disjoint (placeFootprint keys σ t).writes (placeFootprint keys σ u).reads := by
  rw [Set.disjoint_left]
  rintro c (⟨b, -, rfl⟩ | ⟨b, -, j, hj, rfl⟩) ((⟨b', -, hc⟩ | ⟨b', -, j', hj', hc⟩) | (⟨i, -, hc⟩ | ⟨k, -, b', -, hc⟩))
  any_goals cases hc
  · exact h rfl
  · exact h (place_inj ht hu hj hj' (IsCell.keyBuff2.inj hc)).1

/-- The keys are in their buckets. -/
structure InBuckets (keys : ℕ → ℕ) (σ : Sharing numThreads cls.numKeys) (s : IsMemory) : Prop extends Counted keys σ s where
  buckets : ∀ b < cls.numBuckets, ∀ j v, (bucketList cls keys σ b)[j]? = some v → s (keyBuff2 (below cls keys b + j)) = v

theorem inBuckets_of_teamRuns (hcounted : Counted keys σ s)
    (hrun : TeamRuns (fun t : Fin numThreads => placeKeys cls numThreads t (σ.share t)) s a s') :
    InBuckets keys σ s' ∧ ∀ t < numThreads, ∀ b < cls.numBuckets, s' (bucketPtrs t b) = startOf cls keys σ (t + 1) b := by
  obtain ⟨hends, hkeeps⟩ := hrun.apart (fun t u h => placeFootprint_apart t.isLt u.isLt (Fin.val_injective.ne h)) fun t =>
    does_placeKeys hcounted t.isLt
  refine ⟨⟨⟨⟨fun i hi => ?_, hcounted.lt⟩, fun t ht b hb => ?_⟩, fun b hb j v hv => ?_⟩, fun t ht b hb => ?_⟩
  · rw [hkeeps (keyArray i), hcounted.array i hi]
    rintro t (⟨b, -, h⟩ | ⟨b, -, j, -, h⟩) <;> cases h
  · rw [hkeeps (bucketSize t b), hcounted.sizes t ht b hb]
    rintro t (⟨b, -, h⟩ | ⟨b, -, j, -, h⟩) <;> cases h
  · refine bucketList_place (fun t ht j v hv => ?_) hv
    obtain ⟨w, hw, hsame⟩ := hends ⟨t, ht⟩
    have hj : j < sizeOf cls keys σ t b := (List.getElem?_eq_some_iff.mp hv).1
    rw [hsame _ (Or.inl (Or.inr ⟨b, hb, j, hj, rfl⟩))]
    exact hw.placed b hb j v hv
  · obtain ⟨w, hw, hsame⟩ := hends ⟨t, ht⟩
    rw [hsame _ (Or.inl (Or.inl ⟨b, hb, rfl⟩)), hw.ptrs b hb, startOf_succ]
    rfl

end loops

/-! ### Ranks -/

section ranks
variable {cls : IsClass} {keys : ℕ → ℕ} {numThreads : ℕ} {σ : Sharing numThreads cls.numKeys} {b k : ℕ}

variable (cls keys) in
/-- How many keys are not greater than `k`. -/
def rankOf (k : ℕ) : ℕ := (keyList cls keys).countP (· ≤ k)

theorem mem_bucket_iff : k >>> cls.shift = b ↔ b * cls.numBucketKeys ≤ k ∧ k < b * cls.numBucketKeys + cls.numBucketKeys := by
  rw [Nat.shiftRight_eq_div_pow, Nat.div_eq_iff (Nat.two_pow_pos _), IsClass.numBucketKeys]
  have := Nat.two_pow_pos cls.shift
  omega

theorem key_bucket {v j : ℕ} (hv : (bucketList cls keys σ b)[j]? = some v) : v >>> cls.shift = b := by
  have hmem := bucketList_perm.subset (List.mem_of_getElem? hv)
  exact of_decide_eq_true (List.mem_filter.mp hmem).2

/-- The keys that are not greater than a key of bucket `b` are those of the buckets before it, and some of its own. -/
theorem rankOf_eq (hk : k >>> cls.shift = b) :
    rankOf cls keys k = below cls keys b + (bucketList cls keys σ b).countP (· ≤ k) := by
  rw [bucketList_perm.countP_eq, rankOf, below]
  subst hk
  induction keyList cls keys with
  | nil => rfl
  | cons v l ih =>
    have hmono : v ≤ k → v >>> cls.shift ≤ k >>> cls.shift := fun h => by
      rw [Nat.shiftRight_eq_div_pow, Nat.shiftRight_eq_div_pow]
      exact Nat.div_le_div_right h
    have hlt : v >>> cls.shift < k >>> cls.shift → v ≤ k := fun h => by
      by_contra hnot
      have : k >>> cls.shift ≤ v >>> cls.shift := by
        rw [Nat.shiftRight_eq_div_pow, Nat.shiftRight_eq_div_pow]
        exact Nat.div_le_div_right (by omega)
      omega
    rw [List.countP_cons, List.countP_cons, List.filter_cons, ih]
    simp only [decide_eq_true_eq]
    split
    case isTrue hle =>
      rcases (hmono hle).lt_or_eq with h | h
      · rw [if_pos h, if_neg h.ne]
        omega
      · rw [if_neg (by omega), if_pos h, List.countP_cons, decide_eq_true hle, if_pos rfl]
        omega
    case isFalse hgt =>
      rw [if_neg fun h => hgt (hlt h)]
      split
      · rw [List.countP_cons, decide_eq_false hgt, if_neg Bool.false_ne_true]
        omega
      · omega

theorem countP_le_succ {l : List ℕ} : l.countP (· ≤ k + 1) = l.countP (· ≤ k) + l.count (k + 1) := by
  induction l with
  | nil => rfl
  | cons v l ih =>
    rw [List.countP_cons, List.countP_cons, List.count_cons, ih]
    simp only [decide_eq_true_eq, beq_iff_eq]
    split <;> split <;> split <;> omega

/-- The smallest key of a bucket. -/
theorem countP_le_first : (bucketList cls keys σ b).countP (· ≤ b * cls.numBucketKeys) =
    (bucketList cls keys σ b).count (b * cls.numBucketKeys) := by
  refine List.countP_congr fun v hv => ?_
  obtain ⟨j, hj⟩ := List.mem_iff_getElem?.mp hv
  have := mem_bucket_iff.mp (key_bucket hj)
  simp only [decide_eq_true_eq, beq_iff_eq]
  omega

end ranks

/-! ### A bucket -/

section bucket
variable {cls : IsClass} {keys : ℕ → ℕ} {numThreads t b : ℕ} {σ : Sharing numThreads cls.numKeys} {s s' : IsMemory}

/-- The pointers of thread `t` are where the buckets end. -/
structure Bounded (keys : ℕ → ℕ) (σ : Sharing numThreads cls.numKeys) (t : ℕ) (s : IsMemory) : Prop extends InBuckets keys σ s where
  ptrs : ∀ b < cls.numBuckets, s (bucketPtrs t b) = below cls keys (b + 1)

/-- Only the part of `key_buff1` that belongs to bucket `b` is different. -/
def Away (cls : IsClass) (b : ℕ) (s s' : IsMemory) : Prop := ∀ c, (∀ k, k >>> cls.shift = b → c ≠ keyBuff1 k) → s' c = s c

theorem Away.refl : Away cls b s s := fun _ _ => rfl

theorem Away.update {k x : ℕ} (h : Away cls b s s') (hk : k >>> cls.shift = b) : Away cls b s (Function.update s' (keyBuff1 k) x) :=
  fun c hc => (Function.update_of_ne (hc k hk) ..).trans (h c hc)

theorem Bounded.away (h : Bounded keys σ t s) (haway : Away cls b s s') : Bounded keys σ t s' := by
  refine ⟨⟨⟨⟨fun i hi => ?_, h.lt⟩, fun u hu b' hb' => ?_⟩, fun b' hb' j v hv => ?_⟩, fun b' hb' => ?_⟩
  · exact (haway (keyArray i) fun _ _ => nofun).trans (h.array i hi)
  · exact (haway (bucketSize u b') fun _ _ => nofun).trans (h.sizes u hu b' hb')
  · exact (haway (keyBuff2 _) fun _ _ => nofun).trans (h.buckets b' hb' j v hv)
  · exact (haway (bucketPtrs t b') fun _ _ => nofun).trans (h.ptrs b' hb')

variable (cls numThreads t) in
def rankFootprint (share : List ℕ) : Footprint IsCell where
  writes := {c | (∃ b < cls.numBuckets, c = bucketPtrs t b) ∨ ∃ k, k >>> cls.shift ∈ share ∧ c = keyBuff1 k}
  reads := {c | (∃ b < cls.numBuckets, c = bucketPtrs t b) ∨ ∃ k, k >>> cls.shift ∈ share ∧ c = keyBuff1 k} ∪
    {c | (∃ p < cls.numKeys, c = keyBuff2 p) ∨ ∃ k < numThreads, ∃ b < cls.numBuckets, c = bucketSize k b}
  writes_reads := Set.subset_union_left

theorem does_bucketStart {F : Footprint IsCell} {Q : ℕ → IsMemory → Prop} (hptrs : ∀ b < cls.numBuckets, s (bucketPtrs t b) = below cls keys (b + 1))
    (hb : b < cls.numBuckets) (hreads : ∀ b < cls.numBuckets, bucketPtrs t b ∈ F.reads) (h : Q (below cls keys b) s) :
    Does F (bucketStart t b) Q s := by
  unfold bucketStart
  split
  case isTrue hpos =>
    refine ⟨hreads (b - 1) (by omega), ?_⟩
    rw [hptrs (b - 1) (by omega), Nat.sub_add_cancel hpos]
    exact h
  case isFalse hzero =>
    obtain rfl : b = 0 := by omega
    rw [below_zero] at h
    exact h

/-- The bucket has its keys between its pointers. -/
theorem length_bucketList : below cls keys (b + 1) - below cls keys b = (bucketList cls keys σ b).length := by
  rw [below_succ_eq, bucketList_perm.length_eq, Nat.add_sub_cancel_left]

theorem place_lt_numKeys {j : ℕ} (hj : j < (bucketList cls keys σ b).length) : below cls keys b + j < cls.numKeys := by
  rw [← length_bucketList] at hj
  have := @below_le cls keys (b + 1)
  omega

theorem first_bucket (cls : IsClass) (b : ℕ) : (b * cls.numBucketKeys) >>> cls.shift = b := by
  have : 0 < cls.numBucketKeys := Nat.two_pow_pos _
  exact mem_bucket_iff.mpr ⟨le_rfl, by omega⟩

theorem does_rankBucket {share : List ℕ} (hb : b < cls.numBuckets) (hmem : b ∈ share) (hbounded : Bounded keys σ t s) :
    Does (rankFootprint cls numThreads t share) (rankBucket cls t b)
      (fun _ s' => Away cls b s s' ∧ ∀ k, k >>> cls.shift = b → s' (keyBuff1 k) = rankOf cls keys k) s := by
  set L := bucketList cls keys σ b with hL
  have hwrites : ∀ {k}, k >>> cls.shift = b → keyBuff1 k ∈ (rankFootprint cls numThreads t share).writes := fun hk =>
    Or.inr ⟨_, hk ▸ hmem, rfl⟩
  have hfirst := first_bucket cls b
  have hpos : 0 < cls.numBucketKeys := Nat.two_pow_pos _
  -- The part of the work array is cleared.
  refine Does.bind (Does.mono (fun _ s₁ hs₁ => ?_) (Does.loopUp
    (I := fun n _ s' => Away cls b s s' ∧ ∀ k, k >>> cls.shift = b → k < n → s' (keyBuff1 k) = 0)
    ⟨.refl, fun k hk hlt => absurd (mem_bucket_iff.mp hk).1 (by omega)⟩ ?_))
  swap
  · rintro n - s' hlo hn ⟨haway, hzero⟩
    have hbucket : n >>> cls.shift = b := mem_bucket_iff.mpr ⟨hlo, hn⟩
    refine Does.store (hwrites hbucket) ⟨haway.update hbucket, fun k hk hlt => ?_⟩
    rcases eq_or_ne k n with rfl | hne
    · exact Function.update_self ..
    · rw [Function.update_of_ne (fun h => hne (IsCell.keyBuff1.inj h))]
      exact hzero k hk (by omega)
  obtain ⟨haway₁, hzero⟩ := hs₁
  have hbounded₁ := hbounded.away haway₁
  refine Does.bind (does_bucketStart hbounded₁.ptrs hb (fun b hb => Or.inl (Or.inl ⟨b, hb, rfl⟩)) ?_)
  refine Does.load_bind (Or.inl (Or.inl ⟨b, hb, rfl⟩)) ?_
  rw [hbounded₁.ptrs b hb, length_bucketList (σ := σ), ← hL]
  -- Each key of the bucket is counted.
  refine Does.bind (Does.mono (fun _ s₂ hs₂ => ?_) (Does.loopUp
    (I := fun n _ s' => Away cls b s s' ∧ ∀ k, k >>> cls.shift = b →
      s' (keyBuff1 k) = (L.take (n - below cls keys b)).count k)
    ⟨haway₁, fun k hk => by
      rw [Nat.sub_self, List.take_zero, List.count_nil]
      exact hzero k hk (mem_bucket_iff.mp hk).2⟩ ?_))
  swap
  · rintro n - s' hlo hn ⟨haway, hcounts⟩
    obtain ⟨j, rfl⟩ : ∃ j, n = below cls keys b + j := ⟨n - below cls keys b, by omega⟩
    have hj : j < L.length := by omega
    have hget : L[j]? = some L[j] := List.getElem?_eq_getElem hj
    have hbucket : L[j] >>> cls.shift = b := key_bucket hget
    refine Does.load_bind (Or.inr (Or.inl ⟨_, place_lt_numKeys hj, rfl⟩)) ?_
    rw [(hbounded.away haway).buckets b hb j _ hget]
    refine does_addTo (hwrites hbucket) ⟨haway.update hbucket, fun k hk => ?_⟩
    rw [Nat.add_assoc, Nat.add_sub_cancel_left, List.take_add_one, hget, List.count_append, Option.toList_some, List.count_singleton]
    have hcount := hcounts k hk
    rw [Nat.add_sub_cancel_left] at hcount
    rcases eq_or_ne k L[j] with rfl | hne
    · rw [Function.update_self, hcount, beq_self_eq_true, if_pos rfl]
    · rw [Function.update_of_ne (fun h => hne (IsCell.keyBuff1.inj h)), hcount, if_neg (by simpa using hne.symm), Nat.add_zero]
  rw [Nat.add_sub_cancel_left, List.take_length] at hs₂
  obtain ⟨haway₂, hcounts⟩ := hs₂
  refine Does.bind (does_addTo (hwrites hfirst) ?_)
  -- The counts are summed up.
  refine Does.mono (fun _ s₃ hs₃ => ⟨hs₃.1, fun k hk => ?_⟩) (Does.loopUp
    (I := fun n _ s' => Away cls b s s' ∧ ∀ k, k >>> cls.shift = b →
      s' (keyBuff1 k) = if k < n then rankOf cls keys k else L.count k)
    ⟨haway₂.update hfirst, fun k hk => ?_⟩ ?_)
  · have hlo := (mem_bucket_iff.mp hk).1
    rcases eq_or_ne k (b * cls.numBucketKeys) with rfl | hne
    · rw [Function.update_self, if_pos (by omega), hcounts _ hfirst, rankOf_eq (σ := σ) hfirst, countP_le_first, Nat.add_comm]
    · rw [Function.update_of_ne (fun h => hne (IsCell.keyBuff1.inj h)), if_neg (by omega)]
      exact hcounts k hk
  · rintro n - s' hlo hn ⟨haway, hranks⟩
    obtain ⟨k₀, rfl⟩ : ∃ k, n = k + 1 := ⟨n - 1, by omega⟩
    have hprev : k₀ >>> cls.shift = b := mem_bucket_iff.mpr ⟨by omega, by omega⟩
    have hbucket : (k₀ + 1) >>> cls.shift = b := mem_bucket_iff.mpr ⟨by omega, by omega⟩
    refine Does.load_bind ((rankFootprint cls numThreads t share).writes_reads (hwrites hprev)) (does_addTo (hwrites hbucket)
      ⟨haway.update hbucket, fun k hk => ?_⟩)
    rcases eq_or_ne k (k₀ + 1) with rfl | hne
    · rw [Function.update_self, Nat.add_sub_cancel, hranks _ hbucket, hranks _ hprev, if_neg (by omega), if_pos (by omega),
        if_pos (by omega), rankOf_eq (σ := σ) hbucket, rankOf_eq (σ := σ) hprev, countP_le_succ, ← hL]
      omega
    · rw [Function.update_of_ne (fun h => hne (IsCell.keyBuff1.inj h)), hranks k hk]
      by_cases hlt : k < k₀ + 1
      · rw [if_pos hlt, if_pos (by omega)]
      · rw [if_neg hlt, if_neg (by omega)]
  · have hrank := hs₃.2 k hk
    rwa [if_pos (by have := (mem_bucket_iff.mp hk).2; omega)] at hrank

end bucket

/-! ### All buckets -/

section region
variable {cls : IsClass} {keys : ℕ → ℕ} {numThreads t b : ℕ} {σ : Sharing numThreads cls.numKeys} {s s' : IsMemory}

theorem Sharing.disjoint {n i u : ℕ} (δ : Sharing numThreads n) (ht : t < numThreads) (hu : u < numThreads) (hne : t ≠ u)
    (hi : i ∈ δ.share t) : i ∉ δ.share u := by
  have hnodup := δ.all.nodup_iff.mpr List.nodup_range
  have : Std.Symm (Function.onFun List.Disjoint δ.share) := ⟨fun _ _ h => h.symm⟩
  exact (List.nodup_flatMap.mp hnodup).2.forall (List.mem_range.mpr ht) (List.mem_range.mpr hu) hne hi

theorem Sharing.exists {n i : ℕ} (δ : Sharing numThreads n) (hi : i < n) : ∃ t < numThreads, i ∈ δ.share t := by
  obtain ⟨t, ht, hmem⟩ := List.mem_flatMap.mp (δ.all.symm.subset (List.mem_range.mpr hi))
  exact ⟨t, List.mem_range.mp ht, hmem⟩

theorem InBuckets.update_ptr {x : ℕ} (h : InBuckets keys σ s) : InBuckets keys σ (Function.update s (bucketPtrs t b) x) := by
  refine ⟨h.toCounted.update (fun _ => nofun) fun _ _ => nofun, fun b' hb' j v hv => ?_⟩
  rw [Function.update_of_ne (show keyBuff2 _ ≠ bucketPtrs t b from nofun)]
  exact h.buckets b' hb' j v hv

theorem does_finishPtrs {share : List ℕ} (ht : t < numThreads) (hplaced : InBuckets keys σ s)
    (hptrs : ∀ b < cls.numBuckets, s (bucketPtrs t b) = startOf cls keys σ (t + 1) b) :
    Does (rankFootprint cls numThreads t share) (finishPtrs cls numThreads t) (fun _ => Bounded keys σ t) s := by
  unfold finishPtrs onlyIf
  split
  case isFalse hlast =>
    refine ⟨hplaced, fun b hb => ?_⟩
    rw [hptrs b hb, show t + 1 = numThreads by omega, startOf_last]
  case isTrue hmore =>
    refine Does.mono (fun _ s' hs' => ⟨hs'.1, fun b hb => ?_⟩) (Does.loopUp
      (I := fun n _ s' => InBuckets keys σ s' ∧ ∀ b < cls.numBuckets,
        s' (bucketPtrs t b) = if b < n then below cls keys (b + 1) else startOf cls keys σ (t + 1) b)
      ⟨hplaced, fun b hb => by rw [if_neg (by omega)]; exact hptrs b hb⟩ ?_)
    · rintro n - s' - hn ⟨hplaced', hptrs'⟩
      refine does_addSizes (Or.inl ⟨n, by omega, rfl⟩) (fun _ => nofun)
        (fun k _ hk => Or.inr (Or.inr ⟨k, by omega, n, by omega, rfl⟩)) ⟨hplaced'.update_ptr, fun b hb => ?_⟩
      rcases eq_or_ne b n with rfl | hne
      · rw [Function.update_self, hptrs' b hb, if_neg (by omega), if_pos (by omega), hplaced'.sum_sizes hb (by omega), startOf,
          below_succ (σ := σ), sum_sizes_split (t := t + 1) ht, Nat.add_assoc]
      · rw [Function.update_of_ne (fun h => hne (IsCell.bucketPtrs.inj h).2), hptrs' b hb]
        by_cases hlt : b < n
        · rw [if_pos hlt, if_pos (by omega)]
        · rw [if_neg hlt, if_neg (by omega)]
    · have hptr := hs'.2 b hb
      rwa [if_pos (by omega)] at hptr

/-- Each thread ranks the keys of its buckets. -/
theorem does_rankBuckets {share : List ℕ} (ht : t < numThreads) (hshare : ∀ b ∈ share, b < cls.numBuckets)
    (hplaced : InBuckets keys σ s) (hptrs : ∀ b < cls.numBuckets, s (bucketPtrs t b) = startOf cls keys σ (t + 1) b) :
    Does (rankFootprint cls numThreads t share) (rankBuckets cls numThreads t share)
      (fun _ s' => Bounded keys σ t s' ∧ ∀ k, k >>> cls.shift ∈ share → s' (keyBuff1 k) = rankOf cls keys k) s := by
  refine Does.bind (Does.mono (fun _ s₁ hbounded => ?_) (does_finishPtrs ht hplaced hptrs))
  refine Does.forEach
    (I := fun past s' => Bounded keys σ t s' ∧ ∀ k, k >>> cls.shift ∈ past → s' (keyBuff1 k) = rankOf cls keys k)
    ⟨hbounded, fun k hk => absurd hk List.not_mem_nil⟩ ?_
  rintro past b rest s' hrest ⟨hbounded', hranks⟩
  have hmem : b ∈ share := by
    rw [hrest]
    simp
  refine Does.mono (fun _ s'' hs'' => ⟨hbounded'.away hs''.1, fun k hk => ?_⟩) (does_rankBucket (hshare b hmem) hmem hbounded')
  by_cases hbucket : k >>> cls.shift = b
  · exact hs''.2 k hbucket
  · rw [hs''.1 (keyBuff1 k) fun k' hk' h => hbucket (IsCell.keyBuff1.inj h ▸ hk')]
    exact hranks k ((List.mem_append.mp hk).resolve_right fun h => hbucket (List.mem_singleton.mp h))

theorem rankFootprint_apart {n u : ℕ} (δ : Sharing numThreads n) (ht : t < numThreads) (hu : u < numThreads) (h : t ≠ u) :
    Disjoint (rankFootprint cls numThreads t (δ.share t)).writes (rankFootprint cls numThreads u (δ.share u)).reads := by
  rw [Set.disjoint_left]
  rintro c (⟨b, -, rfl⟩ | ⟨k, hk, rfl⟩) ((⟨b', -, hc⟩ | ⟨k', hk', hc⟩) | (⟨p, -, hc⟩ | ⟨k', -, b', -, hc⟩))
  any_goals cases hc
  · exact h rfl
  · exact δ.disjoint ht hu h hk hk'

/-- What `rank` leaves for `full_verify`: the ranks of all keys, and the keys in their buckets, which each thread knows the ends of. -/
structure Ranked (cls : IsClass) (numThreads : ℕ) (keys : ℕ → ℕ) (s : IsMemory) : Prop extends HasKeys cls keys s where
  ranks : ∀ k < cls.maxKey, s (keyBuff1 k) = rankOf cls keys k
  ptrs : ∀ t < numThreads, ∀ b < cls.numBuckets, s (bucketPtrs t b) = below cls keys (b + 1)
  buckets : ∃ L : ℕ → List ℕ, ∀ b < cls.numBuckets, (L b).Perm ((keyList cls keys).filter (· >>> cls.shift = b)) ∧
    ∀ j v, (L b)[j]? = some v → s (keyBuff2 (below cls keys b + j)) = v

/-- Whatever the number of threads and the order of their turns, they rank the keys. -/
theorem ranked_of_region (hkeys : HasKeys cls keys s) (hrun : RankRegion cls numThreads s s') : Ranked cls numThreads keys s' := by
  obtain ⟨σ, δ, s₁, s₂, a₁, a₂, a₃, hrun₁, hrun₂, hrun₃⟩ := hrun
  have hcounted := counted_of_teamRuns hkeys hrun₁
  obtain ⟨hplaced, hptrs⟩ := inBuckets_of_teamRuns hcounted hrun₂
  obtain ⟨hends, hkeeps⟩ := hrun₃.apart (fun t u h => @rankFootprint_apart cls _ _ _ _ δ t.isLt u.isLt (Fin.val_injective.ne h))
    fun t => does_rankBuckets t.isLt (fun b hb => δ.lt t.isLt hb) hplaced (hptrs t t.isLt)
  refine ⟨⟨fun i hi => ?_, hkeys.lt⟩, fun k hk => ?_, fun t ht b hb => ?_, bucketList cls keys σ, fun b hb =>
    ⟨bucketList_perm, fun j v hv => ?_⟩⟩
  · rw [hkeeps (keyArray i), hplaced.array i hi]
    rintro t (⟨b, -, h⟩ | ⟨k, -, h⟩) <;> cases h
  · obtain ⟨t, ht, hmem⟩ := δ.exists (bucket_lt hk)
    obtain ⟨v, ⟨-, hranks⟩, hsame⟩ := hends ⟨t, ht⟩
    rw [hsame _ (Or.inl (Or.inr ⟨k, hmem, rfl⟩))]
    exact hranks k hmem
  · obtain ⟨v, ⟨hbounded, -⟩, hsame⟩ := hends ⟨t, ht⟩
    rw [hsame _ (Or.inl (Or.inl ⟨b, hb, rfl⟩))]
    exact hbounded.ptrs b hb
  · rw [hkeeps (keyBuff2 _), hplaced.buckets b hb j v hv]
    rintro t (⟨b, -, h⟩ | ⟨k, -, h⟩) <;> cases h

end region

end NuKSM.Npb
