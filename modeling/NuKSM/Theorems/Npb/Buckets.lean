import NuKSM.Npb.Rank

/-! # The keys of each bucket

Each thread counts its keys in each bucket, and from the counts of all threads it has a stretch of `key_buff2` in each bucket that
no other thread has. Together the stretches are as many places as there are keys, in the order of the buckets. -/

namespace NuKSM.Npb
open Thread CellM IsCell

/-! ### Sizes and starts -/

section sizes
variable (cls : IsClass) (keys : ℕ → ℕ) {numThreads : ℕ} (σ : Sharing numThreads cls.numKeys)

/-- The keys of some iterations that are in bucket `b`. -/
def bucketKeys (share : List ℕ) (b : ℕ) : List ℕ := (share.map keys).filter (· >>> cls.shift = b)

/-- All keys. -/
def keyList : List ℕ := (List.range cls.numKeys).map keys

/-- The number of keys in the buckets before `b`. -/
def below (b : ℕ) : ℕ := (keyList cls keys).countP (· >>> cls.shift < b)

/-- The keys of thread `t` in bucket `b`. -/
def sizeOf (t b : ℕ) : ℕ := (bucketKeys cls keys (σ.share t) b).length

/-- Where they start. -/
def startOf (t b : ℕ) : ℕ := below cls keys b + ∑ k ∈ Finset.range t, sizeOf cls keys σ k b

/-- The keys of bucket `b` in the order of the threads. -/
def bucketList (b : ℕ) : List ℕ := (List.range numThreads).flatMap fun t => bucketKeys cls keys (σ.share t) b

variable {cls keys σ} {b b' t u j j' : ℕ}

@[simp] theorem bucketKeys_append (share share' : List ℕ) :
    bucketKeys cls keys (share ++ share') b = bucketKeys cls keys share b ++ bucketKeys cls keys share' b := by
  rw [bucketKeys, List.map_append, List.filter_append]
  rfl

theorem bucketKeys_singleton (i : ℕ) :
    bucketKeys cls keys [i] b = if keys i >>> cls.shift = b then [keys i] else [] := by
  rw [bucketKeys, List.map_singleton, List.filter_singleton]
  simp

theorem bucketKeys_flatMap (l : List ℕ) (share : ℕ → List ℕ) :
    bucketKeys cls keys (l.flatMap share) b = l.flatMap fun t => bucketKeys cls keys (share t) b := by
  induction l with
  | nil => rfl
  | cons t l ih => rw [List.flatMap_cons, bucketKeys_append, ih, List.flatMap_cons]

/-- However the keys are shared out, a bucket gets the same ones. -/
theorem bucketList_perm : (bucketList cls keys σ b).Perm ((keyList cls keys).filter (· >>> cls.shift = b)) := by
  rw [bucketList, ← bucketKeys_flatMap]
  exact (σ.all.map keys).filter _

theorem length_flatMap_bucketKeys (n : ℕ) :
    ((List.range n).flatMap fun t => bucketKeys cls keys (σ.share t) b).length = ∑ k ∈ Finset.range n, sizeOf cls keys σ k b := by
  induction n with
  | zero => rfl
  | succ n ih =>
    rw [List.range_succ, List.flatMap_append, List.flatMap_singleton, List.length_append, ih, Finset.sum_range_succ]
    rfl

theorem below_succ_eq : below cls keys (b + 1) = below cls keys b + ((keyList cls keys).filter (· >>> cls.shift = b)).length := by
  unfold below
  induction keyList cls keys with
  | nil => rfl
  | cons k l ih =>
    rw [List.countP_cons, List.countP_cons, List.filter_cons, ih]
    simp only [decide_eq_true_eq]
    split <;> split <;> split
    all_goals first | omega | (rw [List.length_cons]; omega)

theorem below_succ : below cls keys (b + 1) = below cls keys b + ∑ k ∈ Finset.range numThreads, sizeOf cls keys σ k b := by
  rw [below_succ_eq, ← (bucketList_perm (σ := σ)).length_eq, bucketList, length_flatMap_bucketKeys]

theorem below_mono (h : b ≤ b') : below cls keys b ≤ below cls keys b' := by
  refine List.countP_mono_left fun k _ hk => ?_
  rw [decide_eq_true_eq] at hk ⊢
  omega

theorem below_zero : below cls keys 0 = 0 := List.countP_eq_zero.mpr fun _ _ hk => absurd (of_decide_eq_true hk) (Nat.not_lt_zero _)

theorem below_le (b : ℕ) : below cls keys b ≤ cls.numKeys := by
  refine List.countP_le_length.trans_eq ?_
  rw [keyList, List.length_map, List.length_range]

theorem startOf_zero : startOf cls keys σ 0 b = below cls keys b := Nat.add_zero _

theorem startOf_succ : startOf cls keys σ (t + 1) b = startOf cls keys σ t b + sizeOf cls keys σ t b := by
  rw [startOf, Finset.sum_range_succ, ← Nat.add_assoc]
  rfl

theorem startOf_last : startOf cls keys σ numThreads b = below cls keys (b + 1) := below_succ.symm

theorem startOf_mono (h : t ≤ u) : startOf cls keys σ t b ≤ startOf cls keys σ u b :=
  Nat.add_le_add_left (Finset.sum_le_sum_of_subset (Finset.range_mono h)) _

/-- The stretch of a thread in a bucket ends before that of a later thread, or in a later bucket. -/
theorem stretch_le (ht : t < numThreads) (h : b < b' ∨ b = b' ∧ t < u) :
    startOf cls keys σ t b + sizeOf cls keys σ t b ≤ startOf cls keys σ u b' := by
  rw [← startOf_succ]
  rcases h with hb | ⟨rfl, htu⟩
  · calc startOf cls keys σ (t + 1) b ≤ startOf cls keys σ numThreads b := startOf_mono ht
      _ = below cls keys (b + 1) := startOf_last
      _ ≤ below cls keys b' := below_mono hb
      _ ≤ startOf cls keys σ u b' := Nat.le_add_right ..
  · exact startOf_mono htu

/-- Each place belongs to one key of one thread. -/
theorem place_inj (ht : t < numThreads) (hu : u < numThreads) (hj : j < sizeOf cls keys σ t b) (hj' : j' < sizeOf cls keys σ u b')
    (h : startOf cls keys σ t b + j = startOf cls keys σ u b' + j') : t = u ∧ b = b' ∧ j = j' := by
  have hbefore := @stretch_le cls keys numThreads σ b b' _ u ht
  have hafter := @stretch_le cls keys numThreads σ b' b _ t hu
  obtain rfl : b = b' := by
    rcases lt_trichotomy b b' with hb | hb | hb
    · have := hbefore (Or.inl hb)
      omega
    · exact hb
    · have := hafter (Or.inl hb)
      omega
  obtain rfl : t = u := by
    rcases lt_trichotomy t u with htu | htu | htu
    · have := hbefore (Or.inr ⟨rfl, htu⟩)
      omega
    · exact htu
    · have := hafter (Or.inr ⟨rfl, htu⟩)
      omega
  exact ⟨rfl, rfl, by omega⟩

theorem place_lt (ht : t < numThreads) (hj : j < sizeOf cls keys σ t b) : startOf cls keys σ t b + j < cls.numKeys := by
  have hstretch := @stretch_le cls keys numThreads σ _ _ _ 0 ht (Or.inl (Nat.lt_add_one b))
  rw [startOf_zero] at hstretch
  have := @below_le cls keys (b + 1)
  omega

/-- The keys of a bucket follow each other. -/
theorem bucketList_place {s : IsMemory}
    (h : ∀ t < numThreads, ∀ j v, (bucketKeys cls keys (σ.share t) b)[j]? = some v → s (keyBuff2 (startOf cls keys σ t b + j)) = v)
    {v : ℕ} (hv : (bucketList cls keys σ b)[j]? = some v) : s (keyBuff2 (below cls keys b + j)) = v := by
  suffices hpart : ∀ n ≤ numThreads, ∀ j v, ((List.range n).flatMap fun t => bucketKeys cls keys (σ.share t) b)[j]? = some v →
      s (keyBuff2 (below cls keys b + j)) = v from hpart numThreads le_rfl j v hv
  intro n
  induction n with
  | zero => exact fun _ j v hv => by cases hv
  | succ n ih =>
    intro hn j v hv
    rw [List.range_succ, List.flatMap_append, List.flatMap_singleton, List.getElem?_append, length_flatMap_bucketKeys] at hv
    split at hv
    · exact ih (by omega) j v hv
    · have hplace := h n (by omega) _ v hv
      rwa [startOf, Nat.add_assoc, Nat.add_sub_cancel' (by omega)] at hplace

end sizes

/-! ### Sums -/

section sums
variable {F : Footprint IsCell} {c : IsCell} {i lo n : ℕ} {Q : Unit → IsMemory → Prop} {s : IsMemory}

theorem does_addTo (hc : c ∈ F.writes) (h : Q () (Function.update s c (s c + n))) : Does F (addTo c n) Q s :=
  Does.load_bind (F.writes_reads hc) (Does.store hc h)

theorem does_addSizes (hc : c ∈ F.writes) (hne : ∀ k, bucketSize k i ≠ c)
    (hreads : ∀ k, lo ≤ k → k < lo + n → bucketSize k i ∈ F.reads)
    (h : Q () (Function.update s c (s c + ∑ k ∈ Finset.range n, s (bucketSize (lo + k) i)))) : Does F (addSizes c i lo n) Q s := by
  refine Does.mono (fun _ s' hs' => ?_) (Does.loopUp
    (I := fun k _ s' => s' = Function.update s c (s c + ∑ j ∈ Finset.range (k - lo), s (bucketSize (lo + j) i))) ?_ ?_)
  · rw [Nat.add_sub_cancel_left] at hs'
    exact hs' ▸ h
  · rw [Nat.sub_self, Finset.sum_range_zero, Nat.add_zero, Function.update_eq_self]
  · rintro k - s' hlo hk rfl
    refine Does.load_bind (hreads k hlo hk) (does_addTo hc ?_)
    rw [Function.update_of_ne (hne k), Function.update_self, Function.update_idem, show k + 1 - lo = k - lo + 1 by omega,
      Finset.sum_range_succ, Nat.add_sub_cancel' hlo, Nat.add_assoc]

end sums

/-! ### The counts of a thread -/

section count
variable {cls : IsClass} {keys : ℕ → ℕ} {t b : ℕ} {share : List ℕ} {s : IsMemory}

theorem numBucketsLog2_le (cls : IsClass) : cls.numBucketsLog2 ≤ cls.maxKeyLog2 := by
  cases cls <;> decide

theorem bucket_lt {k : ℕ} (hk : k < cls.maxKey) : k >>> cls.shift < cls.numBuckets := by
  rw [Nat.shiftRight_eq_div_pow, Nat.div_lt_iff_lt_mul (Nat.two_pow_pos _), IsClass.numBuckets, IsClass.shift, ← Nat.pow_add,
    Nat.add_sub_cancel' (numBucketsLog2_le cls)]
  exact hk

theorem Sharing.lt {numThreads n i : ℕ} (σ : Sharing numThreads n) (ht : t < numThreads) (hi : i ∈ σ.share t) : i < n :=
  List.mem_range.mp (σ.all.subset (List.mem_flatMap.mpr ⟨t, List.mem_range.mpr ht, hi⟩))

variable (cls t) in
def countFootprint : Footprint IsCell where
  writes := {c | ∃ b < cls.numBuckets, c = bucketSize t b}
  reads := {c | ∃ b < cls.numBuckets, c = bucketSize t b} ∪ {c | ∃ i < cls.numKeys, c = keyArray i}
  writes_reads := Set.subset_union_left

/-- The keys are as they were, and below `maxKey`. -/
structure HasKeys (cls : IsClass) (keys : ℕ → ℕ) (s : IsMemory) : Prop where
  array : ∀ i < cls.numKeys, s (keyArray i) = keys i
  lt : ∀ i < cls.numKeys, keys i < cls.maxKey

theorem HasKeys.update {c : IsCell} {x : ℕ} (h : HasKeys cls keys s) (hc : ∀ i, keyArray i ≠ c) :
    HasKeys cls keys (Function.update s c x) :=
  ⟨fun i hi => (Function.update_of_ne (hc i) ..).trans (h.array i hi), h.lt⟩

theorem does_countKeys (hkeys : HasKeys cls keys s) (hshare : ∀ i ∈ share, i < cls.numKeys) :
    Does (countFootprint cls t) (countKeys cls t share)
      (fun _ s' => ∀ b < cls.numBuckets, s' (bucketSize t b) = (bucketKeys cls keys share b).length) s := by
  refine Does.bind (Does.mono (fun _ s₁ hs₁ => ?_) (Does.loopUp
    (I := fun n _ s' => HasKeys cls keys s' ∧ ∀ b < n, s' (bucketSize t b) = 0) ⟨hkeys, fun _ hb => absurd hb (Nat.not_lt_zero _)⟩ ?_))
  · refine Does.mono (fun _ s' hs' => hs'.2) (Does.forEach
      (I := fun past s' => HasKeys cls keys s' ∧ ∀ b < cls.numBuckets, s' (bucketSize t b) = (bucketKeys cls keys past b).length)
      ⟨hs₁.1, fun b hb => hs₁.2 b (by omega)⟩ ?_)
    rintro past i rest s' rfl ⟨hkeys', hcounts⟩
    have hi : i < cls.numKeys := hshare i (by simp)
    have hbucket : keys i >>> cls.shift < cls.numBuckets := bucket_lt (hkeys'.lt i hi)
    refine Does.load_bind (Or.inr ⟨i, hi, rfl⟩) ?_
    rw [hkeys'.array i hi]
    refine does_addTo ⟨_, hbucket, rfl⟩ ⟨hkeys'.update fun _ => nofun, fun b hb => ?_⟩
    rw [bucketKeys_append, List.length_append, bucketKeys_singleton]
    by_cases heq : keys i >>> cls.shift = b
    · subst heq
      rw [Function.update_self, hcounts _ hb, if_pos rfl, List.length_singleton]
    · rw [Function.update_of_ne (fun h => heq (IsCell.bucketSize.inj h).2.symm), hcounts b hb, if_neg heq, List.length_nil, Nat.add_zero]
  · rintro n - s' - hn ⟨hkeys', hzero⟩
    refine Does.store ⟨n, by omega, rfl⟩ ⟨hkeys'.update fun _ => nofun, fun b hb => ?_⟩
    rcases eq_or_ne b n with rfl | hne
    · exact Function.update_self ..
    · rw [Function.update_of_ne (fun h => hne (IsCell.bucketSize.inj h).2)]
      exact hzero b (by omega)

end count

/-! ### The places of the keys -/

section place
variable {cls : IsClass} {keys : ℕ → ℕ} {numThreads t b : ℕ} {σ : Sharing numThreads cls.numKeys} {s : IsMemory}

/-- The threads have counted their keys. -/
structure Counted (keys : ℕ → ℕ) (σ : Sharing numThreads cls.numKeys) (s : IsMemory) : Prop extends HasKeys cls keys s where
  sizes : ∀ t < numThreads, ∀ b < cls.numBuckets, s (bucketSize t b) = sizeOf cls keys σ t b

theorem Counted.update {c : IsCell} {x : ℕ} (h : Counted keys σ s) (hc : ∀ i, keyArray i ≠ c) (hc' : ∀ t i, bucketSize t i ≠ c) :
    Counted keys σ (Function.update s c x) where
  toHasKeys := h.toHasKeys.update hc
  sizes t ht b hb := (Function.update_of_ne (hc' t b) ..).trans (h.sizes t ht b hb)

theorem Counted.sum_sizes {lo n : ℕ} (h : Counted keys σ s) (hb : b < cls.numBuckets) (hn : lo + n ≤ numThreads) :
    ∑ k ∈ Finset.range n, s (bucketSize (lo + k) b) = ∑ k ∈ Finset.range n, sizeOf cls keys σ (lo + k) b :=
  Finset.sum_congr rfl fun k hk => h.sizes _ (by have := Finset.mem_range.mp hk; omega) b hb

def placeFootprint (keys : ℕ → ℕ) (σ : Sharing numThreads cls.numKeys) (t : ℕ) : Footprint IsCell where
  writes := {c | (∃ b < cls.numBuckets, c = bucketPtrs t b) ∨
    ∃ b < cls.numBuckets, ∃ j < sizeOf cls keys σ t b, c = keyBuff2 (startOf cls keys σ t b + j)}
  reads := {c | (∃ b < cls.numBuckets, c = bucketPtrs t b) ∨
    ∃ b < cls.numBuckets, ∃ j < sizeOf cls keys σ t b, c = keyBuff2 (startOf cls keys σ t b + j)} ∪
      {c | (∃ i < cls.numKeys, c = keyArray i) ∨ ∃ k < numThreads, ∃ b < cls.numBuckets, c = bucketSize k b}
  writes_reads := Set.subset_union_left

theorem does_addSizes_ptr {i lo n : ℕ} {Q : Unit → IsMemory → Prop} (hcounted : Counted keys σ s) (hb : b < cls.numBuckets)
    (hi : i < cls.numBuckets) (hn : lo + n ≤ numThreads)
    (h : Q () (Function.update s (bucketPtrs t b) (s (bucketPtrs t b) + ∑ k ∈ Finset.range n, sizeOf cls keys σ (lo + k) i))) :
    Does (placeFootprint keys σ t) (addSizes (bucketPtrs t b) i lo n) Q s :=
  does_addSizes (Or.inl ⟨b, hb, rfl⟩) (fun _ => nofun) (fun k _ hk => Or.inr (Or.inr ⟨k, by omega, i, hi, rfl⟩))
    (by rwa [hcounted.sum_sizes hi hn])

/-- The pointers before `n` are where the keys of the thread start. -/
def Starts (keys : ℕ → ℕ) (σ : Sharing numThreads cls.numKeys) (t n : ℕ) (s : IsMemory) : Prop :=
  Counted keys σ s ∧ ∀ b < n, s (bucketPtrs t b) = startOf cls keys σ t b

theorem sum_sizes_split (ht : t ≤ numThreads) :
    ∑ k ∈ Finset.range numThreads, sizeOf cls keys σ k b =
      ∑ k ∈ Finset.range t, sizeOf cls keys σ k b + ∑ k ∈ Finset.range (numThreads - t), sizeOf cls keys σ (t + k) b := by
  rw [← Finset.sum_range_add, Nat.add_sub_cancel' ht]

theorem does_accumulateSizes (hcounted : Counted keys σ s) (ht : t < numThreads) :
    Does (placeFootprint keys σ t) (accumulateSizes cls numThreads t) (fun _ => Starts keys σ t cls.numBuckets) s := by
  have hnone : 0 < cls.numBuckets := Nat.two_pow_pos _
  have hptr : ∀ {s : IsMemory} {b x}, Counted keys σ s → Counted keys σ (Function.update s (bucketPtrs t b) x) := fun h =>
    h.update (fun _ => nofun) fun _ _ => nofun
  refine Does.store_bind (Or.inl ⟨0, hnone, rfl⟩) (Does.bind (does_addSizes_ptr (hptr hcounted) hnone hnone (by omega) ?_))
  rw [Function.update_self, Function.update_idem]
  refine Does.mono (fun _ s' hs' => ?_) (Does.loopUp (I := fun n _ => Starts keys σ t n) ⟨hptr hcounted, fun b hb => ?_⟩ ?_)
  · rwa [Nat.add_sub_cancel' hnone] at hs'
  · obtain rfl : b = 0 := by omega
    rw [Function.update_self, startOf, below_zero]
    simp only [Nat.zero_add]
  · rintro n - s' hlo hn ⟨hcounted', hstarts⟩
    refine Does.load_bind (Or.inl (Or.inl ⟨n - 1, by omega, rfl⟩)) (Does.store_bind (Or.inl ⟨n, by omega, rfl⟩) (Does.bind
      (does_addSizes_ptr (hptr hcounted') (by omega) (by omega) (by omega) (does_addSizes_ptr (hptr (hptr hcounted')) (by omega) (by omega)
        (by omega) ⟨hptr (hptr (hptr hcounted')), fun b hb => ?_⟩))))
    rw [Function.update_idem, Function.update_idem]
    rcases eq_or_ne b n with rfl | hne
    · obtain ⟨b, rfl⟩ : ∃ k, b = k + 1 := ⟨b - 1, by omega⟩
      rw [Function.update_self, Function.update_self, Function.update_self, Nat.add_sub_cancel, hstarts b (by omega), startOf, startOf,
        below_succ (σ := σ), sum_sizes_split ht.le]
      simp only [Nat.zero_add]
      omega
    · rw [Function.update_of_ne (fun h => hne (IsCell.bucketPtrs.inj h).2)]
      exact hstarts b (by omega)

/-- The keys of some iterations are in their places, and the pointers are past them. -/
structure Placed (keys : ℕ → ℕ) (σ : Sharing numThreads cls.numKeys) (t : ℕ) (past : List ℕ) (s : IsMemory) : Prop
    extends Counted keys σ s where
  ptrs : ∀ b < cls.numBuckets, s (bucketPtrs t b) = startOf cls keys σ t b + (bucketKeys cls keys past b).length
  placed : ∀ b < cls.numBuckets, ∀ j v, (bucketKeys cls keys past b)[j]? = some v → s (keyBuff2 (startOf cls keys σ t b + j)) = v

theorem does_placeKey {past rest : List ℕ} {i : ℕ} (ht : t < numThreads) (hshare : σ.share t = past ++ i :: rest)
    (hplaced : Placed keys σ t past s) :
    Does (placeFootprint keys σ t) (placeKey cls t i) (fun _ => Placed keys σ t (past ++ [i])) s := by
  have hi : i < cls.numKeys := σ.lt ht (by rw [hshare]; simp)
  have hbucket : keys i >>> cls.shift < cls.numBuckets := bucket_lt (hplaced.lt i hi)
  -- There is room for the key in the stretch of the thread.
  have hroom : ∀ b, (bucketKeys cls keys past b).length + (bucketKeys cls keys [i] b).length ≤ sizeOf cls keys σ t b := by
    intro b
    rw [sizeOf, hshare, List.append_cons, bucketKeys_append, bucketKeys_append, List.length_append, List.length_append]
    omega
  have hfree : (bucketKeys cls keys past (keys i >>> cls.shift)).length < sizeOf cls keys σ t (keys i >>> cls.shift) := by
    have := hroom (keys i >>> cls.shift)
    rw [bucketKeys_singleton, if_pos rfl, List.length_singleton] at this
    omega
  refine Does.load_bind (Or.inr (Or.inl ⟨i, hi, rfl⟩)) ?_
  rw [hplaced.array i hi]
  refine Does.load_bind (Or.inl (Or.inl ⟨_, hbucket, rfl⟩)) ?_
  rw [hplaced.ptrs _ hbucket]
  refine Does.store_bind (Or.inl ⟨_, hbucket, rfl⟩) (Does.store (Or.inr ⟨_, hbucket, _, hfree, rfl⟩) ⟨?_, fun b hb => ?_,
    fun b hb j v hv => ?_⟩)
  · refine Counted.update (hplaced.toCounted.update ?_ ?_) ?_ ?_
    all_goals nofun
  · rw [Function.update_of_ne (show bucketPtrs t b ≠ keyBuff2 _ from nofun), bucketKeys_append, List.length_append, bucketKeys_singleton]
    by_cases heq : keys i >>> cls.shift = b
    · subst heq
      rw [Function.update_self, if_pos rfl, List.length_singleton, Nat.add_assoc]
    · rw [Function.update_of_ne (fun h => heq (IsCell.bucketPtrs.inj h).2.symm), hplaced.ptrs b hb, if_neg heq, List.length_nil,
        Nat.add_zero]
  · have hj : j < sizeOf cls keys σ t b := by
      have hlt := (List.getElem?_eq_some_iff.mp hv).1
      rw [bucketKeys_append, List.length_append] at hlt
      exact hlt.trans_le (hroom b)
    rw [bucketKeys_append, List.getElem?_append, bucketKeys_singleton] at hv
    split at hv
    case isTrue hpast =>
      rw [Function.update_of_ne, Function.update_of_ne (show keyBuff2 _ ≠ bucketPtrs t _ from nofun)]
      · exact hplaced.placed b hb j v hv
      · intro h
        obtain ⟨-, rfl, rfl⟩ := place_inj ht ht hj hfree (IsCell.keyBuff2.inj h)
        exact absurd hpast (lt_irrefl _)
    case isFalse hpast =>
      split at hv
      case isFalse => cases hv
      case isTrue heq =>
        subst heq
        obtain ⟨hlast, rfl⟩ := List.getElem?_eq_some_iff.mp hv
        rw [List.length_singleton] at hlast
        obtain rfl : j = (bucketKeys cls keys past (keys i >>> cls.shift)).length := by omega
        rw [Function.update_self]
        simp

theorem does_placeKeys (hcounted : Counted keys σ s) (ht : t < numThreads) :
    Does (placeFootprint keys σ t) (placeKeys cls numThreads t (σ.share t)) (fun _ => Placed keys σ t (σ.share t)) s := by
  refine Does.bind (Does.mono (fun _ s₁ hs₁ => ?_) (does_accumulateSizes hcounted ht))
  refine Does.forEach (I := Placed keys σ t) ⟨hs₁.1, fun b hb => hs₁.2 b hb, fun b _ j v hv => by cases hv⟩ ?_
  exact fun past i rest s' hshare hplaced => does_placeKey ht hshare hplaced

end place

end NuKSM.Npb
