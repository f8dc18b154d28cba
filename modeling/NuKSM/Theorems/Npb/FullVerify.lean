import NuKSM.Theorems.Npb.Rank

/-! # The sorted keys

The ranks are the ends of the stretches that equal keys have in the sorted sequence. Each key that gets back to `key_array` takes the
last free place of its stretch. -/

namespace NuKSM.Npb
open Thread CellM IsCell

/-! ### Stretches of equal keys -/

section stretches
variable {cls : IsClass} {keys : ℕ → ℕ} {b k v : ℕ}

variable (cls keys) in
/-- How many keys are smaller than `k`. -/
def lessOf (k : ℕ) : ℕ := (keyList cls keys).countP (· < k)

theorem countP_le_eq {l : List ℕ} : l.countP (· ≤ k) = l.countP (· < k) + l.count k := by
  induction l with
  | nil => rfl
  | cons x l ih =>
    rw [List.countP_cons, List.countP_cons, List.count_cons, ih]
    simp only [decide_eq_true_eq, beq_iff_eq]
    split <;> split <;> split <;> omega

theorem rankOf_eq_lessOf : rankOf cls keys k = lessOf cls keys k + (keyList cls keys).count k := countP_le_eq

theorem rankOf_le_lessOf (h : k < v) : rankOf cls keys k ≤ lessOf cls keys v := by
  refine List.countP_mono_left fun x _ hx => ?_
  rw [decide_eq_true_eq] at hx ⊢
  omega

theorem shift_mono (h : k ≤ v) : k >>> cls.shift ≤ v >>> cls.shift := by
  rw [Nat.shiftRight_eq_div_pow, Nat.shiftRight_eq_div_pow]
  exact Nat.div_le_div_right h

theorem below_le_lessOf (hk : k >>> cls.shift = b) : below cls keys b ≤ lessOf cls keys k := by
  refine List.countP_mono_left fun x _ hx => ?_
  rw [decide_eq_true_eq] at hx ⊢
  by_contra hle
  have := @shift_mono cls _ _ (Nat.le_of_not_lt hle)
  omega

theorem rankOf_le_below (hk : k >>> cls.shift = b) : rankOf cls keys k ≤ below cls keys (b + 1) := by
  refine List.countP_mono_left fun x _ hx => ?_
  rw [decide_eq_true_eq] at hx ⊢
  have := @shift_mono cls _ _ hx
  omega

/-- Each place belongs to one bucket. -/
theorem bucket_of_place {b' p : ℕ} (h : below cls keys b ≤ p ∧ p < below cls keys (b + 1))
    (h' : below cls keys b' ≤ p ∧ p < below cls keys (b' + 1)) : b = b' := by
  by_contra hne
  rcases lt_or_gt_of_ne hne with hlt | hgt
  · have := @below_mono cls keys _ _ (Nat.add_one_le_iff.mpr hlt)
    omega
  · have := @below_mono cls keys _ _ (Nat.add_one_le_iff.mpr hgt)
    omega

theorem count_bucket {L : List ℕ} (hL : L.Perm ((keyList cls keys).filter (· >>> cls.shift = b))) (hk : k >>> cls.shift = b) :
    L.count k = (keyList cls keys).count k := by
  rw [hL.count_eq]
  exact List.count_filter (decide_eq_true hk)

/-- In a sorted list the elements before `v` are smaller, and those behind it are not. -/
theorem place_of_sorted {l : List ℕ} (hl : l.Pairwise (· ≤ ·)) {p : ℕ} (hv : l[p]? = some v) :
    l.countP (· < v) ≤ p ∧ p < l.countP (· ≤ v) := by
  obtain ⟨hp, rfl⟩ := List.getElem?_eq_some_iff.mp hv
  have hsplit : l = l.take p ++ l[p] :: l.drop (p + 1) := by
    rw [List.cons_getElem_drop_succ, List.take_append_drop]
  have hsorted := hl
  rw [hsplit, List.pairwise_append, List.pairwise_cons] at hsorted
  obtain ⟨-, ⟨hafter, -⟩, hbefore⟩ := hsorted
  have hlength : (l.take p).length = p := List.length_take_of_le hp.le
  constructor
  · have hnone : (l[p] :: l.drop (p + 1)).countP (· < l[p]) = 0 := by
      refine List.countP_eq_zero.mpr fun x hx => ?_
      rw [decide_eq_true_eq, Nat.not_lt]
      rcases List.mem_cons.mp hx with rfl | hx
      · exact le_rfl
      · exact hafter x hx
    calc l.countP (· < l[p]) = (l.take p ++ l[p] :: l.drop (p + 1)).countP (· < l[p]) := by rw [← hsplit]
      _ = (l.take p).countP (· < l[p]) := by rw [List.countP_append, hnone, Nat.add_zero]
      _ ≤ p := List.countP_le_length.trans hlength.le
  · have hall : (l.take p).countP (· ≤ l[p]) = p := by
      rw [List.countP_eq_length.mpr, hlength]
      exact fun x hx => decide_eq_true (hbefore x hx l[p] List.mem_cons_self)
    calc p < (l.take p).countP (· ≤ l[p]) + (l[p] :: l.drop (p + 1)).countP (· ≤ l[p]) := by
          rw [hall, List.countP_cons, decide_eq_true le_rfl, if_pos rfl]
          omega
      _ = l.countP (· ≤ l[p]) := by rw [← List.countP_append, ← hsplit]

theorem sorted_pairwise (l : List ℕ) : l.mergeSort.Pairwise (· ≤ ·) := by
  simpa using @List.pairwise_mergeSort _ (fun a b : ℕ => decide (a ≤ b)) (by simpa using fun a b c => Nat.le_trans)
    (by simpa using fun a b => Nat.le_total a b) l

/-- An array that has each key in its stretch is sorted. -/
theorem sorted_of_stretches {A : ℕ → ℕ} (h : ∀ k ∈ keyList cls keys, ∀ p, lessOf cls keys k ≤ p → p < rankOf cls keys k → A p = k) :
    keyList cls A = (keyList cls keys).mergeSort := by
  have hperm := List.mergeSort_perm (keyList cls keys) (· ≤ ·)
  have hsorted := sorted_pairwise (keyList cls keys)
  refine List.ext_getElem? fun p => ?_
  rcases lt_or_ge p cls.numKeys with hp | hp
  · have hlength : p < (keyList cls keys).mergeSort.length := by
      rwa [List.length_mergeSort, keyList, List.length_map, List.length_range]
    have hget := List.getElem?_eq_getElem hlength
    obtain ⟨hlo, hhi⟩ := place_of_sorted hsorted hget
    rw [hperm.countP_eq] at hlo hhi
    rw [hget, keyList, List.getElem?_map, List.getElem?_range hp, Option.map_some]
    exact congrArg some (h _ (hperm.subset (List.getElem_mem hlength)) p hlo hhi)
  · rw [List.getElem?_eq_none, List.getElem?_eq_none]
    · rwa [List.length_mergeSort, keyList, List.length_map, List.length_range]
    · rwa [keyList, List.length_map, List.length_range]

end stretches

/-! ### A bucket -/

section bucket
variable {cls : IsClass} {keys : ℕ → ℕ} {numThreads t b : ℕ} {s s' : IsMemory}

variable (cls keys) in
/-- Neither a rank of bucket `b` nor a place of its keys. -/
def Outside (b : ℕ) (c : IsCell) : Prop :=
  (∀ k, k >>> cls.shift = b → c ≠ keyBuff1 k) ∧ ∀ p, below cls keys b ≤ p → p < below cls keys (b + 1) → c ≠ keyArray p

variable (cls keys numThreads t) in
def verifyFootprint (share : List ℕ) : Footprint IsCell where
  writes := {c | (∃ k, k >>> cls.shift ∈ share ∧ c = keyBuff1 k) ∨
    ∃ b ∈ share, ∃ p, below cls keys b ≤ p ∧ p < below cls keys (b + 1) ∧ c = keyArray p}
  reads := {c | (∃ k, k >>> cls.shift ∈ share ∧ c = keyBuff1 k) ∨
    ∃ b ∈ share, ∃ p, below cls keys b ≤ p ∧ p < below cls keys (b + 1) ∧ c = keyArray p} ∪
      {c | (∃ b < cls.numBuckets, c = bucketPtrs t b) ∨ ∃ p < cls.numKeys, c = keyBuff2 p}
  writes_reads := Set.subset_union_left

/-- The keys of bucket `b` are in the stretches that they have in the sorted sequence. -/
def InPlace (cls : IsClass) (keys : ℕ → ℕ) (b : ℕ) (s : IsMemory) : Prop :=
  ∀ k, k >>> cls.shift = b → ∀ p, lessOf cls keys k ≤ p → p < rankOf cls keys k → s (keyArray p) = k

/-- Some keys of the bucket have taken the last places of their stretches. -/
structure Filling (cls : IsClass) (keys : ℕ → ℕ) (b : ℕ) (past : List ℕ) (s s' : IsMemory) : Prop where
  outside : ∀ c, Outside cls keys b c → s' c = s c
  left : ∀ k, k >>> cls.shift = b → s' (keyBuff1 k) + past.count k = rankOf cls keys k
  filled : ∀ k, k >>> cls.shift = b → ∀ p, s' (keyBuff1 k) ≤ p → p < rankOf cls keys k → s' (keyArray p) = k

/-- The next key takes the last free place of its stretch. -/
theorem Filling.next {L past : List ℕ} {v : ℕ} (hL : L.Perm ((keyList cls keys).filter (· >>> cls.shift = b)))
    (hpast : (past ++ [v]).Sublist L) (hfilling : Filling cls keys b past s s') (hv : v >>> cls.shift = b) :
    ∃ n, s' (keyBuff1 v) = n + 1 ∧ below cls keys b ≤ n ∧ n < below cls keys (b + 1) ∧
      Filling cls keys b (past ++ [v]) s (Function.update (Function.update s' (keyBuff1 v) n) (keyArray n) v) := by
  have hcount : past.count v + 1 ≤ (keyList cls keys).count v := by
    have := hpast.count_le v
    rwa [List.count_append, List.count_singleton_self, count_bucket hL hv] at this
  have hleft := hfilling.left v hv
  have hrank := @rankOf_eq_lessOf cls keys v
  have hlo := @below_le_lessOf _ keys _ _ hv
  have hhi := @rankOf_le_below _ keys _ _ hv
  obtain ⟨n, hn⟩ : ∃ n, s' (keyBuff1 v) = n + 1 := ⟨s' (keyBuff1 v) - 1, by omega⟩
  refine ⟨n, hn, by omega, by omega, fun c hc => ?_, fun k hk => ?_, fun k hk p hp hp' => ?_⟩
  · rw [Function.update_of_ne (hc.2 n (by omega) (by omega)), Function.update_of_ne (hc.1 v hv)]
    exact hfilling.outside c hc
  · rw [Function.update_of_ne (show keyBuff1 k ≠ keyArray n from nofun), List.count_append, List.count_singleton]
    rcases eq_or_ne k v with rfl | hne
    · rw [Function.update_self, beq_self_eq_true, if_pos rfl]
      omega
    · rw [Function.update_of_ne (fun h => hne (IsCell.keyBuff1.inj h)), if_neg (by simpa using hne.symm), Nat.add_zero]
      exact hfilling.left k hk
  · rw [Function.update_of_ne (show keyBuff1 k ≠ keyArray n from nofun)] at hp
    rcases eq_or_ne k v with rfl | hne
    · rw [Function.update_self] at hp
      rcases hp.eq_or_lt with rfl | hlt
      · exact Function.update_self ..
      · rw [Function.update_of_ne (fun h => hlt.ne' (IsCell.keyArray.inj h)), Function.update_of_ne (show keyArray p ≠ keyBuff1 k from nofun)]
        exact hfilling.filled k hk p (by omega) hp'
    · -- The stretches of other keys are before this one or behind it.
      have hapart : p ≠ n := by
        rw [Function.update_of_ne (fun h => hne (IsCell.keyBuff1.inj h))] at hp
        rcases lt_or_gt_of_ne hne with hlt | hgt
        · have := @rankOf_le_lessOf cls keys _ _ hlt
          omega
        · have hle := @rankOf_le_lessOf cls keys _ _ hgt
          have hleft' := hfilling.left k hk
          have hrank' := @rankOf_eq_lessOf cls keys k
          have hcount' := ((List.sublist_append_left past [v]).trans hpast).count_le k
          rw [count_bucket hL hk] at hcount'
          omega
      rw [Function.update_of_ne (fun h => hne (IsCell.keyBuff1.inj h))] at hp
      rw [Function.update_of_ne (fun h => hapart (IsCell.keyArray.inj h)), Function.update_of_ne (show keyArray p ≠ keyBuff1 v from nofun)]
      exact hfilling.filled k hk p hp hp'

theorem does_sortBucket {share L : List ℕ} (hb : b < cls.numBuckets) (hmem : b ∈ share)
    (hranks : ∀ k, k >>> cls.shift = b → s (keyBuff1 k) = rankOf cls keys k)
    (hptrs : ∀ b < cls.numBuckets, s (bucketPtrs t b) = below cls keys (b + 1))
    (hL : L.Perm ((keyList cls keys).filter (· >>> cls.shift = b)))
    (hplaces : ∀ j v, L[j]? = some v → s (keyBuff2 (below cls keys b + j)) = v) :
    Does (verifyFootprint cls keys t share) (sortBucket t b)
      (fun _ s' => InPlace cls keys b s' ∧ ∀ c, Outside cls keys b c → s' c = s c) s := by
  have hlength : below cls keys (b + 1) = below cls keys b + L.length := by
    rw [below_succ_eq, hL.length_eq]
  have hkey : ∀ {v j}, L[j]? = some v → v >>> cls.shift = b := fun hv =>
    of_decide_eq_true (List.mem_filter.mp (hL.subset (List.mem_of_getElem? hv))).2
  refine Does.bind (does_bucketStart hptrs hb (fun b hb => Or.inr (Or.inl ⟨b, hb, rfl⟩)) ?_)
  refine Does.load_bind (Or.inr (Or.inl ⟨b, hb, rfl⟩)) ?_
  rw [hptrs b hb, hlength, Nat.add_sub_cancel_left]
  refine Does.mono (fun _ s' hs' => ?_) (Does.loopUp
    (I := fun n _ s' => Filling cls keys b (L.take (n - below cls keys b)) s s')
    ⟨fun _ _ => rfl, fun k hk => ?_, fun k hk p hp hp' => ?_⟩ ?_)
  · rw [Nat.add_sub_cancel_left, List.take_length] at hs'
    refine ⟨fun k hk p hp hp' => hs'.filled k hk p ?_ hp', hs'.outside⟩
    have hleft := hs'.left k hk
    rw [count_bucket hL hk, rankOf_eq_lessOf] at hleft
    omega
  · rw [Nat.sub_self, List.take_zero, List.count_nil]
    exact hranks k hk
  · rw [hranks k hk] at hp
    omega
  · rintro n - s' hlo hn hfilling
    obtain ⟨j, rfl⟩ : ∃ j, n = below cls keys b + j := ⟨n - below cls keys b, by omega⟩
    rw [Nat.add_sub_cancel_left] at hfilling
    have hj : j < L.length := by omega
    have hget : L[j]? = some L[j] := List.getElem?_eq_getElem hj
    have hv := hkey hget
    have hbuff : ∀ p, Outside cls keys b (keyBuff2 p) := fun p => ⟨fun _ _ => nofun, fun _ _ _ => nofun⟩
    have hplace : below cls keys b + j < cls.numKeys := by
      have := @below_le cls keys (b + 1)
      omega
    have htake : L.take j ++ [L[j]] = L.take (j + 1) := by
      rw [List.take_add_one, hget, Option.toList_some]
    obtain ⟨m, hm, hmlo, hmhi, hnext⟩ := hfilling.next hL (htake ▸ List.take_sublist ..) hv
    refine Does.load_bind (Or.inr (Or.inr ⟨_, hplace, rfl⟩)) ?_
    rw [hfilling.outside _ (hbuff _), hplaces j _ hget]
    refine Does.load_bind (Or.inl (Or.inl ⟨_, hv ▸ hmem, rfl⟩)) ?_
    rw [hm]
    refine Does.store_bind (Or.inl ⟨_, hv ▸ hmem, rfl⟩) (Does.load_bind (Or.inr (Or.inr ⟨_, hplace, rfl⟩)) ?_)
    rw [Function.update_of_ne (show keyBuff2 _ ≠ keyBuff1 _ from nofun), hfilling.outside _ (hbuff _), hplaces j _ hget]
    refine Does.store (Or.inr ⟨b, hmem, m, hmlo, hmhi, rfl⟩) ?_
    rw [Nat.add_assoc, Nat.add_sub_cancel_left, ← htake]
    exact hnext

end bucket

/-! ### All buckets -/

section verify
variable {cls : IsClass} {keys : ℕ → ℕ} {numThreads t b : ℕ} {s s' : IsMemory}

theorem does_sortBuckets {share : List ℕ} (ht : t < numThreads) (hshare : ∀ b ∈ share, b < cls.numBuckets) (hnodup : share.Nodup)
    (hranked : Ranked cls numThreads keys s) (hranks : ∀ k, k >>> cls.shift ∈ share → s (keyBuff1 k) = rankOf cls keys k) :
    Does (verifyFootprint cls keys t share) (forEach (sortBucket t) share) (fun _ s' => ∀ b ∈ share, InPlace cls keys b s') s := by
  obtain ⟨L, hL⟩ := hranked.buckets
  refine Does.mono (fun _ s' hs' => hs'.1) (Does.forEach
    (I := fun past s' => (∀ b ∈ past, InPlace cls keys b s') ∧ ∀ c, (∀ b ∈ past, Outside cls keys b c) → s' c = s c)
    ⟨fun _ hb => absurd hb List.not_mem_nil, fun _ _ => rfl⟩ ?_)
  rintro past b rest s' hrest ⟨hsorted, hsame⟩
  have hmem : b ∈ share := by
    rw [hrest]
    simp
  have hb := hshare b hmem
  have hfresh : ∀ b' ∈ past, b' ≠ b := by
    rintro b' hb' rfl
    rw [hrest] at hnodup
    exact (List.disjoint_of_nodup_append hnodup) hb' List.mem_cons_self
  -- The bucket is still as `rank` has left it.
  have hranks' : ∀ k, k >>> cls.shift = b → s' (keyBuff1 k) = rankOf cls keys k := by
    intro k hk
    rw [hsame (keyBuff1 k) fun b' hb' => ⟨fun k' hk' h => ?_, fun _ _ _ => nofun⟩, hranks k (hk ▸ hmem)]
    obtain rfl := IsCell.keyBuff1.inj h
    exact hfresh b' hb' (hk'.symm.trans hk)
  have hptrs : ∀ b < cls.numBuckets, s' (bucketPtrs t b) = below cls keys (b + 1) := by
    intro b' hb'
    rw [hsame (bucketPtrs t b') fun _ _ => ⟨fun _ _ => nofun, fun _ _ _ => nofun⟩]
    exact hranked.ptrs t ht b' hb'
  have hplaces : ∀ j v, (L b)[j]? = some v → s' (keyBuff2 (below cls keys b + j)) = v := by
    intro j v hv
    rw [hsame (keyBuff2 _) fun _ _ => ⟨fun _ _ => nofun, fun _ _ _ => nofun⟩]
    exact (hL b hb).2 j v hv
  refine Does.mono (fun _ s'' hs'' => ⟨fun b' hb' => ?_, fun c hc => ?_⟩) (does_sortBucket hb hmem hranks' hptrs (hL b hb).1 hplaces)
  · rcases List.mem_append.mp hb' with hpast | hlast
    · intro k hk p hp hp'
      have hlo := @below_le_lessOf _ keys _ _ hk
      have hhi := @rankOf_le_below _ keys _ _ hk
      rw [hs''.2 (keyArray p) ⟨fun _ _ => nofun, fun p' hp₁ hp₂ h => ?_⟩, hsorted b' hpast k hk p hp hp']
      obtain rfl := IsCell.keyArray.inj h
      exact hfresh b' hpast (bucket_of_place ⟨by omega, by omega⟩ ⟨hp₁, hp₂⟩)
    · obtain rfl := List.mem_singleton.mp hlast
      exact hs''.1
  · rw [hs''.2 c (hc b (List.mem_append_right _ List.mem_cons_self)), hsame c fun b' hb' => hc b' (List.mem_append_left _ hb')]

theorem verifyFootprint_apart {n u : ℕ} (δ : Sharing numThreads n) (ht : t < numThreads) (hu : u < numThreads) (h : t ≠ u) :
    Disjoint (verifyFootprint cls keys t (δ.share t)).writes (verifyFootprint cls keys u (δ.share u)).reads := by
  rw [Set.disjoint_left]
  rintro c (⟨k, hk, rfl⟩ | ⟨b, hb, p, hp₁, hp₂, rfl⟩) ((⟨k', hk', hc⟩ | ⟨b', hb', p', hp₁', hp₂', hc⟩) | (⟨b', -, hc⟩ | ⟨p', -, hc⟩))
  any_goals cases hc
  · exact δ.disjoint ht hu h hk hk'
  · obtain rfl := bucket_of_place ⟨hp₁, hp₂⟩ ⟨hp₁', hp₂'⟩
    exact δ.disjoint ht hu h hb hb'

theorem Sharing.nodup {n : ℕ} (δ : Sharing numThreads n) (ht : t < numThreads) : (δ.share t).Nodup :=
  (List.nodup_flatMap.mp (δ.all.nodup_iff.mpr List.nodup_range)).1 t (List.mem_range.mpr ht)

theorem sorted_of_teamRuns {δ : Sharing numThreads cls.numBuckets} {a : Fin numThreads → Unit} (hranked : Ranked cls numThreads keys s)
    (hrun : TeamRuns (fun t : Fin numThreads => forEach (sortBucket t) (δ.share t)) s a s') :
    keyList cls (s' <| keyArray ·) = (keyList cls keys).mergeSort := by
  have hlt : ∀ t < numThreads, ∀ k, k >>> cls.shift ∈ δ.share t → s (keyBuff1 k) = rankOf cls keys k := by
    intro t ht k hk
    refine hranked.ranks k ?_
    have hbucket := δ.lt ht hk
    rw [Nat.shiftRight_eq_div_pow, Nat.div_lt_iff_lt_mul (Nat.two_pow_pos _), IsClass.numBuckets, IsClass.shift, ← Nat.pow_add,
      Nat.add_sub_cancel' (numBucketsLog2_le cls)] at hbucket
    exact hbucket
  obtain ⟨hends, -⟩ := hrun.apart (fun t u h => @verifyFootprint_apart cls keys _ _ _ _ δ t.isLt u.isLt (Fin.val_injective.ne h))
    fun t => does_sortBuckets t.isLt (fun b hb => δ.lt t.isLt hb) (δ.nodup t.isLt) hranked (hlt t t.isLt)
  refine sorted_of_stretches fun k hk p hp hp' => ?_
  obtain ⟨i, hi, rfl⟩ := List.mem_map.mp hk
  obtain ⟨t, ht, hmem⟩ := δ.exists (bucket_lt (hranked.lt i (List.mem_range.mp hi)))
  obtain ⟨v, hv, hsame⟩ := hends ⟨t, ht⟩
  have hlo := @below_le_lessOf cls keys _ _ (rfl : keys i >>> cls.shift = _)
  have hhi := @rankOf_le_below cls keys _ _ (rfl : keys i >>> cls.shift = _)
  rw [hsame (keyArray p) (Or.inl (Or.inr ⟨_, hmem, p, by omega, by omega, rfl⟩))]
  exact hv _ hmem _ rfl p hp hp'

/-! ### The check -/

def checkFootprint (cls : IsClass) : Footprint IsCell where
  writes := ∅
  reads := {c | ∃ i < cls.numKeys, c = keyArray i}
  writes_reads := Set.empty_subset _

theorem does_countUnsorted {share : List ℕ} {j : ℕ} (hshare : ∀ i ∈ share, i < cls.numKeys - 1)
    (hsorted : ∀ i < cls.numKeys - 1, s (keyArray i) ≤ s (keyArray (i + 1))) :
    Does (checkFootprint cls) (countUnsorted share j) (fun j' _ => j' = j) s := by
  induction share with
  | nil => exact rfl
  | cons i share ih =>
    have hi := hshare i List.mem_cons_self
    refine Does.load_bind ⟨i, by omega, rfl⟩ (Does.load_bind ⟨i + 1, by omega, rfl⟩ ?_)
    rw [if_neg (Nat.not_lt.mpr (hsorted i hi))]
    exact ih fun i' hi' => hshare i' (List.mem_cons_of_mem _ hi')

/-- `full_verify` sorts the keys and finds them sorted. -/
theorem sorted_of_fullVerify {passed passed' : ℕ} (hranked : Ranked cls numThreads keys s)
    (hrun : FullVerify cls numThreads (s, passed) (s', passed')) :
    keyList cls (s' <| keyArray ·) = (keyList cls keys).mergeSort ∧ passed' = passed + 1 := by
  obtain ⟨δ, σ, s₁, a, unsorted, hrun₁, hrun₂, hpassed⟩ := hrun
  have hlist := sorted_of_teamRuns hranked hrun₁
  have hsorted : ∀ i < cls.numKeys - 1, s₁ (keyArray i) ≤ s₁ (keyArray (i + 1)) := by
    intro i hi
    have hpairs := sorted_pairwise (keyList cls keys)
    rw [← hlist, keyList, List.pairwise_map, List.pairwise_iff_getElem] at hpairs
    have hpair := hpairs i (i + 1) (by rw [List.length_range]; omega) (by rw [List.length_range]; omega) (Nat.lt_add_one i)
    rwa [List.getElem_range, List.getElem_range] at hpair
  obtain ⟨hends, hkeeps⟩ := hrun₂.apart (fun t u _ => Set.empty_disjoint _) fun t =>
    @does_countUnsorted cls _ _ _ (fun i hi => σ.lt t.isLt hi) hsorted
  have hsame : s' = s₁ := funext fun c => hkeeps c fun _ => Set.notMem_empty c
  have hzero : ∑ t, unsorted t = 0 := Finset.sum_eq_zero fun t _ => by
    obtain ⟨_, hv, -⟩ := hends t
    exact hv
  rw [hsame, hpassed, hzero]
  exact ⟨hlist, rfl⟩

end verify

/-! ### The iterations -/

section iterations
variable {cls : IsClass} {keys : ℕ → ℕ} {numThreads iteration first n passed passed' : ℕ} {s s' : IsMemory} {w w' : IsMemory × ℕ}

variable (cls) in
/-- The keys that an iteration ranks. -/
def changedKeys (iteration : ℕ) (keys : ℕ → ℕ) : ℕ → ℕ :=
  Function.update (Function.update keys iteration iteration) (iteration + maxIterations) (cls.maxKey - iteration)

variable (cls) in
/-- The keys after the iterations from `first` on, `n` of them. -/
def keysAfter : (first n : ℕ) → (ℕ → ℕ) → ℕ → ℕ
  | _, 0, keys => keys
  | first, n + 1, keys => keysAfter (first + 1) n (changedKeys cls first keys)

variable (cls) in
/-- The test keys of an iteration whose number of smaller keys is the expected one. -/
def passesOf (iteration : ℕ) (keys : ℕ → ℕ) : ℕ :=
  partialPasses cls iteration (rankOf cls (changedKeys cls iteration keys)) (changedKeys cls iteration keys)

variable (cls) in
def passesAfter : (first n : ℕ) → (ℕ → ℕ) → ℕ
  | _, 0, _ => 0
  | first, n + 1, keys => passesOf cls first keys + passesAfter (first + 1) n (changedKeys cls first keys)

theorem maxIterations_lt (cls : IsClass) : maxIterations < cls.maxKey := by
  cases cls <;> decide

theorem testIndex_lt {i : ℕ} (hi : i < cls.testIndexArray.length) : cls.testIndexArray.getD i 0 < cls.numKeys := by
  have hall : ∀ j ∈ cls.testIndexArray, j < cls.numKeys := by
    cases cls <;> decide
  rw [List.getD_eq_getElem _ _ hi]
  exact hall _ (List.getElem_mem hi)

theorem HasKeys.change (hkeys : HasKeys cls keys s) (hpos : 0 < iteration) (hle : iteration ≤ maxIterations) :
    HasKeys cls (changedKeys cls iteration keys) (changeKeys cls iteration s) := by
  have hmax := maxIterations_lt cls
  refine ⟨fun i hi => ?_, fun i hi => ?_⟩
  · rw [changeKeys, changedKeys]
    rcases eq_or_ne i (iteration + maxIterations) with rfl | hne
    · rw [Function.update_self, Function.update_self]
    rw [Function.update_of_ne hne, Function.update_of_ne fun h => hne (IsCell.keyArray.inj h)]
    rcases eq_or_ne i iteration with rfl | hne
    · rw [Function.update_self, Function.update_self]
    · rw [Function.update_of_ne hne, Function.update_of_ne fun h => hne (IsCell.keyArray.inj h)]
      exact hkeys.array i hi
  · rw [changedKeys]
    rcases eq_or_ne i (iteration + maxIterations) with rfl | hne
    · rw [Function.update_self]
      omega
    rw [Function.update_of_ne hne]
    rcases eq_or_ne i iteration with rfl | hne
    · rw [Function.update_self]
      omega
    · rw [Function.update_of_ne hne]
      exact hkeys.lt i hi

theorem partialPasses_congr {ranks ranks' vals vals' : ℕ → ℕ} (hvals : ∀ i < cls.numKeys, vals i = vals' i)
    (hlt : ∀ i < cls.numKeys, vals' i < cls.maxKey) (hranks : ∀ k < cls.maxKey, ranks k = ranks' k) :
    partialPasses cls iteration ranks vals = partialPasses cls iteration ranks' vals' := by
  refine List.countP_congr fun i hi => ?_
  have hindex := @testIndex_lt cls _ (List.mem_range.mp hi)
  have hval := hlt _ hindex
  rw [rankPasses, rankPasses, hvals _ hindex, hranks _ (by omega)]

/-- An iteration of `rank`: the partial verification counts the test keys that have the right number of smaller keys. -/
theorem ranked_of_rank (hkeys : HasKeys cls keys s) (hpos : 0 < iteration) (hle : iteration ≤ maxIterations)
    (hrun : Rank cls numThreads iteration (s, passed) (s', passed')) :
    Ranked cls numThreads (changedKeys cls iteration keys) s' ∧ passed' = passed + passesOf cls iteration keys := by
  have hkeys' := hkeys.change hpos hle
  have hranked := ranked_of_region hkeys' hrun.1
  refine ⟨hranked, hrun.2.trans ?_⟩
  rw [partialPasses_congr hkeys'.array hkeys'.lt hranked.ranks]
  rfl

/-- From one iteration to the last. -/
theorem ranked_of_rankRuns (hkeys : HasKeys cls keys w.1) (hpos : 0 < first) (hn : 0 < n) (hle : first + n ≤ maxIterations + 1)
    (hrun : RankRuns cls numThreads first n w w') :
    Ranked cls numThreads (keysAfter cls first n keys) w'.1 ∧ w'.2 = w.2 + passesAfter cls first n keys := by
  induction hrun generalizing keys with
  | nil => exact absurd hn (lt_irrefl 0)
  | @cons first n w w₁ w' hrank hruns ih =>
    obtain ⟨hranked, hpassed⟩ := ranked_of_rank hkeys hpos (by omega) hrank
    rcases Nat.eq_zero_or_pos n with rfl | hmore
    · cases hruns
      exact ⟨hranked, hpassed⟩
    · obtain ⟨hlast, hsum⟩ := ih hranked.toHasKeys (by omega) hmore (by omega)
      refine ⟨hlast, hsum.trans ?_⟩
      rw [hpassed, passesAfter, Nat.add_assoc]

theorem changedKeys_again : changedKeys cls iteration (changedKeys cls iteration keys) = changedKeys cls iteration keys := by
  funext i
  simp only [changedKeys, Function.update_apply]
  split
  · rfl
  · split
    · rfl
    · rfl

/-- With any number of threads and in any order of their turns the benchmark sorts the keys as its iterations have changed them, and
its verification depends on the keys alone. -/
theorem isMain_sorts (hkeys : HasKeys cls keys s) (hrun : IsMain cls numThreads s s' passed) :
    keyList cls (s' <| keyArray ·) = (keyList cls (keysAfter cls 1 maxIterations keys)).mergeSort ∧
      passed = if passesAfter cls 1 maxIterations keys = 5 * maxIterations then 5 * maxIterations + 1 else 0 := by
  obtain ⟨w₁, w₂, w₃, hfirst, hruns, hverify, rfl, hpassed⟩ := hrun
  obtain ⟨hranked₁, -⟩ := ranked_of_rank hkeys Nat.one_pos (by decide) hfirst
  obtain ⟨hranked₂, hpassed₂⟩ :=
    ranked_of_rankRuns (w := (w₁.1, 0)) (n := maxIterations) hranked₁.toHasKeys Nat.one_pos (by decide) (by decide) hruns
  obtain ⟨hsorted, hpassed₃⟩ := sorted_of_fullVerify hranked₂ hverify
  -- The iteration that is not timed changes the keys as the first one does again.
  have hkeys₁ : keysAfter cls 1 maxIterations (changedKeys cls 1 keys) = keysAfter cls 1 maxIterations keys := by
    show keysAfter cls 2 9 (changedKeys cls 1 (changedKeys cls 1 keys)) = keysAfter cls 2 9 (changedKeys cls 1 keys)
    rw [changedKeys_again]
  have hpasses : passesAfter cls 1 maxIterations (changedKeys cls 1 keys) = passesAfter cls 1 maxIterations keys := by
    show passesOf cls 1 _ + passesAfter cls 2 9 _ = passesOf cls 1 _ + passesAfter cls 2 9 _
    rw [passesOf, passesOf, changedKeys_again]
  rw [hkeys₁] at hsorted
  rw [hpasses] at hpassed₂
  refine ⟨hsorted, hpassed.trans ?_⟩
  rw [hpassed₃, hpassed₂, Nat.zero_add]
  by_cases hall : passesAfter cls 1 maxIterations keys = 5 * maxIterations
  · rw [hall, if_neg (not_not.mpr rfl), if_pos rfl]
  · rw [if_pos (by omega), if_neg hall]

end iterations

/-! ### Runs -/

section exist
variable {cls : IsClass} {numThreads : ℕ}

/-- All iterations to thread 0. -/
def Sharing.toFirst (n : ℕ) (h : 0 < numThreads) : Sharing numThreads n where
  share t := if t = 0 then List.range n else []
  all := by
    obtain ⟨m, rfl⟩ : ∃ m, numThreads = m + 1 := ⟨numThreads - 1, by omega⟩
    have hnone : ((List.range m).flatMap fun t => if t + 1 = 0 then List.range n else []) = [] :=
      List.flatMap_eq_nil_iff.mpr fun t _ => if_neg (Nat.succ_ne_zero t)
    rw [List.range_succ_eq_map, List.flatMap_cons, if_pos rfl, List.flatMap_map, hnone, List.append_nil]

theorem exists_rank (iteration : ℕ) (w : IsMemory × ℕ) (h : 0 < numThreads) : ∃ w', Rank cls numThreads iteration w w' := by
  obtain ⟨a₁, s₁, hrun₁⟩ := exists_teamRuns
    (fun t : Fin numThreads => countKeys cls t ((Sharing.toFirst cls.numKeys h).share t)) (changeKeys cls iteration w.1)
  obtain ⟨a₂, s₂, hrun₂⟩ := exists_teamRuns
    (fun t : Fin numThreads => placeKeys cls numThreads t ((Sharing.toFirst cls.numKeys h).share t)) s₁
  obtain ⟨a₃, s₃, hrun₃⟩ := exists_teamRuns
    (fun t : Fin numThreads => rankBuckets cls numThreads t ((Sharing.toFirst cls.numBuckets h).share t)) s₂
  exact ⟨(s₃, _), ⟨.toFirst _ h, .toFirst _ h, s₁, s₂, a₁, a₂, a₃, hrun₁, hrun₂, hrun₃⟩, rfl⟩

theorem exists_rankRuns (first n : ℕ) (w : IsMemory × ℕ) (h : 0 < numThreads) : ∃ w', RankRuns cls numThreads first n w w' := by
  induction n generalizing first w with
  | zero => exact ⟨w, .nil⟩
  | succ n ih =>
    obtain ⟨w₁, hrank⟩ := @exists_rank cls _ first w h
    obtain ⟨w', hruns⟩ := ih (first + 1) w₁
    exact ⟨w', .cons hrank hruns⟩

/-- The benchmark comes to its end. -/
theorem exists_isMain (s : IsMemory) (h : 0 < numThreads) : ∃ s' passed, IsMain cls numThreads s s' passed := by
  obtain ⟨w₁, hrank⟩ := @exists_rank cls _ 1 (s, 0) h
  obtain ⟨w₂, hruns⟩ := @exists_rankRuns cls _ 1 maxIterations (w₁.1, 0) h
  obtain ⟨a, s₁, hrun₁⟩ := exists_teamRuns
    (fun t : Fin numThreads => forEach (sortBucket t) ((Sharing.toFirst cls.numBuckets h).share t)) w₂.1
  obtain ⟨unsorted, s₂, hrun₂⟩ := exists_teamRuns
    (fun t : Fin numThreads => countUnsorted ((Sharing.toFirst (cls.numKeys - 1) h).share t) 0) s₁
  exact ⟨s₂, _, w₁, w₂, (s₂, _), hrank, hruns, ⟨.toFirst _ h, .toFirst _ h, s₁, a, unsorted, hrun₁, hrun₂, rfl⟩, rfl, rfl⟩

end exist

end NuKSM.Npb
