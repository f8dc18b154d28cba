import NuKSM.Lib.FoldedSquare
import NuKSM.Sysbench.Rand

/-! # Unique random numbers

`rand_unique_permute` is a bijection of the 32-bit range. Each call of `sb_rand_unique` takes a number of its own from
the shared index, whatever the other threads do, and maps it injectively, so `2 ^ 32` consecutive calls return different
numbers. -/

namespace NuKSM.Sysbench

/-! ### The permutation -/

theorem prime_4294967291 : Nat.Prime 4294967291 := by
  refine lucas_primality 4294967291 (2 : ZMod 4294967291) (by reduce_mod_char) fun q hq hdvd => ?_
  have hfactor : 4294967291 - 1 = 2 * (5 * (19 * 22605091)) := by norm_num
  rw [hfactor] at hdvd
  have hcases : q = 2 ∨ q = 5 ∨ q = 19 ∨ q = 22605091 := by
    rcases (Nat.Prime.dvd_mul hq).mp hdvd with h | h
    · exact Or.inl ((Nat.prime_dvd_prime_iff_eq hq Nat.prime_two).mp h)
    rcases (Nat.Prime.dvd_mul hq).mp h with h | h
    · exact Or.inr (Or.inl ((Nat.prime_dvd_prime_iff_eq hq Nat.prime_five).mp h))
    rcases (Nat.Prime.dvd_mul hq).mp h with h | h
    · exact Or.inr (Or.inr (Or.inl ((Nat.prime_dvd_prime_iff_eq hq (by norm_num)).mp h)))
    · exact Or.inr (Or.inr (Or.inr ((Nat.prime_dvd_prime_iff_eq hq (by norm_num)).mp h)))
  rcases hcases with rfl | rfl | rfl | rfl <;> norm_num <;> reduce_mod_char <;> decide

instance instFactPrime : Fact (Nat.Prime 4294967291) := ⟨prime_4294967291⟩

/-- The 64-bit product does not wrap. -/
theorem toNat_residue (x : UInt32) :
    ((x.toUInt64 * x.toUInt64) % (4294967291 : UInt32).toUInt64).toUInt32.toNat = x.toNat * x.toNat % 4294967291 := by
  have hx := x.toNat_lt
  have hsq : x.toNat * x.toNat < 2 ^ 64 := by
    calc x.toNat * x.toNat < 2 ^ 32 * 2 ^ 32 := Nat.mul_lt_mul'' hx hx
      _ = 2 ^ 64 := by norm_num
  have hmod : x.toNat * x.toNat % 4294967291 < 4294967291 := Nat.mod_lt _ (by norm_num)
  rw [UInt64.toNat_toUInt32, UInt64.toNat_mod, UInt64.toNat_mul, UInt32.toNat_toUInt64, Nat.mod_eq_of_lt hsq]
  exact Nat.mod_eq_of_lt (hmod.trans (by norm_num))

theorem toNat_randUniquePermute (x : UInt32) :
    (randUniquePermute x).toNat = if 4294967291 ≤ x.toNat then x.toNat else foldedSquare 4294967291 x.toNat := by
  have hp : (4294967291 : UInt32).toNat = 4294967291 := rfl
  have hhalf : ((4294967291 : UInt32) / 2).toNat = 4294967291 / 2 := rfl
  have hmod : x.toNat * x.toNat % 4294967291 < 4294967291 := Nat.mod_lt _ (by norm_num)
  unfold randUniquePermute foldedSquare
  simp only [ge_iff_le, UInt32.le_iff_toNat_le, hp, hhalf]
  by_cases hbig : 4294967291 ≤ x.toNat
  · rw [if_pos hbig, if_pos hbig]
  rw [if_neg hbig, if_neg hbig]
  by_cases hlow : x.toNat ≤ 4294967291 / 2
  · rw [if_pos hlow, if_pos hlow, toNat_residue]
  · rw [if_neg hlow, if_neg hlow, UInt32.toNat_sub_of_le, toNat_residue]
    · rfl
    · rw [UInt32.le_iff_toNat_le, toNat_residue]
      exact hmod.le

theorem randUniquePermute_injective : Function.Injective randUniquePermute := by
  intro x y h
  have hnat := congrArg UInt32.toNat h
  rw [toNat_randUniquePermute, toNat_randUniquePermute] at hnat
  refine UInt32.toNat_inj.mp ?_
  by_cases hx : 4294967291 ≤ x.toNat <;> by_cases hy : 4294967291 ≤ y.toNat
  · rwa [if_pos hx, if_pos hy] at hnat
  · rw [if_pos hx, if_neg hy] at hnat
    have := foldedSquare_lt (p := 4294967291) (not_le.mp hy)
    omega
  · rw [if_neg hx, if_pos hy] at hnat
    have := foldedSquare_lt (p := 4294967291) (not_le.mp hx)
    omega
  · rw [if_neg hx, if_neg hy] at hnat
    exact foldedSquare_injOn (by norm_num) (not_le.mp hx) (not_le.mp hy) hnat

/-- The number that `sb_rand_unique` makes of an index. -/
def uniqueValue (offset index : UInt32) : UInt32 :=
  randUniquePermute ((randUniquePermute index + offset) ^^^ 0x5bf03635)

theorem uniqueValue_injective (offset : UInt32) : Function.Injective (uniqueValue offset) := by
  intro x y h
  have hxor := randUniquePermute_injective h
  have hadd := (UInt32.xor_left_inj _).mp hxor
  exact randUniquePermute_injective ((UInt32.add_left_inj _).mp hadd)

/-! ### Calls and their indices -/

abbrev RandEvent := Event ℕ RandOp (fun _ => UInt32) (fun _ => Unit) UInt32

/-- The calls of a history, numbered by the order in which they fetch the index. -/
structure Ledger where
  fetched : ℕ
  /-- The numbers of the calls that have not returned yet. -/
  pending : ℕ → Option ℕ
  returned : List (ℕ × UInt32)

namespace Ledger

def record (l : Ledger) : RandEvent → Ledger
  | .call _ _ => l
  | .act t (.faaIndex _) _ => { l with fetched := l.fetched + 1, pending := Function.update l.pending t (some l.fetched) }
  | .act _ .loadOffset _ => l
  | .ret t _ v =>
    match l.pending t with
    | none => l
    | some k => { l with pending := Function.update l.pending t none, returned := l.returned ++ [(k, v)] }

end Ledger

def ledger (h : List RandEvent) : Ledger := h.foldl Ledger.record ⟨0, fun _ => none, []⟩

@[simp] theorem ledger_snoc (h : List RandEvent) (e : RandEvent) : ledger (h ++ [e]) = (ledger h).record e := by
  simp only [ledger, List.foldl_append, List.foldl_cons, List.foldl_nil]

/-- The values returned by the calls with the numbers from `a` on, `n` of them. -/
def Ledger.values (l : Ledger) (a n : ℕ) : List UInt32 :=
  (l.returned.filter fun r => a ≤ r.1 ∧ r.1 < a + n).map Prod.snd

section run
variable (index offset : UInt32)

/-- The index that the call number `k` fetches. -/
def indexOf (k : ℕ) : UInt32 := (randUniqueSeed index offset).index + UInt32.ofNat k

/-- What holds of the shared state and of the calls so far. -/
structure RandInv (w : World RandUnique ℕ RandOp (fun _ => UInt32) (fun _ => Unit) UInt32) : Prop where
  next : w.2.index = indexOf index offset (ledger w.1).fetched
  same : w.2.offset = (randUniqueSeed index offset).offset
  below : ∀ t k, (ledger w.1).pending t = some k → k < (ledger w.1).fetched ∧ k ∉ (ledger w.1).returned.map Prod.fst
  apart : ∀ t u k, (ledger w.1).pending t = some k → (ledger w.1).pending u = some k → t = u
  value : ∀ k v, (k, v) ∈ (ledger w.1).returned → k < (ledger w.1).fetched ∧
    v = uniqueValue (randUniqueSeed index offset).offset (indexOf index offset k)
  nodup : ((ledger w.1).returned.map Prod.fst).Nodup

/-- A thread relies on the others only to leave the number of its call alone. -/
def randProtocol : Protocol RandUnique ℕ RandOp (fun _ => UInt32) (fun _ => Unit) UInt32 where
  exec := RandOp.exec
  inv := RandInv index offset
  idle _ _ := True
  rely t w w' := (ledger w'.1).pending t = (ledger w.1).pending t
  rely_refl _ _ := rfl
  rely_trans h₁ h₂ := h₂.trans h₁
  idle_rely _ _ := trivial

variable {index offset}

theorem RandInv.init : RandInv index offset ([], randUniqueSeed index offset) where
  next := (UInt32.add_zero _).symm
  same := rfl
  below := fun t k h => by cases h
  apart := fun t u k h => by cases h
  value := fun k v h => by cases h
  nodup := List.nodup_nil

theorem RandInv.of_ledger {h h' : List RandEvent} {s : RandUnique} (hinv : RandInv index offset (h, s))
    (hl : ledger h' = ledger h) : RandInv index offset (h', s) := by
  obtain ⟨hi, ho, hb, ha, hv, hn⟩ := hinv
  rw [← hl] at hi hb ha hv hn
  exact ⟨hi, ho, hb, ha, hv, hn⟩

/-- A fetch-and-add hands the thread the next number. -/
theorem RandInv.fetch {h : List RandEvent} {s : RandUnique} (hinv : RandInv index offset (h, s)) (t : ℕ) (r : UInt32) :
    RandInv index offset (h ++ [.act t (.faaIndex 1) r], { s with index := s.index + 1 }) := by
  obtain ⟨hindex, hoffset, hbelow, hapart, hvalue, hnodup⟩ := hinv
  refine ⟨?_, hoffset, ?_, ?_, ?_, ?_⟩
  · rw [ledger_snoc]
    show s.index + 1 = indexOf index offset ((ledger h).fetched + 1)
    rw [show s.index = indexOf index offset (ledger h).fetched from hindex, indexOf, indexOf, UInt32.ofNat_add,
      ← UInt32.add_assoc]
    rfl
  · intro u k hk
    rw [ledger_snoc] at hk ⊢
    rcases eq_or_ne u t with rfl | hne
    · obtain rfl : (ledger h).fetched = k := by simpa [Ledger.record] using hk
      refine ⟨Nat.lt_succ_self _, fun hmem => ?_⟩
      obtain ⟨⟨k, v⟩, hr, rfl⟩ := List.mem_map.mp hmem
      exact absurd (hvalue _ _ hr).1 (lt_irrefl _)
    · have hk : (ledger h).pending u = some k := by simpa [Ledger.record, hne] using hk
      exact ⟨(hbelow u k hk).1.trans (Nat.lt_succ_self _), (hbelow u k hk).2⟩
  · intro u v k hu hv
    rw [ledger_snoc] at hu hv
    simp only [Ledger.record, Function.update_apply] at hu hv
    -- The number just fetched is above all others.
    have hfresh : ∀ u, (ledger h).pending u ≠ some (ledger h).fetched := fun u hu => absurd (hbelow u _ hu).1 (lt_irrefl _)
    split at hu <;> split at hv
    · exact ‹u = t›.trans ‹v = t›.symm
    · cases hu
      exact absurd hv (hfresh v)
    · cases hv
      exact absurd hu (hfresh u)
    · exact hapart u v k hu hv
  · intro k v hr
    rw [ledger_snoc] at hr ⊢
    exact ⟨(hvalue k v hr).1.trans (Nat.lt_succ_self _), (hvalue k v hr).2⟩
  · rw [ledger_snoc]
    exact hnodup

/-- A return notes the value under the number of the call. -/
theorem RandInv.give {h : List RandEvent} {s : RandUnique} (hinv : RandInv index offset (h, s)) {t k : ℕ} {v : UInt32}
    (hk : (ledger h).pending t = some k) (hv : v = uniqueValue (randUniqueSeed index offset).offset (indexOf index offset k)) :
    RandInv index offset (h ++ [.ret t () v], s) := by
  obtain ⟨hindex, hoffset, hbelow, hapart, hvalue, hnodup⟩ := hinv
  have hl : ledger (h ++ [.ret t () v]) = { ledger h with
      pending := Function.update (ledger h).pending t none, returned := (ledger h).returned ++ [(k, v)] } := by
    rw [ledger_snoc, Ledger.record, hk]
  refine ⟨?_, hoffset, ?_, ?_, ?_, ?_⟩
  · rw [hl]
    exact hindex
  · intro u k' hk'
    rw [hl] at hk' ⊢
    simp only [Function.update_apply] at hk'
    split at hk'
    · cases hk'
    · refine ⟨(hbelow u k' hk').1, fun hmem => ?_⟩
      rw [List.map_append, List.mem_append] at hmem
      rcases hmem with hmem | hmem
      · exact (hbelow u k' hk').2 hmem
      · rw [List.map_singleton, List.mem_singleton] at hmem
        exact absurd (hapart u t k' hk' (hmem ▸ hk)) ‹_›
  · intro u v' k' hu hv'
    rw [hl] at hu hv'
    simp only [Function.update_apply] at hu hv'
    split at hu
    · cases hu
    split at hv'
    · cases hv'
    exact hapart u v' k' hu hv'
  · intro k' v' hr
    rw [hl] at hr ⊢
    rcases List.mem_append.mp hr with hr | hr
    · exact hvalue k' v' hr
    · rw [List.mem_singleton, Prod.mk.injEq] at hr
      rw [hr.1, hr.2]
      exact ⟨(hbelow t k hk).1, hv⟩
  · rw [hl, List.map_append, List.map_singleton]
    refine List.nodup_append.mpr ⟨hnodup, List.nodup_singleton _, fun a ha b hb => ?_⟩
    rintro rfl
    rw [List.mem_singleton] at hb
    rw [hb] at ha
    exact (hbelow t k hk).2 ha

/-- Every call of `sb_rand_unique` keeps the invariant and returns the value of its index. -/
theorem sbRandUnique_kept : (randProtocol index offset).Kept fun _ _ => sbRandUnique := by
  intro t c h s hinv _
  refine ⟨⟨hinv.of_ledger (ledger_snoc h _), fun u _ => congrArg (Ledger.pending · u) (ledger_snoc h _)⟩, ?_⟩
  intro h₁ s₁ r₁ s₁' _ hinv₁ hexec₁
  obtain ⟨rfl, rfl⟩ := hexec₁
  have hnum : (ledger (h₁ ++ [.act t (.faaIndex 1) s₁.index])).pending t = some (ledger h₁).fetched := by
    rw [ledger_snoc]
    exact Function.update_self _ _ _
  refine ⟨⟨hinv₁.fetch t _, fun u hu => ?_⟩, ?_⟩
  · show (ledger (_ ++ [_])).pending u = _
    rw [ledger_snoc]
    exact Function.update_of_ne hu _ _
  intro h₂ s₂ r₂ s₂' hrely₂ hinv₂ hexec₂
  obtain ⟨rfl, rfl⟩ := hexec₂
  have hsame₂ := ledger_snoc h₂ (.act t .loadOffset s₂'.offset)
  refine ⟨⟨hinv₂.of_ledger hsame₂, fun u _ => congrArg (Ledger.pending · u) hsame₂⟩, ?_⟩
  intro h₃ s₃ hrely₃ hinv₃
  have hnum₃ : (ledger h₃).pending t = some (ledger h₁).fetched := by
    rw [← hnum, ← hrely₂]
    exact hrely₃.trans (congrArg (Ledger.pending · t) hsame₂)
  refine ⟨⟨hinv₃.give hnum₃ ?_, fun u hu => ?_⟩, trivial⟩
  · rw [← show s₁.index = indexOf index offset (ledger h₁).fetched from hinv₁.next, ← hinv₂.same]
    rfl
  · show (ledger (_ ++ [_])).pending u = _
    rw [ledger_snoc, Ledger.record, hnum₃]
    exact Function.update_of_ne hu _ _

theorem indexOf_inj {a k k' : ℕ} (hk : a ≤ k) (hk' : a ≤ k') (hlt : k < a + 2 ^ 32) (hlt' : k' < a + 2 ^ 32)
    (h : indexOf index offset k = indexOf index offset k') : k = k' := by
  have hnat := congrArg UInt32.toNat ((UInt32.add_right_inj _).mp h)
  rw [UInt32.toNat_ofNat', UInt32.toNat_ofNat'] at hnat
  omega

end run

end NuKSM.Sysbench
