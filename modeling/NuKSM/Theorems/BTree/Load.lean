import NuKSM.Theorems.BTree.Refine
import Mathlib.Data.List.Nodup

/-! The load loop of `main`: the keys come from both ends, and each is inserted once. -/

namespace NuKSM.BTree

variable {order : Nat}

/-- The two calls of one pass. -/
def loadPass (nelements : Nat) (elms elms2 : UInt64) (j : Nat) : List Op :=
  [.insert (UInt64.ofNat (2 * j)) (elementAddr elms j),
    .insert (UInt64.ofNat nelements - UInt64.ofNat (2 * j) - 1) (elementAddr elms2 j)]

/-- All calls of the loop. -/
def loadOps (nelements : Nat) (elms elms2 : UInt64) : List Op :=
  (List.range ((nelements + 1) / 2)).flatMap (loadPass nelements elms elms2)

/-- The loop makes these calls. -/
theorem loadLoop_runs {nelements : Nat} {elms elms2 : UInt64} : ∀ {m l : Nat} {st st' : State},
    ((List.range' l m).flatMap (loadPass nelements elms elms2)).foldlM (step order) st = .ok st' →
    Runs (Prog.loopUp (fun j root => do
      let root ← insert order root (UInt64.ofNat (2 * j)) (elementAddr elms j)
      insert order root (UInt64.ofNat nelements - UInt64.ofNat (2 * j) - 1) (elementAddr elms2 j)) l m st.root)
      st.heap st'.root st'.heap
  | 0, _, _, _, h => by
    cases h
    exact Runs.pure
  | m + 1, l, st, st', h => by
    rw [List.range'_succ, List.flatMap_cons, loadPass, List.cons_append, List.foldlM_cons] at h
    obtain ⟨st₁, h₁, h⟩ := bind_eq_ok h
    rw [List.cons_append, List.foldlM_cons] at h
    obtain ⟨st₂, h₂, h⟩ := bind_eq_ok h
    exact Runs.bind (Runs.bind (runs_of_step h₁) (runs_of_step h₂)) (loadLoop_runs h)

/-! ### The keys -/

section
variable {nelements : Nat} {elms elms2 : UInt64} {j : Nat}

theorem toNat_even (hn : nelements < 2 ^ 64) (hj : 2 * j < nelements) : (UInt64.ofNat (2 * j)).toNat = 2 * j := by
  rw [UInt64.toNat_ofNat']
  omega

theorem toNat_odd (hn : nelements < 2 ^ 64) (hj : 2 * j < nelements) :
    (UInt64.ofNat nelements - UInt64.ofNat (2 * j) - 1).toNat = nelements - 2 * j - 1 := by
  have hsize : (UInt64.ofNat nelements).toNat = nelements := by
    rw [UInt64.toNat_ofNat']
    omega
  have hdiff : (UInt64.ofNat nelements - UInt64.ofNat (2 * j)).toNat = nelements - 2 * j := by
    rw [UInt64.toNat_sub_of_le _ _ (by rw [UInt64.le_iff_toNat_le, hsize, toNat_even hn hj]; omega), hsize, toNat_even hn hj]
  have hone : (1 : UInt64) ≤ UInt64.ofNat nelements - UInt64.ofNat (2 * j) := by
    rw [UInt64.le_iff_toNat_le, hdiff]
    show 1 ≤ nelements - 2 * j
    omega
  rw [UInt64.toNat_sub_of_le _ _ hone, hdiff]
  rfl

theorem map_key_loadPass (elms elms2 : UInt64) (hn : nelements < 2 ^ 64) (hj : 2 * j < nelements) :
    ((loadPass nelements elms elms2 j).map Op.key).map UInt64.toNat = [2 * j, nelements - 2 * j - 1] := by
  simp only [loadPass, List.map_cons, List.map_nil, Op.key, toNat_even hn hj, toNat_odd hn hj]

theorem map_write_fst {ops : List Op} : (ops.map Op.write).map Prod.fst = ops.map Op.key := by
  rw [List.map_map]
  exact List.map_congr_left fun op _ => by cases op <;> rfl

/-- No key comes twice. -/
theorem nodup_loadOps (heven : nelements % 2 = 0) (hn : nelements < 2 ^ 64) :
    ((loadOps nelements elms elms2).map Op.key).Nodup := by
  refine List.Nodup.of_map UInt64.toNat ?_
  have hkeys : ((loadOps nelements elms elms2).map Op.key).map UInt64.toNat =
      (List.range ((nelements + 1) / 2)).flatMap fun j => [2 * j, nelements - 2 * j - 1] := by
    rw [loadOps, List.map_flatMap, List.map_flatMap]
    refine List.flatMap_congr fun j hj => map_key_loadPass elms elms2 hn ?_
    have := List.mem_range.mp hj
    omega
  rw [hkeys, List.nodup_flatMap]
  constructor
  · intro j hj
    have := List.mem_range.mp hj
    simp only [List.nodup_cons, List.mem_singleton, List.not_mem_nil, not_false_eq_true, List.nodup_nil, and_true]
    omega
  · refine List.Pairwise.imp_of_mem ?_ List.pairwise_lt_range
    intro i j hi hj hij
    have := List.mem_range.mp hi
    have := List.mem_range.mp hj
    intro k hki hkj
    simp only [List.mem_cons, List.not_mem_nil, or_false] at hki hkj
    omega

/-- The element whose address a key holds: the even keys take those of one array, the odd keys those of the other. -/
def elementOf (nelements : Nat) (elms elms2 : UInt64) (key : Nat) : UInt64 :=
  if key % 2 = 0 then elementAddr elms (key / 2) else elementAddr elms2 ((nelements - 1 - key) / 2)

theorem mem_loadOps (heven : nelements % 2 = 0) (hn : nelements < 2 ^ 64) {op : Op} (h : op ∈ loadOps nelements elms elms2) :
    op.key.toNat < nelements := by
  obtain ⟨j, hj, hop⟩ := List.mem_flatMap.mp h
  have hj := List.mem_range.mp hj
  have hlt : 2 * j < nelements := by omega
  have hmem : op.key.toNat ∈ [2 * j, nelements - 2 * j - 1] := by
    rw [← map_key_loadPass elms elms2 hn hlt]
    exact List.mem_map_of_mem (List.mem_map_of_mem hop)
  simp only [List.mem_cons, List.not_mem_nil, or_false] at hmem
  omega

/-- Each key below the number of elements is inserted, with its element. -/
theorem write_mem_loadOps (heven : nelements % 2 = 0) (hn : nelements < 2 ^ 64) {key : Key} (hkey : key.toNat < nelements) :
    (key, some (elementOf nelements elms elms2 key.toNat)) ∈ (loadOps nelements elms elms2).map Op.write := by
  by_cases hparity : key.toNat % 2 = 0
  · have hj : 2 * (key.toNat / 2) < nelements := by omega
    have hk : UInt64.ofNat (2 * (key.toNat / 2)) = key := UInt64.toNat_inj.mp (by rw [toNat_even hn hj]; omega)
    refine List.mem_map.mpr ⟨.insert (UInt64.ofNat (2 * (key.toNat / 2))) (elementAddr elms (key.toNat / 2)), ?_, ?_⟩
    · exact List.mem_flatMap.mpr ⟨key.toNat / 2, List.mem_range.mpr (by omega), List.mem_cons_self ..⟩
    · rw [Op.write, hk, elementOf, if_pos hparity]
  · have hj : 2 * ((nelements - 1 - key.toNat) / 2) < nelements := by omega
    have hk : UInt64.ofNat nelements - UInt64.ofNat (2 * ((nelements - 1 - key.toNat) / 2)) - 1 = key :=
      UInt64.toNat_inj.mp (by rw [toNat_odd hn hj]; omega)
    refine List.mem_map.mpr ⟨.insert (UInt64.ofNat nelements - UInt64.ofNat (2 * ((nelements - 1 - key.toNat) / 2)) - 1)
      (elementAddr elms2 ((nelements - 1 - key.toNat) / 2)), ?_, ?_⟩
    · exact List.mem_flatMap.mpr ⟨_, List.mem_range.mpr (by omega), List.mem_cons_of_mem _ (List.mem_cons_self ..)⟩
    · rw [Op.write, hk, elementOf, if_neg hparity]

theorem lastValue_loadOps (heven : nelements % 2 = 0) (hn : nelements < 2 ^ 64) (key : Key) :
    lastValue (loadOps nelements elms elms2) key =
      if key.toNat < nelements then some (elementOf nelements elms elms2 key.toNat) else none := by
  rw [lastValue, ← Dict.after_eq]
  split
  · rename_i hkey
    refine Dict.after_of_mem ?_ (write_mem_loadOps heven hn hkey)
    rw [map_write_fst]
    exact nodup_loadOps heven hn
  · rename_i hkey
    refine Dict.after_of_notMem ?_
    rw [map_write_fst]
    intro hmem
    obtain ⟨op, hop, rfl⟩ := List.mem_map.mp hmem
    exact hkey (mem_loadOps heven hn hop)

/-! ### The elements -/

theorem toNat_elementAddr (h : elms.toNat + 8 * nelements ≤ 2 ^ 64) (hj : 2 * j < nelements) :
    (elementAddr elms j).toNat = elms.toNat + 16 * j := by
  have hj' : (UInt64.ofNat j).toNat = j := by
    rw [UInt64.toNat_ofNat']
    omega
  rw [elementAddr, UInt64.toNat_add, UInt64.toNat_mul, hj']
  show (elms.toNat + 16 * j % 2 ^ 64) % 2 ^ 64 = _
  omega

/-- Arrays that do not overlap have different elements at different places. -/
theorem elementOf_injective (heven : nelements % 2 = 0) (h : elms.toNat + 8 * nelements ≤ 2 ^ 64)
    (h₂ : elms2.toNat + 8 * nelements ≤ 2 ^ 64)
    (hapart : elms.toNat + 8 * nelements ≤ elms2.toNat ∨ elms2.toNat + 8 * nelements ≤ elms.toNat) {i k : Nat}
    (hi : i < nelements) (hk : k < nelements) (heq : elementOf nelements elms elms2 i = elementOf nelements elms elms2 k) :
    i = k := by
  have hat : ∀ m < nelements, (elementOf nelements elms elms2 m).toNat =
      if m % 2 = 0 then elms.toNat + 16 * (m / 2) else elms2.toNat + 16 * ((nelements - 1 - m) / 2) := by
    intro m hm
    unfold elementOf
    split
    · exact toNat_elementAddr h (by omega)
    · exact toNat_elementAddr h₂ (by omega)
  have heq' := congrArg UInt64.toNat heq
  rw [hat i hi, hat k hk] at heq'
  split at heq' <;> split at heq' <;> omega

/-- After the load loop the keys below the number of elements are found, and no others; each was inserted once, and holds
    the address of an element of its own, so that the lookups of the measured loop hit. -/
theorem load_finds (horder : 3 ≤ order) (hbound : order < 2 ^ 64) (heven : nelements % 2 = 0) (hn : nelements < 2 ^ 64)
    (h : elms.toNat + 8 * nelements ≤ 2 ^ 64) (h₂ : elms2.toNat + 8 * nelements ≤ 2 ^ 64)
    (hapart : elms.toNat + 8 * nelements ≤ elms2.toNat ∨ elms2.toNat + 8 * nelements ≤ elms.toNat) : ∃ st,
    Runs (loadLoop order nelements elms elms2) Heap.empty st.root st.heap ∧
    (∀ key, (∃ r, Finds st key (some r)) ↔ key.toNat < nelements) ∧
    (∀ key, key.toNat < nelements → ∃ r, Finds st key (some r) ∧
      st.heap.recs.mem r = .value (elementOf nelements elms elms2 key.toNat)) ∧
    (∀ i < nelements, ∀ k < nelements, elementOf nelements elms elms2 i = elementOf nelements elms elms2 k → i = k) ∧
    (exec order (loadOps nelements elms elms2) = .ok st ∧
      ∀ before op after, loadOps nelements elms elms2 = before ++ op :: after →
        ∃ st', exec order before = .ok st' ∧ Finds st' op.key none) ∧
    (0 < nelements → ∀ rdn : UInt64, ∃ r, Finds st (rdn % UInt64.ofNat nelements) (some r)) := by
  obtain ⟨st, hexec, hreached⟩ := exec_runs horder hbound (loadOps nelements elms elms2)
  have hloop := hexec
  rw [exec, loadOps, List.range_eq_range'] at hloop
  have hvalue : ∀ key, key.toNat < nelements → ∃ r, Finds st key (some r) ∧
      st.heap.recs.mem r = .value (elementOf nelements elms elms2 key.toNat) := by
    intro key hkey
    have hfind := reached_finds hreached key
    rw [lastValue_loadOps heven hn, if_pos hkey] at hfind
    obtain ⟨r, hr, -, hmem⟩ := hfind
    exact ⟨r, hr, hmem⟩
  have hfound : ∀ key, (∃ r, Finds st key (some r)) ↔ key.toNat < nelements := by
    intro key
    refine ⟨?_, fun hkey => (hvalue key hkey).imp fun _ hr => hr.1⟩
    rintro ⟨r, hr⟩
    by_contra hkey
    have hfind := reached_finds hreached key
    rw [lastValue_loadOps heven hn, if_neg hkey] at hfind
    cases finds_unique hr hfind
  refine ⟨st, loadLoop_runs hloop, hfound, hvalue, fun i hi k hk => elementOf_injective heven h h₂ hapart hi hk, ⟨hexec, ?_⟩, ?_⟩
  · -- A key that is about to be inserted is not among those before it.
    intro before op after hsplit
    obtain ⟨st', hexec', hreached'⟩ := exec_runs horder hbound before
    refine ⟨st', hexec', ?_⟩
    have hnodup : ((loadOps nelements elms elms2).map Op.key).Nodup := nodup_loadOps heven hn
    rw [hsplit, List.map_append, List.map_cons] at hnodup
    have hnone : lastValue before op.key = none := by
      rw [lastValue, ← Dict.after_eq]
      refine Dict.after_of_notMem ?_
      rw [map_write_fst]
      intro hmem
      exact (List.nodup_append.mp hnodup).2.2 _ hmem _ (List.mem_cons_self ..) rfl
    have hfind := reached_finds hreached' op.key
    rwa [hnone] at hfind
  · intro hpos rdn
    refine (hfound _).mpr ?_
    have hsize : (UInt64.ofNat nelements).toNat = nelements := by
      rw [UInt64.toNat_ofNat']
      omega
    rw [UInt64.toNat_mod, hsize]
    exact Nat.mod_lt _ hpos

theorem load_finds_six : ∃ st,
    Runs (loadLoop 16 6 4096 8192) Heap.empty st.root st.heap ∧
    (∀ key, (∃ r, Finds st key (some r)) ↔ key.toNat < 6) ∧
    (∀ key, key.toNat < 6 → ∃ r, Finds st key (some r) ∧ st.heap.recs.mem r = .value (elementOf 6 4096 8192 key.toNat)) ∧
    (∀ i < 6, ∀ k < 6, elementOf 6 4096 8192 i = elementOf 6 4096 8192 k → i = k) ∧
    (exec 16 (loadOps 6 4096 8192) = .ok st ∧
      ∀ before op after, loadOps 6 4096 8192 = before ++ op :: after →
        ∃ st', exec 16 before = .ok st' ∧ Finds st' op.key none) ∧
    (0 < 6 → ∀ rdn : UInt64, ∃ r, Finds st (rdn % UInt64.ofNat 6) (some r)) :=
  load_finds (by decide) (by decide) (by decide) (by decide) (by decide) (by decide) (by decide)

end

end NuKSM.BTree
