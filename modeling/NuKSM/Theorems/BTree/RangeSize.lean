import Mathlib.Order.Interval.Finset.Nat
import NuKSM.Theorems.BTree.Range
import NuKSM.Theorems.BTree.Walk
import NuKSM.BTree.Print

/-! # The arrays of `find_and_print_range`

They have one element for each number from `key_start` to `key_end`, and the keys of a tree are distinct. The number of
elements is computed in `uint64_t`: for all 2 ^ 64 numbers it is zero. -/

namespace NuKSM.BTree
open BPlus

variable {order : Nat} {st : State} {es : List Binding} {keyStart keyEnd : Key}

/-- Increasing numbers of an interval are at most as many as the interval has. -/
theorem length_le_of_increasing {l : List Nat} {a b : Nat} (hinc : l.Pairwise (· < ·)) (h : ∀ x ∈ l, a ≤ x ∧ x ≤ b) :
    l.length ≤ b + 1 - a := by
  have hnodup : l.Nodup := hinc.imp fun hab => hab.ne
  have hsub : l.toFinset ⊆ Finset.Icc a b := fun x hx => Finset.mem_Icc.mpr (h x (List.mem_toFinset.mp hx))
  have hcard := Finset.card_le_card hsub
  rwa [List.toFinset_card_of_nodup hnodup, Nat.card_Icc] at hcard

/-- The number of elements wraps around to zero for the full range, and only for ranges without a number otherwise. -/
theorem arraySize_toNat (h : ¬(keyStart = 0 ∧ keyEnd = 18446744073709551615)) :
    keyEnd.toNat + 1 - keyStart.toNat ≤ (arraySize keyStart keyEnd).toNat := by
  have hstart := keyStart.toNat_lt
  have hend := keyEnd.toNat_lt
  have hfull : ¬(keyStart.toNat = 0 ∧ keyEnd.toNat = 18446744073709551615) := fun ⟨h0, hmax⟩ =>
    h ⟨UInt64.toNat_inj.mp h0, UInt64.toNat_inj.mp hmax⟩
  rw [arraySize, UInt64.toNat_add, UInt64.toNat_sub, UInt64.toNat_one]
  omega

theorem arraySize_full : arraySize 0 18446744073709551615 = 0 := rfl

/-- The leaf where a search ends has an entry. -/
theorem Inv.leaf_ne_nil (horder : 3 ≤ order) {t : (d : Nat) × BptTree d} (h : Inv order st (some t) es) {l : BptLeaf}
    {c : BptCtx 0} (hplug : c.plug (.leaf l) = t) : l.entries ≠ [] := by
  have hrooted := h.kept.rooted t rfl
  rw [← hplug, Ctx.rooted_plug, Tree.sizedFrom_leaf] at hrooted
  exact List.ne_nil_of_length_pos ((least_pos horder).trans_le hrooted.2.1)

theorem rangeFound_sublist {t : (d : Nat) × BptTree d} {l : BptLeaf} {c : BptCtx 0} {A E : List (Key × RecId)}
    (hlocated : Located keyStart t.2.fringe l c) (hl : l.entries = A ++ E) :
    (rangeFound keyEnd E (entries c.after)).Sublist (entries t.2.fringe) := by
  rw [hlocated.entries_eq, hl, rangeFound]
  split
  · exact List.nil_sublist _
  · refine List.filter_sublist.trans ?_
    rw [List.append_assoc, ← List.append_assoc]
    simp

/-- The entries that are found have different keys of the range. -/
theorem rangeFound_length_le {t : (d : Nat) × BptTree d} (h : Inv order st (some t) es) {l : BptLeaf} {c : BptCtx 0}
    {A E : List (Key × RecId)} (hlocated : Located keyStart t.2.fringe l c) (hl : l.entries = A ++ E)
    (hE : ∀ e ∈ E, keyStart ≤ e.1) :
    (rangeFound keyEnd E (entries c.after)).length ≤ keyEnd.toNat + 1 - keyStart.toNat := by
  have hsub : (rangeFound keyEnd E (entries c.after)).Sublist (entries t.2.fringe) := rangeFound_sublist hlocated hl
  have hinc : ((rangeFound keyEnd E (entries c.after)).map fun e => e.1.toNat).Pairwise (· < ·) :=
    List.pairwise_map.mpr ((h.good.ordered.entries.sublist hsub).imp fun hab => UInt64.lt_iff_toNat_lt.mp hab)
  have hrange : ∀ x ∈ (rangeFound keyEnd E (entries c.after)).map fun e => e.1.toNat,
      keyStart.toNat ≤ x ∧ x ≤ keyEnd.toNat := by
    intro x hx
    obtain ⟨e, he, rfl⟩ := List.mem_map.mp hx
    rw [rangeFound] at he
    split at he
    · cases he
    · obtain ⟨he, hle⟩ := List.mem_filter.mp he
      refine ⟨UInt64.le_iff_toNat_le.mp ?_, UInt64.le_iff_toNat_le.mp (of_decide_eq_true hle)⟩
      exact (List.mem_append.mp he).elim (hE e) fun he => (hlocated.entries_after e he).le
  simpa using length_le_of_increasing hinc hrange

/-- What `find_range` finds, and when there is room for it. -/
theorem findRange_found (horder : 3 ≤ order) {T : BptRoot} (h : Inv order st T es) (keyStart keyEnd : Key) :
    ∃ found : List (Key × RecId), found.Sublist (entries T.fringe) ∧
      Runs (findRange order st.root keyStart keyEnd) st.heap.nodes
        (found.length, found.map Prod.fst, found.map fun e => .record e.2) st.heap.nodes ∧
      (found.length ≤ (arraySize keyStart keyEnd).toNat ↔
        ¬(st.root ≠ none ∧ keyStart = 0 ∧ keyEnd = 18446744073709551615)) := by
  cases T with
  | none =>
    have hroot : st.root = none := h.root
    refine ⟨[], List.nil_sublist _, ?_, fun _ hfull => hfull.1 hroot, fun _ => Nat.zero_le _⟩
    rw [hroot]
    exact Runs.bind Runs.pure Runs.pure
  | some t =>
    obtain ⟨l, c, A, E, hplug, hlocated, hl, hA, hE, -, -, hrun⟩ := findRange_runs keyStart keyEnd h
    refine ⟨_, rangeFound_sublist hlocated hl, hrun, ?_, fun hfull => ?_⟩
    · rintro hle ⟨-, rfl, rfl⟩
      -- No key is below zero, so the search ends at an entry that is found.
      have hnil : A = [] := List.eq_nil_iff_forall_not_mem.mpr fun e he => absurd (hA e he) (by simp)
      have hne : E ≠ [] := fun hE => h.leaf_ne_nil horder hplug (by rw [hl, hnil, hE, List.append_nil])
      obtain ⟨e, E', rfl⟩ := List.exists_cons_of_ne_nil hne
      have hmax : e.1 ≤ 18446744073709551615 := UInt64.le_iff_toNat_le.mpr (Nat.le_of_lt_succ e.1.toNat_lt)
      rw [arraySize_full, rangeFound, if_neg hne, List.cons_append, List.filter_cons_of_pos (by simpa using hmax)] at hle
      exact absurd hle (Nat.not_succ_le_zero _)
    · have hroot : st.root ≠ none := h.root ▸ Option.some_ne_none _
      have hsize : ¬(keyStart = 0 ∧ keyEnd = 18446744073709551615) := fun hbounds => hfull ⟨hroot, hbounds⟩
      exact (rangeFound_length_le h hlocated hl hE).trans (arraySize_toNat hsize)

/-- What `find_range` writes fits the arrays. -/
def RangeFits (order : Nat) (st : State) (keyStart keyEnd : Key) : Prop :=
  ∃ n keys ptrs, Runs (findRange order st.root keyStart keyEnd) st.heap.nodes (n, keys, ptrs) st.heap.nodes ∧
    n ≤ (arraySize keyStart keyEnd).toNat

theorem rangeFits_iff (horder : 3 ≤ order) {T : BptRoot} (h : Inv order st T es) :
    RangeFits order st keyStart keyEnd ↔ ¬(st.root ≠ none ∧ keyStart = 0 ∧ keyEnd = 18446744073709551615) := by
  obtain ⟨found, -, hrun, hfits⟩ := findRange_found horder h keyStart keyEnd
  rw [← hfits]
  refine ⟨?_, fun hle => ⟨_, _, _, hrun, hle⟩⟩
  rintro ⟨n, keys, ptrs, hrun', hle⟩
  have hn : n = found.length := congrArg Prod.fst (hrun'.det hrun).1
  rwa [← hn]

/-! ### Printing -/

/-- The value of a record, and zero for a record that is not in use. -/
def Record.valueOr : Record → UInt64
  | .value v => v
  | .next _ => 0

theorem recordValue_runs {h : Heap} {r : RecId} {v : UInt64} (hr : r < h.recs.brk) (hv : h.recs.mem r = .value v) :
    Runs (recordValue (.record r)) h v h := by
  have hload := onRecords_runs (Slab.load_runs hr)
  rw [hv] at hload
  exact Runs.bind (onNodes_runs Runs.pure) (Runs.bind (Runs.orFault rfl) (Runs.bind hload Runs.pure))

/-- The lines for some entries whose records hold values. -/
theorem printLoop_runs {h : Heap} {found : List (Key × RecId)}
    (hvalue : ∀ e ∈ found, e.2 < h.recs.brk ∧ ∃ v, h.recs.mem e.2 = .value v) :
    Runs (Prog.loopUp (fun i (out : List (Key × Ptr × UInt64)) => do
      let k ← Prog.orFault .outOfBounds (found.map Prod.fst)[i]?
      let p ← Prog.orFault .outOfBounds (found.map fun e => Ptr.record e.2)[i]?
      let v ← recordValue p
      pure (out ++ [(k, p, v)])) 0 found.length []) h
      (found.map fun e => (e.1, Ptr.record e.2, (h.recs.mem e.2).valueOr)) h := by
  have hloop := Runs.loopUp (l := 0) (n := found.length) (S := fun _ => h)
    (B := fun j => (found.take j).map fun e => (e.1, Ptr.record e.2, (h.recs.mem e.2).valueOr))
    (g := fun i (out : List (Key × Ptr × UInt64)) => do
      let k ← Prog.orFault Fault.outOfBounds (found.map Prod.fst)[i]?
      let p ← Prog.orFault Fault.outOfBounds (found.map fun e => Ptr.record e.2)[i]?
      let v ← recordValue p
      pure (out ++ [(k, p, v)])) fun j hj => by
    obtain ⟨hr, v, hv⟩ := hvalue found[j] (List.getElem_mem hj)
    have hget : found[j]? = some found[j] := List.getElem?_eq_getElem hj
    rw [Nat.zero_add, List.take_add_one, hget, Option.toList_some, List.map_append, List.map_singleton, hv]
    refine Runs.bind (Runs.orFault (a := found[j].1) (by rw [List.getElem?_map, hget]; rfl)) ?_
    refine Runs.bind (Runs.orFault (a := Ptr.record found[j].2) (by rw [List.getElem?_map, hget]; rfl)) ?_
    exact Runs.bind (recordValue_runs hr hv) Runs.pure
  rwa [List.take_length, List.take_zero, List.map_nil] at hloop

theorem Inv.record_of_entry {T : BptRoot} (h : Inv order st T es) {e : Key × RecId} (he : e ∈ BPlus.entries T.fringe) :
    e.2 < st.heap.recs.brk ∧ ∃ v, st.heap.recs.mem e.2 = .value v := by
  rw [h.entries] at he
  obtain ⟨b, hb, rfl⟩ := List.mem_map.mp he
  have hmem : b.2 ∈ es.map Prod.snd := List.mem_map_of_mem hb
  exact ⟨h.records.lt hmem, _, h.records.holds _ hmem⟩

theorem findAndPrintRange_iff (horder : 3 ≤ order) {T : BptRoot} (h : Inv order st T es) :
    (∃ lines, Runs (findAndPrintRange order st.root keyStart keyEnd) st.heap lines st.heap) ↔
      ¬(st.root ≠ none ∧ keyStart = 0 ∧ keyEnd = 18446744073709551615) := by
  obtain ⟨found, hsub, hrun, hfits⟩ := findRange_found horder h keyStart keyEnd
  rw [← hfits]
  constructor
  · rintro ⟨lines, hlines⟩
    obtain ⟨r, h', hrange, hlines⟩ := hlines.of_bind
    obtain ⟨rfl, -⟩ := hrange.det (onNodes_runs hrun)
    obtain ⟨_, _, hguard, _⟩ := hlines.of_bind
    exact of_decide_eq_true hguard.of_guardOr
  · intro hle
    have hlines := printLoop_runs fun e he => h.record_of_entry (hsub.subset he)
    exact ⟨_, Runs.bind (onNodes_runs hrun) (Runs.bind (Runs.guardOr (decide_eq_true hle)) hlines)⟩

/-- After every run, what `find_range` writes fits the arrays for just the ranges that are not the full one of a tree
with a key. -/
theorem exec_rangeFits (horder : 3 ≤ order) (hbound : order < 2 ^ 64) (ops : List Op) : ∃ st, exec order ops = .ok st ∧
    ∀ keyStart keyEnd, RangeFits order st keyStart keyEnd ↔
      ¬(st.root ≠ none ∧ keyStart = 0 ∧ keyEnd = 18446744073709551615) := by
  obtain ⟨st, hexec, T, es, hinv, -⟩ := exec_runs horder hbound ops
  exact ⟨st, hexec, fun _ _ => rangeFits_iff horder hinv⟩

theorem exec_rangeFits_four : ∃ st, exec 4 [.insert 1 10] = .ok st ∧
    ∀ keyStart keyEnd, RangeFits 4 st keyStart keyEnd ↔
      ¬(st.root ≠ none ∧ keyStart = 0 ∧ keyEnd = 18446744073709551615) :=
  exec_rangeFits (by simp) (by simp) _

/-- All 2 ^ 64 keys of a tree that has one: the arrays have no element. -/
theorem not_rangeFits_full : ∃ st, exec 4 [.insert 1 10] = .ok st ∧ ¬RangeFits 4 st 0 18446744073709551615 := by
  obtain ⟨st, hexec, hroot⟩ := exec_insert_root
  obtain ⟨st', hexec', T, es, hinv, -⟩ := exec_runs (show 3 ≤ 4 by simp) (by simp) [.insert 1 10]
  obtain rfl := Except.ok.inj (hexec.symm.trans hexec')
  exact ⟨st, hexec, fun hfits => (rangeFits_iff (by simp) hinv).mp hfits ⟨hroot, rfl, rfl⟩⟩

/-- On the other ranges `find_and_print_range` ends without a fault. -/
theorem exec_findAndPrintRange (horder : 3 ≤ order) (hbound : order < 2 ^ 64) (ops : List Op) :
    ∃ st, exec order ops = .ok st ∧ ∀ keyStart keyEnd,
      (∃ lines, Runs (findAndPrintRange order st.root keyStart keyEnd) st.heap lines st.heap) ↔
        ¬(st.root ≠ none ∧ keyStart = 0 ∧ keyEnd = 18446744073709551615) := by
  obtain ⟨st, hexec, T, es, hinv, -⟩ := exec_runs horder hbound ops
  exact ⟨st, hexec, fun _ _ => findAndPrintRange_iff horder hinv⟩

end NuKSM.BTree
