import NuKSM.Theorems.BTree.Run

/-! The tree as a map: what `find` returns after a run of calls, and what one call more changes. -/

namespace NuKSM.BTree
open BPlus

variable {order : Nat} {key : Key}

/-- What the last call on a key has left there. -/
def lastValue (ops : List Op) (key : Key) : Option UInt64 := ((ops.map Op.write).reverse.lookup key).join

theorem finds_unique {st : State} {r r' : Option RecId} (h : Finds st key r) (h' : Finds st key r') : r = r' := by
  obtain ⟨_, h⟩ := h
  obtain ⟨_, h'⟩ := h'
  exact (Prod.mk.inj (h.det h').1).1

theorem finds_none {es : List Binding} : Dict.ofList (valuesOf es) key = none ↔ Dict.ofList (entriesOf es) key = none := by
  rw [Dict.ofList_eq_none, Dict.ofList_eq_none, valuesOf, entriesOf, List.forall_mem_map, List.forall_mem_map]

namespace Inv
variable {st : State} {T : BptRoot} {es : List Binding} {r : RecId}

/-- The record that is found holds the value of the key. -/
theorem value (h : Inv order st T es) (hr : Dict.ofList (entriesOf es) key = some r) : ∃ v,
    Dict.ofList (valuesOf es) key = some v ∧ r < st.heap.recs.brk ∧ st.heap.recs.mem r = .value v := by
  have hmem : ∃ e ∈ es, e.1 = key := by
    by_contra hne
    push Not at hne
    rw [Dict.ofList_eq_none.mpr (entriesOf_ne hne)] at hr
    cases hr
  obtain ⟨A, C, r', v, rfl⟩ := exists_binding key (by simpa using hmem)
  obtain rfl : r' = r := by
    rw [ofList_middle h.ne_key.1] at hr
    exact Option.some.inj hr
  have hmem : (r', v) ∈ (A ++ (key, r', v) :: C).map Prod.snd := List.mem_map_of_mem (List.mem_append_right _ (List.mem_cons_self ..))
  refine ⟨v, ?_, h.records.lt hmem, h.records.holds _ hmem⟩
  rw [valuesOf_append, Dict.ofList_append_right (valuesOf_ne h.ne_key.1)]
  exact List.lookup_cons_self

/-- What is found are the entries of the row. -/
theorem finds_iff (h : Inv order st T es) : Finds st key (some r) ↔ (key, r) ∈ BPlus.entries T.fringe := by
  have hfind := h.find key
  rw [h.entries]
  constructor
  · intro hr
    obtain ⟨A, C, hes, -⟩ := Dict.ofList_eq_some (finds_unique hfind hr)
    rw [hes]
    exact List.mem_append_right _ (List.mem_cons_self ..)
  · intro hmem
    obtain ⟨⟨k, r', v⟩, he, heq⟩ := List.mem_map.mp hmem
    obtain ⟨rfl, rfl⟩ := Prod.mk.inj heq
    obtain ⟨A, C, rfl⟩ := List.append_of_mem he
    rwa [ofList_middle h.ne_key.1] at hfind

theorem mem_keys {k : Key} (h : Inv order st T es) : k ∈ (BPlus.entries T.fringe).map Prod.fst ↔ ∃ r, Finds st k (some r) := by
  simp only [h.finds_iff, List.mem_map, Prod.exists, exists_and_right, exists_eq_right]

theorem finds_none_iff (h : Inv order st T es) : Finds st key none ↔ ∀ r, ¬Finds st key (some r) := by
  have hfind := h.find key
  constructor
  · intro hnone r hr
    cases finds_unique hnone hr
  · intro hne
    cases hr : Dict.ofList (entriesOf es) key with
    | none => exact hr ▸ hfind
    | some r => exact absurd (hr ▸ hfind) (hne r)

/-- The root pointer is `NULL` when there is no entry. -/
theorem root_none (horder : 3 ≤ order) (h : Inv order st T es) : st.root = none ↔ es = [] := by
  rw [h.root]
  cases T with
  | none => exact ⟨fun _ => List.map_eq_nil_iff.mp h.entries.symm, fun _ => rfl⟩
  | some t =>
    have hne : entriesOf es ≠ [] := h.entries ▸ entries_ne_nil (fun _ => min_pos horder) Nat.one_pos (h.kept.rooted t rfl)
    refine ⟨nofun, ?_⟩
    rintro rfl
    exact absurd rfl hne

end Inv

/-- What is found after a run is what the last calls have left. -/
theorem reached_finds {ops : List Op} {st : State} (h : Reached order ops st) (key : Key) : match lastValue ops key with
    | none => Finds st key none
    | some v => ∃ r, Finds st key (some r) ∧ r < st.heap.recs.brk ∧ st.heap.recs.mem r = .value v := by
  obtain ⟨T, es, hinv, hvalues⟩ := h
  have hlast : lastValue ops key = Dict.ofList (valuesOf es) key := by rw [hvalues, Dict.after_eq, lastValue]
  rw [hlast]
  have hfind := hinv.find key
  cases hr : Dict.ofList (entriesOf es) key with
  | none =>
    rw [finds_none.mpr hr]
    exact hr ▸ hfind
  | some r =>
    obtain ⟨v, hv, hlt, hmem⟩ := hinv.value hr
    rw [hv]
    exact ⟨r, hr ▸ hfind, hlt, hmem⟩

theorem reached_root (horder : 3 ≤ order) {ops : List Op} {st : State} (h : Reached order ops st) :
    st.root = none ↔ ∀ key, lastValue ops key = none := by
  obtain ⟨T, es, hinv, hvalues⟩ := h
  have hlast : ∀ key, lastValue ops key = Dict.ofList (valuesOf es) key := fun key => by
    rw [hvalues, Dict.after_eq, lastValue]
  rw [hinv.root_none horder]
  constructor
  · rintro rfl key
    exact hlast key
  · intro h
    cases es with
    | nil => rfl
    | cons e es =>
      have := h e.1
      rw [hlast, valuesOf_cons, Dict.ofList, List.lookup_cons_self] at this
      cases this

/-- A call leaves other keys their records, and the values in them. -/
theorem step_others {st st' : State} {T T' : BptRoot} {es es' : List Binding} {op : Op} (h : Inv order st T es)
    (h' : Stepped order es op st' T' es') {k : Key} (hk : k ≠ op.key) {r : Option RecId} (hr : Finds st k r) :
    Finds st' k r ∧ ∀ a ∈ r, st'.heap.recs.mem a = st.heap.recs.mem a := by
  obtain rfl := finds_unique hr (h.find k)
  refine ⟨h'.others k hk ▸ h'.inv.find k, fun a ha => ?_⟩
  obtain ⟨v, hv, -, hmem⟩ := h.value ha
  obtain ⟨v', hv', -, hmem'⟩ := h'.inv.value ((h'.others k hk).trans ha)
  have hkey : op.write.1 = op.key := by cases op <;> rfl
  rw [h'.values, Dict.write, Function.update_of_ne (hkey ▸ hk), hv] at hv'
  rw [hmem, hmem', Option.some.inj hv']

/-- The tree refines a map: `find` returns the record with the value of the last insertion, unless the key was never
    inserted or was deleted since; a call changes nothing for other keys, the insertion of a present key changes only its
    record, and the deletion of an absent one changes nothing. -/
theorem exec_refines (horder : 3 ≤ order) (hbound : order < 2 ^ 64) (ops : List Op) : ∃ st, exec order ops = .ok st ∧
    (∀ key, match lastValue ops key with
      | none => Finds st key none
      | some v => ∃ r, Finds st key (some r) ∧ r < st.heap.recs.brk ∧ st.heap.recs.mem r = .value v) ∧
    (st.root = none ↔ ∀ key, lastValue ops key = none) ∧
    ∀ op, ∃ st', step order st op = .ok st' ∧
      (∀ key ≠ op.key, ∀ r, Finds st key r → Finds st' key r ∧ ∀ a ∈ r, st'.heap.recs.mem a = st.heap.recs.mem a) ∧
      match op with
      | .insert key v => ∀ r, Finds st key (some r) →
          st' = ⟨{ st.heap with recs := st.heap.recs.put r (.value v) }, st.root⟩
      | .delete key => Finds st key none → st' = st := by
  obtain ⟨st, hexec, hreached⟩ := exec_runs horder hbound ops
  refine ⟨st, hexec, reached_finds hreached, reached_root horder hreached, fun op => ?_⟩
  obtain ⟨T, es, hinv, -⟩ := hreached
  obtain ⟨st', T', es', hstep, h'⟩ := step_runs horder hbound hinv op
  refine ⟨st', hstep, fun k hk r hr => step_others hinv h' hk hr, ?_⟩
  have hcall : ∀ {root heap}, Runs (op.call order st.root) st.heap root heap → st' = ⟨heap, root⟩ := fun hrun =>
    Except.ok.inj (hstep.symm.trans (step_eq hrun))
  cases op with
  | insert key v =>
    intro r hr
    have hsome := finds_unique (hinv.find key) hr
    obtain ⟨A, C, r', u, rfl⟩ := exists_binding key fun hne => by
      rw [Dict.ofList_eq_none.mpr (entriesOf_ne hne)] at hsome
      cases hsome
    obtain rfl : r' = r := by
      rw [ofList_middle hinv.ne_key.1] at hsome
      exact Option.some.inj hsome
    exact hcall (insert_present hinv).1
  | delete key =>
    intro hr
    have hnone := finds_unique (hinv.find key) hr
    refine hcall (delete_absent hinv fun e he hek => ?_)
    exact Dict.ofList_eq_none.mp hnone (e.1, e.2.1) (List.mem_map_of_mem he) hek

theorem exec_refines_four : ∃ st, exec 4 [.insert 1 10, .insert 2 20, .delete 1] = .ok st ∧
    (∀ key, match lastValue [.insert 1 10, .insert 2 20, .delete 1] key with
      | none => Finds st key none
      | some v => ∃ r, Finds st key (some r) ∧ r < st.heap.recs.brk ∧ st.heap.recs.mem r = .value v) ∧
    (st.root = none ↔ ∀ key, lastValue [.insert 1 10, .insert 2 20, .delete 1] key = none) ∧
    ∀ op, ∃ st', step 4 st op = .ok st' ∧
      (∀ key ≠ op.key, ∀ r, Finds st key r → Finds st' key r ∧ ∀ a ∈ r, st'.heap.recs.mem a = st.heap.recs.mem a) ∧
      match op with
      | .insert key v => ∀ r, Finds st key (some r) →
          st' = ⟨{ st.heap with recs := st.heap.recs.put r (.value v) }, st.root⟩
      | .delete key => Finds st key none → st' = st :=
  exec_refines (by decide) (by decide) _

end NuKSM.BTree
