import NuKSM.Theorems.BTree.DeleteTree
import NuKSM.BTree.Run

/-! What the memory is between two calls (`Inv`): it stores a tree with a good row, whose entries have the
records of the other pool. Each call keeps it, and so does every run. -/

namespace NuKSM.BTree
open BPlus

variable {order : Nat} {key : Key}

/-- An entry of the tree, with the value of its record. -/
abbrev Binding := Key × RecId × UInt64

/-- The entries as a leaf has them. -/
def entriesOf (es : List Binding) : List (Key × RecId) := es.map fun e => (e.1, e.2.1)

/-- The keys with their values. -/
def valuesOf (es : List Binding) : List (Key × UInt64) := es.map fun e => (e.1, e.2.2)

@[simp] theorem entriesOf_append {A C : List Binding} : entriesOf (A ++ C) = entriesOf A ++ entriesOf C := List.map_append

@[simp] theorem entriesOf_cons {e : Binding} {C : List Binding} : entriesOf (e :: C) = (e.1, e.2.1) :: entriesOf C := rfl

/-- The tree of a state is whole and in order, and its entries own all live records. -/
structure Inv (order : Nat) (st : State) (T : BptRoot) (es : List Binding) : Prop where
  root : st.root = T.id
  kept : Kept order st.heap.nodes [] T
  good : Good T.fringe
  entries : entries T.fringe = entriesOf es
  records : Slab.Owns (fun n v => n = Record.value v) st.heap.recs (es.map Prod.snd) []

theorem inv_init : Inv order State.init none [] where
  root := rfl
  kept := ⟨⟨Slab.Pool.empty, nofun⟩, nofun⟩
  good := ⟨List.Pairwise.nil, trivial⟩
  entries := rfl
  records := ⟨Slab.Pool.empty, nofun⟩

/-! ### Both pools -/

section
variable {α : Type} {h : Heap} {a : α}

theorem onNodes_runs {p : NodeProg α} {s : Slab Node} (hp : Runs p h.nodes a s) : Runs (onNodes p) h a { h with nodes := s } :=
  Runs.bind Runs.get (Runs.bind (Runs.lift hp) (Runs.bind Runs.set Runs.pure))

theorem onRecords_runs {p : RecProg α} {s : Slab Record} (hp : Runs p h.recs a s) : Runs (onRecords p) h a { h with recs := s } :=
  Runs.bind Runs.get (Runs.bind (Runs.lift hp) (Runs.bind Runs.set Runs.pure))

end

/-! ### What holds between two calls -/

namespace Inv
variable {st : State} {T : BptRoot} {es : List Binding}

theorem increasing (h : Inv order st T es) : es.Pairwise fun a b => a.1 < b.1 := by
  have := h.good.ordered.entries
  rw [h.entries, entriesOf, List.pairwise_map] at this
  exact this

theorem records_nodup (h : Inv order st T es) : (es.map fun e => e.2.1).Nodup := by
  simpa [List.map_map, Function.comp_def] using h.records.nodup

/-- In a tree the search for a key ends at a leaf, and what it finds is what the entries say. -/
theorem leaf {t : (d : Nat) × BptTree d} (h : Inv order st (some t) es) (key : Key) : ∃ (l : BptLeaf) (c : BptCtx 0),
    c.plug (.leaf l) = t ∧ Located key t.2.fringe l c ∧ st.root = some (c.root l.id) ∧
    Runs (findLeaf st.root key) st.heap.nodes (some l.id) st.heap.nodes ∧
    Runs (find st.root key) st.heap.nodes (Dict.ofList (entriesOf es) key, some l.id) st.heap.nodes := by
  obtain ⟨d, t⟩ := t
  have hplug : (locate key t .top).2.plug (.leaf (locate key t .top).1) = ⟨d, t⟩ := plug_locate
  have hstores : Stores order st.heap.nodes none t := Holds.stores h.kept.holds fun _ hx => hx
  have hd : d < st.heap.nodes.brk := Holds.lt_brk (L := []) (t := t) (p := none) (by
    rw [List.append_nil]
    exact h.kept.holds)
  have hentries : BPlus.entries t.fringe = entriesOf es := h.entries
  rw [show st.root = some t.id from h.root, ← hentries]
  refine ⟨_, _, hplug, located h.good.ordered, ?_, findLeaf_runs hd hstores, find_runs hd hstores h.good.ordered⟩
  have := Ctx.id_plug (c := (locate key t .top).2) (t := .leaf (locate key t .top).1)
  rw [hplug] at this
  exact congrArg some this

/-- `find` says what the entries say. -/
theorem find (h : Inv order st T es) (key : Key) : Finds st key (Dict.ofList (entriesOf es) key) := by
  cases T with
  | none =>
    have hnil : entriesOf es = [] := h.entries.symm
    rw [Finds, show st.root = none from h.root, hnil]
    exact ⟨none, find_none⟩
  | some t =>
    obtain ⟨l, -, -, -, -, -, hfind⟩ := h.leaf key
    exact ⟨some l.id, hfind⟩

end Inv

/-! ### One call -/

section
variable {st : State} {T : BptRoot} {A C es : List Binding} {r : RecId} {u v : UInt64}

/-- The keys of other entries differ. -/
theorem Inv.ne_key (h : Inv order st T (A ++ (key, r, u) :: C)) : (∀ e ∈ A, e.1 ≠ key) ∧ ∀ e ∈ C, e.1 ≠ key := by
  have hinc := List.pairwise_append.mp h.increasing
  exact ⟨fun e he => (hinc.2.2 e he _ (List.mem_cons_self ..)).ne, fun e he => ((List.pairwise_cons.mp hinc.2.1).1 e he).ne'⟩

theorem entriesOf_ne (h : ∀ e ∈ es, e.1 ≠ key) : ∀ e ∈ entriesOf es, e.1 ≠ key := by
  intro e he
  obtain ⟨b, hb, rfl⟩ := List.mem_map.mp he
  exact h b hb

theorem ofList_middle (h : ∀ e ∈ A, e.1 ≠ key) : Dict.ofList (entriesOf (A ++ (key, r, u) :: C)) key = some r := by
  rw [entriesOf_append, Dict.ofList_append_right (entriesOf_ne h)]
  exact List.lookup_cons_self

/-- The insertion of a present key overwrites its record. -/
theorem insert_present (h : Inv order st T (A ++ (key, r, u) :: C)) :
    Runs (insert order st.root key v) st.heap st.root { st.heap with recs := st.heap.recs.put r (.value v) } ∧
      Inv order ⟨{ st.heap with recs := st.heap.recs.put r (.value v) }, st.root⟩ T (A ++ (key, r, v) :: C) := by
  obtain ⟨leaf, hfind⟩ := h.find key
  rw [ofList_middle h.ne_key.1] at hfind
  have hrecs := h.records
  rw [List.map_append, List.map_cons] at hrecs
  have hr : r < st.heap.recs.brk := hrecs.lt (c := u) (List.mem_append_right _ (List.mem_cons_self ..))
  refine ⟨Runs.bind (onNodes_runs hfind) (Runs.bind (onRecords_runs (Slab.store_runs hr)) Runs.pure), h.root, h.kept, h.good, ?_, ?_⟩
  · simpa [entriesOf] using h.entries
  · rw [List.map_append, List.map_cons]
    exact hrecs.put rfl

theorem makeRecord_runs {s : Slab Record} {L : List (RecId × UInt64)} (h : Slab.Owns (fun n v => n = Record.value v) s L []) :
    ∃ r s', Runs (makeRecord v) s r s' ∧ Slab.Owns (fun n v => n = Record.value v) s' ((r, v) :: L) [] := by
  obtain ⟨r, s₁, halloc, hown, -⟩ := h.alloc (z := .next none) (n := recordsPerSlab) (by decide)
  exact ⟨r, _, Runs.bind halloc (Runs.bind (Slab.store_runs hown.lt_dead) Runs.pure),
    (hown.put_dead (.value v)).claim (by simp)⟩

/-- The insertion of an absent key adds an entry, with a new record. -/
theorem insert_absent (horder : 3 ≤ order) (h : Inv order st T es) (hkey : ∀ e ∈ es, e.1 ≠ key) :
    ∃ (T' : BptRoot) (heap : Heap) (A C : List Binding) (r : RecId), Runs (insert order st.root key v) st.heap T'.id heap ∧
      es = A ++ C ∧ Inv order ⟨heap, T'.id⟩ T' (A ++ (key, r, v) :: C) := by
  obtain ⟨r, recs, hmake, hrecs⟩ := makeRecord_runs (v := v) h.records
  have hnone := Dict.ofList_eq_none.mpr (entriesOf_ne hkey)
  cases T with
  | none =>
    have hnil : es = [] := List.map_eq_nil_iff.mp h.entries.symm
    subst hnil
    obtain ⟨a, nodes, hstart, hholds⟩ := startNewTree_runs key r horder h.kept.holds
    refine ⟨some ⟨0, .leaf ⟨a, [(key, r)], none⟩⟩, ⟨nodes, recs⟩, [], [], r, ?_, rfl, rfl, ⟨hholds, ?_⟩, ?_, rfl, hrecs⟩
    · rw [show st.root = none from h.root]
      refine Runs.bind (onNodes_runs find_none) (Runs.bind (onRecords_runs hmake) ?_)
      exact Runs.bind (onNodes_runs hstart) Runs.pure
    · intro t ht
      obtain rfl := Option.mem_some_iff.mp ht
      exact Tree.sizedFrom_leaf.mpr ⟨Nat.le_refl _, show 1 ≤ order - 1 by omega⟩
    · exact ⟨List.pairwise_singleton .., rfl, trivial⟩
  | some t =>
    obtain ⟨l, c, hplug, hlocated, hroot, hfindLeaf, hfind⟩ := h.leaf key
    rw [hnone] at hfind
    -- The new entry has its place in the leaf.
    have hentries : entries t.2.fringe = entriesOf es := h.entries
    rw [hlocated.entries_eq] at hentries
    have hinc : l.entries.Pairwise fun a b => a.1 < b.1 := by
      have := h.good.ordered.entries
      rw [h.entries, ← hentries] at this
      exact (List.pairwise_append.mp (List.pairwise_append.mp this).2.1).1
    obtain ⟨B, E, hl, hB, hE⟩ := exists_place hinc fun e he => entriesOf_ne hkey e (by
      rw [← hentries]
      exact List.mem_append_right _ (List.mem_append_left _ he))
    obtain ⟨T', nodes, hinsert, hstored, hreg⟩ := insertEntry_runs (r := r) horder hl hB hE (hplug ▸ h.kept.stored)
    -- And so it has its place among all entries.
    rw [hl] at hentries
    obtain ⟨A, C, hes, hA, hC⟩ := List.map_eq_append_iff.mp
      (show entriesOf es = (entries c.before ++ B) ++ (E ++ entries c.after) by simpa using hentries.symm)
    have hgood : Good (c.before ++ .leaf ⟨l.id, B ++ (key, r) :: E, l.next⟩ :: c.after) := by
      have hrow : Good (c.before ++ .leaf l :: c.after) := hlocated.fringe ▸ h.good
      refine ⟨hrow.ordered.insert hl rfl hlocated.before hB hE hlocated.after, ?_⟩
      have := hrow.linked
      simp only [leaves_append, leaves_leaf] at this ⊢
      exact this.set rfl rfl
    refine ⟨some T', ⟨nodes, recs⟩, A, C, r, ?_, hes, rfl, hstored.kept, hreg.good hgood, ?_, ?_⟩
    · refine Runs.bind (onNodes_runs hfind) (Runs.bind (onRecords_runs hmake) ?_)
      rw [hroot] at hfindLeaf ⊢
      exact Runs.bind (onNodes_runs hfindLeaf) (Runs.bind (onNodes_runs hinsert) Runs.pure)
    · refine hreg.entries.trans ?_
      simp only [entriesOf, List.map_append, List.map_cons, entries_append, entries_leaf] at hA hC ⊢
      rw [hA, hC]
      simp
    · rw [hes, List.map_append] at hrecs
      rw [List.map_append, List.map_cons]
      exact hrecs.perm List.perm_middle.symm

/-- The deletion of an absent key changes nothing. -/
theorem delete_absent (h : Inv order st T es) (hkey : ∀ e ∈ es, e.1 ≠ key) :
    Runs (delete order st.root key) st.heap st.root st.heap := by
  obtain ⟨leaf, hfind⟩ := h.find key
  rw [Dict.ofList_eq_none.mpr (entriesOf_ne hkey)] at hfind
  exact Runs.bind (onNodes_runs hfind) Runs.pure

/-- The deletion of a present key takes its entry out, and releases its record. -/
theorem delete_present (horder : 3 ≤ order) (hbound : order < 2 ^ 64) (h : Inv order st T (A ++ (key, r, u) :: C)) :
    ∃ (T' : BptRoot) (heap : Heap), Runs (delete order st.root key) st.heap T'.id heap ∧ Inv order ⟨heap, T'.id⟩ T' (A ++ C) := by
  have hrecs := h.records
  rw [List.map_append, List.map_cons] at hrecs
  obtain ⟨recs, hrelease, hrecs', -⟩ := (hrecs.perm List.perm_middle).drop.release
  have hsome := ofList_middle (r := r) (u := u) (C := C) h.ne_key.1
  cases T with
  | none => exact absurd h.entries (by simp [BptRoot.fringe, entriesOf])
  | some t =>
    obtain ⟨l, c, hplug, hlocated, hroot, hfindLeaf, hfind⟩ := h.leaf key
    have hentries : entries t.2.fringe = entriesOf (A ++ (key, r, u) :: C) := h.entries
    have hlookup := hlocated.lookup_eq
    rw [hentries, hsome] at hlookup
    obtain ⟨B, E, hl, hB⟩ := Dict.ofList_eq_some hlookup.symm
    rw [hsome] at hfind
    -- The entry in the leaf is the one that is taken out.
    rw [hlocated.entries_eq, hl] at hentries
    obtain ⟨hA, -, hC⟩ := (List.append_cons_inj_of_notMem
      (fun hmem => entriesOf_ne h.ne_key.1 _ hmem rfl) (fun hmem => entriesOf_ne h.ne_key.2 _ hmem rfl)).mp
      (show entriesOf A ++ (key, r) :: entriesOf C = (entries c.before ++ B) ++ (key, r) :: (E ++ entries c.after) by
        simpa using hentries.symm)
    have hr : ∀ e ∈ B, e.2 ≠ r := by
      intro e he hr
      obtain ⟨b, hb, rfl⟩ := List.mem_map.mp (show e ∈ entriesOf A from hA ▸ List.mem_append_right _ he)
      have hnodup := h.records_nodup
      rw [List.map_append, List.map_cons] at hnodup
      exact (List.nodup_append.mp hnodup).2.2 _ (List.mem_map_of_mem hb) _ (List.mem_cons_self ..) hr
    have hstored : Stored order st.heap.nodes [] (c.plug (.leaf l)) := hplug ▸ h.kept.stored
    obtain ⟨hc, hsize⟩ := Ctx.rooted_plug.mp hstored.rooted
    have hholds : Holds order st.heap.nodes ((l.id, ⟨.leaf (B ++ (key, r) :: E) l.next, c.parent⟩) :: c.cells l.id) [] :=
      hl ▸ hstored.holds.perm Ctx.cells_plug
    have hdepth : c.depth < st.heap.nodes.brk + 1 := by
      have hlen := hholds.length_le
      have hdepth := Ctx.depth_le (c := c) (i := l.id)
      simp only [List.length_cons] at hlen
      omega
    obtain ⟨nodes₁, hremove, hholds₁⟩ := removeFromLeaf_runs hholds hB hr
    have hgood : Good (c.before ++ (Tree.leaf ⟨l.id, B ++ E, l.next⟩).fringe ++ c.after) := by
      have hrow : Good (c.before ++ .leaf l :: c.after) := hlocated.fringe ▸ h.good
      have herase : (B ++ E).Sublist l.entries := by
        rw [hl]
        exact (List.Sublist.refl B).append (List.sublist_cons_self ..)
      rw [Tree.fringe_leaf, List.append_assoc, List.singleton_append]
      refine ⟨hrow.ordered.erase herase, ?_⟩
      have := hrow.linked
      simp only [leaves_append, leaves_leaf] at this ⊢
      exact this.set rfl rfl
    rw [Tree.sizedFrom_leaf, hl, List.length_append, List.length_cons] at hsize
    obtain ⟨T', nodes, hdelete, hkept, hreg⟩ := deleteEntry_runs horder hbound hdepth hc
      (t := .leaf ⟨l.id, B ++ E, l.next⟩) (Tree.sizedFrom_leaf.mpr (by
        simp only [List.length_append]
        omega)) hgood hremove hholds₁
    refine ⟨T', ⟨nodes, recs⟩, ?_, rfl, hkept, hreg.good hgood, ?_, ?_⟩
    · rw [hroot] at hfind ⊢
      refine Runs.bind (onNodes_runs hfind) (Runs.bind (onNodes_runs fuel_runs) ?_)
      exact Runs.bind (onNodes_runs hdelete) (Runs.bind (onRecords_runs hrelease) Runs.pure)
    · refine hreg.entries.trans ?_
      rw [entriesOf_append, hA, hC]
      simp
    · rw [List.map_append]
      exact hrecs'

end

/-! ### Runs -/

/-- What a call writes to the map of keys and values. -/
def Op.write : Op → Key × Option UInt64
  | insert key value => (key, some value)
  | delete key => (key, none)

@[simp] theorem valuesOf_append {A C : List Binding} : valuesOf (A ++ C) = valuesOf A ++ valuesOf C := List.map_append

@[simp] theorem valuesOf_cons {e : Binding} {C : List Binding} : valuesOf (e :: C) = (e.1, e.2.2) :: valuesOf C := rfl

theorem valuesOf_ne {es : List Binding} (h : ∀ e ∈ es, e.1 ≠ key) : ∀ e ∈ valuesOf es, e.1 ≠ key := by
  intro e he
  obtain ⟨b, hb, rfl⟩ := List.mem_map.mp he
  exact h b hb

/-- An entry that is present. -/
theorem exists_binding (key : Key) {es : List Binding} (h : ¬∀ e ∈ es, e.1 ≠ key) : ∃ A C r u, es = A ++ (key, r, u) :: C := by
  push Not at h
  obtain ⟨⟨k, r, u⟩, he, rfl⟩ := h
  obtain ⟨A, C, rfl⟩ := List.append_of_mem he
  exact ⟨A, C, r, u, rfl⟩

/-- A call from `st` to `st'` that keeps the invariant, writes to the map and leaves the records of other keys. -/
structure Stepped (order : Nat) (es : List Binding) (op : Op) (st' : State) (T' : BptRoot) (es' : List Binding) : Prop where
  inv : Inv order st' T' es'
  values : Dict.ofList (valuesOf es') = (Dict.ofList (valuesOf es)).write op.write
  others : ∀ k ≠ op.key, Dict.ofList (entriesOf es') k = Dict.ofList (entriesOf es) k

theorem step_eq {st : State} {op : Op} {root : Option NodeId} {heap : Heap} (h : Runs (op.call order st.root) st.heap root heap) :
    step order st op = .ok ⟨heap, root⟩ := by
  unfold Runs at h
  rw [step, h]
  rfl

theorem runs_of_step {st st' : State} {op : Op} (h : step order st op = .ok st') :
    Runs (op.call order st.root) st.heap st'.root st'.heap := by
  obtain ⟨r, hr, h⟩ := bind_eq_ok h
  cases h
  exact hr

theorem step_runs (horder : 3 ≤ order) (hbound : order < 2 ^ 64) {st : State} {T : BptRoot} {es : List Binding}
    (h : Inv order st T es) (op : Op) : ∃ st' T' es', step order st op = .ok st' ∧ Stepped order es op st' T' es' := by
  cases op with
  | insert key v =>
    by_cases hkey : ∀ e ∈ es, e.1 ≠ key
    · obtain ⟨T', heap, A, C, r, hrun, rfl, hinv⟩ := insert_absent (v := v) horder h hkey
      have hA : ∀ e ∈ A, e.1 ≠ key := fun e he => hkey e (List.mem_append_left _ he)
      refine ⟨_, T', _, step_eq hrun, hinv, ?_, fun k hk => ?_⟩
      · rw [valuesOf_append, valuesOf_cons, Dict.ofList_insert (valuesOf_ne hA), valuesOf_append]
        rfl
      · rw [entriesOf_append, entriesOf_cons, Dict.ofList_insert (entriesOf_ne hA), entriesOf_append]
        exact Function.update_of_ne hk ..
    · obtain ⟨A, C, r, u, rfl⟩ := exists_binding key hkey
      obtain ⟨hrun, hinv⟩ := insert_present (v := v) h
      refine ⟨_, T, _, step_eq hrun, hinv, ?_, fun k _ => ?_⟩
      · rw [valuesOf_append, valuesOf_cons, Dict.ofList_replace (valuesOf_ne h.ne_key.1), valuesOf_append, valuesOf_cons]
        rfl
      · simp
  | delete key =>
    by_cases hkey : ∀ e ∈ es, e.1 ≠ key
    · refine ⟨st, T, es, step_eq (delete_absent h hkey), h, ?_, fun _ _ => rfl⟩
      exact (Dict.write_none (Dict.ofList_eq_none.mpr (valuesOf_ne hkey))).symm
    · obtain ⟨A, C, r, u, rfl⟩ := exists_binding key hkey
      obtain ⟨T', heap, hrun, hinv⟩ := delete_present horder hbound h
      refine ⟨_, T', _, step_eq hrun, hinv, ?_, fun k hk => ?_⟩
      · rw [valuesOf_append, Dict.ofList_erase (valuesOf_ne h.ne_key.1) (valuesOf_ne h.ne_key.2), valuesOf_append, valuesOf_cons]
        rfl
      · rw [entriesOf_append, entriesOf_append, entriesOf_cons, Dict.ofList_insert (entriesOf_ne h.ne_key.1)]
        exact (Function.update_of_ne hk ..).symm

/-- A state that is in order, and whose map is that of the calls so far. -/
def Reached (order : Nat) (ops : List Op) (st : State) : Prop :=
  ∃ T es, Inv order st T es ∧ Dict.ofList (valuesOf es) = Dict.after (ops.map Op.write)

/-- Every run of calls ends in such a state. -/
theorem exec_runs (horder : 3 ≤ order) (hbound : order < 2 ^ 64) (ops : List Op) :
    ∃ st, exec order ops = .ok st ∧ Reached order ops st := by
  refine foldlM_total (P := Reached order) ⟨none, [], inv_init, rfl⟩ ?_ ops
  rintro ops st op ⟨T, es, hinv, hvalues⟩
  obtain ⟨st', T', es', hstep, h⟩ := step_runs horder hbound hinv op
  refine ⟨st', hstep, T', es', h.inv, ?_⟩
  rw [h.values, hvalues, List.map_append, List.map_singleton, Dict.after_append]

end NuKSM.BTree
