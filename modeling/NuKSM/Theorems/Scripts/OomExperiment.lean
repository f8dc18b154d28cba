import Mathlib.Data.List.ReduceOption
import NuKSM.Lib.Prog
import NuKSM.Scripts.OomExperiment

/-! # What the table of the out-of-memory experiment shows

A row shows the metric of both systems until KSM frees memory at once, which it does when its processes are killed.
The search for this moment compares each free memory with the one in front of it, so it needs every one of them up
to there: a time that the KSM file does not have ends the script. -/

namespace NuKSM.Scripts
variable {F : Type} {py : Python F}

/-! ### Rows -/

/-- The fields of a row that the script uses. -/
structure Fields (F : Type) where
  time : ℤ
  cpuPercentage : F
  freeMemory : ℤ
  pages : ℤ

/-- A line has these fields: the first, the last, the fifth-last and the third-last one. -/
structure HasFields (py : Python F) (line : List Char) (r : Fields F) : Prop where
  time : (item ((py.strip line).splitOn ',') 0 >>= py.int) = .ok r.time
  cpuPercentage : (item ((py.strip line).splitOn ',') (-1) >>= py.float) = .ok r.cpuPercentage
  freeMemory : (item ((py.strip line).splitOn ',') (-5) >>= py.int) = .ok r.freeMemory
  pages : (item ((py.strip line).splitOn ',') (-3) >>= py.int) = .ok r.pages

/-- The deduplicated memory is small enough for a float. -/
def Fields.Fits (r : Fields F) : Prop := |r.pages * 4| < (2 ^ 1024 - 2 ^ 970) * 1000000

instance {r : Fields F} : Decidable r.Fits := inferInstanceAs (Decidable (_ < _))

/-- The row of these fields, with the deduplicated memory in megabytes. -/
def Fields.row (py : Python F) (r : Fields F) : Row F :=
  ⟨r.time, r.cpuPercentage, r.freeMemory, py.quotient (r.pages * 4) 1000000⟩

theorem divide_eq (r : Fields F) :
    py.divide (r.pages * 4) 1000000 =
      if r.Fits then .ok (py.quotient (r.pages * 4) 1000000) else .error .overflowError := by
  unfold Python.divide
  rw [abs_of_pos (show (0 : ℤ) < 1000000 by decide)]
  by_cases h : r.Fits
  · rw [if_pos h, if_neg (not_le.mpr h)]
  · rw [if_neg h, if_pos (not_lt.mp h)]

theorem readRow_eq {line : List Char} {r : Fields F} (h : HasFields py line r) :
    readRow py line = if r.Fits then .ok (r.row py) else .error .overflowError := by
  obtain ⟨time, htime, hint⟩ := bind_eq_ok h.time
  obtain ⟨cpuPercentage, hcpu, hfloat⟩ := bind_eq_ok h.cpuPercentage
  obtain ⟨freeMemory, hfree, hint'⟩ := bind_eq_ok h.freeMemory
  obtain ⟨pages, hpages, hint''⟩ := bind_eq_ok h.pages
  unfold readRow
  simp only [htime, hint, hcpu, hfloat, hfree, hint', hpages, hint'', divide_eq r, bind, Except.bind]
  by_cases hfits : r.Fits
  · rw [if_pos hfits, if_pos hfits]
    rfl
  · rw [if_neg hfits, if_neg hfits]

/-! ### The specification -/

/-- The row of the KSM file at a time; of several rows at one time the last one counts. -/
def ksmAt (ksm : List (Row F)) (time : ℤ) : Option (Row F) := ksm.reverse.find? (·.time = time)

/-- The KSM free memory at the times of the nuKSM file. -/
def freeMemories (ksm nuksm : List (Row F)) : List (Option ℤ) :=
  nuksm.map fun row => (ksmAt ksm row.time).map (·.freeMemory)

/-- The free memory at the place `i` is known and exceeds the known one before it by more than 10000. -/
def jumps (seen : List (Option ℤ)) (i : ℕ) : Bool :=
  match (seen.take i).reduceOption.getLast?, seen[i]?.join with
  | some before, some now => decide (10000 < now - before)
  | _, _ => false

/-- KSM is out of memory at the place `i`. -/
def outOfMemory (seen : List (Option ℤ)) (i : ℕ) : Bool := (List.range (i + 1)).any (jumps seen)

def metric (py : Python F) : FigureType → Row F → List Char
  | .freeMem, row => (toString row.freeMemory).toList
  | .dedupMem, row => py.str row.deduplicatedMemory
  | .cpuPercentage, row => py.str row.cpuPercentage

/-- The row that the table has for the row `i` of the nuKSM file. -/
def tableRow (py : Python F) (t : FigureType) (ksm : List (Row F)) (seen : List (Option ℤ)) (i : ℕ) (row : Row F) :
    List Char :=
  printLine row.time (if outOfMemory seen i then "OOM".toList else (ksmAt ksm row.time).elim [] (metric py t))
    (metric py t row)

def table (py : Python F) (t : FigureType) (ksm nuksm : List (Row F)) : List (List Char) :=
  header :: nuksm.mapIdx (tableRow py t ksm (freeMemories ksm nuksm))

/-- There is nothing to compare, or no free memory is missing up to the first jump. -/
def Tracked (seen : List (Option ℤ)) : Prop :=
  seen.length ≤ 1 ∨ ∀ i < seen.length, (∀ j < i, jumps seen j = false) → (seen[i]?.join).isSome

instance {seen : List (Option ℤ)} : Decidable (Tracked seen) := inferInstanceAs (Decidable (_ ∨ _))

/-! ### The search for the jump -/

variable {seen : List (Option ℤ)} {k : ℕ} {s : LoopState}

/-- The script can compare at the place `k`, or does not try to. -/
def Compares (seen : List (Option ℤ)) (k : ℕ) : Prop :=
  k = 0 ∨ (∃ j < k, jumps seen j = true) ∨ (∃ p, seen[k - 1]? = some (some p)) ∧ ∃ x, seen[k]? = some (some x)

/-- The variables of the loop before the row `k`. -/
structure Follows (seen : List (Option ℤ)) (k : ℕ) (s : LoopState) : Prop where
  computed : s.freeMemComputed = decide (0 < k)
  oom : s.oom = (List.range k).any (jumps seen)
  prev : 0 < k → s.oom = false → seen[k - 1]? = some s.prevKsmFreeMemory

theorem jumps_zero : jumps seen 0 = false := by
  simp [jumps]

theorem jumps_eq {p x : ℤ} (hk : 0 < k) (hp : seen[k - 1]? = some (some p)) (hx : seen[k]? = some (some x)) :
    jumps seen k = decide (10000 < x - p) := by
  obtain ⟨k, rfl⟩ := Nat.exists_eq_succ_of_ne_zero hk.ne'
  have htake : seen.take (k + 1) = seen.take k ++ [some p] := by
    rw [List.take_add_one]
    simpa using hp
  rw [jumps, htake, List.reduceOption_append, hx]
  simp

theorem Follows.zero : Follows seen 0 ⟨false, false, none⟩ :=
  ⟨rfl, rfl, fun h => absurd h (lt_irrefl 0)⟩

theorem any_jumps_succ : (List.range (k + 1)).any (jumps seen) = ((List.range k).any (jumps seen) || jumps seen k) := by
  simp [List.range_succ]

theorem any_jumps_iff : (List.range k).any (jumps seen) = true ↔ ∃ j < k, jumps seen j = true := by
  simp

/-- One row: where the script can compare it goes on to follow the series, and otherwise a string has no difference. -/
theorem detect_follows (h : Follows seen k s) {x : Option ℤ} (hx : seen[k]? = some x) :
    (Compares seen k ∧ ∃ s', detect s x = .ok s' ∧ Follows seen (k + 1) s') ∨
      (¬Compares seen k ∧ detect s x = .error .typeError) := by
  obtain ⟨computed, oom, prev⟩ := s
  obtain rfl : computed = _ := h.computed
  rcases Nat.eq_zero_or_pos k with rfl | hk
  · refine Or.inl ⟨Or.inl rfl, ⟨true, oom, x⟩, rfl, rfl, ?_, fun _ _ => hx⟩
    rw [any_jumps_succ, jumps_zero, Bool.or_false]
    exact h.oom
  · have hcomputed : decide (0 < k) ≠ false := by simpa using hk.ne'
    cases oom with
    | true =>
      have hjump := h.oom.symm
      refine Or.inl ⟨Or.inr (Or.inl (any_jumps_iff.mp hjump)), ⟨decide (0 < k), true, prev⟩, ?_, ?_⟩
      · rw [detect, if_neg hcomputed, if_neg (by simp)]
      · exact ⟨by simp [hk], by rw [any_jumps_succ, hjump, Bool.true_or], fun _ h => by cases h⟩
    | false =>
      have hnone : ¬∃ j < k, jumps seen j = true := by
        rw [← any_jumps_iff, ← h.oom]
        exact Bool.false_ne_true
      have hprev : seen[k - 1]? = some prev := h.prev hk rfl
      have hrun : detect ⟨decide (0 < k), false, prev⟩ x = do
          let increase ← subtract x prev
          return ⟨true, decide (10000 < increase), x⟩ := by
        rw [detect, if_neg hcomputed, if_pos rfl]
      rw [hrun]
      cases prev with
      | none =>
        refine Or.inr ⟨?_, by cases x <;> rfl⟩
        rintro (h0 | hjump | ⟨⟨p, hp⟩, -⟩)
        · omega
        · exact hnone hjump
        · simp [hprev] at hp
      | some p =>
        cases x with
        | none =>
          refine Or.inr ⟨?_, rfl⟩
          rintro (h0 | hjump | ⟨-, x, hx'⟩)
          · omega
          · exact hnone hjump
          · simp [hx] at hx'
        | some x =>
          refine Or.inl ⟨Or.inr (Or.inr ⟨⟨p, hprev⟩, x, hx⟩), ⟨true, decide (10000 < x - p), some x⟩, rfl, by simp, ?_,
            fun _ _ => hx⟩
          rw [any_jumps_succ, ← h.oom, Bool.false_or, jumps_eq hk hprev hx]

/-- No comparison fails exactly when no free memory is missing up to the first jump. -/
theorem tracked_iff : Tracked seen ↔ ∀ k < seen.length, Compares seen k := by
  have hvalue : ∀ {k : ℕ}, (seen[k]?.join).isSome ↔ ∃ x, seen[k]? = some (some x) := by
    intro k
    rw [Option.isSome_iff_exists]
    simp only [Option.join_eq_some_iff]
  constructor
  · rintro (hlen | hall) k hk
    · exact Or.inl (by omega)
    · by_cases hjump : ∃ j < k, jumps seen j = true
      · exact Or.inr (Or.inl hjump)
      · have hno : ∀ j < k, jumps seen j = false := fun j hj => by simpa using fun h => hjump ⟨j, hj, h⟩
        rcases Nat.eq_zero_or_pos k with rfl | h0
        · exact Or.inl rfl
        · exact Or.inr (Or.inr ⟨hvalue.mp (hall (k - 1) (by omega) fun j hj => hno j (by omega)),
            hvalue.mp (hall k hk hno)⟩)
  · intro hall
    refine or_iff_not_imp_left.mpr fun hlen k hk hno => hvalue.mpr ?_
    rcases Nat.eq_zero_or_pos k with rfl | h0
    · -- The first free memory is asked for at the second row.
      rcases hall 1 (by omega) with h | ⟨j, hj, hjump⟩ | ⟨hfirst, -⟩
      · cases h
      · obtain rfl : j = 0 := by omega
        rw [jumps_zero] at hjump
        cases hjump
      · exact hfirst
    · rcases hall k hk with h | ⟨j, hj, hjump⟩ | ⟨-, hx⟩
      · omega
      · rw [hno j hj] at hjump
        cases hjump
      · exact hx

/-! ### The loops -/

variable {ksm : List (Row F)} {lines : List (List Char)} {rs : List (Fields F)} {t : FigureType}

theorem ksmLoop_eq (h : List.Forall₂ (HasFields py) lines rs) (m : Dict ℤ (KsmValue F)) :
    ksmLoop py m lines =
      if ∀ r ∈ rs, r.Fits then .ok ((rs.map (·.row py)).foldl (fun m row => m.write (row.time, some row.value)) m)
      else .error .overflowError := by
  induction h generalizing m with
  | nil => rfl
  | @cons line r lines rs hline h ih =>
    rw [ksmLoop, readRow_eq hline]
    by_cases hr : r.Fits
    · simp only [List.forall_mem_cons, hr, true_and, List.map_cons, List.foldl_cons]
      exact ih _
    · rw [if_neg hr, if_neg fun hall => hr (hall r List.mem_cons_self)]
      rfl

/-- The dictionary holds the last row of each time. -/
theorem foldl_write (time : ℤ) :
    ksm.foldl (fun m row => Dict.write m (row.time, some row.value)) (fun _ => none) time =
      (ksmAt ksm time).map Row.value := by
  have hafter : ksm.foldl (fun m row => Dict.write m (row.time, some row.value)) (fun _ => none) =
      Dict.after (ksm.map fun row => (row.time, some row.value)) := by
    rw [Dict.after, List.foldl_map]
  rw [hafter, Dict.after_eq, ← List.map_reverse, ksmAt]
  induction ksm.reverse with
  | nil => rfl
  | cons row rows ih =>
    rw [List.map_cons, List.lookup_cons, List.find?_cons]
    by_cases hrow : row.time = time
    · simp [hrow]
    · have hne : (time == row.time) = false := by simpa using fun h => hrow h.symm
      simp [hrow, hne, ih]

theorem printRow_eq {oom : Bool} {found : Option (Row F)} {row : Row F} :
    printRow py t.name oom ((found.map Row.value).getD ⟨none, none, none⟩) row =
      [printLine row.time (if oom then "OOM".toList else found.elim [] (metric py t)) (metric py t row)] := by
  cases t with
  | freeMem => cases found <;> rfl
  | dedupMem => cases found <;> rfl
  | cpuPercentage => cases found <;> rfl

theorem nuksmStep_eq {dict : Dict ℤ (KsmValue F)} {line : List Char} {r : Fields F} (hline : HasFields py line r)
    (hdict : ∀ time, dict time = (ksmAt ksm time).map Row.value) (hs : Follows seen k s)
    (hx : seen[k]? = some ((ksmAt ksm r.time).map (·.freeMemory))) :
    (r.Fits ∧ Compares seen k ∧ ∃ s', Follows seen (k + 1) s' ∧
        nuksmStep py dict t.name s line = .ok (s', [tableRow py t ksm seen k (r.row py)])) ∨
      (¬(r.Fits ∧ Compares seen k) ∧ ∃ e, nuksmStep py dict t.name s line = .error e) := by
  have hvalue : ((dict r.time).getD ⟨none, none, none⟩).freeMemory = (ksmAt ksm r.time).map (·.freeMemory) := by
    rw [hdict]
    cases ksmAt ksm r.time <;> rfl
  unfold nuksmStep
  rw [readRow_eq hline]
  by_cases hr : r.Fits
  · rw [if_pos hr]
    have hrow : (r.row py).time = r.time := rfl
    rcases detect_follows hs hx with ⟨hcompares, s', hdetect, hs'⟩ | ⟨hcompares, hdetect⟩
    · refine Or.inl ⟨hr, hcompares, s', hs', ?_⟩
      have hoom : s'.oom = outOfMemory seen k := hs'.oom
      simp only [bind, Except.bind, pure, Except.pure, hrow, hvalue, hdetect]
      rw [hdict, printRow_eq, hoom]
      rfl
    · refine Or.inr ⟨fun h => hcompares h.2, .typeError, ?_⟩
      simp only [bind, Except.bind, hrow, hvalue, hdetect]
  · rw [if_neg hr]
    exact Or.inr ⟨fun h => hr h.1, .overflowError, rfl⟩

theorem Outcome.cons_iff {row : List Char} {rows : List (List Char)} {rest : Outcome} :
    (⟨[row] ++ rest.printed, rest.error⟩ : Outcome) = ⟨row :: rows, none⟩ ↔ rest = ⟨rows, none⟩ := by
  obtain ⟨printed, error⟩ := rest
  simp

/-- The loop ends with the table exactly when no row ends it before. -/
theorem nuksmLoop_iff {dict : Dict ℤ (KsmValue F)} (h : List.Forall₂ (HasFields py) lines rs)
    (hdict : ∀ time, dict time = (ksmAt ksm time).map Row.value)
    (hseen : seen.drop k = freeMemories ksm (rs.map (·.row py))) (hs : Follows seen k s) :
    nuksmLoop py dict t.name s lines =
        ⟨(rs.map (·.row py)).mapIdx fun i row => tableRow py t ksm seen (k + i) row, none⟩ ↔
      (∀ r ∈ rs, r.Fits) ∧ ∀ i, k ≤ i → i < seen.length → Compares seen i := by
  induction h generalizing k s with
  | nil =>
    have hlen : seen.length ≤ k := List.drop_eq_nil_iff.mp hseen
    exact iff_of_true rfl ⟨by simp, fun i hi hi' => by omega⟩
  | @cons line r lines rs hline h ih =>
    have hx : seen[k]? = some ((ksmAt ksm r.time).map (·.freeMemory)) := by
      rw [← List.head?_drop, hseen]
      rfl
    have hrest : seen.drop (k + 1) = freeMemories ksm (rs.map (·.row py)) := by
      rw [← List.tail_drop, hseen]
      rfl
    have hk : k < seen.length := (List.getElem?_eq_some_iff.mp hx).1
    rw [nuksmLoop]
    rcases nuksmStep_eq hline hdict hs hx with ⟨hr, hcompares, s', hs', hstep⟩ | ⟨hfail, e, hstep⟩
    · have hsplit : (∀ i, k ≤ i → i < seen.length → Compares seen i) ↔
          ∀ i, k + 1 ≤ i → i < seen.length → Compares seen i := by
        refine ⟨fun hall i hi => hall i (by omega), fun hall i hi hi' => ?_⟩
        rcases hi.eq_or_lt with rfl | hlt
        · exact hcompares
        · exact hall i hlt hi'
      have hmap : ((r :: rs).map (·.row py)).mapIdx (fun i row => tableRow py t ksm seen (k + i) row) =
          tableRow py t ksm seen k (r.row py) ::
            (rs.map (·.row py)).mapIdx fun i row => tableRow py t ksm seen (k + 1 + i) row := by
        rw [List.map_cons, List.mapIdx_cons]
        simp only [Nat.add_zero, Nat.add_assoc, Nat.add_comm 1]
      rw [hstep, List.forall_mem_cons, hsplit, and_iff_right hr, hmap, ← ih hrest hs']
      exact Outcome.cons_iff
    · rw [hstep]
      refine iff_of_false (fun h => ?_) fun hall => hfail ⟨hall.1 r List.mem_cons_self, hall.2 k le_rfl hk⟩
      exact absurd (congrArg Outcome.error h) (Option.some_ne_none e)

/-! ### The script -/

/-- The script prints the table exactly when the deduplicated memories are small enough for a float and no free
memory of KSM is missing up to the first jump. -/
theorem parseOomExperiment_iff {csvKsm csvNuksm : List Char} {ksmRows nuksmRows : List (Fields F)}
    (hksm : List.Forall₂ (HasFields py) (readlines csvKsm).tail ksmRows)
    (hnuksm : List.Forall₂ (HasFields py) (readlines csvNuksm).tail nuksmRows) :
    parseOomExperiment py csvKsm csvNuksm t.name =
        ⟨table py t (ksmRows.map (·.row py)) (nuksmRows.map (·.row py)), none⟩ ↔
      (∀ r ∈ ksmRows, r.Fits) ∧ (∀ r ∈ nuksmRows, r.Fits) ∧
        Tracked (freeMemories (ksmRows.map (·.row py)) (nuksmRows.map (·.row py))) := by
  generalize hK : ksmRows.map (·.row py) = K
  generalize hN : nuksmRows.map (·.row py) = N
  unfold parseOomExperiment table
  rw [ksmLoop_eq hksm]
  by_cases hfits : ∀ r ∈ ksmRows, r.Fits
  · have hloop : nuksmLoop py (K.foldl (fun m row => m.write (row.time, some row.value)) fun _ => none) t.name
          ⟨false, false, none⟩ (readlines csvNuksm).tail =
        ⟨(nuksmRows.map (·.row py)).mapIdx fun i row => tableRow py t K (freeMemories K N) (0 + i) row, none⟩ ↔ _ :=
      nuksmLoop_iff hnuksm foldl_write (by rw [hN, List.drop_zero]) Follows.zero
    simp only [Nat.zero_add, Nat.zero_le, true_imp_iff, hN] at hloop
    rw [if_pos hfits, and_iff_right hfits, tracked_iff, ← hloop, hK]
    exact Outcome.cons_iff
  · rw [if_neg hfits]
    refine iff_of_false (fun h => ?_) fun hall => hfits hall.1
    exact absurd (congrArg Outcome.error h) (Option.some_ne_none _)

/-- The interpreter on ASCII texts, and on floats that are whole numbers. -/
def ascii : Python ℤ where
  isSpace c := decide (9 ≤ c.toNat ∧ c.toNat ≤ 13 ∨ 28 ≤ c.toNat ∧ c.toNat ≤ 32)
  digit c := if 48 ≤ c.toNat ∧ c.toNat ≤ 57 then some (c.toNat - 48) else none
  toFloat s :=
    if s.drop (s.length - 2) = ".0".toList then
      ((s.take (s.length - 2)).foldlM (fun n c =>
        if 48 ≤ c.toNat ∧ c.toNat ≤ 57 then some (10 * n + (c.toNat - 48)) else none) 0).map fun n : ℕ => (n : ℤ)
    else none
  quotient a b := a / b
  str n := (toString n).toList ++ ".0".toList

/-- The KSM free memory jumps at the second row, and a time behind the jump is missing. -/
theorem parseOomExperiment_iff_jump :
    parseOomExperiment ascii "Time\n0,1000,7,250000,7,50.0\n10,12000,7,250000,7,50.0\n".toList
        "Time\n0,900,7,500000,7,40.0\n10,800,7,500000,7,40.0\n20,700,7,500000,7,40.0\n".toList FigureType.freeMem.name =
      ⟨table ascii .freeMem ([⟨0, 50, 1000, 250000⟩, ⟨10, 50, 12000, 250000⟩].map (Fields.row ascii))
        ([⟨0, 40, 900, 500000⟩, ⟨10, 40, 800, 500000⟩, ⟨20, 40, 700, 500000⟩].map (Fields.row ascii)), none⟩ := by
  refine (parseOomExperiment_iff (t := .freeMem) ?_ ?_).mpr ⟨by decide +kernel, by decide +kernel, by decide⟩
  · exact .cons ⟨rfl, rfl, rfl, rfl⟩ (.cons ⟨rfl, rfl, rfl, rfl⟩ .nil)
  · exact .cons ⟨rfl, rfl, rfl, rfl⟩ (.cons ⟨rfl, rfl, rfl, rfl⟩ (.cons ⟨rfl, rfl, rfl, rfl⟩ .nil))

/-- The time of the second row is missing from the KSM file. -/
theorem not_parseOomExperiment :
    List.Forall₂ (HasFields ascii) (readlines "Time\n0,1000,7,250000,7,50.0\n".toList).tail [⟨0, 50, 1000, 250000⟩] ∧
      List.Forall₂ (HasFields ascii) (readlines "Time\n0,900,7,500000,7,40.0\n10,800,7,500000,7,40.0\n".toList).tail
        [⟨0, 40, 900, 500000⟩, ⟨10, 40, 800, 500000⟩] ∧
      (parseOomExperiment ascii "Time\n0,1000,7,250000,7,50.0\n".toList
          "Time\n0,900,7,500000,7,40.0\n10,800,7,500000,7,40.0\n".toList FigureType.freeMem.name).error =
        some .typeError ∧
      parseOomExperiment ascii "Time\n0,1000,7,250000,7,50.0\n".toList
          "Time\n0,900,7,500000,7,40.0\n10,800,7,500000,7,40.0\n".toList FigureType.freeMem.name ≠
        ⟨table ascii .freeMem ([⟨0, 50, 1000, 250000⟩].map (Fields.row ascii))
          ([⟨0, 40, 900, 500000⟩, ⟨10, 40, 800, 500000⟩].map (Fields.row ascii)), none⟩ := by
  refine ⟨.cons ⟨rfl, rfl, rfl, rfl⟩ .nil, .cons ⟨rfl, rfl, rfl, rfl⟩ (.cons ⟨rfl, rfl, rfl, rfl⟩ .nil), ?_, ?_⟩
  · decide +kernel
  · decide +kernel

end NuKSM.Scripts
