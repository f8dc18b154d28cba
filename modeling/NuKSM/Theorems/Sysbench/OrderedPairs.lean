import NuKSM.Sysbench.Cmdline

/-! # The ordered iterator over a table

The iterator goes through the keys in their order. The list of the keys lies in the table that it goes through, so it
hides what has its key. -/

namespace NuKSM.Sysbench
variable {tostring : ℚ → List Char} {t t₁ : LuaTable} {state : Option (List Char)} {names C : List (List Char)}
  {args : List TestArg} {passes : ℕ}

/-! ### The iterator -/

theorem lookup_cons_eq {α : Type} {k : List Char} {e : List Char × α} {es : List (List Char × α)} :
    List.lookup k (e :: es) = if k = e.1 then some e.2 else es.lookup k := by
  rw [List.lookup_cons]
  by_cases h : k = e.1
  · simp [h]
  · have hne : (k == e.1) = false := by simpa using h
    rw [hne, if_neg h]

theorem lookup_replace {key k : List Char} {d : LuaDef} :
    List.lookup k (t.map fun e => if e.1 = key then (key, d) else e) =
      if k = key ∧ ∃ e ∈ t, e.1 = key then some d else t.lookup k := by
  induction t with
  | nil => simp
  | cons e t ih =>
    rw [List.map_cons, lookup_cons_eq, lookup_cons_eq, ih]
    by_cases he : e.1 = key
    · by_cases hk : k = key
      · simp [he, hk]
      · simp [he, hk]
    · have hmem : (∃ x ∈ e :: t, x.1 = key) ↔ ∃ x ∈ t, x.1 = key := by
        rw [List.exists_mem_cons_iff, or_iff_right he]
      simp only [if_neg he, hmem]
      by_cases hk : k = e.1
      · simp [he, hk]
      · rw [if_neg hk, if_neg hk]

theorem lookup_assign {key k : List Char} {d : LuaDef} :
    (t.assign key d).lookup k = if k = key then some d else t.lookup k := by
  unfold LuaTable.assign
  by_cases hany : ∃ e ∈ t, e.1 = key
  · rw [if_pos (by simpa using hany), lookup_replace]
    simp only [hany, and_true]
  · have hnone : ∀ e ∈ t, e.1 ≠ key := fun e he h => hany ⟨e, he, h⟩
    rw [if_neg (by simpa using hany), List.lookup_append, lookup_cons_eq]
    by_cases hk : k = key
    · have hlookup : t.lookup k = none := List.lookup_eq_none_iff.mpr fun e he => by
        simpa [hk] using (hnone e he).symm
      rw [if_pos hk, if_pos hk, hlookup, Option.none_or]
    · rw [if_neg hk, if_neg hk, List.lookup_nil, Option.or_none]

theorem slot_strings (names : List (List Char)) (i : ℕ) :
    slot (names.map .string) (i + 1) = (names[i]?).elim .nil .string := by
  rw [slot, Nat.add_sub_cancel, List.getD_eq_getElem?_getD, List.getElem?_map]
  cases names[i]? <;> rfl

/-- Of a loop that keeps the last hit, when there is one hit. -/
theorem foldl_hit {β : Type} {p : ℕ → Bool} {f : ℕ → β} {b : β} {n j : ℕ} (hj : j < n)
    (hp : ∀ i < n, p i = true ↔ i = j) : (List.range n).foldl (fun key i => if p i then f i else key) b = f j := by
  induction n with
  | zero => omega
  | succ n ih =>
    rw [List.range_succ, List.foldl_append, List.foldl_cons, List.foldl_nil]
    by_cases hn : n = j
    · rw [if_pos ((hp n (by omega)).mpr hn), hn]
    · rw [if_neg fun h => hn ((hp n (by omega)).mp h)]
      exact ih (by omega) fun i hi => hp i (by omega)

theorem nextKey_eq {A : List (List Char)} {a : List Char} (hnodup : (A ++ a :: C).Nodup) :
    nextKey ((A ++ a :: C).map .string) a = C.head?.elim .nil .string := by
  have hslot : slot ((A ++ a :: C).map .string) (A.length + 2) = C.head?.elim .nil .string := by
    rw [slot_strings, List.getElem?_append_right (by omega), Nat.add_sub_cancel_left, List.getElem?_cons_succ,
      List.head?_eq_getElem?]
  rw [← hslot, nextKey]
  refine foldl_hit (by simp) fun i hi => ?_
  rw [List.length_map] at hi
  obtain ⟨x, hx⟩ : ∃ x, (A ++ a :: C)[i]? = some x := ⟨_, List.getElem?_eq_getElem hi⟩
  have ha : (A ++ a :: C)[A.length]? = some a := by simp
  rw [slot_strings, hx]
  show decide (x = a) = true ↔ _
  rw [decide_eq_true_iff]
  constructor
  · rintro rfl
    exact (List.getElem?_inj hi hnodup).mp (hx.trans ha.symm)
  · rintro rfl
    exact Option.some.inj (hx.symm.trans ha)

/-- The keys that the iterator goes through next, in a table in which their list lies. -/
def Ahead (t₁ : LuaTable) : LuaTable → Option (List Char) → List (List Char) → Prop
  | t, state, [] => (orderedNext t state).1 = none
  | t, state, key :: C => orderedNext t state = (some (key, t₁.lookup key), t₁) ∧ Ahead t₁ t₁ (some key) C

theorem ahead_some (hnodup : names.Nodup) (hindex : t₁.lookup orderedIndex = some (names.map .string)) :
    ∀ {A : List (List Char)} {a : List Char}, names = A ++ a :: C → Ahead t₁ t₁ (some a) C := by
  have hnext : ∀ {A a C}, names = A ++ a :: C →
      nextKey ((t₁.lookup orderedIndex).getD []) a = C.head?.elim .nil .string := by
    rintro A a C rfl
    rw [hindex]
    exact nextKey_eq hnodup
  induction C with
  | nil =>
    intro A a h
    have hkey := hnext h
    simp only [Ahead, orderedNext, Option.isNone_some, Bool.false_eq_true, ↓reduceIte, Option.elim_some, hkey]
    rfl
  | cons b C ih =>
    intro A a h
    have hkey := hnext h
    refine ⟨?_, ih (h.trans (List.append_cons A a (b :: C)))⟩
    simp only [orderedNext, Option.isNone_some, Bool.false_eq_true, ↓reduceIte, Option.elim_some, hkey]
    rfl

/-- The table with the list of its keys. -/
def LuaTable.indexed (t : LuaTable) : LuaTable := t.assign orderedIndex ((genOrderedIndex t).map .string)

/-- From the start the iterator goes through all keys in their order. -/
theorem ahead_none (hnodup : (t.map Prod.fst).Nodup) : Ahead t.indexed t none (genOrderedIndex t) := by
  have hindex : t.indexed.lookup orderedIndex = some ((genOrderedIndex t).map .string) := by
    rw [LuaTable.indexed, lookup_assign, if_pos rfl]
  have hsorted : (genOrderedIndex t).Nodup := (List.perm_insertionSort _ _).nodup_iff.mpr hnodup
  have hfirst : slot (((t.assign orderedIndex ((genOrderedIndex t).map .string)).lookup orderedIndex).getD []) 1 =
      (genOrderedIndex t)[0]?.elim .nil .string := by
    rw [lookup_assign, if_pos rfl, Option.getD_some, slot_strings]
  cases hnames : genOrderedIndex t with
  | nil =>
    rw [hnames] at hfirst
    simp only [Ahead, orderedNext, Option.isNone_none, ↓reduceIte, Option.elim_none, hnames, hfirst]
    rfl
  | cons key names =>
    refine ⟨?_, ahead_some hsorted hindex (A := []) hnames⟩
    rw [hnames] at hfirst
    simp only [orderedNext, Option.isNone_none, ↓reduceIte, Option.elim_none, hnames, hfirst, LuaTable.indexed]
    rfl

/-! ### The loop -/

/-- The passes of the loop for these names. -/
def readAll (tostring : ℚ → List Char) (t : LuaTable) : List (List Char) → List TestArg → Except LuaError (List TestArg)
  | [], args => .ok args
  | name :: names, args => do
    let arg ← readOption tostring name (t.lookup name)
    readAll tostring t names (args ++ [arg])

/-- The loop makes one pass for each key that is ahead, if it gets to them. -/
theorem readLoop_ahead : ∀ {t : LuaTable} {state : Option (List Char)} {args : List TestArg} {passes : ℕ},
    Ahead t₁ t state C →
      (readLoop tostring passes t state args = none ∧ passes ≤ C.length) ∨
        readLoop tostring passes t state args = some (readAll tostring t₁ C args) := by
  induction C with
  | nil =>
    intro t state args passes h
    cases passes with
    | zero => exact Or.inl ⟨rfl, le_rfl⟩
    | succ passes =>
      obtain ⟨t', hnext⟩ : ∃ t', orderedNext t state = (none, t') := ⟨_, Prod.ext h rfl⟩
      refine Or.inr ?_
      rw [readLoop, hnext]
      rfl
  | cons key C ih =>
    intro t state args passes h
    cases passes with
    | zero => exact Or.inl ⟨rfl, Nat.zero_le _⟩
    | succ passes =>
      simp only [readLoop, h.1, readAll]
      cases hread : readOption tostring key (t₁.lookup key) with
      | error e => exact Or.inr rfl
      | ok arg =>
        rcases ih h.2 with ⟨hnone, hle⟩ | hsome
        · exact Or.inl ⟨hnone, Nat.succ_le_succ hle⟩
        · exact Or.inr hsome

end NuKSM.Sysbench
