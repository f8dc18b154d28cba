import NuKSM.Theorems.Sysbench.QueryText

/-! # The texts that the drivers send and store

The drivers use the text that the loop builds in different ways. Where it is built, it is the query with a value for each
placeholder. -/

namespace NuKSM.Sysbench

/-! ### Strings in buffers -/

/-- What follows the loop only follows a text that is built. -/
theorem LoopEnd.bind_eq_done {α β : Type} {f : α → LoopEnd β} {e : LoopEnd α} {b : β} (h : e.bind f = .done b) :
    ∃ a, e = .done a ∧ f a = .done b := by
  cases e with
  | done a => exact ⟨a, rfl, h⟩
  | noMemory size => cases h
  | fault => cases h

/-- A string ends at its terminator. -/
theorem cString?_eq {text buf : List Char} (hnul : nul ∉ text) (h : text ++ [nul] <+: buf) : cString? buf = some text := by
  obtain ⟨rest, rfl⟩ := h
  have hall : ∀ c ∈ text, decide (c ≠ nul) = true := fun c hc => decide_eq_true fun heq => hnul (heq ▸ hc)
  rw [cString?, if_pos (by simp), List.append_assoc, List.takeWhile_append_of_pos hall]
  simp

theorem substitute_noNul {query : List Char} {texts : List (List Char)} (hquery : nul ∉ query) (htexts : ∀ t ∈ texts, nul ∉ t) :
    nul ∉ substitute query texts := by
  fun_induction substitute query texts with
  | case1 => exact List.not_mem_nil
  | case2 query value values ih =>
    rw [List.mem_append, not_or]
    refine ⟨htexts value List.mem_cons_self, ih (fun h => hquery (List.mem_cons_of_mem _ h)) fun t ht => ?_⟩
    exact htexts t (List.mem_cons_of_mem _ ht)
  | case3 texts c query _ ih =>
    obtain ⟨hc, hquery⟩ := not_or.mp (List.mem_cons.not.mp hquery)
    exact List.mem_cons.not.mpr (not_or.mpr ⟨hc, ih hquery htexts⟩)

/-! ### Texts that are never empty -/

section nonempty
variable {query front : List Char} {texts : List (List Char)} {c : Char}

theorem length_le_textLength (htexts : ∀ k < query.count '?', texts.getD k [] ≠ []) : query.length ≤ textLength texts query := by
  have hcount : query.count '?' ≤ query.length := List.count_le_length
  have hsum : ∑ k ∈ Finset.range (query.count '?'), 1 ≤ ∑ k ∈ Finset.range (query.count '?'), (texts.getD k []).length :=
    Finset.sum_le_sum fun k hk => List.length_pos_iff.mpr (htexts k (Finset.mem_range.mp hk))
  rw [Finset.sum_const, Finset.card_range, smul_eq_mul, mul_one] at hsum
  rw [textLength]
  omega

/-- Where no text is empty, it is the whole text that has to fit. -/
theorem fits_iff_length (hcount : query.count '?' ≤ texts.length) (htexts : ∀ k < query.count '?', texts.getD k [] ≠ [])
    (hfirst : (texts.getD 0 []).length < 2 ^ 30) : FitsBuffer query texts ↔ textLength texts query < 2 ^ 31 := by
  rw [← length_substitute hcount]
  constructor
  · rintro ⟨-, hfits⟩
    rcases List.eq_nil_or_concat query with rfl | ⟨front, c, rfl⟩
    · rw [substitute]
      norm_num
    · rw [List.concat_eq_append] at hcount hfits ⊢
      have hfront : front.count '?' ≤ (front ++ [c]).count '?' := (List.sublist_append_left ..).count_le _
      have hlt := (hfits front c List.prefix_rfl).1
      rw [← length_substitute (hfront.trans hcount)] at hlt
      rw [substitute_snoc hcount, List.length_append]
      omega
  · intro hlt
    have hle := length_le_textLength htexts
    rw [← length_substitute hcount] at hle
    refine ⟨by omega, fun front c hpre => ?_⟩
    have hfront : front.count '?' ≤ (front ++ [c]).count '?' := (List.sublist_append_left ..).count_le _
    have hpart : (front ++ [c]).count '?' ≤ query.count '?' := hpre.sublist.count_le _
    have hempty := length_le_textLength fun k hk => htexts k (hk.trans_le (hfront.trans hpart))
    have hlength : (substitute front texts).length + (piece texts front c).length ≤ (substitute query texts).length := by
      obtain ⟨back, rfl⟩ := hpre
      rw [substitute_append texts _ back (hpart.trans hcount), substitute_snoc (hpart.trans hcount), List.length_append,
        List.length_append]
      exact Nat.le_add_right _ _
    rw [length_substitute ((hfront.trans hpart).trans hcount)] at hlength
    have hpiece : piece texts front c ≠ [] := by
      rw [piece]
      split
      · rename_i hc
        refine htexts _ (lt_of_lt_of_le ?_ hpart)
        rw [hc, List.count_append, List.count_singleton_self]
        exact Nat.lt_succ_self _
      · exact List.cons_ne_nil _ _
    have hpos := List.length_pos_iff.mpr hpiece
    refine ⟨by omega, fun hzero => ?_⟩
    have hnil : front = [] := List.length_eq_zero_iff.mp (by omega)
    rw [hnil, piece]
    split
    · exact hfirst
    · norm_num

end nonempty

/-! ### Emulated statements -/

section param
variable {format : DbBindType → List Char → List Char} {boundParam : List DbBind} {query : List Char} {texts : List (List Char)}

theorem dbPrintText_noNul (hformat : ∀ type buffer, nul ∉ format type buffer) {var : DbBind} {text : List Char}
    (h : dbPrintText format var = some text) : nul ∉ text := by
  have hstring : ∀ s, (cString? var.buffer).map (fun s => '\'' :: (s ++ ['\''])) = some s → nul ∉ s := by
    intro s hs
    obtain ⟨chars, hchars, rfl⟩ := Option.map_eq_some_iff.mp hs
    rw [cString?] at hchars
    split at hchars
    · obtain rfl := Option.some.inj hchars
      intro hmem
      rcases List.mem_cons.mp hmem with hquote | hmem
      · exact absurd hquote (by decide)
      · rcases List.mem_append.mp hmem with hmem | hquote
        · have hne := List.mem_takeWhile_imp hmem
          exact of_decide_eq_true hne rfl
        · exact absurd (List.mem_singleton.mp hquote) (by decide)
    · cases hchars
  rw [dbPrintText] at h
  split at h
  · obtain rfl := Option.some.inj h
    decide
  · split at h
    · exact hstring text h
    · exact hstring text h
    · obtain rfl := Option.some.inj h
      exact List.not_mem_nil
    · obtain rfl := Option.some.inj h
      exact hformat _ _

/-- Each placeholder of a query has a parameter, and the parameters have texts. -/
structure ParamTexts (format : DbBindType → List Char → List Char) (boundParam : List DbBind) (query : List Char)
    (texts : List (List Char)) : Prop where
  noNul : nul ∉ query
  texts : boundParam.map (dbPrintText format) = texts.map some
  enough : query.count '?' ≤ boundParam.length

theorem ParamTexts.length_eq (h : ParamTexts format boundParam query texts) : boundParam.length = texts.length := by
  have hlength := congrArg List.length h.texts
  rwa [List.length_map, List.length_map] at hlength

theorem ParamTexts.answers (h : ParamTexts format boundParam query texts) : PrintsTexts texts 0 (printParam format boundParam) query where
  noNul := h.noNul
  count := h.enough.trans h.length_eq.le
  prints := by
    intro hshort k hk
    have hcount : query.count '?' ≤ query.length := List.count_le_length
    have henough := h.enough
    have hlength := h.length_eq
    have hindex : (UInt32.ofNat (0 + k)).toNat = k := by
      rw [Nat.zero_add, UInt32.toNat_ofNat', Nat.mod_eq_of_lt (by omega)]
    have hlt : k < boundParam.length := by omega
    have hlt' : k < texts.length := by omega
    have htext : (boundParam.map (dbPrintText format))[k]? = (texts.map some)[k]? := by rw [h.texts]
    rw [List.getElem?_map, List.getElem?_map, List.getElem?_eq_getElem hlt, List.getElem?_eq_getElem hlt'] at htext
    have hvar : boundParam[(UInt32.ofNat (0 + k)).toNat]? = some boundParam[k] := by rw [hindex, List.getElem?_eq_getElem hlt]
    rw [List.getD_eq_getElem _ _ hlt']
    exact printParam_prints hvar (Option.some.inj htext)

theorem ParamTexts.noNul_texts (h : ParamTexts format boundParam query texts) (hformat : ∀ type buffer, nul ∉ format type buffer) :
    ∀ t ∈ texts, nul ∉ t := by
  intro t ht
  have hmem : some t ∈ boundParam.map (dbPrintText format) := by
    rw [h.texts]
    exact List.mem_map_of_mem ht
  obtain ⟨var, -, hvar⟩ := List.mem_map.mp hmem
  exact dbPrintText_noNul hformat hvar

/-- Whatever is in new memory, both drivers send the text, unless there is no memory. -/
def BothSend (format : DbBindType → List Char → List Char) (boundParam : List DbBind) (query text : List Char) : Prop :=
  ∀ realloc junk, ∃ n,
    (mysqlExecuteQuery realloc junk query n format boundParam = some (.done text) ∧
      pgsqlExecuteQuery realloc junk query n format boundParam = some (.done text)) ∨
    ∃ size, size ≠ 0 ∧ realloc size = false ∧ mysqlExecuteQuery realloc junk query n format boundParam = some (.noMemory size) ∧
      pgsqlExecuteQuery realloc junk query n format boundParam = some (.noMemory size)

/-- The text is the query with the texts of the parameters exactly if each piece of it fits. -/
theorem bothSend_iff (hparams : ParamTexts format boundParam query texts) (hne : query ≠ [])
    (hformat : ∀ type buffer, nul ∉ format type buffer) :
    BothSend format boundParam query (substitute query texts) ↔ FitsBuffer query texts := by
  have hanswers := hparams.answers
  constructor
  · intro hsend
    obtain ⟨n, ⟨hmysql, -⟩ | ⟨size, -, hrefused, -⟩⟩ := hsend (fun _ => true) (fun _ => nul)
    · obtain ⟨e, hloop, hend⟩ := Option.map_eq_some_iff.mp hmysql
      obtain ⟨s, rfl, -⟩ := LoopEnd.bind_eq_done hend
      exact hanswers.fits ⟨n, hloop⟩
    · cases hrefused
  · intro hfits realloc junk
    rcases hanswers.ends realloc junk hne hfits with
      ⟨s, ⟨n, hloop⟩, hbuilt⟩ | ⟨size, hsize, hrefused, n, hloop⟩
    · have hnul : nul ∉ substitute query texts := substitute_noNul hparams.noNul (hparams.noNul_texts hformat)
      have htake : s.buf.take s.j.toNat = substitute query texts := by
        rw [hbuilt.place]
        exact (List.prefix_iff_eq_take.mp ((List.prefix_append ..).trans hbuilt.text)).symm
      refine ⟨n, .inl ⟨?_, ?_⟩⟩
      · exact Option.map_eq_some_iff.mpr ⟨_, hloop, congrArg LoopEnd.done htake⟩
      · refine Option.map_eq_some_iff.mpr ⟨_, hloop, ?_⟩
        rw [LoopEnd.bind, stringOf, cString?_eq hnul hbuilt.text]
    · exact ⟨n, .inr ⟨size, hsize, hrefused, Option.map_eq_some_iff.mpr ⟨_, hloop, rfl⟩,
        Option.map_eq_some_iff.mpr ⟨_, hloop, rfl⟩⟩⟩

/-- A statement with a string. -/
theorem bothSend_iff_one : BothSend (fun _ _ => []) [⟨.varchar, ['x', nul], 1, 1, false⟩] ['a', '=', '?', ';']
    ['a', '=', '\'', 'x', '\'', ';'] := by
  have hparams : ParamTexts (fun _ _ => []) [⟨.varchar, ['x', nul], 1, 1, false⟩] ['a', '=', '?', ';'] [['\'', 'x', '\'']] :=
    ⟨by decide, by decide, by decide⟩
  have hfits : FitsBuffer ['a', '=', '?', ';'] [['\'', 'x', '\'']] :=
    (fits_iff_length (by decide) (by decide) (by decide)).mpr (by decide)
  exact (bothSend_iff hparams (by decide) fun _ _ => List.not_mem_nil).mpr hfits

/-- A string that needs a buffer of `2 ^ 31` bytes. -/
theorem not_bothSend : ¬∀ format boundParam query texts, ParamTexts format boundParam query texts → query ≠ [] →
    (∀ type buffer, nul ∉ format type buffer) → BothSend format boundParam query (substitute query texts) := by
  intro hall
  have hnul : nul ∉ List.replicate (2 ^ 30 - 2) 'x' := fun h => absurd (List.eq_of_mem_replicate h) (by decide)
  have hparams : ParamTexts (fun _ _ => []) [⟨.varchar, List.replicate (2 ^ 30 - 2) 'x' ++ [nul], 2 ^ 30 - 2, 2 ^ 30 - 2, false⟩] ['?']
      ['\'' :: (List.replicate (2 ^ 30 - 2) 'x' ++ ['\''])] := by
    refine ⟨by decide, ?_, by decide⟩
    rw [List.map_singleton, List.map_singleton, dbPrintText, if_neg (by decide)]
    dsimp only
    rw [cString?_eq hnul List.prefix_rfl]
    rfl
  have hformat : ∀ (type : DbBindType) (buffer : List Char), nul ∉ (fun _ _ => [] : DbBindType → List Char → List Char) type buffer :=
    fun _ _ => List.not_mem_nil
  have hfits := (bothSend_iff hparams (List.cons_ne_nil _ _) hformat).mp (hall _ _ _ _ hparams (List.cons_ne_nil _ _) hformat)
  have hlt := (hfits.2 [] '?' List.prefix_rfl).2 rfl
  rw [piece, if_pos rfl, List.count_nil, List.getD_cons_zero, List.length_cons, List.length_append, List.length_replicate,
    List.length_singleton] at hlt
  norm_num at hlt

end param

/-! ### Statements of the server -/

section server
variable {query : List Char}

/-- What stands for the placeholders of a prepared statement. -/
def numbers (n : ℕ) : List (List Char) := (List.range n).map fun k => '$' :: Nat.toDigits 10 (k + 1)

/-- What is printed for them. -/
def printedNumbers (n : ℕ) : List (List Char) := (List.range n).map fun k => '$' :: printDecimal (UInt32.ofNat (1 + k)).toInt32

theorem getD_numbers {n k : ℕ} (hk : k < n) : (numbers n).getD k [] = '$' :: Nat.toDigits 10 (k + 1) := by
  rw [List.getD_eq_getElem _ _ (by simpa [numbers] using hk)]
  simp [numbers]

theorem getD_printedNumbers {n k : ℕ} (hk : k < n) :
    (printedNumbers n).getD k [] = '$' :: printDecimal (UInt32.ofNat (1 + k)).toInt32 := by
  rw [List.getD_eq_getElem _ _ (by simpa [printedNumbers] using hk)]
  simp [printedNumbers]

theorem printedNumbers_eq {n : ℕ} (hn : n < 2 ^ 31) : printedNumbers n = numbers n := by
  refine List.map_congr_left fun k hk => congrArg _ ?_
  rw [List.mem_range] at hk
  have hnat : (UInt32.ofNat (1 + k)).toNat = k + 1 := by
    rw [UInt32.toNat_ofNat', Nat.mod_eq_of_lt (by omega), add_comm]
  have hint : (UInt32.ofNat (1 + k)).toInt32.toInt = k + 1 := by
    rw [toInt_toInt32, hnat, if_pos (by omega)]
    push_cast
    rfl
  rw [printDecimal, if_neg, hint]
  · rfl
  · rw [Int32.lt_iff_toInt_lt, hint, Int32.toInt_zero]
    omega

theorem answers_printedNumbers (hquery : nul ∉ query) : PrintsTexts (printedNumbers (query.count '?')) 1 printNumber query := by
  refine ⟨hquery, by simp [printedNumbers], fun _ k hk => ?_⟩
  rw [getD_printedNumbers hk]
  exact printNumber_prints _

theorem fits_printedNumbers_iff (query : List Char) : FitsBuffer query (printedNumbers (query.count '?')) ↔
    query.length + ∑ k ∈ Finset.range (query.count '?'), (Nat.toDigits 10 (k + 1)).length < 2 ^ 31 := by
  have hcount : query.count '?' ≤ (printedNumbers (query.count '?')).length := by simp [printedNumbers]
  have htexts : ∀ k < query.count '?', (printedNumbers (query.count '?')).getD k [] ≠ [] := by
    intro k hk
    rw [getD_printedNumbers hk]
    exact List.cons_ne_nil _ _
  have hfirst : ((printedNumbers (query.count '?')).getD 0 []).length < 2 ^ 30 := by
    cases query.count '?' with
    | zero => norm_num [printedNumbers]
    | succ n =>
      rw [getD_printedNumbers (Nat.succ_pos n)]
      have hlength : ('$' :: printDecimal (UInt32.ofNat (1 + 0)).toInt32).length = 2 := by decide
      rw [hlength]
      norm_num
  have hlarge : query.count '?' ≤ query.length := List.count_le_length
  rw [fits_iff_length hcount htexts hfirst]
  by_cases hn : query.count '?' < 2 ^ 31
  · have hsum : ∑ k ∈ Finset.range (query.count '?'), ((printedNumbers (query.count '?')).getD k []).length =
        ∑ k ∈ Finset.range (query.count '?'), ((Nat.toDigits 10 (k + 1)).length + 1) := by
      refine Finset.sum_congr rfl fun k hk => ?_
      rw [printedNumbers_eq hn, getD_numbers (Finset.mem_range.mp hk), List.length_cons]
    rw [textLength, hsum, Finset.sum_add_distrib, Finset.sum_const, Finset.card_range, smul_eq_mul, mul_one]
    omega
  · have hle := length_le_textLength htexts
    omega

/-- The query with its numbers is stored, and the number of parameters, unless there is no memory. -/
def StoresNumbers (query : List Char) : Prop :=
  ∀ realloc junk, ∃ n,
    (∃ nparams : Int32, pgsqlPrepareQuery realloc junk query n = some (.done (substitute query (numbers (query.count '?')), nparams)) ∧
      nparams.toInt = query.count '?') ∨
    ∃ size, size ≠ 0 ∧ realloc size = false ∧ pgsqlPrepareQuery realloc junk query n = some (.noMemory size)

/-- The query is stored exactly if it is less than `2 ^ 31` bytes long with its numbers. -/
theorem storesNumbers_iff (hquery : nul ∉ query) (hne : query ≠ []) : StoresNumbers query ↔
    query.length + ∑ k ∈ Finset.range (query.count '?'), (Nat.toDigits 10 (k + 1)).length < 2 ^ 31 := by
  have hanswers := answers_printedNumbers hquery
  rw [← fits_printedNumbers_iff]
  constructor
  · intro hstores
    obtain ⟨n, ⟨nparams, hprepare, -⟩ | ⟨size, -, hrefused, -⟩⟩ := hstores (fun _ => true) (fun _ => nul)
    · obtain ⟨e, hloop, hend⟩ := Option.map_eq_some_iff.mp hprepare
      obtain ⟨s, rfl, -⟩ := LoopEnd.bind_eq_done hend
      exact hanswers.fits ⟨n, hloop⟩
    · cases hrefused
  · intro hfits realloc junk
    have hcount : query.count '?' ≤ query.length := List.count_le_length
    have hsmall := (fits_printedNumbers_iff query).mp hfits
    have hnumbers := printedNumbers_eq (n := query.count '?') (by omega)
    rcases hanswers.ends realloc junk hne hfits with
      ⟨s, ⟨n, hloop⟩, hbuilt⟩ | ⟨size, hsize, hrefused, n, hloop⟩
    · have htext := hbuilt.text
      rw [hnumbers] at htext
      have hnul : nul ∉ substitute query (numbers (query.count '?')) := by
        refine substitute_noNul hquery fun t ht hmem => ?_
        obtain ⟨k, -, rfl⟩ := List.mem_map.mp ht
        rcases List.mem_cons.mp hmem with hdollar | hdigit
        · exact absurd hdollar (by decide)
        · exact absurd (Nat.isDigit_of_mem_toDigits (by norm_num) (by norm_num) hdigit) (by decide)
      have hvcnt : (s.vcnt - 1).toInt32.toInt = query.count '?' := by
        have hnat : (UInt32.ofNat (query.count '?')).toNat = query.count '?' := by
          rw [UInt32.toNat_ofNat', Nat.mod_eq_of_lt (by omega)]
        have hone : UInt32.ofNat 1 = 1 := rfl
        rw [hbuilt.vcnt, UInt32.ofNat_add, hone, add_sub_cancel_left, toInt_toInt32, hnat, if_pos (by omega)]
      refine ⟨n, .inl ⟨_, Option.map_eq_some_iff.mpr ⟨_, hloop, ?_⟩, hvcnt⟩⟩
      rw [LoopEnd.bind, stringOf, cString?_eq hnul htext]
      rfl
    · exact ⟨n, .inr ⟨size, hsize, hrefused, Option.map_eq_some_iff.mpr ⟨_, hloop, rfl⟩⟩⟩

theorem storesNumbers_iff_two : StoresNumbers ['a', '=', '?', '+', '?'] :=
  (storesNumbers_iff (by decide) (by decide)).mpr (by decide)

/-- Most of the numbers up to `2 ^ 28` have eight digits. -/
theorem not_storesNumbers : ¬∀ query : List Char, nul ∉ query → query ≠ [] → StoresNumbers query := by
  intro hall
  have hnul : nul ∉ List.replicate (2 ^ 28) '?' := fun h => absurd (List.eq_of_mem_replicate h) (by decide)
  have hne : List.replicate (2 ^ 28) '?' ≠ [] := by
    rw [← List.length_pos_iff, List.length_replicate]
    norm_num
  have hlt := (storesNumbers_iff hnul hne).mp (hall _ hnul hne)
  rw [List.length_replicate, List.count_replicate_self] at hlt
  have hdigits : ∀ k ∈ Finset.Ico (10 ^ 7) (2 ^ 28), 8 ≤ (Nat.toDigits 10 (k + 1)).length := by
    intro k hk
    have hle := (Finset.mem_Ico.mp hk).1
    by_contra hshort
    have hle' : (Nat.toDigits 10 (k + 1)).length ≤ 7 := by omega
    have hsmall := (Nat.length_toDigits_le_iff (by norm_num) (by norm_num)).mp hle'
    omega
  have hsum := Finset.card_nsmul_le_sum _ _ _ hdigits
  have hpart : ∑ k ∈ Finset.Ico (10 ^ 7) (2 ^ 28), (Nat.toDigits 10 (k + 1)).length ≤
      ∑ k ∈ Finset.range (2 ^ 28), (Nat.toDigits 10 (k + 1)).length := by
    refine Finset.sum_le_sum_of_subset fun k hk => Finset.mem_range.mpr (Finset.mem_Ico.mp hk).2
  rw [Nat.card_Ico, smul_eq_mul] at hsum
  omega

end server

end NuKSM.Sysbench
