import NuKSM.Lib.SqlLiteral
import NuKSM.Sysbench.MysqlDriver
import NuKSM.Sysbench.SqlApi

/-! # The strings of emulated statements

Whether the text that an emulated statement has for a parameter denotes the value that the server gets of it otherwise. -/

namespace NuKSM.Sysbench
open SqlLiteral

/-- What the server takes a parameter for: NULL, or the first `length` bytes of its buffer. -/
def MysqlBind.value (bind : MysqlBind) : Option (List Char) := if bind.isNull then none else some (bind.buffer.take bind.length)

/-- What a text in a statement denotes, if it is NULL or the literal of a string. -/
def sqlValue (text : List Char) : Option (Option (List Char)) :=
  if text = ['N', 'U', 'L', 'L'] then some none else (SqlLiteral.value text).map some

/-- The statement with the text has the value that the server gets otherwise. -/
def SameValue (format : DbBindType → List Char → List Char) (param : DbBind) : Prop :=
  (dbPrintText format param).bind sqlValue = some (convertToMysqlBind param).value

instance (format : DbBindType → List Char → List Char) (param : DbBind) : Decidable (SameValue format param) :=
  inferInstanceAs (Decidable (_ = _))

/-- A value that fits: the text that it makes denotes it, it is shorter than the buffer, and there is no rest of a longer one
behind it. -/
def Fits (param : DbBind) : Option (List Char) → Prop
  | none => True
  | some value => nul ∉ value ∧ Verbatim value ∧ value.length < param.maxLen ∧ param.buffer[value.length]? = some nul

/-- A step sets one of the parameters of a statement. -/
def setParam (params : ℕ → DbBind) (c : ℕ × Option (List Char)) : ℕ → DbBind :=
  Function.update params c.1 (sqlParamSet c.2 (params c.1))

variable {format : DbBindType → List Char → List Char} {param : DbBind}

theorem sqlValue_quoted (s : List Char) : sqlValue ('\'' :: (s ++ ['\''])) = (unescape s).map some := by
  rw [sqlValue, if_neg (by simp), value_quoted]

/-- The text of a string is what its buffer holds before the end. -/
theorem sameValue_iff (htype : param.type = .varchar) (hnull : param.isNull = false) : SameValue format param ↔
    nul ∈ param.buffer ∧ unescape (param.buffer.takeWhile (· ≠ nul)) = some (param.buffer.take param.dataLen) := by
  unfold SameValue dbPrintText cString? convertToMysqlBind MysqlBind.value
  simp only [hnull, htype, Bool.false_eq_true, if_false]
  split
  · rw [Option.map_some, Option.bind_some, sqlValue_quoted, and_iff_right ‹_›]
    exact Option.map_injective (Option.some_injective _) |>.eq_iff' rfl
  · exact iff_of_false nofun fun h => ‹¬_› h.1

theorem sameValue_null (hnull : param.isNull = true) : SameValue format param := by
  unfold SameValue dbPrintText convertToMysqlBind MysqlBind.value
  rw [hnull]
  rfl

/-! ### Setting a value -/

section set
variable {value : List Char}

/-- Of a value that is not cut off nothing is lost. -/
theorem sqlParamSet_of_lt (h : value.length < param.maxLen) : sqlParamSet (some value) param =
    { param with isNull := false, buffer := value ++ param.buffer.drop value.length, dataLen := value.length } := by
  unfold sqlParamSet
  dsimp only
  rw [if_neg h.le.not_gt, List.take_length]

/-- A value that is cut off fills the buffer. -/
theorem sqlParamSet_of_ge (hlen : param.buffer.length = param.maxLen) (h : param.maxLen ≤ value.length) :
    sqlParamSet (some value) param =
      { param with isNull := false, buffer := value.take param.maxLen, dataLen := param.maxLen } := by
  have hfull : (if param.maxLen < value.length then param.maxLen else value.length) = param.maxLen := by
    split
    · rfl
    · exact le_antisymm (not_lt.mp ‹_›) h
  unfold sqlParamSet
  dsimp only
  rw [hfull, List.drop_eq_nil_of_le hlen.le, List.append_nil]

theorem takeWhile_length_lt {s : List Char} (h : nul ∈ s) : (s.takeWhile (· ≠ nul)).length < s.length := by
  induction s with
  | nil => cases h
  | cons c s ih =>
    rw [List.takeWhile_cons]
    split
    · rcases List.mem_cons.mp h with rfl | h
      · simp at *
      · exact Nat.succ_lt_succ (ih h)
    · exact Nat.succ_pos _

/-- A string that ends early denotes no value of the full length. -/
theorem unescape_short_ne {s : List Char} (hs : s.length < value.length) : unescape s ≠ some value :=
  fun h => absurd (length_unescape_le h) (Nat.not_le.mpr hs)

theorem not_sameValue_full (htype : param.type = .varchar) (hlen : param.buffer.length = param.maxLen)
    (h : param.maxLen ≤ value.length) : ¬SameValue format (sqlParamSet (some value) param) := by
  intro hsame
  rw [sqlParamSet_of_ge hlen h] at hsame
  obtain ⟨hnul, hdenotes⟩ := (sameValue_iff (by exact htype) (by rfl)).mp hsame
  dsimp only at hnul hdenotes
  rw [List.take_take, min_self] at hdenotes
  exact unescape_short_ne (takeWhile_length_lt hnul) hdenotes

/-- What the buffer holds is a string that denotes the value where the value ends with it and denotes itself. -/
theorem unescape_buffer_iff {c : Char} {rest : List Char} (hone : (nul ∉ value ∧ Verbatim value) ∨ c = nul) :
    nul ∈ value ++ c :: rest ∧ unescape ((value ++ c :: rest).takeWhile (· ≠ nul)) = some value ↔
      nul ∉ value ∧ Verbatim value ∧ c = nul := by
  rw [List.takeWhile_append]
  by_cases hnul : nul ∈ value
  · rw [if_neg (takeWhile_length_lt hnul).ne]
    exact iff_of_false (fun h => unescape_short_ne (takeWhile_length_lt hnul) h.2) fun h => h.1 hnul
  · have hall : value.takeWhile (· ≠ nul) = value :=
      List.takeWhile_eq_self_iff.mpr fun d hd => decide_eq_true fun heq => hnul (heq ▸ hd)
    rw [if_pos (congrArg List.length hall), and_iff_right hnul]
    by_cases hc : c = nul
    · have hend : (c :: rest).takeWhile (· ≠ nul) = [] := List.takeWhile_cons_of_neg (by simpa using hc)
      rw [hend, List.append_nil, unescape_eq_self, and_iff_left hc]
      exact and_iff_right (List.mem_append_right _ (hc ▸ List.mem_cons_self))
    · have hverbatim := (hone.resolve_right hc).2
      rw [List.takeWhile_cons_of_pos (by simpa using hc), unescape_append hverbatim]
      refine iff_of_false (fun h => ?_) fun h => hc h.2
      obtain ⟨t, ht, heq⟩ := Option.map_eq_some_iff.mp h.2
      obtain rfl := List.append_right_eq_self.mp heq
      exact absurd (unescape_eq_nil ht) (List.cons_ne_nil _ _)

/-- Where the value makes a text that denotes it, or nothing is left behind it, the statement has the value exactly where it
fits. -/
theorem sameValue_set_iff (htype : param.type = .varchar) (hlen : param.buffer.length = param.maxLen)
    (hone : value.length < param.maxLen → (nul ∉ value ∧ Verbatim value) ∨ param.buffer[value.length]? = some nul) :
    SameValue format (sqlParamSet (some value) param) ↔ Fits param (some value) := by
  rw [Fits]
  rcases Nat.lt_or_ge value.length param.maxLen with hlt | hge
  · have hin : value.length < param.buffer.length := hlen.symm ▸ hlt
    have hone' := hone hlt
    rw [List.getElem?_eq_getElem hin, Option.some_inj] at hone' ⊢
    rw [sqlParamSet_of_lt hlt, sameValue_iff (by exact htype) (by rfl), and_iff_right hlt]
    dsimp only
    rw [List.take_left, List.drop_eq_getElem_cons hin]
    exact unescape_buffer_iff hone'
  · exact iff_of_false (not_sameValue_full htype hlen hge) fun h => absurd h.2.2.1 (Nat.not_lt.mpr hge)

end set

/-! ### Runs -/

/-- A parameter of characters. -/
structure IsString (param : DbBind) : Prop where
  type : param.type = .varchar
  length : param.buffer.length = param.maxLen

theorem IsString.set (h : IsString param) (value : Option (List Char)) : IsString (sqlParamSet value param) := by
  cases value with
  | none => exact ⟨h.type, h.length⟩
  | some value =>
    rcases Nat.lt_or_ge value.length param.maxLen with hlt | hge
    · rw [sqlParamSet_of_lt hlt]
      refine ⟨h.type, ?_⟩
      simp [h.length, Nat.add_sub_cancel' hlt.le]
    · rw [sqlParamSet_of_ge h.length hge]
      exact ⟨h.type, by simp [hge]⟩

variable {params params₀ : ℕ → DbBind}

/-- What holds of each parameter and is kept by the values that are set holds along a run. -/
theorem params_invariant {allowed : (ℕ → DbBind) → ℕ × Option (List Char) → Prop} {I : DbBind → Prop}
    (hreach : Reach allowed setParam params₀ params) (hstart : ∀ i, I (params₀ i))
    (hset : ∀ params c, allowed params c → I (params c.1) → I (sqlParamSet c.2 (params c.1))) (i : ℕ) : I (params i) := by
  refine hreach.invariant (I := fun params => ∀ i, I (params i)) hstart (fun params c h hc i => ?_) i
  unfold setParam
  rcases eq_or_ne i c.1 with rfl | hne
  · rw [Function.update_self]
    exact hset params c hc (h c.1)
  · rw [Function.update_of_ne hne]
    exact h i

theorem isString_create {btype : DbBindType} {maxLen : ℕ} (htype : btype = .char ∨ btype = .varchar)
    (hcreate : bindCreate btype maxLen = some param) : IsString param := by
  rcases htype with rfl | rfl <;> obtain rfl := Option.some.inj hcreate <;> exact ⟨rfl, List.length_replicate⟩

theorem sameValue_create {btype : DbBindType} {maxLen : ℕ} (htype : btype = .char ∨ btype = .varchar) (hlen : 1 ≤ maxLen)
    (hcreate : bindCreate btype maxLen = some param) : SameValue format param := by
  obtain ⟨n, rfl⟩ := Nat.exists_eq_add_of_le' hlen
  have hparam : param = ⟨.varchar, List.replicate (n + 1) nul, 0, n + 1, false⟩ := by
    rcases htype with rfl | rfl <;> exact (Option.some.inj hcreate).symm
  rw [hparam, sameValue_iff (by rfl) (by rfl)]
  simp [List.replicate_succ, unescape]

/-- In a run whose values all fit, each statement has the values that the server gets otherwise. A value that does not fit is
not the one that the statement has, unless what is left behind it makes up for its quotes and escapes. -/
theorem emulated_sameValue (hcreate : ∀ i, ∃ btype maxLen, (btype = .char ∨ btype = .varchar) ∧ 1 ≤ maxLen ∧
      bindCreate btype maxLen = some (params₀ i)) :
    (Reach (fun params c => Fits (params c.1) c.2) setParam params₀ params → ∀ i, SameValue format (params i)) ∧
    (Reach (fun _ _ => True) setParam params₀ params → ∀ i value,
      (value.length < (params i).maxLen → (nul ∉ value ∧ Verbatim value) ∨ (params i).buffer[value.length]? = some nul) →
      (SameValue format (sqlParamSet (some value) (params i)) ↔ Fits (params i) (some value))) := by
  have hstart : ∀ i, IsString (params₀ i) := fun i => by
    obtain ⟨btype, maxLen, htype, -, heq⟩ := hcreate i
    exact isString_create htype heq
  refine ⟨fun hreach i => ?_, fun hreach i value hone => ?_⟩
  · refine (params_invariant (I := fun param => IsString param ∧ SameValue format param) hreach (fun i => ?_)
      (fun params c hc h => ⟨h.1.set c.2, ?_⟩) i).2
    · obtain ⟨btype, maxLen, htype, hlen, heq⟩ := hcreate i
      exact ⟨hstart i, sameValue_create htype hlen heq⟩
    · obtain ⟨i, _ | value⟩ := c
      · exact sameValue_null rfl
      · exact (sameValue_set_iff h.1.type h.1.length fun _ => .inl ⟨hc.1, hc.2.1⟩).mpr hc
  · have hstring := params_invariant hreach hstart (fun params c _ h => h.set c.2) i
    exact sameValue_set_iff hstring.type hstring.length hone

/-- A parameter of four characters. -/
def fourChars : DbBind := ⟨.varchar, List.replicate 4 nul, 0, 4, false⟩

theorem emulated_sameValue_ab : ∃ params, Reach (fun params c => Fits (params c.1) c.2) setParam (fun _ => fourChars) params ∧
    (params 0).dataLen = 2 ∧ SameValue (fun _ _ => []) (params 0) :=
  have hreach : Reach (fun params c => Fits (params c.1) c.2) setParam (fun _ => fourChars) _ :=
    Reach.start.call (0, some ['a', 'b']) ⟨by decide, .char (by decide) (by decide) (.char (by decide) (by decide) .nil), by decide, rfl⟩
  ⟨_, hreach, rfl, (emulated_sameValue fun _ => ⟨.varchar, 4, .inr rfl, by decide, rfl⟩).1 hreach 0⟩

/-- A value with a quote makes no literal, and a value that is shorter than the one before it is sent with the rest of that. -/
theorem not_sameValue : (∃ params, Reach (fun _ _ => True) setParam (fun _ => fourChars) params ∧
      ¬SameValue (fun _ _ => []) (params 0)) ∧
    ∃ params, Reach (fun _ _ => True) setParam (fun _ => fourChars) params ∧ (params 0).dataLen = 1 ∧
      (dbPrintText (fun _ _ => []) (params 0)).bind sqlValue = some (some ['c', 'b']) ∧
      ¬SameValue (fun _ _ => []) (params 0) :=
  ⟨⟨_, Reach.start.call (0, some ['\'']) trivial, by decide⟩,
    _, (Reach.start.call (0, some ['a', 'b']) trivial).call (0, some ['c']) trivial, rfl, by decide, by decide⟩

end NuKSM.Sysbench
