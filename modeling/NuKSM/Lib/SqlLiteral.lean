import Mathlib

/-! # String literals of SQL

What the text between two quotes denotes in MySQL's default mode: a quote is doubled, and a backslash makes an escape of the
character behind it. -/

namespace NuKSM.SqlLiteral

/-- What a backslash and a character denote. Before a wildcard the backslash stays. -/
def escape (c : Char) : List Char :=
  match c with
  | '0' => [Char.ofNat 0]
  | 'b' => [Char.ofNat 8]
  | 'n' => ['\n']
  | 'r' => ['\r']
  | 't' => ['\t']
  | 'Z' => [Char.ofNat 26]
  | '%' => ['\\', '%']
  | '_' => ['\\', '_']
  | c => [c]

/-- What the text between the quotes denotes, if it does not end the literal before its end. -/
def unescape : List Char → Option (List Char)
  | [] => some []
  | '\'' :: '\'' :: s => (unescape s).map ('\'' :: ·)
  | '\'' :: _ => none
  | '\\' :: c :: s => (unescape s).map (escape c ++ ·)
  | ['\\'] => none
  | c :: s => (unescape s).map (c :: ·)

example : unescape ['\\', 'n'] = some ['\n'] := by
  rw [unescape]
  rfl

/-- What a literal denotes. -/
def value (text : List Char) : Option (List Char) :=
  match text with
  | '\'' :: s => if s.getLast? = some '\'' then unescape s.dropLast else none
  | _ => none

theorem value_quoted (s : List Char) : value ('\'' :: (s ++ ['\''])) = unescape s := by
  simp [value]

/-- The text that denotes itself. -/
inductive Verbatim : List Char → Prop
  | nil : Verbatim []
  | char {c : Char} {s : List Char} : c ≠ '\'' → c ≠ '\\' → Verbatim s → Verbatim (c :: s)
  | wildcard {c : Char} {s : List Char} : c = '%' ∨ c = '_' → Verbatim s → Verbatim ('\\' :: c :: s)

variable {s t : List Char}

theorem unescape_cons {c : Char} (hquote : c ≠ '\'') (hescape : c ≠ '\\') : unescape (c :: s) = (unescape s).map (c :: ·) := by
  rw [unescape]
  · exact fun _ h _ => hquote h
  · exact hquote
  · exact fun _ _ h _ => hescape h
  · exact fun h _ => hescape h

theorem unescape_escape (c : Char) : unescape ('\\' :: c :: s) = (unescape s).map (escape c ++ ·) := by
  rw [unescape]

/-- A text that denotes itself may be cut off. -/
theorem unescape_append (h : Verbatim s) : unescape (s ++ t) = (unescape t).map (s ++ ·) := by
  induction h with
  | nil => simp
  | char hquote hescape _ ih =>
    rw [List.cons_append, unescape_cons hquote hescape, ih, Option.map_map]
    rfl
  | wildcard hc _ ih =>
    rw [List.cons_append, List.cons_append, unescape_escape, ih, Option.map_map]
    rcases hc with rfl | rfl <;> rfl

theorem unescape_quotes : unescape ('\'' :: '\'' :: s) = (unescape s).map ('\'' :: ·) := by
  rw [unescape]

theorem unescape_quote (h : ∀ t, s ≠ '\'' :: t) : unescape ('\'' :: s) = none := by
  rw [unescape]
  exact h

theorem length_escape_le (c : Char) : (escape c).length ≤ 2 := by
  unfold escape
  split <;> simp

/-- An escape is as long as what it denotes only before a wildcard. -/
theorem escape_eq {c : Char} (h : (escape c).length = 2) : (c = '%' ∨ c = '_') ∧ escape c = ['\\', c] := by
  unfold escape at h ⊢
  split at h <;> simp_all

theorem not_escape {c : Char} (hescape : ∀ d t, c = '\\' → s = d :: t → False) (hlast : c = '\\' → s = [] → False) : c ≠ '\\' := by
  intro hc
  cases s with
  | nil => exact hlast hc rfl
  | cons d t => exact hescape d t hc rfl

theorem length_unescape_le (h : unescape s = some t) : t.length ≤ s.length := by
  induction s using unescape.induct generalizing t with
  | case1 =>
    obtain rfl := Option.some.inj h
    exact le_rfl
  | case2 s ih =>
    rw [unescape_quotes] at h
    obtain ⟨u, hu, rfl⟩ := Option.map_eq_some_iff.mp h
    exact Nat.le_succ_of_le (Nat.succ_le_succ (ih hu))
  | case3 s hs =>
    rw [unescape_quote hs] at h
    cases h
  | case4 c s ih =>
    rw [unescape_escape] at h
    obtain ⟨u, hu, rfl⟩ := Option.map_eq_some_iff.mp h
    have hescape := length_escape_le c
    have hle := ih hu
    simp only [List.length_append, List.length_cons]
    omega
  | case5 => cases h
  | case6 c s _ hquote hescape hlast ih =>
    rw [unescape_cons hquote (not_escape hescape hlast)] at h
    obtain ⟨u, hu, rfl⟩ := Option.map_eq_some_iff.mp h
    exact Nat.succ_le_succ (ih hu)

/-- Only such a text denotes itself. -/
theorem verbatim_of_unescape (h : unescape s = some s) : Verbatim s := by
  induction s using unescape.induct with
  | case1 => exact .nil
  | case2 s ih =>
    rw [unescape_quotes] at h
    obtain ⟨u, hu, heq⟩ := Option.map_eq_some_iff.mp h
    obtain rfl := (List.cons.inj heq).2
    exact absurd (length_unescape_le hu) (by simp)
  | case3 s hs =>
    rw [unescape_quote hs] at h
    cases h
  | case4 c s ih =>
    rw [unescape_escape] at h
    obtain ⟨u, hu, heq⟩ := Option.map_eq_some_iff.mp h
    have hlength := congrArg List.length heq
    have hle := length_unescape_le hu
    have hescape := length_escape_le c
    simp only [List.length_append, List.length_cons] at hlength
    obtain ⟨hwildcard, hc⟩ := escape_eq (c := c) (by omega)
    rw [hc, List.cons_append, List.singleton_append] at heq
    obtain rfl := (List.cons.inj (List.cons.inj heq).2).2
    exact .wildcard hwildcard (ih hu)
  | case5 => cases h
  | case6 c s _ hquote hescape hlast ih =>
    rw [unescape_cons hquote (not_escape hescape hlast)] at h
    obtain ⟨u, hu, heq⟩ := Option.map_eq_some_iff.mp h
    obtain rfl := (List.cons.inj heq).2
    exact .char hquote (not_escape hescape hlast) (ih hu)

theorem unescape_eq_self : unescape s = some s ↔ Verbatim s := by
  refine ⟨verbatim_of_unescape, fun h => ?_⟩
  have happend := unescape_append (t := []) h
  rwa [List.append_nil, unescape, Option.map_some, List.append_nil] at happend

theorem escape_ne_nil (c : Char) : escape c ≠ [] := by
  unfold escape
  split <;> nofun

/-- Only the empty text denotes the empty string. -/
theorem unescape_eq_nil (h : unescape s = some []) : s = [] := by
  induction s using unescape.induct with
  | case1 => rfl
  | case2 s =>
    rw [unescape_quotes] at h
    obtain ⟨u, -, heq⟩ := Option.map_eq_some_iff.mp h
    cases heq
  | case3 s hs =>
    rw [unescape_quote hs] at h
    cases h
  | case4 c s =>
    rw [unescape_escape] at h
    obtain ⟨u, -, heq⟩ := Option.map_eq_some_iff.mp h
    exact absurd (List.append_eq_nil_iff.mp heq).1 (escape_ne_nil c)
  | case5 => cases h
  | case6 c s _ hquote hescape hlast =>
    rw [unescape_cons hquote (not_escape hescape hlast)] at h
    obtain ⟨u, -, heq⟩ := Option.map_eq_some_iff.mp h
    cases heq

end NuKSM.SqlLiteral
