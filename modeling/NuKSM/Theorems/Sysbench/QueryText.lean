import NuKSM.Sysbench.MysqlDriver
import NuKSM.Sysbench.QueryText
import NuKSM.Lib.Words

/-! # The texts that the substitution loops build

The buffer grows by doubling up to `2 ^ 31` bytes, and where it has to grow further its length is 0. So a text is built if each
of its pieces ends before that. -/

namespace NuKSM.Sysbench

/-! ### Printing -/

section printing
variable {buf buf' text : List Char} {j n : ℕ} {r : Int32}

/-- What is in front stays, and the text follows it as far as there is room. -/
theorem snprintf_eq (buf text : List Char) (hn : 0 < n) (hroom : j + n ≤ buf.length) :
    ∃ buf', snprintf buf j n text = some (if text.length < 2 ^ 31 then Int32.ofNat text.length else -1, buf') ∧
      buf'.length = buf.length ∧ ∀ front, front <+: buf → front.length = j → front ++ text.take (n - 1) <+: buf' := by
  have hlength : j + (text.take (n - 1) ++ [nul]).length ≤ buf.length := by
    simp only [List.length_append, List.length_take, List.length_singleton]
    omega
  obtain ⟨buf', hput⟩ := putAt_isSome hlength
  refine ⟨buf', ?_, length_putAt hput, ?_⟩
  · rw [snprintf, if_neg hn.ne', hput]
    rfl
  · rintro front hfront rfl
    refine List.IsPrefix.trans ?_ (prefix_putAt hfront hput)
    rw [← List.append_assoc]
    exact List.prefix_append ..

/-- Wherever it is that something is printed. -/
theorem snprintf_kept (h : snprintf buf j n text = some (r, buf')) :
    r = (if text.length < 2 ^ 31 then Int32.ofNat text.length else -1) ∧ buf'.length = buf.length ∧
      ∀ front, front <+: buf → front.length = j → front <+: buf' := by
  obtain ⟨b, hput, heq⟩ := Option.map_eq_some_iff.mp h
  cases heq
  refine ⟨rfl, length_putAt hput, ?_⟩
  rintro front hfront rfl
  exact (List.prefix_append ..).trans (prefix_putAt hfront hput)

theorem toInt_returned (text : List Char) : (if text.length < 2 ^ 31 then Int32.ofNat text.length else -1).toInt =
    if text.length < 2 ^ 31 then (text.length : ℤ) else -1 := by
  split
  · rw [Int32.toInt_ofNat_of_lt (by omega)]
  · rfl

end printing

/-- A function prints a text for a placeholder, if there is room for it and for a terminator. -/
structure Prints (print : PrintValue) (vcnt : UInt32) (text : List Char) : Prop where
  fits : ∀ {buf j room}, j.toNat + room.toNat = buf.length → text.length < room.toNat → room.toNat < 2 ^ 31 →
    ∃ buf', print vcnt buf j room = some (some (UInt32.ofNat text.length), buf') ∧ buf'.length = buf.length ∧
      ∀ front, front <+: buf → front.length = j.toNat → front ++ text <+: buf'
  retries : ∀ {buf j room}, j.toNat + room.toNat = buf.length → 0 < room.toNat → room.toNat ≤ text.length → room.toNat < 2 ^ 31 →
    ∃ buf', print vcnt buf j room = some (none, buf') ∧ buf'.length = buf.length ∧
      ∀ front, front <+: buf → front.length = j.toNat → front <+: buf'
  /-- The length is negative as an `int`. -/
  negative : ∀ {buf j room buf'} {n : Option UInt32}, room.toNat = 2 ^ 31 → print vcnt buf j room = some (n, buf') →
    n = none ∧ buf'.length = buf.length ∧ ∀ front, front <+: buf → front.length = j.toNat → front <+: buf'

/-- When a number that `snprintf` returns is one for a text that fits. -/
theorem returned_lt_iff {text : List Char} {room : UInt32} (hroom : room.toNat < 2 ^ 31) (hpos : 0 < room.toNat) :
    ((if text.length < 2 ^ 31 then Int32.ofNat text.length else -1) < 0 ∨
      room.toInt32 ≤ if text.length < 2 ^ 31 then Int32.ofNat text.length else -1) ↔ room.toNat ≤ text.length := by
  rw [Int32.lt_iff_toInt_lt, Int32.le_iff_toInt_le, toInt_returned, toInt_toInt32, if_pos hroom, Int32.toInt_zero]
  split <;> omega

theorem toUInt32_returned {text : List Char} (h : text.length < 2 ^ 31) :
    (if text.length < 2 ^ 31 then Int32.ofNat text.length else -1).toUInt32 = UInt32.ofNat text.length := by
  rw [if_pos h]
  rfl

/-- What the placeholders make of a number that `snprintf` returns. -/
def checkedLength (room : UInt32) (printed : Int32 × List Char) : Option UInt32 × List Char :=
  (if printed.1 < 0 ∨ room.toInt32 ≤ printed.1 then none else some printed.1.toUInt32, printed.2)

section checked
variable {buf buf' text : List Char} {j room : UInt32} {r : Int32}

theorem snprintf_fits (hroom : j.toNat + room.toNat = buf.length) (hfits : text.length < room.toNat)
    (hint : room.toNat < 2 ^ 31) :
    ∃ buf', (snprintf buf j.toNat room.toNat text).map (checkedLength room) = some (some (UInt32.ofNat text.length), buf') ∧
      buf'.length = buf.length ∧ ∀ front, front <+: buf → front.length = j.toNat → front ++ text <+: buf' := by
  obtain ⟨buf', hprint, hlength, hfront⟩ := snprintf_eq buf text (j := j.toNat) (n := room.toNat) (by omega) (by omega)
  refine ⟨buf', ?_, hlength, fun front h h' => ?_⟩
  · rw [hprint, Option.map_some, checkedLength]
    rw [if_neg (by rw [returned_lt_iff hint (by omega)]; omega), toUInt32_returned (by omega)]
  · have hall := hfront front h h'
    rwa [List.take_of_length_le (by omega)] at hall

theorem snprintf_retries (hroom : j.toNat + room.toNat = buf.length) (hpos : 0 < room.toNat)
    (hcut : room.toNat ≤ text.length) (hint : room.toNat < 2 ^ 31) :
    ∃ buf', (snprintf buf j.toNat room.toNat text).map (checkedLength room) = some (none, buf') ∧
      buf'.length = buf.length ∧ ∀ front, front <+: buf → front.length = j.toNat → front <+: buf' := by
  obtain ⟨buf', hprint, hlength, hfront⟩ := snprintf_eq buf text (j := j.toNat) (n := room.toNat) hpos (by omega)
  refine ⟨buf', ?_, hlength, fun front h h' => (List.prefix_append ..).trans (hfront front h h')⟩
  rw [hprint, Option.map_some, checkedLength, if_pos ((returned_lt_iff hint hpos).mpr hcut)]

theorem snprintf_negative {m k : ℕ} (hroom : room.toNat = 2 ^ 31) (h : snprintf buf k m text = some (r, buf')) :
    (checkedLength room (r, buf')).1 = none ∧ buf'.length = buf.length ∧
      ∀ front, front <+: buf → front.length = k → front <+: buf' := by
  obtain ⟨hr, hlength, hfront⟩ := snprintf_kept h
  refine ⟨if_pos (.inr ?_), hlength, hfront⟩
  rw [hr, Int32.le_iff_toInt_le, toInt_returned, toInt_toInt32, if_neg (by omega)]
  split <;> omega

end checked

theorem printNumber_prints (vcnt : UInt32) : Prints printNumber vcnt ('$' :: printDecimal vcnt.toInt32) where
  fits := snprintf_fits
  retries := snprintf_retries
  negative := by
    intro buf j room buf' n hroom hprint
    obtain ⟨⟨r, b⟩, hsnprintf, hr⟩ := Option.map_eq_some_iff.mp hprint
    cases hr
    exact snprintf_negative hroom hsnprintf

section param
variable {format : DbBindType → List Char → List Char} {boundParam : List DbBind} {var : DbBind} {vcnt : UInt32} {text : List Char}

theorem dbPrintText_of_none (htext : dbPrintText format var = some text) (h : var.type = .none ∧ ¬var.isNull) : text = [] := by
  rw [dbPrintText, if_neg h.2, h.1] at htext
  exact (Option.some.inj htext).symm

theorem printParam_eq (hvar : boundParam[vcnt.toNat]? = some var) (htext : dbPrintText format var = some text) (buf : List Char)
    (j room : UInt32) : printParam format boundParam vcnt buf j room =
      (if var.type = .none ∧ ¬var.isNull then some (0, buf)
        else snprintf buf j.toNat room.toInt32.toInt64.toUInt64.toNat text).map fun (n, buf) =>
          (if n < 0 ∨ room.toInt32 ≤ n then none else some n.toUInt32, buf) := by
  have hreturn : ∀ n : Int32, (if (if n < room.toInt32 then n else -1) < 0 then none
      else some (if n < room.toInt32 then n else -1).toUInt32) = if n < 0 ∨ room.toInt32 ≤ n then none else some n.toUInt32 := by
    intro n
    by_cases hlt : n < room.toInt32
    · rw [if_pos hlt]
      exact if_congr (or_iff_left (Int32.not_le.mpr hlt)).symm rfl rfl
    · rw [if_neg hlt, if_pos (by decide), if_pos (.inr (Int32.not_lt.mp hlt))]
  rw [printParam, hvar, Option.bind_some, dbPrintValueAt, htext, Option.bind_some, Option.map_map]
  exact congrArg (Option.map · _) (funext fun r => Prod.ext (hreturn r.1) rfl)

theorem toNat_size {room : UInt32} (hint : room.toNat < 2 ^ 31) : room.toInt32.toInt64.toUInt64.toNat = room.toNat := by
  have hsize := toNat_toUInt64 room.toInt32
  rw [toInt_toInt32, if_pos hint] at hsize
  omega

theorem printParam_prints (hvar : boundParam[vcnt.toNat]? = some var) (htext : dbPrintText format var = some text) :
    Prints (printParam format boundParam) vcnt text where
  fits := by
    intro buf j room hroom hfits hint
    rw [printParam_eq hvar htext]
    split
    · rename_i hnone
      obtain rfl := dbPrintText_of_none htext hnone
      refine ⟨buf, ?_, rfl, fun front h _ => by rwa [List.append_nil]⟩
      rw [Option.map_some]
      dsimp only
      rw [if_neg]
      · rfl
      · rw [Int32.lt_iff_toInt_lt, Int32.le_iff_toInt_le, toInt_toInt32, if_pos hint, Int32.toInt_zero]
        omega
    · rw [toNat_size hint]
      exact snprintf_fits hroom hfits hint
  retries := by
    intro buf j room hroom hpos hcut hint
    rw [printParam_eq hvar htext]
    split
    · rename_i hnone
      rw [dbPrintText_of_none htext hnone, List.length_nil] at hcut
      omega
    · rw [toNat_size hint]
      exact snprintf_retries hroom hpos hcut hint
  negative := by
    intro buf j room buf' n hroom hprint
    rw [printParam_eq hvar htext] at hprint
    obtain ⟨⟨r, b⟩, hprinted, hr⟩ := Option.map_eq_some_iff.mp hprint
    cases hr
    split at hprinted
    · cases hprinted
      refine ⟨if_pos (.inr ?_), rfl, fun _ h _ => h⟩
      rw [Int32.le_iff_toInt_le, toInt_toInt32, if_neg (by omega), Int32.toInt_zero]
      omega
    · exact snprintf_negative hroom hprinted

end param

/-! ### Pieces -/

theorem substitute_append (texts : List (List Char)) (front back : List Char) (h : front.count '?' ≤ texts.length) :
    substitute (front ++ back) texts = substitute front texts ++ substitute back (texts.drop (front.count '?')) := by
  induction front generalizing texts with
  | nil => simp [substitute]
  | cons c front ih =>
    by_cases hc : c = '?'
    · subst hc
      rw [List.count_cons_self] at h ⊢
      cases texts with
      | nil => simp at h
      | cons text texts =>
        simp only [List.length_cons, Nat.add_le_add_iff_right] at h
        simp [substitute, ih texts h]
    · rw [List.count_cons_of_ne hc] at h ⊢
      simp [substitute, hc, ih texts h]

/-- What stands for the character behind `front`. -/
def piece (texts : List (List Char)) (front : List Char) (c : Char) : List Char :=
  if c = '?' then texts.getD (front.count '?') [] else [c]

theorem substitute_snoc {texts : List (List Char)} {front : List Char} {c : Char} (h : (front ++ [c]).count '?' ≤ texts.length) :
    substitute (front ++ [c]) texts = substitute front texts ++ piece texts front c := by
  rw [List.count_append] at h
  rw [substitute_append texts front [c] (by omega), piece]
  split
  · rename_i hc
    subst hc
    have hlt : front.count '?' < texts.length := by
      rw [List.count_singleton_self] at h
      omega
    rw [List.drop_eq_getElem_cons hlt, substitute, substitute, List.append_nil, List.getD_eq_getElem _ _ hlt]
  · simp [substitute, *]

/-- The characters of `front` that are no placeholders, and the texts of those that are. -/
def textLength (texts : List (List Char)) (front : List Char) : ℕ :=
  front.length - front.count '?' + ∑ k ∈ Finset.range (front.count '?'), (texts.getD k []).length

theorem length_substitute {texts : List (List Char)} {front : List Char} (hcount : front.count '?' ≤ texts.length) :
    (substitute front texts).length = textLength texts front := by
  induction front using List.reverseRecOn with
  | nil => rw [substitute, textLength]; rfl
  | append_singleton front c ih =>
    have hle : front.count '?' ≤ (front ++ [c]).count '?' := (List.sublist_append_left ..).count_le _
    have hfront : front.count '?' ≤ front.length := List.count_le_length
    have hrest := ih (hle.trans hcount)
    rw [textLength] at hrest ⊢
    rw [substitute_snoc hcount, List.length_append, List.length_append, List.count_append, List.length_singleton, piece]
    split
    · rename_i hc
      rw [hc, List.count_singleton_self, Finset.sum_range_succ]
      omega
    · rename_i hc
      rw [List.count_singleton, if_neg (by simpa using hc), List.length_singleton]
      simp only [Nat.add_zero]
      omega

/-- The piece ends before the `2 ^ 31` bytes that a buffer can have. At the start of the text there is only room for half of
it, since the length of the buffer has to be an `int`. -/
def FitsAt (texts : List (List Char)) (front : List Char) (c : Char) : Prop :=
  textLength texts front + max (piece texts front c).length 1 < 2 ^ 31 ∧
    (textLength texts front = 0 → (piece texts front c).length < 2 ^ 30)

/-! ### The buffer -/

/-- The length of a buffer that has grown so often. -/
def capacity : ℕ → ℕ
  | 0 => 0
  | d + 1 => 256 * 2 ^ d

theorem capacity_succ (d : ℕ) : 256 ≤ capacity (d + 1) := Nat.le_mul_of_pos_right _ (Nat.two_pow_pos d)

theorem capacity_lt_succ (d : ℕ) : capacity d < capacity (d + 1) := by
  cases d with
  | zero => decide
  | succ d => exact Nat.mul_lt_mul_of_pos_left (Nat.pow_lt_pow_right (by norm_num) (Nat.lt_succ_self d)) (by norm_num)

theorem capacity_mono {d d' : ℕ} (h : d ≤ d') : capacity d ≤ capacity d' :=
  monotone_nat_of_le_succ (fun d => (capacity_lt_succ d).le) h

section loop
variable {texts : List (List Char)} {first d : ℕ} {front back query : List Char} {c : Char} {s s' : QueryLoop}
  {realloc : UInt32 → Bool} {junk : ℕ → Char} {print : PrintValue}

/-- The loop has come behind `front`, and the buffer has grown `d` times. -/
structure LoopAt (texts : List (List Char)) (first : ℕ) (front : List Char) (d : ℕ) (s : QueryLoop) : Prop where
  index : s.i = UInt32.ofNat front.length
  vcnt : s.vcnt = UInt32.ofNat (first + front.count '?')
  place : s.j.toNat = (substitute front texts).length
  text : substitute front texts <+: s.buf
  size : s.buf.length = s.buflen.toNat
  buflen : s.buflen = UInt32.ofNat (capacity d)
  grown : d ≤ 24
  room : s.j.toNat < capacity d ∨ d = 0 ∧ s.j.toNat = 0
  started : front ≠ [] → d ≠ 0
  count : front.count '?' ≤ texts.length

theorem LoopAt.place_eq (hs : LoopAt texts first front d s) : s.j.toNat = textLength texts front :=
  hs.place.trans (length_substitute hs.count)

theorem capacity_le {d : ℕ} (h : d ≤ 24) : capacity d ≤ 2 ^ 31 := capacity_mono h

theorem LoopAt.toNat_buflen (hs : LoopAt texts first front d s) : s.buflen.toNat = capacity d := by
  have hle := capacity_le hs.grown
  rw [hs.buflen, UInt32.toNat_ofNat', Nat.mod_eq_of_lt (by omega)]

theorem LoopAt.buflen_grow (hs : LoopAt texts first front d s) :
    (if 0 < s.buflen then s.buflen * 2 else 256) = UInt32.ofNat (capacity (d + 1)) := by
  have hbuflen := hs.toNat_buflen
  cases d with
  | zero =>
    rw [if_neg, capacity]
    · rfl
    · rw [UInt32.lt_iff_toNat_lt, hbuflen]
      decide
  | succ d =>
    have hpos := capacity_succ d
    rw [if_pos (by rw [UInt32.lt_iff_toNat_lt, hbuflen, UInt32.toNat_zero]; omega), hs.buflen, capacity, capacity, pow_succ,
      ← mul_assoc, UInt32.ofNat_mul (256 * 2 ^ d)]
    rfl

/-- What becomes of the buffer before a piece. -/
inductive Grown (texts : List (List Char)) (first : ℕ) (front : List Char) (d : ℕ) (realloc : UInt32 → Bool) (s : QueryLoop) :
    Except UInt32 QueryLoop → Prop
  | same : s.needRealloc = false → s.j.toNat + 1 < capacity d → Grown texts first front d realloc s (.ok s)
  | larger {s' : QueryLoop} : (s.needRealloc = true ∨ capacity d ≤ s.j.toNat + 1) → LoopAt texts first front (d + 1) s' → s'.j = s.j →
      s'.needRealloc = false → s'.j.toNat + 1 < capacity (d + 1) → Grown texts first front d realloc s (.ok s')
  | refused {size : UInt32} : size ≠ 0 → realloc size = false → Grown texts first front d realloc s (.error size)
  /-- The length of a buffer of `2 ^ 32` bytes is 0. -/
  | full : (s.needRealloc = true ∨ capacity d ≤ s.j.toNat + 1) → d = 24 → Grown texts first front d realloc s (.error 0)

theorem growBuffer_grown (hs : LoopAt texts first front d s) : Grown texts first front d realloc s (growBuffer realloc junk s) := by
  have hcapacity := capacity_le hs.grown
  have hbuflen := hs.toNat_buflen
  have hroom := hs.room
  have hplace : s.j.toNat + 1 ≤ 2 ^ 31 := by omega
  have htest : s.buflen ≤ s.j + 1 ↔ capacity d ≤ s.j.toNat + 1 := by
    have hone : (1 : UInt32).toNat = 1 := rfl
    rw [UInt32.le_iff_toNat_le, UInt32.toNat_add, hone, Nat.mod_eq_of_lt (by omega), hbuflen]
  have hlarger : s.j.toNat + 1 < capacity (d + 1) := by
    have hgrows := capacity_lt_succ d
    have hlarge := capacity_succ d
    omega
  unfold growBuffer
  rw [hs.buflen_grow]
  split
  · rename_i hgrow
    have hgrow := (hgrow.imp_left htest.mp).symm
    dsimp only
    split
    · rename_i hmemory
      have hd : d ≠ 24 := fun hd => hmemory.1 (by rw [hd]; decide)
      have hnext : capacity (d + 1) ≤ 2 ^ 31 := capacity_le (by have := hs.grown; omega)
      have hlength : (UInt32.ofNat (capacity (d + 1))).toNat = capacity (d + 1) := by
        rw [UInt32.toNat_ofNat', Nat.mod_eq_of_lt (by omega)]
      have hlt : s.j.toNat < capacity (d + 1) := by omega
      refine .larger hgrow ⟨hs.index, hs.vcnt, hs.place, ?_, ?_, rfl, ?_, .inl hlt, fun _ => Nat.succ_ne_zero d, hs.count⟩ rfl rfl hlarger
      · refine prefix_resize hs.text ?_ junk
        rw [hs.size, hbuflen, hlength]
        exact (capacity_lt_succ d).le
      · exact length_resize junk
      · have := hs.grown
        omega
    · rename_i hmemory
      by_cases hfull : UInt32.ofNat (capacity (d + 1)) = 0
      · rw [hfull]
        refine .full hgrow ?_
        by_contra hd
        have hnext : capacity (d + 1) ≤ 2 ^ 31 := capacity_le (by have := hs.grown; omega)
        have hlarge := capacity_succ d
        have hzero := congrArg UInt32.toNat hfull
        rw [UInt32.toNat_ofNat', Nat.mod_eq_of_lt (by omega), UInt32.toNat_zero] at hzero
        omega
      · exact .refused hfull (Bool.eq_false_iff.mpr fun h => hmemory ⟨hfull, h⟩)
  · rename_i hkeep
    obtain ⟨hroom', hsame⟩ := not_or.mp hkeep
    exact .same (Bool.eq_false_iff.mpr hsame) (Nat.lt_of_not_le fun h => hroom' (htest.mpr h))

/-- What becomes of a piece, when the buffer has been looked after. -/
inductive Placed (texts : List (List Char)) (first : ℕ) (front : List Char) (c : Char) (d : ℕ) (s : QueryLoop) :
    Option QueryLoop → Prop
  | placed {s' : QueryLoop} : s.j.toNat + (piece texts front c).length < capacity d →
      (c = '?' → capacity d - s.j.toNat < 2 ^ 31) → LoopAt texts first (front ++ [c]) d s' → s'.needRealloc = false →
      Placed texts first front c d s (some s')
  | again {s' : QueryLoop} : capacity d ≤ s.j.toNat + (piece texts front c).length ∨ 2 ^ 31 ≤ capacity d - s.j.toNat →
      LoopAt texts first front d s' → s'.j = s.j → s'.needRealloc = true → Placed texts first front c d s (some s')
  | outside : 2 ^ 31 ≤ capacity d - s.j.toNat → Placed texts first front c d s none

theorem LoopAt.toNat_room (hs : LoopAt texts first front d s) : (s.buflen - s.j).toNat = capacity d - s.j.toNat := by
  have hbuflen := hs.toNat_buflen
  have hle : s.j ≤ s.buflen := by
    rw [UInt32.le_iff_toNat_le, hbuflen]
    rcases hs.room with h | h <;> omega
  rw [UInt32.toNat_sub_of_le _ _ hle, hbuflen]

theorem LoopAt.snoc (hs : LoopAt texts first front d s) (hcount : (front ++ [c]).count '?' ≤ texts.length) {buf : List Char}
    (hlength : buf.length = s.buf.length) (htext : substitute front texts ++ piece texts front c <+: buf)
    (hlt : s.j.toNat + (piece texts front c).length < capacity d) {j vcnt : UInt32}
    (hj : j = s.j + UInt32.ofNat (piece texts front c).length) (hvcnt : vcnt = s.vcnt + UInt32.ofNat ([c].count '?')) :
    LoopAt texts first (front ++ [c]) d { s with i := s.i + 1, j, vcnt, buf } := by
  have hcapacity := capacity_le hs.grown
  have hplace : j.toNat = s.j.toNat + (piece texts front c).length := by
    rw [hj, UInt32.toNat_add, UInt32.toNat_ofNat', Nat.mod_eq_of_lt (by omega), Nat.mod_eq_of_lt (by omega)]
  refine ⟨?_, ?_, ?_, ?_, ?_, hs.buflen, hs.grown, .inl ?_, fun _ hd => ?_, hcount⟩
  · rw [List.length_append, UInt32.ofNat_add, ← hs.index]
    rfl
  · rw [List.count_append, ← add_assoc, UInt32.ofNat_add, ← hs.vcnt]
    exact hvcnt
  · rw [substitute_snoc hcount, List.length_append, ← hs.place]
    exact hplace
  · rw [substitute_snoc hcount]
    exact htext
  · exact hlength.trans hs.size
  · exact hplace.trans_lt hlt
  · rw [hd] at hlt
    exact absurd hlt (Nat.not_lt_zero _)

theorem placeChar_placed (hs : LoopAt texts first front d s) (hsame : s.needRealloc = false) (hroom : s.j.toNat + 1 < capacity d)
    (hcount : (front ++ [c]).count '?' ≤ texts.length) (hprint : c = '?' → Prints print s.vcnt (piece texts front c)) :
    Placed texts first front c d s (placeChar print c s) := by
  have hbuf : s.buf.length = capacity d := hs.size.trans hs.toNat_buflen
  have hlength := hs.toNat_room
  unfold placeChar
  split
  · rename_i hc
    have hpiece : piece texts front c = [c] := if_neg hc
    obtain ⟨buf, hput⟩ := putAt_isSome (l := [c]) (show s.j.toNat + [c].length ≤ s.buf.length by
      rw [hbuf, List.length_singleton]
      exact hroom.le)
    have htext : substitute front texts ++ [c] <+: buf := prefix_putAt hs.text (hs.place ▸ hput)
    rw [hput, Option.map_some]
    refine .placed ?_ (fun h => absurd h hc) (hs.snoc hcount (length_putAt hput) ?_ ?_ ?_ ?_) hsame
    · rw [hpiece]
      exact hroom
    · rwa [hpiece]
    · rw [hpiece]
      exact hroom
    · rw [hpiece]
      rfl
    · rw [List.count_singleton, if_neg (by simpa using hc)]
      exact (UInt32.add_zero _).symm
  · rename_i hc
    rw [not_not] at hc
    have hprint := hprint hc
    have hsum : s.j.toNat + (s.buflen - s.j).toNat = s.buf.length := by omega
    rcases Nat.lt_or_ge (s.buflen - s.j).toNat (2 ^ 31) with hint | hlarge
    · rcases Nat.lt_or_ge (piece texts front c).length (s.buflen - s.j).toNat with hfits | hcut
      · obtain ⟨buf, hprinted, hkept, htext⟩ := hprint.fits hsum hfits hint
        rw [hprinted, Option.map_some]
        refine .placed (by omega) (fun _ => by omega) (hs.snoc hcount hkept ?_ (by omega) rfl ?_) hsame
        · exact htext _ hs.text hs.place.symm
        · rw [hc]
          rfl
      · obtain ⟨buf, hprinted, hkept, htext⟩ := hprint.retries hsum (by omega) hcut hint
        rw [hprinted, Option.map_some]
        exact .again (.inl (by omega)) ⟨hs.index, hs.vcnt, hs.place, htext _ hs.text hs.place.symm, hkept.trans hs.size, hs.buflen,
          hs.grown, hs.room, hs.started, hs.count⟩ rfl rfl
    · have hcapacity := capacity_le hs.grown
      cases hprinted : print s.vcnt s.buf s.j (s.buflen - s.j) with
      | none => exact .outside (by omega)
      | some r =>
        obtain ⟨n, buf⟩ := r
        obtain ⟨rfl, hkept, htext⟩ := hprint.negative (by omega) hprinted
        exact .again (.inr (by omega)) ⟨hs.index, hs.vcnt, hs.place, htext _ hs.text hs.place.symm, hkept.trans hs.size, hs.buflen,
          hs.grown, hs.room, hs.started, hs.count⟩ rfl rfl

/-! ### One piece -/

/-- The piece has been too long for the buffer so far. -/
structure Trying (texts : List (List Char)) (first : ℕ) (front : List Char) (c : Char) (d : ℕ) (s : QueryLoop) : Prop
    extends LoopAt texts first front d s where
  again : s.needRealloc = true →
    d = 0 ∨ capacity d ≤ s.j.toNat + (piece texts front c).length ∨ 2 ^ 31 ≤ capacity d - s.j.toNat
  start : s.j.toNat = 0 → d ≤ 1 ∨ capacity (d - 1) ≤ (piece texts front c).length

theorem capacity_le_one {d : ℕ} (h : capacity d ≤ 1) : d = 0 := by
  cases d with
  | zero => rfl
  | succ d => exact absurd ((capacity_succ d).trans h) (by norm_num)

/-- A buffer of `2 ^ 31` bytes is too small for the piece if the whole of it is. -/
theorem not_fitsAt_of_whole (hs : LoopAt texts first front d s)
    (hstart : s.j.toNat = 0 → d ≤ 1 ∨ capacity (d - 1) ≤ (piece texts front c).length)
    (h : 2 ^ 31 ≤ capacity d - s.j.toNat) : d = 24 ∧ ¬FitsAt texts front c := by
  have hcapacity := capacity_le hs.grown
  have hd : d = 24 := by
    by_contra hne
    have hle : capacity d ≤ capacity 23 := capacity_mono (by have := hs.grown; omega)
    have hvalue : capacity 23 = 2 ^ 30 := rfl
    omega
  subst hd
  have hj : s.j.toNat = 0 := by
    have hvalue : capacity 24 = 2 ^ 31 := rfl
    omega
  refine ⟨rfl, fun hfits => ?_⟩
  have hlarge := (hstart hj).resolve_left (by norm_num)
  have hsmall := hfits.2 (hs.place_eq.symm.trans hj)
  have hvalue : capacity (24 - 1) = 2 ^ 30 := rfl
  omega

/-- After the buffer has been looked after, the piece is placed, or it is too long for the buffer. -/
theorem placeChar_cases (hs : LoopAt texts first front d s) (hsame : s.needRealloc = false) (hroom : s.j.toNat + 1 < capacity d)
    (hstart : s.j.toNat = 0 → d ≤ 1 ∨ capacity (d - 1) ≤ (piece texts front c).length)
    (hcount : (front ++ [c]).count '?' ≤ texts.length) (hprint : c = '?' → Prints print s.vcnt (piece texts front c)) :
    (∃ s', placeChar print c s = some s' ∧ FitsAt texts front c ∧ LoopAt texts first (front ++ [c]) d s' ∧
      s'.needRealloc = false ∧ (s'.j.toNat = 0 → d ≤ 1)) ∨
    (∃ s', placeChar print c s = some s' ∧ Trying texts first front c d s' ∧ s'.needRealloc = true) ∨
    (placeChar print c s = none ∧ ¬FitsAt texts front c) := by
  have hcapacity := capacity_le hs.grown
  generalize hplaced : placeChar print c s = r
  have h := hplaced ▸ placeChar_placed hs hsame hroom hcount hprint
  cases h with
  | placed hfits hint hnext hkept =>
    refine .inl ⟨_, rfl, ⟨?_, fun hzero => ?_⟩, hnext, hkept, fun hzero => ?_⟩
    · rw [← hs.place_eq]
      omega
    · by_cases hc : c = '?'
      · have hint := hint hc
        rw [← hs.place_eq] at hzero
        have hd : d ≤ 23 := by
          by_contra hd
          have hle : capacity 24 ≤ capacity d := capacity_mono (by omega)
          have hvalue : capacity 24 = 2 ^ 31 := rfl
          omega
        have hle : capacity d ≤ capacity 23 := capacity_mono hd
        have hvalue : capacity 23 = 2 ^ 30 := rfl
        omega
      · rw [piece, if_neg hc]
        norm_num
    · rw [hnext.place, substitute_snoc hcount, List.length_append, ← hs.place] at hzero
      rcases hstart (by omega) with hd | hd
      · exact hd
      · have hfirst := capacity_le_one (hd.trans (by omega))
        omega
  | again hlong hnext hj hneeds =>
    refine .inr (.inl ⟨_, rfl, ⟨hnext, fun _ => .inr ?_, ?_⟩, hneeds⟩)
    · rw [hj]
      exact hlong
    · rw [hj]
      exact hstart
  | outside hwhole => exact .inr (.inr ⟨rfl, (not_fitsAt_of_whole hs hstart hwhole).2⟩)

/-! ### Passes -/

/-- Some passes lead from one state of the loop to another. -/
def Passes (realloc : UInt32 → Bool) (junk : ℕ → Char) (print : PrintValue) (query : List Char) (s s' : QueryLoop) : Prop :=
  ∃ k, ∀ n, queryLoop realloc junk print query (n + k) s = queryLoop realloc junk print query n s'

theorem Passes.refl : Passes realloc junk print query s s := ⟨0, fun _ => rfl⟩

theorem Passes.trans {s'' : QueryLoop} (h : Passes realloc junk print query s s') (h' : Passes realloc junk print query s' s'') :
    Passes realloc junk print query s s'' := by
  obtain ⟨k, hk⟩ := h
  obtain ⟨k', hk'⟩ := h'
  exact ⟨k' + k, fun n => by rw [← add_assoc, hk, hk']⟩

theorem Passes.of_step (h : loopStep realloc junk print query s = .inl s') : Passes realloc junk print query s s' :=
  ⟨1, fun n => by rw [queryLoop, h]⟩

/-- The loop ends so. -/
def EndsWith (realloc : UInt32 → Bool) (junk : ℕ → Char) (print : PrintValue) (query : List Char) (s : QueryLoop)
    (e : LoopEnd QueryLoop) : Prop := ∃ n, queryLoop realloc junk print query n s = some e

theorem EndsWith.of_step {e : LoopEnd QueryLoop} (h : loopStep realloc junk print query s = .inr e) :
    EndsWith realloc junk print query s e := ⟨1, by rw [queryLoop, h]⟩

theorem Passes.ends {e : LoopEnd QueryLoop} (h : Passes realloc junk print query s s') (he : EndsWith realloc junk print query s' e) :
    EndsWith realloc junk print query s e := by
  obtain ⟨k, hk⟩ := h
  obtain ⟨n, hn⟩ := he
  exact ⟨n + k, (hk n).trans hn⟩

theorem queryLoop_add {n : ℕ} {e : LoopEnd QueryLoop} (h : queryLoop realloc junk print query n s = some e) (k : ℕ) :
    queryLoop realloc junk print query (n + k) s = some e := by
  induction n generalizing s with
  | zero => cases h
  | succ n ih =>
    rw [Nat.add_right_comm, queryLoop]
    rw [queryLoop] at h
    split at h
    · exact ih h
    · exact h

theorem EndsWith.unique {e e' : LoopEnd QueryLoop} (h : EndsWith realloc junk print query s e)
    (h' : EndsWith realloc junk print query s e') : e = e' := by
  obtain ⟨n, hn⟩ := h
  obtain ⟨n', hn'⟩ := h'
  have heq := queryLoop_add hn n'
  rw [add_comm, queryLoop_add hn' n] at heq
  exact (Option.some.inj heq).symm

variable (realloc junk print) in
/-- The character that a pass looks at. -/
theorem loopStep_eq (hs : LoopAt texts first front d s) (hquery : query = front ++ c :: back) (hshort : query.length < 2 ^ 32)
    (hc : c ≠ nul) : loopStep realloc junk print query s =
      match growBuffer realloc junk s with
      | .error size => .inr (.noMemory size)
      | .ok s =>
        match placeChar print c s with
        | some s => .inl s
        | none => .inr .fault := by
  have hindex : s.i.toNat = front.length := by
    rw [hquery, List.length_append] at hshort
    rw [hs.index, UInt32.toNat_ofNat', Nat.mod_eq_of_lt (by omega)]
  have hchar : query.getD s.i.toNat nul = c := by
    rw [hindex, hquery, List.getD_append_right _ _ _ _ le_rfl, Nat.sub_self]
    rfl
  rw [loopStep, hchar]
  exact if_neg hc

/-- The loop comes behind the piece, or there is no memory for it, or the piece does not fit. -/
inductive Advanced (texts : List (List Char)) (first : ℕ) (front : List Char) (c : Char) (realloc : UInt32 → Bool) (junk : ℕ → Char)
    (print : PrintValue) (query : List Char) (s : QueryLoop) : Prop
  | placed {d : ℕ} {s' : QueryLoop} : FitsAt texts front c → Passes realloc junk print query s s' →
      LoopAt texts first (front ++ [c]) d s' → s'.needRealloc = false → (s'.j.toNat = 0 → d ≤ 1) → Advanced texts first front c ..
  | refused {size : UInt32} : size ≠ 0 → realloc size = false → EndsWith realloc junk print query s (.noMemory size) →
      Advanced texts first front c ..
  | failed {e : LoopEnd QueryLoop} : ¬FitsAt texts front c → EndsWith realloc junk print query s e → (∀ s', e ≠ .done s') →
      Advanced texts first front c ..

theorem Advanced.of_passes (h : Passes realloc junk print query s s') (h' : Advanced texts first front c realloc junk print query s') :
    Advanced texts first front c realloc junk print query s := by
  cases h' with
  | placed hfits hpasses hnext hkept hstart => exact .placed hfits (h.trans hpasses) hnext hkept hstart
  | refused hsize hrefused hends => exact .refused hsize hrefused (h.ends hends)
  | failed hfits hends hdone => exact .failed hfits (h.ends hends) hdone

/-- Each further attempt is made with a larger buffer. -/
theorem Trying.advanced (hs : Trying texts first front c d s) (hquery : query = front ++ c :: back) (hshort : query.length < 2 ^ 32)
    (hc : c ≠ nul) (hcount : (front ++ [c]).count '?' ≤ texts.length)
    (hprint : c = '?' → Prints print (UInt32.ofNat (first + front.count '?')) (piece texts front c)) :
    Advanced texts first front c realloc junk print query s := by
  induction hm : 2 * (24 - d) + (if s.needRealloc then 0 else 1) using Nat.strong_induction_on generalizing d s with
  | _ m ih =>
    have hstep := loopStep_eq realloc junk print hs.toLoopAt hquery hshort hc
    have hplace : ∀ d₁ s₁, growBuffer realloc junk s = .ok s₁ → LoopAt texts first front d₁ s₁ → s₁.needRealloc = false →
        s₁.j.toNat + 1 < capacity d₁ → (s₁.j.toNat = 0 → d₁ ≤ 1 ∨ capacity (d₁ - 1) ≤ (piece texts front c).length) →
        2 * (24 - d₁) < m → Advanced texts first front c realloc junk print query s := by
      intro d₁ s₁ hgrow hs₁ hkept hroom hstart hlt
      rw [hgrow] at hstep
      rcases placeChar_cases hs₁ hkept hroom hstart hcount fun h => hs₁.vcnt ▸ hprint h with
        ⟨s', hplaced, hfits, hnext, hkept', hstart'⟩ | ⟨s', hplaced, htrying, hneeds⟩ | ⟨hplaced, hfits⟩ <;>
        simp only [hplaced] at hstep
      · exact .placed hfits (.of_step hstep) hnext hkept' hstart'
      · refine .of_passes (.of_step hstep) (ih (2 * (24 - d₁)) hlt htrying ?_)
        rw [hneeds]
        rfl
      · exact .failed hfits (.of_step hstep) fun _ h => by cases h
    generalize hgrow : growBuffer realloc junk s = r at hstep hplace
    have h := hgrow ▸ growBuffer_grown hs.toLoopAt
    cases h with
    | same hkept hroom =>
      refine hplace d s rfl hs.toLoopAt hkept hroom hs.start ?_
      rw [← hm, hkept]
      exact Nat.lt_succ_self _
    | larger hwhy hnext hj hkept hroom =>
      have hgrown := hnext.grown
      refine hplace (d + 1) _ rfl hnext hkept hroom (fun hzero => ?_) (by omega)
      rw [hj] at hzero
      rw [Nat.add_sub_cancel]
      rcases hwhy with hneeds | hshort
      · rcases hs.again hneeds with rfl | hlong | hwhole
        · exact .inl le_rfl
        · exact .inr (by omega)
        · have hle : capacity d ≤ capacity 23 := capacity_mono (by omega)
          have hvalue : capacity 23 = 2 ^ 30 := rfl
          omega
      · have hfirst := capacity_le_one (hshort.trans (by omega))
        exact .inl (by omega)
    | refused hsize hrefused => exact .refused hsize hrefused (.of_step hstep)
    | full hwhy hd =>
      have hvalue : capacity 24 = 2 ^ 31 := rfl
      have hplace := hs.place_eq
      subst hd
      refine .failed (fun hfits => ?_) (.of_step hstep) fun _ h => by cases h
      have hlt := hfits.1
      rcases hwhy with hneeds | hshort
      · rcases hs.again hneeds with hd | hlong | hwhole
        · cases hd
        · omega
        · exact (not_fitsAt_of_whole hs.toLoopAt hs.start hwhole).2 hfits
      · omega

/-! ### The whole text -/

/-- Every piece fits, and `i` can count the characters. -/
def FitsBuffer (query : List Char) (texts : List (List Char)) : Prop :=
  query.length < 2 ^ 32 ∧ ∀ front c, front ++ [c] <+: query → FitsAt texts front c

/-- The texts that are printed for the placeholders of a query. -/
structure PrintsTexts (texts : List (List Char)) (first : ℕ) (print : PrintValue) (query : List Char) : Prop where
  noNul : nul ∉ query
  count : query.count '?' ≤ texts.length
  prints : query.length < 2 ^ 32 → ∀ k < query.count '?', Prints print (UInt32.ofNat (first + k)) (texts.getD k [])

theorem loopAt_start (texts : List (List Char)) (first : ℕ) : LoopAt texts first [] 0 { vcnt := UInt32.ofNat first } :=
  ⟨rfl, rfl, by rw [substitute]; rfl, by rw [substitute], rfl, rfl, by norm_num, .inr ⟨rfl, rfl⟩, fun h => absurd rfl h, Nat.zero_le _⟩

variable (realloc junk) in
theorem PrintsTexts.advanced (hquery : PrintsTexts texts first print query) (hshort : query.length < 2 ^ 32)
    (hsplit : query = front ++ c :: back) (hs : Trying texts first front c d s) :
    Advanced texts first front c realloc junk print query s := by
  have hcount : (front ++ [c]).count '?' ≤ query.count '?' := by
    rw [hsplit]
    exact (List.IsPrefix.sublist ⟨back, by simp⟩).count_le _
  refine hs.advanced hsplit hshort (fun hc => hquery.noNul ?_) (hcount.trans hquery.count) fun hc => ?_
  · rw [hsplit, hc]
    exact List.mem_append_right _ List.mem_cons_self
  · rw [piece, if_pos hc]
    refine hquery.prints hshort _ ?_
    rw [hc, List.count_append, List.count_singleton_self] at hcount
    exact hcount

variable (realloc junk) in
/-- Behind each part of the query the loop comes, or it ends where a piece does not fit or there is no memory. -/
theorem PrintsTexts.reaches (hquery : PrintsTexts texts first print query) (hshort : query.length < 2 ^ 32)
    (hpre : query = front ++ back) :
    (∃ d s, Passes realloc junk print query { vcnt := UInt32.ofNat first } s ∧ LoopAt texts first front d s ∧
      (s.needRealloc = true → d = 0) ∧ (s.j.toNat = 0 → d ≤ 1) ∧ ∀ A c, A ++ [c] <+: front → FitsAt texts A c) ∨
    (∃ size, size ≠ 0 ∧ realloc size = false ∧
      EndsWith realloc junk print query { vcnt := UInt32.ofNat first } (.noMemory size)) ∨
    ∃ e, EndsWith realloc junk print query { vcnt := UInt32.ofNat first } e ∧ (∀ s, e ≠ .done s) ∧
      ∃ A c, A ++ [c] <+: query ∧ ¬FitsAt texts A c := by
  induction front using List.reverseRecOn generalizing back with
  | nil => exact .inl ⟨0, _, .refl, loopAt_start texts first, fun _ => rfl, fun _ => by norm_num, by simp⟩
  | append_singleton front c ih =>
    have hsplit : query = front ++ c :: back := by rw [hpre, List.append_assoc]; rfl
    rcases ih hsplit with ⟨d, s, hpasses, hs, hneeds, hstart, hfits⟩ | hends | hends
    · have htrying : Trying texts first front c d s := ⟨hs, fun h => .inl (hneeds h), fun h => .inl (hstart h)⟩
      cases hquery.advanced realloc junk hshort hsplit htrying with
      | placed hfit hpasses' hs' hkept hstart' =>
        refine .inl ⟨_, _, hpasses.trans hpasses', hs', ?_, hstart', fun A x hA => ?_⟩
        · rw [hkept]
          exact fun h => by cases h
        · rcases List.prefix_concat_iff.mp hA with heq | hA
          · obtain ⟨rfl, hx⟩ := List.append_inj heq (by simpa using congrArg List.length heq)
            rwa [List.singleton_inj.mp hx]
          · exact hfits A x hA
      | refused hsize hrefused hends => exact .inr (.inl ⟨_, hsize, hrefused, hpasses.ends hends⟩)
      | failed hfit hends hdone => exact .inr (.inr ⟨_, hpasses.ends hends, hdone, front, c, ⟨back, hpre.symm⟩, hfit⟩)
    · exact .inr (.inl hends)
    · exact .inr (.inr hends)

/-- The text is in the buffer, with its terminator. -/
structure Built (texts : List (List Char)) (first : ℕ) (query : List Char) (s : QueryLoop) : Prop where
  text : substitute query texts ++ [nul] <+: s.buf
  place : s.j.toNat = (substitute query texts).length
  vcnt : s.vcnt = UInt32.ofNat (first + query.count '?')

theorem LoopAt.built (hs : LoopAt texts first query d s) (hne : query ≠ []) (hshort : query.length < 2 ^ 32) :
    ∃ s', loopStep realloc junk print query s = .inr (.done s') ∧ Built texts first query s' := by
  have hindex : s.i.toNat = query.length := by rw [hs.index, UInt32.toNat_ofNat', Nat.mod_eq_of_lt hshort]
  have hlt : s.j.toNat < capacity d := hs.room.resolve_right fun h => hs.started hne h.1
  obtain ⟨buf, hput⟩ := putAt_isSome (l := [nul]) (show s.j.toNat + [nul].length ≤ s.buf.length by
    rw [hs.size, hs.toNat_buflen, List.length_singleton]
    exact hlt)
  refine ⟨{ s with buf }, ?_, prefix_putAt hs.text (hs.place ▸ hput), hs.place, hs.vcnt⟩
  rw [loopStep, hindex, List.getD_eq_default _ _ le_rfl, if_pos rfl, hput]

variable (realloc junk) in
/-- The text is built, unless there is no memory. -/
theorem PrintsTexts.ends (hquery : PrintsTexts texts first print query) (hne : query ≠ []) (hfits : FitsBuffer query texts) :
    (∃ s, EndsWith realloc junk print query { vcnt := UInt32.ofNat first } (.done s) ∧ Built texts first query s) ∨
    ∃ size, size ≠ 0 ∧ realloc size = false ∧ EndsWith realloc junk print query { vcnt := UInt32.ofNat first } (.noMemory size) := by
  rcases hquery.reaches realloc junk hfits.1 (List.append_nil _).symm with
    ⟨d, s, hpasses, hs, -⟩ | hends | ⟨-, -, -, A, c, hA, hnot⟩
  · obtain ⟨s', hstep, hbuilt⟩ := hs.built hne hfits.1
    exact .inl ⟨s', hpasses.ends (.of_step hstep), hbuilt⟩
  · exact .inr hends
  · exact absurd (hfits.2 A c hA) hnot

theorem loopStep_ne_done (hchar : query.getD s.i.toNat nul ≠ nul) : loopStep realloc junk print query s ≠ .inr (.done s') := by
  intro h
  rw [loopStep, if_neg hchar] at h
  cases hgrow : growBuffer realloc junk s with
  | error size =>
    rw [hgrow] at h
    cases h
  | ok s₁ =>
    rw [hgrow] at h
    cases hplaced : placeChar print (query.getD s.i.toNat nul) s₁ with
    | none =>
      simp only [hplaced] at h
      cases h
    | some s₂ =>
      simp only [hplaced] at h
      cases h

/-- A query whose end `i` cannot come to. -/
theorem queryLoop_ne_done (hnul : nul ∉ query) (hlong : 2 ^ 32 ≤ query.length) (n : ℕ) (s s' : QueryLoop) :
    queryLoop realloc junk print query n s ≠ some (.done s') := by
  induction n generalizing s with
  | zero => exact fun h => by cases h
  | succ n ih =>
    have hlt : s.i.toNat < query.length := s.i.toNat_lt.trans_le hlong
    have hchar : query.getD s.i.toNat nul ≠ nul := by
      rw [List.getD_eq_getElem _ _ hlt]
      exact fun h => hnul (h ▸ List.getElem_mem hlt)
    rw [queryLoop]
    split
    · exact ih _
    · rename_i e hstep
      exact fun h => loopStep_ne_done hchar (hstep.trans (congrArg Sum.inr (Option.some.inj h)))

/-- Where there is always memory, a text is only built if everything fits. -/
theorem PrintsTexts.fits (hquery : PrintsTexts texts first print query)
    (hends : EndsWith (fun _ => true) junk print query { vcnt := UInt32.ofNat first } (.done s)) : FitsBuffer query texts := by
  have hshort : query.length < 2 ^ 32 := by
    by_contra hlong
    obtain ⟨n, hn⟩ := hends
    exact queryLoop_ne_done hquery.noNul (Nat.le_of_not_lt hlong) n _ _ hn
  rcases hquery.reaches (fun _ => true) junk hshort (List.append_nil _).symm with
    ⟨-, -, -, -, -, -, hfits⟩ | ⟨size, -, hrefused, -⟩ | ⟨e, hends', hdone, -⟩
  · exact ⟨hshort, hfits⟩
  · cases hrefused
  · exact absurd (hends'.unique hends) (hdone s)

end loop

end NuKSM.Sysbench
