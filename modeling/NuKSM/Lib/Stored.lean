import NuKSM.Lib.LittleEndian

/-! # Values that are kept as bytes, and files of them

A file is the list of its bytes. Writing appends to it; reading takes bytes from its front. -/

namespace NuKSM

/-- A type whose values are kept as bytes. `take` reads one value, and it reads back what `bytes` stands for whatever
follows. -/
class Stored (α : Type) where
  bytes : α → List UInt8
  take : StateT (List UInt8) Option α
  take_bytes : ∀ x rest, take (bytes x ++ rest) = some (x, rest)

namespace Stored

/-- A reader that goes on after one that has read its part. -/
theorem run_bind_eq {α β : Type} {read : StateT (List UInt8) Option α} {next : α → StateT (List UInt8) Option β}
    {x : α} {file rest : List UInt8} (h : read file = some (x, rest)) : (read >>= next) file = next x rest := by
  change (read file).bind _ = _
  rw [h]
  rfl

/-! ### Machine words -/

/-- A number of `w` bytes. -/
def takeWord (w : ℕ) : StateT (List UInt8) Option ℕ := fun file =>
  if w ≤ file.length then some (LittleEndian.decode (file.take w), file.drop w) else none

theorem takeWord_encode {w n : ℕ} (h : n < 256 ^ w) (rest : List UInt8) :
    takeWord w (LittleEndian.encode w n ++ rest) = some (n, rest) := by
  have hlen := LittleEndian.length_encode w n
  have htake : (LittleEndian.encode w n ++ rest).take w = LittleEndian.encode w n := List.take_left' hlen
  have hdrop : (LittleEndian.encode w n ++ rest).drop w = rest := List.drop_left' hlen
  rw [takeWord, if_pos (by rw [List.length_append]; omega), htake, hdrop, LittleEndian.decode_encode_of_lt h]

theorem map_takeWord_encode {α : Type} (f : ℕ → α) {w n : ℕ} (h : n < 256 ^ w) (rest : List UInt8) :
    (f <$> takeWord w) (LittleEndian.encode w n ++ rest) = some (f n, rest) := by
  rw [show f <$> takeWord w = takeWord w >>= fun n => pure (f n) from map_eq_pure_bind f _]
  exact Option.bind_eq_some_iff.mpr ⟨(n, rest), takeWord_encode h rest, rfl⟩

instance : Stored UInt32 where
  bytes x := LittleEndian.encode 4 x.toNat
  take := UInt32.ofNat <$> takeWord 4
  take_bytes x rest := by
    rw [map_takeWord_encode _ x.toNat_lt, UInt32.ofNat_toNat]

instance : Stored UInt64 where
  bytes x := LittleEndian.encode 8 x.toNat
  take := UInt64.ofNat <$> takeWord 8
  take_bytes x rest := by
    rw [map_takeWord_encode _ x.toNat_lt, UInt64.ofNat_toNat]

instance : Stored Int32 where
  bytes x := LittleEndian.encode 4 x.toUInt32.toNat
  take := (fun n => (UInt32.ofNat n).toInt32) <$> takeWord 4
  take_bytes x rest := by
    rw [map_takeWord_encode _ x.toUInt32.toNat_lt, UInt32.ofNat_toNat]
    rfl

instance : Stored Int64 where
  bytes x := LittleEndian.encode 8 x.toUInt64.toNat
  take := (fun n => (UInt64.ofNat n).toInt64) <$> takeWord 8
  take_bytes x rest := by
    rw [map_takeWord_encode _ x.toUInt64.toNat_lt, UInt64.ofNat_toNat]
    rfl

/-! ### Arrays in files -/

variable {α : Type} [Stored α]

/-- `fwrite` of the first `n` elements of an array; past the end of the array there is nothing to write. -/
def fwrite (A : List α) (n : ℤ) : StateT (List UInt8) Option Unit := fun file =>
  if 0 ≤ n ∧ n ≤ A.length then some ((), file ++ (A.take n.toNat).flatMap bytes) else none

/-- Reads `n` elements. -/
def takeMany (α : Type) [Stored α] : ℕ → StateT (List UInt8) Option (List α)
  | 0 => pure []
  | n + 1 => do
    let x ← take
    let A ← takeMany α n
    return x :: A

/-- `fread` into a new array of `n` elements. Where the file ends before, elements stay without a value. -/
def fread (α : Type) [Stored α] (n : ℤ) : StateT (List UInt8) Option (List α) :=
  if 0 ≤ n then takeMany α n.toNat else failure

/-- Writing a whole array. -/
theorem fwrite_whole {A : List α} {n : ℤ} (h : (A.length : ℤ) = n) (file : List UInt8) :
    fwrite A n file = some ((), file ++ A.flatMap bytes) := by
  subst h
  rw [fwrite, if_pos ⟨by omega, le_rfl⟩, Int.toNat_natCast, List.take_length]

theorem takeMany_bytes (A : List α) (rest : List UInt8) :
    takeMany α A.length (A.flatMap bytes ++ rest) = some (A, rest) := by
  induction A with
  | nil => rfl
  | cons x A ih =>
    rw [List.flatMap_cons, List.append_assoc, List.length_cons, takeMany, run_bind_eq (take_bytes x _),
      run_bind_eq ih]
    rfl

/-- Reading back a whole array. -/
theorem fread_whole {A : List α} {n : ℤ} (h : (A.length : ℤ) = n) (rest : List UInt8) :
    fread α n (A.flatMap bytes ++ rest) = some (A, rest) := by
  subst h
  rw [fread, if_pos (by omega), Int.toNat_natCast]
  exact takeMany_bytes A rest

end Stored

end NuKSM
