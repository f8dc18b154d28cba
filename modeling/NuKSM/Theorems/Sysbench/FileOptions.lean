import NuKSM.Sysbench.FileOptions
import NuKSM.Theorems.Sysbench.FileConfig
import NuKSM.Theorems.Sysbench.OptionInts
import NuKSM.Theorems.Sysbench.OptionSizes

/-! # The sizes and numbers of the file I/O test

`parse_arguments` converts the numbers of its options to `unsigned int`, `long long` and `int` before it looks at them. Some that
are no good pass its checks after the conversion. -/

namespace NuKSM.Sysbench

/-! ### Sizes -/

/-- The number that `sb_opt_to_size` reads, before it is reduced to 64 bits. -/
def readSize : Option (List Char) → ℕ
  | none => 0
  | some s => ((unitExponent (s.dropWhile isDigit)).map (decimal (s.takeWhile isDigit) * 1024 ^ ·)).getD 0

/-- Nothing follows the unit. -/
def EndsWithUnit (s : Option (List Char)) : Prop := ∀ chars ∈ s, (chars.dropWhile isDigit).length ≤ 1

theorem toNat_sbGetValueSize (options : List SbOption) (name : CString) :
    (sbGetValueSize options name).toNat = readSize (valueOf options name) % 2 ^ 64 := by
  obtain ⟨⟨_, _, values, _⟩, hvalue, -, hsize⟩ := exists_option options name
  rw [hvalue, hsize]
  cases values with
  | nil => rfl
  | cons val values =>
    rw [sbOptToSize_eq ⟨_, _, [], _⟩ val values, List.head?_cons, Option.map_some, readSize]
    cases unitExponent (val.chars.dropWhile isDigit) with
    | none => rfl
    | some k => exact UInt64.toNat_ofNat'

theorem readSize_of_denoted {s : Option (List Char)} {v : ℕ} (h : s.bind denotedSize = some v) : readSize s = v ∧ EndsWithUnit s := by
  obtain ⟨chars, rfl, hv⟩ := Option.bind_eq_some_iff.mp h
  unfold denotedSize at hv
  split at hv
  · cases hv
  · rename_i hgood
    refine ⟨by rw [readSize, hv]; rfl, fun chars' hchars' => ?_⟩
    cases hchars'
    exact not_lt.mp (not_or.mp hgood).2

theorem denoted_of_readSize {s : Option (List Char)} (hpos : 0 < readSize s) (h : EndsWithUnit s) :
    s.bind denotedSize = some (readSize s) := by
  cases s with
  | none => exact absurd hpos (lt_irrefl 0)
  | some chars =>
    cases hunit : unitExponent (chars.dropWhile isDigit) with
    | none =>
      rw [readSize, hunit] at hpos
      exact absurd hpos (lt_irrefl 0)
    | some k =>
      have hsize : readSize (some chars) = decimal (chars.takeWhile isDigit) * 1024 ^ k := by
        rw [readSize, hunit]
        rfl
      have hdigits : chars.takeWhile isDigit ≠ [] := by
        intro hnil
        rw [hsize, hnil, show decimal [] = 0 from rfl, zero_mul] at hpos
        exact absurd hpos (lt_irrefl 0)
      rw [Option.bind_some, denotedSize, if_neg (not_or.mpr ⟨hdigits, not_lt.mpr (h chars rfl)⟩), hunit, hsize]
      rfl

theorem denotedInt_of_readInt {s : Option (List Char)} {n : ℤ} (h : readInt s = some n) (hn : n ≠ 0) :
    s.bind denotedInt = some n := by
  cases s with
  | none => exact absurd (Option.some.inj h).symm hn
  | some chars =>
    cases chars with
    | nil => exact absurd (Option.some.inj h).symm hn
    | cons c chars => exact (Option.filter_eq_some_iff.mp h).1

/-! ### The checks -/

/-- The numbers of `file-num`, `file-merged-requests`, `file-total-size` and `file-block-size` pass the checks as they are
converted. -/
structure PassChecks (n m : ℤ) (t b : ℕ) : Prop where
  num : n ≠ 0
  merged : 0 ≤ m
  total : 0 < t % 2 ^ 64 ∧ t % 2 ^ 64 < 2 ^ 63
  block : 0 < b % 2 ^ 32 ∧ b % 2 ^ 32 < 2 ^ 31
  request : (b % 2 ^ 32 : ℤ) * max 1 m % 2 ^ 32 < 2 ^ 31

/-- The numbers are left as they are, and there is a byte for each file. -/
structure FitTypes (n m : ℤ) (t b : ℕ) : Prop where
  num : 1 ≤ n
  files : n ≤ t
  total : t < 2 ^ 63
  block : b < 2 ^ 31
  request : (b : ℤ) * max 1 m < 2 ^ 31

/-- What becomes of the numbers. -/
structure Converted (n m : ℤ) (t b : ℕ) (c : FileConfig) : Prop where
  numFiles : (c.numFiles : ℤ) = n % 2 ^ 32
  totalSize : c.totalSize = t % 2 ^ 64
  merged : c.fileMergedRequests = m
  blockSize : c.fileBlockSize = b % 2 ^ 32
  requestSize : c.fileRequestSize = b % 2 ^ 32 * max 1 m % 2 ^ 32
  fileSize : c.fileSize = c.totalSize / c.numFiles

section checks
variable {build : FileBuild} {g : FileGlobals} {args : FileArgs} {c : FileConfig}

theorem toInt_requestSize {block merged : Int32} (hmerged : 0 ≤ merged.toInt) :
    (requestSize block merged).toInt = (block.toInt * max 1 merged.toInt).bmod (2 ^ 32) := by
  unfold requestSize
  split
  · rw [Int32.toInt_mul, max_eq_right (by omega)]
  · have hzero : merged.toInt = 0 := by omega
    have hone := Int32.toInt_mul block 1
    rw [Int32.mul_one] at hone
    rw [hzero, max_eq_left zero_le_one]
    exact hone

/-- What is accepted has passed the checks, and this is what it has become. -/
theorem parseArguments_converted (h : parseArguments build g args = .ok c) {t b : ℕ} (ht : args.fileTotalSize.toNat = t % 2 ^ 64)
    (hb : args.fileBlockSize.toNat = b % 2 ^ 64) :
    PassChecks args.fileNum.toInt args.fileMergedRequests.toInt t b ∧
      Converted args.fileNum.toInt args.fileMergedRequests.toInt t b c := by
  obtain ⟨-, -, hnum, hnumpos, htotal, htotalpos, hfile, hmerged, hmergedpos, hblock, hblockpos, hrequest, hrequestpos, -⟩ :=
    parseArguments_ok h
  have hnum' := toNat_toUInt32_eq_emod args.fileNum
  rw [← hnum] at hnum'
  rw [toInt_toInt64, ht] at htotal
  have htotal' : c.totalSize = t % 2 ^ 64 ∧ t % 2 ^ 64 < 2 ^ 63 := by
    split at htotal <;> omega
  have hblock' : c.fileBlockSize = b % 2 ^ 32 ∧ b % 2 ^ 32 < 2 ^ 31 := by
    rw [toInt_toInt32, UInt64.toNat_toUInt32, hb] at hblock
    split at hblock <;> omega
  rw [hmerged] at hmergedpos
  rw [toInt_requestSize hmergedpos, ← hblock, hblock'.1, Int.bmod_def] at hrequest
  have hrequest' : c.fileRequestSize = b % 2 ^ 32 * max 1 args.fileMergedRequests.toInt % 2 ^ 32 ∧
      (b % 2 ^ 32 : ℤ) * max 1 args.fileMergedRequests.toInt % 2 ^ 32 < 2 ^ 31 := by
    generalize (b % 2 ^ 32 : ℤ) * max 1 args.fileMergedRequests.toInt = product at hrequest ⊢
    split at hrequest <;> omega
  refine ⟨⟨?_, hmergedpos, ⟨by omega, htotal'.2⟩, ⟨by omega, hblock'.2⟩, hrequest'.2⟩,
    ⟨hnum', htotal'.1, hmerged, hblock'.1, hrequest'.1, hfile⟩⟩
  intro hzero
  rw [hzero] at hnum'
  omega

/-- The other options, with which nothing is wrong. -/
def plainArgs : FileArgs where
  fileNum := 128
  fileBlockSize := 16384
  fileTotalSize := 2147483648
  fileTestMode := none
  fileIoMode := none
  fileAsyncBacklog := 128
  fileExtraFlags := []
  fileFsyncFreq := 100
  fileFsyncAll := false
  fileFsyncEnd := true
  fileFsyncMode := "fsync"
  fileMergedRequests := 0
  fileRwRatio := 3 / 2

theorem checkArg_of {ok : Prop} [Decidable ok] {text : String} (h : ok) : checkArg ok text = .ok () := if_pos h

/-- Where the other options are right, the checks are enough. -/
theorem parseArguments_of_passChecks {n m : Int32} {total block : UInt64} {t b : ℕ} (h : PassChecks n.toInt m.toInt t b)
    (ht : total.toNat = t % 2 ^ 64) (hb : block.toNat = b % 2 ^ 64) :
    ∃ c, parseArguments build ⟨"prepare", 1, false⟩
      { plainArgs with fileNum := n, fileMergedRequests := m, fileTotalSize := total, fileBlockSize := block } = .ok c := by
  obtain ⟨hn, hm, ⟨htpos, htlt⟩, ⟨hbpos, hblt⟩, hrequest⟩ := h
  have hnum : n.toUInt32.toNat > 0 := by
    have hconv := toNat_toUInt32_eq_emod n
    have hlow := n.le_toInt
    have hhigh := n.toInt_lt
    omega
  have htotal : total.toInt64.toInt > 0 := by
    rw [toInt_toInt64, ht, if_pos htlt]
    omega
  have hblock : block.toUInt32.toInt32.toInt = b % 2 ^ 32 := by
    rw [toInt_toInt32, UInt64.toNat_toUInt32, hb, if_pos (by omega)]
    omega
  have hblockpos : block.toUInt32.toInt32.toInt > 0 := by omega
  have hsize : (requestSize block.toUInt32.toInt32 m).toInt ≥ 0 := by
    rw [toInt_requestSize hm, hblock, Int.bmod_def, if_pos (by omega)]
    exact Int.emod_nonneg _ (by norm_num)
  have hsize' : (if m.toInt > 0 then block.toUInt32.toInt32 * m else block.toUInt32.toInt32).toInt ≥ 0 := hsize
  unfold parseArguments
  dsimp only
  rw [checkArg_of hnum, checkArg_of htotal, checkArg_of hm, checkArg_of hblockpos, checkArg_of hsize',
    checkArg_of (show plainArgs.fileFsyncFreq.toInt ≥ 0 by decide),
    checkArg_of (show plainArgs.fileRwRatio ≥ 0 by norm_num [plainArgs]),
    show parseTestMode "prepare" plainArgs.fileTestMode = .ok .read by decide]
  exact ⟨_, rfl⟩

end checks

/-! ### The options -/

section options
variable {build : FileBuild} {g : FileGlobals} {options : List SbOption} {rest : FileArgs} {c : FileConfig}

/-- The variables are the numbers that the options denote, and each file has a byte. -/
structure RightConfig (options : List SbOption) (c : FileConfig) : Prop where
  numFiles : (valueOf options strFileNum).bind denotedInt = some (c.numFiles : ℤ)
  numFiles_pos : 1 ≤ c.numFiles
  totalSize : ((valueOf options strFileTotalSize).bind denotedSize).map Nat.cast = some c.totalSize
  blockSize : ((valueOf options strFileBlockSize).bind denotedSize).map Nat.cast = some c.fileBlockSize
  merged : readInt (valueOf options strFileMergedRequests) = some c.fileMergedRequests
  requestSize : c.fileRequestSize = c.fileBlockSize * max 1 c.fileMergedRequests
  fileSize : c.fileSize = c.totalSize / c.numFiles
  fileSize_pos : 1 ≤ c.fileSize

/-- Whatever the other options are, what is accepted is right. -/
def ParsesRight (options : List SbOption) : Prop :=
  ∀ build g rest c, parseOptions build g options rest = .ok c → RightConfig options c

/-- Numbers that pass the checks as they are converted need no conversion, and nothing follows their units. -/
def OptionsFit (options : List SbOption) : Prop :=
  ∀ n m, readInt (valueOf options strFileNum) = some n → readInt (valueOf options strFileMergedRequests) = some m →
    PassChecks n m (readSize (valueOf options strFileTotalSize)) (readSize (valueOf options strFileBlockSize)) →
    FitTypes n m (readSize (valueOf options strFileTotalSize)) (readSize (valueOf options strFileBlockSize)) ∧
      EndsWithUnit (valueOf options strFileTotalSize) ∧ EndsWithUnit (valueOf options strFileBlockSize)

theorem parseOptions_converted (h : parseOptions build g options rest = .ok c) :
    ∃ n m, readInt (valueOf options strFileNum) = some n ∧ readInt (valueOf options strFileMergedRequests) = some m ∧
      PassChecks n m (readSize (valueOf options strFileTotalSize)) (readSize (valueOf options strFileBlockSize)) ∧
      Converted n m (readSize (valueOf options strFileTotalSize)) (readSize (valueOf options strFileBlockSize)) c := by
  unfold parseOptions at h
  obtain ⟨fileNum, hnum, h⟩ := bind_eq_ok h
  dsimp only at h
  split at h
  · rename_i merged hmerged
    obtain ⟨hpass, hconverted⟩ := parseArguments_converted h (toNat_sbGetValueSize ..) (toNat_sbGetValueSize ..)
    exact ⟨_, _, readInt_of_ok hnum, readInt_of_ok hmerged, hpass, hconverted⟩
  · obtain ⟨_, -, h⟩ := bind_eq_ok h
    obtain ⟨_, -, h⟩ := bind_eq_ok h
    obtain ⟨_, -, h⟩ := bind_eq_ok h
    obtain ⟨_, -, h⟩ := bind_eq_ok h
    cases h

theorem parseOptions_of_passChecks {n m : ℤ} (hn : readInt (valueOf options strFileNum) = some n)
    (hm : readInt (valueOf options strFileMergedRequests) = some m)
    (h : PassChecks n m (readSize (valueOf options strFileTotalSize)) (readSize (valueOf options strFileBlockSize))) :
    ∃ c, parseOptions build ⟨"prepare", 1, false⟩ options plainArgs = .ok c := by
  obtain ⟨fileNum, hnum, rfl⟩ := sbGetValueInt_of_readInt hn
  obtain ⟨merged, hmerged, rfl⟩ := sbGetValueInt_of_readInt hm
  obtain ⟨c, hc⟩ := parseArguments_of_passChecks h (toNat_sbGetValueSize ..) (toNat_sbGetValueSize ..)
  refine ⟨c, ?_⟩
  unfold parseOptions
  rw [hnum, hmerged]
  exact hc

variable {n m : ℤ}

theorem FitTypes.right (hn : readInt (valueOf options strFileNum) = some n)
    (hm : readInt (valueOf options strFileMergedRequests) = some m)
    (h : FitTypes n m (readSize (valueOf options strFileTotalSize)) (readSize (valueOf options strFileBlockSize)))
    (hpass : PassChecks n m (readSize (valueOf options strFileTotalSize)) (readSize (valueOf options strFileBlockSize)))
    (hc : Converted n m (readSize (valueOf options strFileTotalSize)) (readSize (valueOf options strFileBlockSize)) c)
    (hendt : EndsWithUnit (valueOf options strFileTotalSize)) (hendb : EndsWithUnit (valueOf options strFileBlockSize)) :
    RightConfig options c := by
  obtain ⟨hnum, hfiles, htotal, hblock, hrequest⟩ := h
  have hrange := readInt_range hn
  have hnumFiles : (c.numFiles : ℤ) = n := by
    have := hc.numFiles
    omega
  have htotalSize : c.totalSize = readSize (valueOf options strFileTotalSize) := by
    have := hc.totalSize
    omega
  have hblockSize : c.fileBlockSize = readSize (valueOf options strFileBlockSize) := by
    have := hc.blockSize
    omega
  have hpos : 0 < readSize (valueOf options strFileBlockSize) := by
    have := hpass.block.1
    omega
  refine ⟨?_, by omega, ?_, ?_, hm.trans (congrArg some hc.merged.symm), ?_, hc.fileSize, ?_⟩
  · rw [denotedInt_of_readInt hn hpass.num, hnumFiles]
  · rw [denoted_of_readSize (by omega) hendt, htotalSize]
    rfl
  · rw [denoted_of_readSize hpos hendb, hblockSize]
    rfl
  · have hnonneg : (0 : ℤ) ≤ readSize (valueOf options strFileBlockSize) * max 1 m :=
      mul_nonneg (Int.natCast_nonneg _) (zero_le_one.trans (le_max_left 1 m))
    rw [hc.requestSize, hc.merged, hblockSize, Int.emod_eq_of_lt (Int.natCast_nonneg _) (by omega),
      Int.emod_eq_of_lt hnonneg (by omega)]
  · rw [hc.fileSize, htotalSize, hnumFiles, Int.le_ediv_iff_mul_le (by omega), one_mul]
    exact hfiles

theorem RightConfig.fit (h : RightConfig options c) (hn : readInt (valueOf options strFileNum) = some n)
    (hpass : PassChecks n m (readSize (valueOf options strFileTotalSize)) (readSize (valueOf options strFileBlockSize)))
    (hc : Converted n m (readSize (valueOf options strFileTotalSize)) (readSize (valueOf options strFileBlockSize)) c) :
    FitTypes n m (readSize (valueOf options strFileTotalSize)) (readSize (valueOf options strFileBlockSize)) ∧
      EndsWithUnit (valueOf options strFileTotalSize) ∧ EndsWithUnit (valueOf options strFileBlockSize) := by
  have hnumFiles : n = c.numFiles := Option.some.inj ((denotedInt_of_readInt hn hpass.num).symm.trans h.numFiles)
  obtain ⟨t, ht, htotal⟩ := Option.map_eq_some_iff.mp h.totalSize
  obtain ⟨b, hb, hblock⟩ := Option.map_eq_some_iff.mp h.blockSize
  obtain ⟨htread, hendt⟩ := readSize_of_denoted ht
  obtain ⟨hbread, hendb⟩ := readSize_of_denoted hb
  rw [htread, hbread] at hpass hc ⊢
  have hnumpos := h.numFiles_pos
  have hblockSize := hc.blockSize
  refine ⟨⟨by omega, ?_, ?_, ?_, ?_⟩, hendt, hendb⟩
  · have hpos := h.fileSize_pos
    rw [hc.fileSize, Int.le_ediv_iff_mul_le (by omega), one_mul, ← htotal, ← hnumFiles] at hpos
    exact hpos
  · have := hc.totalSize
    have := hpass.total.2
    omega
  · have := hpass.block.2
    omega
  · have hrequest := h.requestSize
    have hless := hpass.request
    rw [hc.requestSize, hc.merged, ← hblock] at hrequest
    rw [← hrequest]
    exact hless

/-- What is accepted is right if and only if the numbers that pass the checks are left as they are by the conversions, the
files are not more than the bytes, and nothing follows the units. -/
theorem parsesRight_iff (options : List SbOption) : ParsesRight options ↔ OptionsFit options := by
  constructor
  · intro h n m hn hm hpass
    obtain ⟨c, hc⟩ : ∃ c, parseOptions ⟨true, true, true⟩ _ options plainArgs = .ok c := parseOptions_of_passChecks hn hm hpass
    obtain ⟨n', m', hn', hm', -, hconverted⟩ := parseOptions_converted hc
    cases hn.symm.trans hn'
    cases hm.symm.trans hm'
    exact (h _ _ _ _ hc).fit hn hpass hconverted
  · intro h build g rest c hc
    obtain ⟨n, m, hn, hm, hpass, hconverted⟩ := parseOptions_converted hc
    obtain ⟨hfit, hendt, hendb⟩ := h n m hn hm hpass
    exact hfit.right hn hm hpass hconverted hendt hendb

end options

/-- `--file-num=-1`, and the defaults. -/
def negativeOptions : List SbOption :=
  [⟨strFileNum, .int, [.ofMemory ['-', '1']], none⟩,
    ⟨strFileBlockSize, .size, [.ofMemory ['1', '6', '3', '8', '4']], none⟩,
    ⟨strFileTotalSize, .size, [.ofMemory ['2', 'G']], none⟩,
    ⟨strFileMergedRequests, .int, [.ofMemory ['0']], none⟩]

/-- The number of files is unsigned, so the check whether it is negative finds nothing. -/
theorem not_parsesRight :
    (parseOptions ⟨true, true, true⟩ ⟨"prepare", 1, false⟩ negativeOptions plainArgs).map (fun c => (c.numFiles, c.fileSize)) =
      .ok (4294967295, 0) ∧ ¬ParsesRight negativeOptions := by
  have hparse : (parseOptions ⟨true, true, true⟩ ⟨"prepare", 1, false⟩ negativeOptions plainArgs).map
      (fun c => (c.numFiles, c.fileSize)) = .ok (4294967295, 0) := by decide +kernel
  refine ⟨hparse, fun h => ?_⟩
  cases hc : parseOptions ⟨true, true, true⟩ ⟨"prepare", 1, false⟩ negativeOptions plainArgs with
  | error text =>
    rw [hc] at hparse
    cases hparse
  | ok c =>
    rw [hc] at hparse
    have hzero : c.fileSize = 0 := congrArg Prod.snd (Except.ok.inj hparse)
    have hpos := (h _ _ _ c hc).fileSize_pos
    omega

end NuKSM.Sysbench
