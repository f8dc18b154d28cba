import NuKSM.Sysbench.Options

/-! # Configuration files (`sb_options.c`) -/

namespace NuKSM.Sysbench

/-- `isspace`. -/
def isSpace (c : Char) : Bool := c = ' ' || ('\t' ≤ c && c ≤ '\r')

/-- The string at the start of a memory. -/
def CString.ofMemory (s : List Char) : CString :=
  ⟨s.takeWhile (· ≠ nul), fun h => by simpa using List.mem_takeWhile_imp h⟩

def valueDelimiter : Char := '='
def valueSeparator : Char := ','
def commentChar : Char := '#'
def maxStrLen : ℕ := 256

/-! ### Reading -/

/-- `fgets(buf, n + 1, fp)`: the line, and what follows it in the file. -/
def fgets : ℕ → List Char → List Char × List Char
  | 0, s => ([], s)
  | _ + 1, [] => ([], [])
  | n + 1, c :: s => if c = '\n' then ([c], s) else (c :: (fgets n s).1, (fgets n s).2)

theorem fgets_length (n : ℕ) (s : List Char) : (fgets n s).2.length ≤ s.length := by
  induction n generalizing s with
  | zero => exact le_rfl
  | succ n ih =>
    cases s with
    | nil => exact le_rfl
    | cons c s =>
      rw [fgets]
      split
      · exact Nat.le_succ _
      · exact Nat.le_succ_of_le (ih s)

theorem fgets_length_lt (n : ℕ) (c : Char) (s : List Char) : (fgets (n + 1) (c :: s)).2.length < (c :: s).length := by
  rw [fgets]
  split
  · exact Nat.lt_succ_self _
  · exact Nat.lt_succ_of_le (fgets_length n s)

theorem length_tail_dropWhile (p : Char → Bool) (s : List Char) : (s.dropWhile p).tail.length ≤ s.length :=
  ((List.tail_suffix _).trans (List.dropWhile_suffix p)).length_le

/-- A character that ends a value. -/
def endsValue (c : Char) : Bool := c = valueSeparator || isSpace c

/-- The values behind the delimiter of a line, and whether each quote is closed. -/
def readValues : List Char → List CString × Bool
  | [] => ([], true)
  | c :: tmp =>
    if isSpace c then readValues tmp
    else if c = commentChar then ([], true)
    else if c = '\'' ∨ c = '"' then
      match _h : tmp.dropWhile (· ≠ c) with
      | [] => ([], false)
      | _ :: rest =>
        let (values, ok) := readValues (rest.dropWhile (· ≠ valueSeparator)).tail
        (.ofMemory (tmp.takeWhile (· ≠ c)) :: values, ok)
    else
      let (values, ok) := readValues ((c :: tmp).dropWhile fun d => !endsValue d).tail
      (.ofMemory ((c :: tmp).takeWhile fun d => !endsValue d) :: values, ok)
  termination_by s => s.length
  decreasing_by
  · exact Nat.lt_succ_self _
  · have hrest := congrArg List.length _h ▸ (List.dropWhile_suffix (l := tmp) (· ≠ c)).length_le
    have htail := length_tail_dropWhile (· ≠ valueSeparator) rest
    simp only [List.length_cons] at hrest ⊢
    omega
  · have hdrop := (List.dropWhile_suffix (l := c :: tmp) fun d => !endsValue d).length_le
    simp only [List.length_tail, List.length_cons] at hdrop ⊢
    omega

/-- A line of the file, and whether it can be read. -/
def readLine (line : List Char) (options : List SbOption) : Bool × List SbOption :=
  let buf := (CString.ofMemory line).chars
  if valueDelimiter ∈ buf then
    let (i, options) := addOption options (.ofMemory (buf.takeWhile (· ≠ valueDelimiter)))
    let (values, ok) := readValues (buf.dropWhile (· ≠ valueDelimiter)).tail
    (ok, options.modify i fun opt => { opt with values := values })
  else (true, options)

/-- `read_config`, and whether it succeeds. -/
def readConfig : List Char → List SbOption → Bool × List SbOption
  | [], options => (true, options)
  | c :: text, options =>
    let (ok, options) := readLine (fgets (maxStrLen - 1) (c :: text)).1 options
    if ok then readConfig (fgets (maxStrLen - 1) (c :: text)).2 options else (false, options)
  termination_by text => text.length
  decreasing_by exact fgets_length_lt _ c text

/-- `read_config_file`. Some files can be opened. -/
def readConfigFile (files : CString → Option (List Char)) (filename : Option CString) (options : List SbOption) : List SbOption :=
  match filename.bind files with
  | none => options
  | some text => (readConfig text options).2

/-! ### Writing -/

/-- The line of an option. -/
def configLine (opt : SbOption) : List Char :=
  opt.name.chars ++ ([' ', valueDelimiter, ' '] ++ (List.intercalate [valueSeparator, ' '] (opt.values.map (·.chars)) ++ ['\n']))

/-- `write_config`: the text, and the options, which come with their `ignore`. -/
def writeConfig (options : List (SbOption × Bool)) : List Char × List (SbOption × Bool) :=
  (options.flatMap fun opt => if opt.2 then [] else configLine opt.1, options.map fun opt => (opt.1, true))

end NuKSM.Sysbench
