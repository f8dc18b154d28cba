import NuKSM.Lib.Team

/-! # Ranking and sorting of the keys (`is.c`)

The threads of a parallel region meet where a work-sharing loop ends. With a static schedule all loops over as many iterations share
them out in the same way, and with a dynamic one in any way. A key is smaller than `MAX_KEY` and a rank at most `NUM_KEYS`, so
`INT_TYPE` has room for them in each class. Buckets are in use (`USE_BUCKETS`). -/

namespace NuKSM.Npb

inductive IsClass
  | S | W | A | B | C | D | E
  deriving DecidableEq, Repr

namespace IsClass

/-- `TOTAL_KEYS_LOG_2`. -/
def totalKeysLog2 : IsClass → ℕ
  | S => 16 | W => 20 | A => 23 | B => 25 | C => 27 | D => 31 | E => 35

/-- `MAX_KEY_LOG_2`. -/
def maxKeyLog2 : IsClass → ℕ
  | S => 11 | W => 16 | A => 19 | B => 21 | C => 23 | D => 27 | E => 31

/-- `NUM_BUCKETS_LOG_2`. -/
def numBucketsLog2 : IsClass → ℕ
  | S => 9 | W | A | B | C | D | E => 10

/-- `NUM_KEYS`, which is `TOTAL_KEYS`. -/
def numKeys (cls : IsClass) : ℕ := 2 ^ cls.totalKeysLog2

/-- `MAX_KEY`. -/
def maxKey (cls : IsClass) : ℕ := 2 ^ cls.maxKeyLog2

/-- `NUM_BUCKETS`. -/
def numBuckets (cls : IsClass) : ℕ := 2 ^ cls.numBucketsLog2

/-- The `shift` of `rank`. -/
def shift (cls : IsClass) : ℕ := cls.maxKeyLog2 - cls.numBucketsLog2

/-- The `num_bucket_keys` of `rank`. -/
def numBucketKeys (cls : IsClass) : ℕ := 2 ^ cls.shift

/-- `test_index_array`. -/
def testIndexArray : IsClass → List ℕ
  | S => [48427, 17148, 23627, 62548, 4431]
  | W => [357773, 934767, 875723, 898999, 404505]
  | A => [2112377, 662041, 5336171, 3642833, 4250760]
  | B => [41869, 812306, 5102857, 18232239, 26860214]
  | C => [44172927, 72999161, 74326391, 129606274, 21736814]
  | D => [1317351170, 995930646, 1157283250, 1503301535, 1453734525]
  | E => [21492309536, 24606226181, 12608530949, 4065943607, 3324513396]

/-- `test_rank_array`. -/
def testRankArray : IsClass → List ℤ
  | S => [0, 18, 346, 64917, 65463]
  | W => [1249, 11698, 1039987, 1043896, 1048018]
  | A => [104, 17523, 123928, 8288932, 8388264]
  | B => [33422937, 10244, 59149, 33135281, 99]
  | C => [61147, 882988, 266290, 133997595, 133525895]
  | D => [1, 36538729, 1978098519, 2145192618, 2147425337]
  | E => [3, 27580354, 3248475153, 30048754302, 31485259697]

/-- What `rank` adds to the `test_rank` of the test key `i`. -/
def testRankShift (iteration : ℤ) : IsClass → ℕ → ℤ
  | S, i => if i ≤ 2 then iteration else -iteration
  | W, i => if i < 2 then iteration - 2 else -iteration
  | A, i => if i ≤ 2 then iteration - 1 else -(iteration - 1)
  | B, i => if i = 1 ∨ i = 2 ∨ i = 4 then iteration else -iteration
  | C, i => if i ≤ 2 then iteration else -iteration
  | D, i => if i < 2 then iteration else -iteration
  | E, i =>
    if i < 2 then iteration - 2
    else if i = 2 then iteration - 2 + if iteration > 4 then -2 else if iteration > 2 then -1 else 0
    else -(iteration - 2)

end IsClass

def maxIterations : ℕ := 10

/-- An element of an array. -/
inductive IsCell
  | keyArray (i : ℕ)
  | keyBuff1 (k : ℕ)
  | keyBuff2 (i : ℕ)
  /-- Each thread has a row of its own. -/
  | bucketSize (id i : ℕ)
  /-- `bucket_ptrs` is private to each thread. -/
  | bucketPtrs (id i : ℕ)
  /-- An index before the first element. -/
  | outside
  deriving DecidableEq

abbrev IsM := CellM IsCell ℕ

abbrev IsMemory := IsCell → ℕ

open Thread CellM IsCell

/-- How the iterations of a work-sharing loop are shared out, to each thread in the order in which it takes them. -/
structure Sharing (numThreads n : ℕ) where
  share : ℕ → List ℕ
  all : ((List.range numThreads).flatMap share).Perm (List.range n)

/-- `*c += n`. -/
def addTo (c : IsCell) (n : ℕ) : IsM Unit := do
  let x ← load c
  store c (x + n)

/-- `for (k = lo; k < lo + n; k++) *c += bucket_size[k][i]`. -/
def addSizes (c : IsCell) (i lo n : ℕ) : IsM Unit := loopUp (fun k _ => do addTo c (← load (bucketSize k i))) lo n ()

/-! ### `rank` -/

section rank
variable (cls : IsClass) (numThreads myid : ℕ) (share : List ℕ)

/-- The number of keys in each bucket. -/
def countKeys : IsM Unit := do
  loopUp (fun i _ => store (bucketSize myid i) 0) 0 cls.numBuckets ()
  forEach (fun i => do
    let key ← load (keyArray i)
    addTo (bucketSize myid (key >>> cls.shift)) 1) share

/-- The places where the keys of this thread start in each bucket. -/
def accumulateSizes : IsM Unit := do
  store (bucketPtrs myid 0) 0
  addSizes (bucketPtrs myid 0) 0 0 myid
  loopUp (fun i _ => do
    store (bucketPtrs myid i) (← load (bucketPtrs myid (i - 1)))
    addSizes (bucketPtrs myid i) i 0 myid
    addSizes (bucketPtrs myid i) (i - 1) myid (numThreads - myid)) 1 (cls.numBuckets - 1) ()

/-- `key_buff2[bucket_ptrs[k >> shift]++] = k`. -/
def placeKey (i : ℕ) : IsM Unit := do
  let k ← load (keyArray i)
  let p ← load (bucketPtrs myid (k >>> cls.shift))
  store (bucketPtrs myid (k >>> cls.shift)) (p + 1)
  store (keyBuff2 p) k

def placeKeys : IsM Unit := do
  accumulateSizes cls numThreads myid
  forEach (placeKey cls myid) share

/-- The pointers of this thread get past the keys of the threads after it. -/
def finishPtrs : IsM Unit :=
  onlyIf (myid < numThreads - 1)
    (loopUp (fun i _ => addSizes (bucketPtrs myid i) i (myid + 1) (numThreads - (myid + 1))) 0 cls.numBuckets ())

/-- Where bucket `i` starts. -/
def bucketStart (i : ℕ) : IsM ℕ := if i > 0 then load (bucketPtrs myid (i - 1)) else done 0

def rankBucket (i : ℕ) : IsM Unit := do
  let k1 := i * cls.numBucketKeys
  loopUp (fun k _ => store (keyBuff1 k) 0) k1 cls.numBucketKeys ()
  let m ← bucketStart myid i
  let stop ← load (bucketPtrs myid i)
  loopUp (fun k _ => do addTo (keyBuff1 (← load (keyBuff2 k))) 1) m (stop - m) ()
  addTo (keyBuff1 k1) m
  loopUp (fun k _ => do addTo (keyBuff1 k) (← load (keyBuff1 (k - 1)))) (k1 + 1) (cls.numBucketKeys - 1) ()

def rankBuckets : IsM Unit := do
  finishPtrs cls numThreads myid
  forEach (rankBucket cls myid) share

/-- The parallel region of `rank`. -/
def RankRegion (s s' : IsMemory) : Prop :=
  ∃ (static : Sharing numThreads cls.numKeys) (dynamic : Sharing numThreads cls.numBuckets) (s₁ s₂ : IsMemory)
    (a₁ a₂ a₃ : Fin numThreads → Unit),
    TeamRuns (fun t : Fin numThreads => countKeys cls t (static.share t)) s a₁ s₁ ∧
      TeamRuns (fun t : Fin numThreads => placeKeys cls numThreads t (static.share t)) s₁ a₂ s₂ ∧
      TeamRuns (fun t : Fin numThreads => rankBuckets cls numThreads t (dynamic.share t)) s₂ a₃ s'

/-- `key_array[iteration] = iteration` and `key_array[iteration + MAX_ITERATIONS] = MAX_KEY - iteration`. -/
def changeKeys (iteration : ℕ) (s : IsMemory) : IsMemory :=
  Function.update (Function.update s (keyArray iteration) iteration) (keyArray (iteration + maxIterations)) (cls.maxKey - iteration)

/-- Whether the test key `i` has the right rank, where `val` is the key and `ranks` has the ranks. -/
def rankPasses (iteration : ℕ) (ranks : ℕ → ℕ) (val i : ℕ) : Bool :=
  0 < val && val ≤ cls.numKeys - 1 && (ranks (val - 1) : ℤ) = cls.testRankArray.getD i 0 + cls.testRankShift iteration i

/-- The number of test keys with the right rank. -/
def partialPasses (iteration : ℕ) (ranks vals : ℕ → ℕ) : ℕ :=
  (List.range cls.testIndexArray.length).countP fun i => rankPasses cls iteration ranks (vals (cls.testIndexArray.getD i 0)) i

/-- `rank`, which also counts `passed_verification`. -/
def Rank (iteration : ℕ) : IsMemory × ℕ → IsMemory × ℕ → Prop
  | (s, passed), (s', passed') =>
    RankRegion cls numThreads (changeKeys cls iteration s) s' ∧
      passed' = passed + partialPasses cls iteration (s' <| keyBuff1 ·) (changeKeys cls iteration s <| keyArray ·)

end rank

/-! ### `full_verify` -/

section verify
variable (cls : IsClass) (numThreads myid : ℕ) (share : List ℕ)

/-- `key_array[n - 1]`. -/
def beforePlace : ℕ → IsCell
  | 0 => outside
  | n + 1 => keyArray n

/-- The keys of bucket `j` get back to `key_array`, each to the place before its rank. -/
def sortBucket (j : ℕ) : IsM Unit := do
  let k1 ← bucketStart myid j
  let stop ← load (bucketPtrs myid j)
  loopUp (fun i _ => do
    let key ← load (keyBuff2 i)
    let k ← load (keyBuff1 key)
    store (keyBuff1 key) (k - 1)
    store (beforePlace k) (← load (keyBuff2 i))) k1 (stop - k1) ()

/-- The keys of this thread that are smaller than the one before. Iteration `i` looks at the places `i` and `i + 1`. -/
def countUnsorted : List ℕ → ℕ → IsM ℕ
  | [], j => done j
  | i :: share, j => do
    let before ← load (keyArray i)
    let key ← load (keyArray (i + 1))
    countUnsorted share (if before > key then j + 1 else j)

/-- `full_verify`, which also counts `passed_verification`. -/
def FullVerify : IsMemory × ℕ → IsMemory × ℕ → Prop
  | (s, passed), (s', passed') =>
    ∃ (dynamic : Sharing numThreads cls.numBuckets) (static : Sharing numThreads (cls.numKeys - 1)) (s₁ : IsMemory)
      (a : Fin numThreads → Unit) (unsorted : Fin numThreads → ℕ),
      TeamRuns (fun t : Fin numThreads => forEach (sortBucket t) (dynamic.share t)) s a s₁ ∧
        TeamRuns (fun t : Fin numThreads => countUnsorted (static.share t) 0) s₁ unsorted s' ∧
        passed' = if ∑ t, unsorted t ≠ 0 then passed else passed + 1

end verify

/-- The iterations from `first` on, `n` of them. -/
inductive RankRuns (cls : IsClass) (numThreads : ℕ) : (first n : ℕ) → IsMemory × ℕ → IsMemory × ℕ → Prop
  | nil {first w} : RankRuns cls numThreads first 0 w w
  | cons {first n w w₁ w'} : Rank cls numThreads first w w₁ → RankRuns cls numThreads (first + 1) n w₁ w' →
      RankRuns cls numThreads first (n + 1) w w'

/-- `main` after `create_seq` and `alloc_key_buff`, with what it leaves in `passed_verification`. -/
def IsMain (cls : IsClass) (numThreads : ℕ) (s : IsMemory) (s' : IsMemory) (passed : ℕ) : Prop :=
  ∃ w₁ w₂ w₃, Rank cls numThreads 1 (s, 0) w₁ ∧ RankRuns cls numThreads 1 maxIterations (w₁.1, 0) w₂ ∧
    FullVerify cls numThreads w₂ w₃ ∧ s' = w₃.1 ∧ passed = if w₃.2 ≠ 5 * maxIterations + 1 then 0 else w₃.2

end NuKSM.Npb
