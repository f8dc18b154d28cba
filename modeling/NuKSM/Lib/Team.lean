import NuKSM.Lib.Thread

/-! # Teams of threads that keep apart

The threads of a team share a memory of cells and take turns until the last of them has come to its end. Where no thread writes a
cell that another one reads or writes, each of them does what it would do alone. -/

namespace NuKSM

inductive CellOp (L X : Type)
  | load (l : L)
  | store (l : L) (x : X)

@[reducible] def CellOp.Res {L X : Type} : CellOp L X → Type
  | load _ => X
  | store _ _ => Unit

def CellOp.step {L X : Type} [DecidableEq L] : (op : CellOp L X) → (L → X) → op.Res × (L → X)
  | load l, s => (s l, s)
  | store l x, s => ((), Function.update s l x)

/-- A thread of a team. -/
abbrev CellM (L X : Type) := Thread (CellOp L X) CellOp.Res

/-- The cells that a thread may read and those that it may write. -/
structure Footprint (L : Type) where
  reads : Set L
  writes : Set L
  writes_reads : writes ⊆ reads

open Thread

section cells
variable {L X α β ι κ : Type}

def CellM.load (l : L) : CellM L X X := perform (CellOp.load l)

def CellM.store (l : L) (x : X) : CellM L X Unit := perform (CellOp.store l x)

/-- `for (i in l) body(i)`. -/
def CellM.forEach (body : κ → CellM L X Unit) : List κ → CellM L X Unit
  | [] => done ()
  | i :: l => do
    body i
    forEach body l

variable [DecidableEq L]

/-- The threads of the team take turns, in any order, until each has its result. -/
inductive TeamRuns [DecidableEq ι] : (ι → CellM L X α) → (L → X) → (ι → α) → (L → X) → Prop
  | finish {p : ι → CellM L X α} {s a} : (∀ t, p t = done (a t)) → TeamRuns p s a s
  | turn {p : ι → CellM L X α} {s t op next a s'} : p t = act op next →
      TeamRuns (Function.update p t (next (op.step s).1)) (op.step s).2 a s' → TeamRuns p s a s'

/-- Alone, from `s` on, a thread stays in its footprint and ends with `Q`. -/
def Does (F : Footprint L) : CellM L X α → (α → (L → X) → Prop) → (L → X) → Prop
  | .done a, Q, s => Q a s
  | .act (.load l) next, Q, s => l ∈ F.reads ∧ Does F (next (s l)) Q s
  | .act (.store l x) next, Q, s => l ∈ F.writes ∧ Does F (next ()) Q (Function.update s l x)

/-! ### One thread -/

namespace Does
variable {F : Footprint L} {p : CellM L X α} {f : α → CellM L X β} {s : L → X} {l : L} {x : X}

theorem mono {Q Q' : α → (L → X) → Prop} (hQ : ∀ a s, Q a s → Q' a s) : ∀ {s}, Does F p Q s → Does F p Q' s := by
  induction p with
  | done a => exact hQ a _
  | act op next ih =>
    cases op with
    | load l => exact fun h => ⟨h.1, ih _ h.2⟩
    | store l x => exact fun h => ⟨h.1, ih _ h.2⟩

theorem bind {Q : β → (L → X) → Prop} : ∀ {s}, Does F p (fun a => Does F (f a) Q) s → Does F (p >>= f) Q s := by
  induction p with
  | done a => exact id
  | act op next ih =>
    cases op with
    | load l => exact fun h => ⟨h.1, ih _ h.2⟩
    | store l x => exact fun h => ⟨h.1, ih _ h.2⟩

theorem load_bind {f : X → CellM L X β} {Q : β → (L → X) → Prop} (hl : l ∈ F.reads) (h : Does F (f (s l)) Q s) :
    Does F (CellM.load l >>= f) Q s := And.intro hl h

theorem store_bind {f : Unit → CellM L X β} {Q : β → (L → X) → Prop} (hl : l ∈ F.writes)
    (h : Does F (f ()) Q (Function.update s l x)) : Does F (CellM.store l x >>= f) Q s := And.intro hl h

theorem store {Q : Unit → (L → X) → Prop} (hl : l ∈ F.writes) (h : Q () (Function.update s l x)) :
    Does F (CellM.store l x) Q s := And.intro hl h

/-- A counting loop keeps an invariant that counts its steps. -/
theorem loopUp {body : ℕ → β → CellM L X β} {I : ℕ → β → (L → X) → Prop} {n : ℕ} :
    ∀ {lo b s}, I lo b s → (∀ i b s, lo ≤ i → i < lo + n → I i b s → Does F (body i b) (I (i + 1)) s) →
      Does F (Thread.loopUp body lo n b) (I (lo + n)) s := by
  induction n with
  | zero => exact fun h _ => h
  | succ n ih =>
    intro lo b s h hstep
    refine bind (mono (fun b s hb => ?_) (hstep lo b s le_rfl (by omega) h))
    rw [show lo + (n + 1) = lo + 1 + n by omega]
    exact ih hb fun i b s hlo hi => hstep i b s (by omega) (by omega)

/-- A loop over a list keeps an invariant of what it has gone through. -/
theorem forEach {body : κ → CellM L X Unit} {I : List κ → (L → X) → Prop} {l : List κ} (h : I [] s)
    (hstep : ∀ past i rest s, l = past ++ i :: rest → I past s → Does F (body i) (fun _ => I (past ++ [i])) s) :
    Does F (CellM.forEach body l) (fun _ => I l) s := by
  suffices hrest : ∀ rest past s, l = past ++ rest → I past s → Does F (CellM.forEach body rest) (fun _ => I l) s from
    hrest l [] s rfl h
  intro rest
  induction rest with
  | nil =>
    intro past s hl hpast
    rw [List.append_nil] at hl
    exact hl ▸ hpast
  | cons i rest ih =>
    intro past s hl hpast
    refine bind (mono (fun _ s hs => ?_) (hstep past i rest s hl hpast))
    exact ih (past ++ [i]) s (by rw [hl, List.append_assoc]; rfl) hs

end Does

/-! ### The team -/

section team
variable [DecidableEq ι] {F : ι → Footprint L} {p : ι → CellM L X α} {a : ι → α} {s s' : L → X}
  {Q : ι → α → (L → X) → Prop}

/-- Threads that keep apart end as they would alone, whatever the order of their turns. -/
theorem TeamRuns.alone (hapart : ∀ t u, t ≠ u → Disjoint (F t).writes (F u).reads) (hrun : TeamRuns p s a s') :
    ∀ {view : ι → L → X}, (∀ t, ∀ l ∈ (F t).reads, view t l = s l) → (∀ t, Does (F t) (p t) (Q t) (view t)) →
      (∀ t, ∃ v, Q t (a t) v ∧ ∀ l ∈ (F t).reads, s' l = v l) ∧ ∀ l, (∀ t, l ∉ (F t).writes) → s' l = s l := by
  induction hrun with
  | @finish p s a hdone =>
    intro view hview hdoes
    refine ⟨fun t => ⟨view t, ?_, fun l hl => (hview t l hl).symm⟩, fun _ _ => rfl⟩
    have ht := hdoes t
    rwa [hdone t] at ht
  | @turn p s t op next a s' hturn _ ih =>
    intro view hview hdoes
    have ht := hdoes t
    rw [hturn] at ht
    -- The others go on where they were.
    have hothers : ∀ {q : CellM L X α} {v : L → X}, Does (F t) q (Q t) v →
        ∀ u, Does (F u) (Function.update p t q u) (Q u) (Function.update view t v u) := by
      intro q v hq u
      rcases eq_or_ne u t with rfl | hne
      · rwa [Function.update_self, Function.update_self]
      · rw [Function.update_of_ne hne, Function.update_of_ne hne]
        exact hdoes u
    cases op with
    | load l =>
      have hnext := ht.2
      rw [hview t l ht.1] at hnext
      refine @ih (Function.update view t (view t)) (fun u l hl => ?_) (hothers hnext)
      rw [Function.update_eq_self]
      exact hview u l hl
    | store l x =>
      have hview' : ∀ u, ∀ l' ∈ (F u).reads,
          Function.update view t (Function.update (view t) l x) u l' = Function.update s l x l' := by
        intro u l' hl'
        rcases eq_or_ne u t with rfl | hne
        · rw [Function.update_self]
          rcases eq_or_ne l' l with rfl | hcell
          · rw [Function.update_self, Function.update_self]
          · rw [Function.update_of_ne hcell, Function.update_of_ne hcell, hview u l' hl']
        · have hcell : l' ≠ l := fun heq => Set.disjoint_left.mp (hapart t u (Ne.symm hne)) ht.1 (heq ▸ hl')
          rw [Function.update_of_ne hne, Function.update_of_ne hcell, hview u l' hl']
      obtain ⟨hends, hkeeps⟩ := ih hview' (hothers ht.2)
      exact ⟨hends, fun l' hl' => (hkeeps l' hl').trans (Function.update_of_ne (ne_of_mem_of_not_mem ht.1 (hl' t)).symm ..)⟩

/-- The threads start from one memory, and what none of them writes is as it was. -/
theorem TeamRuns.apart (hrun : TeamRuns p s a s') (hapart : ∀ t u, t ≠ u → Disjoint (F t).writes (F u).reads)
    (hdoes : ∀ t, Does (F t) (p t) (Q t) s) :
    (∀ t, ∃ v, Q t (a t) v ∧ ∀ l ∈ (F t).reads, s' l = v l) ∧ ∀ l, (∀ t, l ∉ (F t).writes) → s' l = s l :=
  hrun.alone hapart (fun _ _ _ => rfl) hdoes

/-- One thread of a team can go on until it has its result. -/
theorem exists_teamRuns_update (t : ι) {q : CellM L X α} : ∀ {p : ι → CellM L X α} {s}, p t = q →
    (∀ b s, ∃ a s', TeamRuns (Function.update p t (done b)) s a s') → ∃ a s', TeamRuns p s a s' := by
  induction q with
  | done b =>
    intro p s hq hrest
    obtain ⟨a, s', hrun⟩ := hrest b s
    rw [← hq, Function.update_eq_self] at hrun
    exact ⟨a, s', hrun⟩
  | act op next ih =>
    intro p s hq hrest
    obtain ⟨a, s', hrun⟩ := ih (op.step s).1 (p := Function.update p t (next (op.step s).1)) (s := (op.step s).2)
      (Function.update_self ..) fun b s => by
        rw [Function.update_idem]
        exact hrest b s
    exact ⟨a, s', .turn hq hrun⟩

/-- A team comes to its end. -/
theorem exists_teamRuns [Fintype ι] (p : ι → CellM L X α) (s : L → X) : ∃ a s', TeamRuns p s a s' := by
  suffices h : ∀ (S : Finset ι) (p : ι → CellM L X α) s, (∀ t ∉ S, ∃ b, p t = done b) → ∃ a s', TeamRuns p s a s' from
    h Finset.univ p s fun t ht => absurd (Finset.mem_univ t) ht
  intro S
  induction S using Finset.induction with
  | empty =>
    intro p s hdone
    choose a ha using fun t => hdone t (Finset.notMem_empty t)
    exact ⟨a, s, .finish ha⟩
  | insert t S _ ih =>
    intro p s hdone
    refine exists_teamRuns_update t rfl fun b s => ih _ s fun u hu => ?_
    rcases eq_or_ne u t with rfl | hne
    · exact ⟨b, Function.update_self ..⟩
    · obtain ⟨b', hb'⟩ := hdone u fun hmem => (Finset.mem_insert.mp hmem).elim hne hu
      exact ⟨b', (Function.update_of_ne hne ..).trans hb'⟩

end team

end cells

end NuKSM
