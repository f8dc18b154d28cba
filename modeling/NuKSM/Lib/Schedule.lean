import NuKSM.Lib.Thread

/-! # Threads under a schedule

Where an operation has one outcome at most, a list of turns makes a run, or comes to a turn that cannot be taken. -/

namespace NuKSM

inductive Turn (ι : Type) (Call : ι → Type)
  | call (t : ι) (c : Call t)
  /-- The next operation of the call, or the return from it. -/
  | next (t : ι)

section schedule
variable {σ ι Op : Type} {Res : Op → Type} {Call : ι → Type} {α : Type} [DecidableEq ι]
  (step : ι → (op : Op) → σ → Option (Res op × σ)) (body : (t : ι) → Call t → Thread Op Res α)

def takeTurn (c : Config σ ι Op Res Call α) : Turn ι Call → Option (Event ι Op Res Call α × Config σ ι Op Res Call α)
  | .call t k =>
    match c.running t with
    | none => some (.call t k, ⟨c.shared, Function.update c.running t (some (k, body t k))⟩)
    | some _ => none
  | .next t =>
    match c.running t with
    | some (k, .act op next) =>
      (step t op c.shared).map fun r => (.act t op r.1, ⟨r.2, Function.update c.running t (some (k, next r.1))⟩)
    | some (k, .done a) => some (.ret t k a, ⟨c.shared, Function.update c.running t none⟩)
    | none => none

/-- The history of the turns, after `h`, and where they lead. -/
def play : List (Turn ι Call) → List (Event ι Op Res Call α) × Config σ ι Op Res Call α →
    Option (List (Event ι Op Res Call α) × Config σ ι Op Res Call α)
  | [], w => some w
  | x :: l, w => (takeTurn step body w.2 x).bind fun r => play l (w.1 ++ [r.1], r.2)

/-- An operation as a relation. -/
def Outcome (t : ι) (op : Op) (s : σ) (r : Res op) (s' : σ) : Prop := step t op s = some (r, s')

variable {step body}

theorem takeTurn_step {c c' : Config σ ι Op Res Call α} {x : Turn ι Call} {e : Event ι Op Res Call α}
    (h : takeTurn step body c x = some (e, c')) : Step (Outcome step) body c e c' := by
  obtain ⟨s, running⟩ := c
  cases x with
  | call t k =>
    rw [takeTurn] at h
    split at h
    · rename_i hidle
      cases h
      exact .call k hidle
    · cases h
  | next t =>
    rw [takeTurn] at h
    split at h
    · rename_i k op next hrunning
      obtain ⟨⟨r, s'⟩, hstep, hr⟩ := Option.map_eq_some_iff.mp h
      cases hr
      exact .act hrunning hstep
    · rename_i k a hrunning
      cases h
      exact .ret hrunning
    · cases h

/-- The turns of a schedule make a run. -/
theorem play_interleaving {s₀ : σ} {l : List (Turn ι Call)} {w w' : List (Event ι Op Res Call α) × Config σ ι Op Res Call α}
    (hrun : Interleaving (Outcome step) body s₀ w.1 w.2) (h : play step body l w = some w') :
    Interleaving (Outcome step) body s₀ w'.1 w'.2 := by
  induction l generalizing w with
  | nil =>
    cases h
    exact hrun
  | cons x l ih =>
    obtain ⟨r, hturn, hplay⟩ := Option.bind_eq_some_iff.mp h
    exact ih (.snoc hrun (takeTurn_step hturn)) hplay

end schedule

end NuKSM
