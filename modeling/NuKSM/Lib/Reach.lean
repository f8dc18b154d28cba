import Mathlib

/-! # Runs of calls, and monitors of the logs that they leave

A run makes calls one after the other, each where it is allowed. A monitor reads the log of a run event by event and gets
stuck where the log breaks its rules. -/

namespace NuKSM

/-- The states that calls lead to from `s₀`, when each call is allowed in the state where it is made. -/
inductive Reach {S C : Type} (allowed : S → C → Prop) (next : S → C → S) (s₀ : S) : S → Prop
  | start : Reach allowed next s₀ s₀
  | call {s : S} (c : C) : Reach allowed next s₀ s → allowed s c → Reach allowed next s₀ (next s c)

namespace Reach
variable {S C : Type} {allowed allowed' : S → C → Prop} {next : S → C → S} {s₀ s : S}

theorem invariant {I : S → Prop} (hreach : Reach allowed next s₀ s) (hstart : I s₀)
    (hstep : ∀ s c, I s → allowed s c → I (next s c)) : I s := by
  induction hreach with
  | start => exact hstart
  | call c _ hallowed ih => exact hstep _ c ih hallowed

theorem mono (h : ∀ s c, allowed s c → allowed' s c) (hreach : Reach allowed next s₀ s) : Reach allowed' next s₀ s :=
  hreach.invariant .start fun s c hs hc => .call c hs (h s c hc)

end Reach

/-! ### Calls that may fail -/

section EachCall
variable {S C : Type}

/-- Along the calls, as far as they get, each has the property in the state where it is made. -/
def EachCall (next : S → C → Option S) (P : S → C → Prop) : S → List C → Prop
  | _, [] => True
  | s, c :: cs => P s c ∧ ∀ s' ∈ next s c, EachCall next P s' cs

variable {next : S → C → Option S} {P Q : S → C → Prop}

/-- Two properties that agree wherever an invariant holds agree along the calls. -/
theorem EachCall.congr {I : S → Prop} {s : S} (hstart : I s) (hagree : ∀ s c, I s → (P s c ↔ Q s c))
    (hkeep : ∀ s c s', I s → P s c → s' ∈ next s c → I s') (cs : List C) :
    EachCall next P s cs ↔ EachCall next Q s cs := by
  induction cs generalizing s with
  | nil => exact Iff.rfl
  | cons c cs ih =>
    rw [EachCall, EachCall, ← hagree s c hstart]
    exact and_congr_right fun hP => forall₂_congr fun s' hs' => ih (hkeep s c s' hstart hP hs')

end EachCall

/-! ### Monitors -/

/-- What a monitor in some state makes of an event, if the event keeps the rules. -/
abbrev Monitor (M E : Type) := M → E → Option M

namespace Monitor
variable {M E : Type} (step : Monitor M E) {m m' : M} {l l' : List E} {e : E}

/-- Where the monitor is after a log. -/
def reads (m : M) (l : List E) : Option M := l.foldlM step m

@[simp] theorem reads_nil : step.reads m [] = some m := rfl

@[simp] theorem reads_cons : step.reads m (e :: l) = (step m e).bind fun m => step.reads m l := by
  rw [reads, List.foldlM_cons]
  rfl

theorem reads_append : step.reads m (l ++ l') = (step.reads m l).bind fun m => step.reads m l' := List.foldlM_append

variable {step}

theorem reads_snoc (h : step.reads m l = some m') : step.reads m (l ++ [e]) = step m' e := by
  rw [reads_append, h, Option.bind_some, reads_cons]
  exact Option.bind_fun_some _

/-- Where a log is read, so is each part of it. -/
theorem reads_split (h : step.reads m (l ++ l') = some m') : ∃ n, step.reads m l = some n ∧ step.reads n l' = some m' := by
  rw [reads_append] at h
  exact Option.bind_eq_some_iff.mp h

end Monitor

end NuKSM
