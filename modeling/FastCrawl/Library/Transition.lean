import Mathlib.Logic.Function.Basic

/-! Transition systems given by guarded actions, their runs and the induction
rules for what holds of every state of a run. -/

universe u v

structure Transition (σ : Type u) (α : Type v) where
  Enabled : σ → α → Prop
  effect : σ → α → σ

namespace Transition

variable {σ : Type u} {α : Type v} (system : Transition σ α)

/-- The states that runs from a starting state reach, if every action that is
taken is allowed where it is taken. -/
inductive Reaches (Start : σ → Prop) (Allowed : σ → α → Prop) : σ → Prop where
  | start {state : σ} (starts : Start state) : Reaches Start Allowed state
  | step {state : σ} (reached : Reaches Start Allowed state) (action : α)
      (allowed : Allowed state action) (enabled : system.Enabled state action) :
      Reaches Start Allowed (system.effect state action)

def Reachable (Start : σ → Prop) : σ → Prop := system.Reaches Start fun _ _ => True

def Leads (state : σ) : σ → Prop := system.Reachable (· = state)

variable {system} {Start : σ → Prop} {Allowed : σ → α → Prop} {Holds : σ → Prop}

theorem Reaches.invariant (starts : ∀ state, Start state → Holds state)
    (keeps : ∀ state action, Holds state → Allowed state action → system.Enabled state action →
      Holds (system.effect state action)) {state : σ}
    (reached : system.Reaches Start Allowed state) : Holds state := by
  induction reached with
  | start started => exact starts _ started
  | step _ action allowed enabled holds => exact keeps _ action holds allowed enabled

theorem Reachable.invariant (starts : ∀ state, Start state → Holds state)
    (keeps : ∀ state action, Holds state → system.Enabled state action →
      Holds (system.effect state action)) {state : σ}
    (reached : system.Reachable Start state) : Holds state :=
  Reaches.invariant starts (fun state action holds _ => keeps state action holds) reached

theorem Leads.invariant (Holds : σ → Prop) {state later : σ} (leads : system.Leads state later)
    (holds : Holds state)
    (keeps : ∀ state action, Holds state → system.Enabled state action →
      Holds (system.effect state action)) : Holds later := by
  refine Reachable.invariant ?_ keeps leads
  rintro _ rfl
  exact holds

def run (system : Transition σ α) [∀ state action, Decidable (system.Enabled state action)] :
    σ → List α → Option σ
  | state, [] => some state
  | state, action :: rest =>
      if system.Enabled state action then run system (system.effect state action) rest else none

section Run

variable [∀ state action, Decidable (system.Enabled state action)] {state later : σ}
  {actions : List α}

theorem Reaches.run (reached : system.Reaches Start Allowed state)
    (allowed : ∀ action ∈ actions, ∀ state, Allowed state action)
    (ran : system.run state actions = some later) : system.Reaches Start Allowed later := by
  induction actions generalizing state with
  | nil =>
      cases ran
      exact reached
  | cons action rest ih =>
      rw [Transition.run] at ran
      split at ran
      · exact ih (.step reached action (allowed action List.mem_cons_self state) ‹_›)
          (fun other member => allowed other (List.mem_cons_of_mem _ member)) ran
      · contradiction

theorem Reachable.run (reached : system.Reachable Start state)
    (ran : system.run state actions = some later) : system.Reachable Start later :=
  Reaches.run reached (fun _ _ _ => trivial) ran

end Run

/-- The same actions, where they are allowed. -/
def restrict (system : Transition σ α) (Allowed : σ → α → Prop) : Transition σ α where
  Enabled state action := Allowed state action ∧ system.Enabled state action
  effect := system.effect

instance [∀ state action, Decidable (Allowed state action)]
    [∀ state action, Decidable (system.Enabled state action)] (state : σ) (action : α) :
    Decidable ((system.restrict Allowed).Enabled state action) :=
  inferInstanceAs (Decidable (_ ∧ _))

theorem Reaches.restrict
    [∀ state action, Decidable ((system.restrict Allowed).Enabled state action)]
    {state later : σ} {actions : List α} (reached : system.Reaches Start Allowed state)
    (ran : (system.restrict Allowed).run state actions = some later) :
    system.Reaches Start Allowed later := by
  induction actions generalizing state with
  | nil =>
      cases ran
      exact reached
  | cons action rest ih =>
      rw [Transition.run] at ran
      split at ran
      next enabled => exact ih (.step reached action enabled.1 enabled.2) ran
      next => contradiction

end Transition
