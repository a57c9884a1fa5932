import Mathlib.Logic.Hydra
import FastCrawl.Library.Transition

/-! What every run comes to, whichever actions are taken: the rule of a measure that
each step decreases, and the measure of a list of tasks, of which a step replaces
one by a smaller one. -/

universe u v w

namespace Transition

variable {σ : Type u} {α : Type v}

/-- Every run from the state comes to the goal after finitely many steps, and none
stops before it. -/
inductive Inevitable (system : Transition σ α) (Goal : σ → Prop) : σ → Prop where
  | now {state : σ} (goal : Goal state) : Inevitable system Goal state
  | later {state : σ} (moves : ∃ action, system.Enabled state action)
      (next : ∀ action, system.Enabled state action →
        Inevitable system Goal (system.effect state action)) : Inevitable system Goal state

variable {system : Transition σ α} {Goal Goal' Holds : σ → Prop}

theorem Inevitable.of_measure {ι : Type w} {Less : ι → ι → Prop} (wellFounded : WellFounded Less)
    (measure : σ → ι)
    (progress : ∀ state, Holds state → ¬Goal state → ∃ action, system.Enabled state action)
    (keeps : ∀ state action, Holds state → ¬Goal state → system.Enabled state action →
      Holds (system.effect state action) ∧
        Less (measure (system.effect state action)) (measure state))
    {state : σ} (holds : Holds state) : system.Inevitable Goal state := by
  generalize measured : measure state = value
  induction value using wellFounded.induction generalizing state with
  | _ value ih =>
      by_cases goal : Goal state
      · exact .now goal
      · apply Inevitable.later (progress state holds goal)
        intro action enabled
        obtain ⟨holds', less⟩ := keeps state action holds goal enabled
        exact ih _ (measured ▸ less) holds' rfl

/-- The goal with what holds of it because of where the run has come from. -/
theorem Inevitable.of_leads {start state : σ} (inevitable : system.Inevitable Goal state)
    (led : system.Leads start state)
    (goal : ∀ later, system.Leads start later → Goal later → Goal' later) :
    system.Inevitable Goal' state := by
  induction inevitable with
  | now reached => exact .now (goal _ led reached)
  | later moves _ ih =>
      exact .later moves fun action enabled =>
        ih action enabled (.step led action trivial enabled)

end Transition

section Tasks

open Relation

variable {ι : Type w} {Less : ι → ι → Prop} {tasks : List ι} {place : Nat} {old new : ι}

theorem coe_set_add (found : tasks[place]? = some old) (new : ι) :
    ((tasks.set place new : List ι) : Multiset ι) + {old} = (tasks : Multiset ι) + {new} := by
  obtain ⟨inRange, rfl⟩ := List.getElem?_eq_some_iff.mp found
  have put := Multiset.coe_eq_coe.mpr (List.set_perm_cons_eraseIdx inRange new)
  have taken := Multiset.coe_eq_coe.mpr (List.getElem_cons_eraseIdx_perm inRange)
  rw [put, ← taken, ← Multiset.cons_coe, ← Multiset.cons_coe, ← Multiset.singleton_add,
    ← Multiset.singleton_add]
  ac_rfl

/-- One task gets smaller. -/
theorem cutExpand_set (found : tasks[place]? = some old) (less : Less new old) :
    CutExpand Less (tasks.set place new : List ι) (tasks : Multiset ι) :=
  ⟨{new}, old, by simpa using less, coe_set_add found new⟩

theorem sum_map_set (found : tasks[place]? = some old) (new : ι) (cost : ι → Nat) :
    ((tasks.set place new).map cost).sum + cost old = (tasks.map cost).sum + cost new := by
  have moved := congrArg (fun tasks => (Multiset.map cost tasks).sum) (coe_set_add found new)
  simpa using moved

end Tasks
