import Mathlib.Data.List.Basic

namespace Lifetimes

/-! Objects that are constructed, copied and destroyed in a scope, in any number
and any order.  What destructors write is left to the program: a scope only keeps
which objects are live and which have been destroyed. -/

variable {κ ο ρ δ : Type}

structure Scope (ο : Type) where
  live : List ο := []
  destroyed : List ο := []

/-- `κ` names the constructors. -/
inductive Action (κ : Type) where
  | construct (kind : κ)
  | copy (place : Nat)
  | destroy (place : Nat)

namespace Scope

/-- `none` if there is no object to copy, to destroy or to construct from. -/
def act (construct : κ → List ο → Option ο) (scope : Scope ο) : Action κ → Option (Scope ο)
  | .construct kind =>
      (construct kind scope.live).map fun object =>
        { scope with live := scope.live ++ [object] }
  | .copy place =>
      scope.live[place]?.map fun object => { scope with live := scope.live ++ [object] }
  | .destroy place =>
      scope.live[place]?.map fun object =>
        { live := scope.live.eraseIdx place, destroyed := scope.destroyed ++ [object] }

def run (construct : κ → List ο → Option ο) (scope : Scope ο) (actions : List (Action κ)) :
    Option (Scope ο) :=
  actions.foldlM (act construct) scope

/-- What the destructors of the destroyed objects have made of a store. -/
def write (destroy : ο → ρ → ρ) (scope : Scope ο) (store : ρ) : ρ :=
  scope.destroyed.foldl (fun store object => destroy object store) store

variable {construct : κ → List ο → Option ο} {scope after : Scope ο} {Holds : ο → Prop}

theorem run_cons {action : Action κ} {actions : List (Action κ)} :
    run construct scope (action :: actions) =
      (act construct scope action).bind fun next => run construct next actions := rfl

/-- What constructors establish holds of every live object: copies are equal. -/
theorem live_act {action : Action κ} (holds : ∀ object ∈ scope.live, Holds object)
    (constructed : ∀ kind live object, (∀ source ∈ live, Holds source) →
      construct kind live = some object → Holds object)
    (acted : act construct scope action = some after) :
    ∀ object ∈ after.live, Holds object := by
  cases action with
  | construct kind =>
      obtain ⟨made, isMade, rfl⟩ := Option.map_eq_some_iff.mp acted
      intro object member
      rcases List.mem_append.mp member with old | new
      · exact holds object old
      · rw [List.mem_singleton.mp new]
        exact constructed kind scope.live made holds isMade
  | copy place =>
      obtain ⟨source, isSource, rfl⟩ := Option.map_eq_some_iff.mp acted
      intro object member
      rcases List.mem_append.mp member with old | new
      · exact holds object old
      · rw [List.mem_singleton.mp new]
        exact holds source (List.mem_of_getElem? isSource)
  | destroy place =>
      obtain ⟨gone, _, rfl⟩ := Option.map_eq_some_iff.mp acted
      intro object member
      exact holds object (List.mem_of_mem_eraseIdx member)

theorem live_run {actions : List (Action κ)} (holds : ∀ object ∈ scope.live, Holds object)
    (constructed : ∀ kind live object, (∀ source ∈ live, Holds source) →
      construct kind live = some object → Holds object)
    (ran : run construct scope actions = some after) :
    ∀ object ∈ after.live, Holds object := by
  induction actions generalizing scope with
  | nil =>
      cases ran
      exact holds
  | cons action rest ih =>
      rw [run_cons] at ran
      obtain ⟨next, acted, ranRest⟩ := Option.bind_eq_some_iff.mp ran
      exact ih (live_act holds constructed acted) ranRest

/-- What no destructor writes is kept. -/
theorem write_frame {destroy : ο → ρ → ρ} {observe : ρ → δ}
    (unwritten : ∀ object store, observe (destroy object store) = observe store)
    (scope : Scope ο) (store : ρ) : observe (scope.write destroy store) = observe store := by
  unfold write
  induction scope.destroyed generalizing store with
  | nil => rfl
  | cons object rest ih => exact (ih _).trans (unwritten object store)

end Scope

end Lifetimes
