import Mathlib.Logic.Function.Basic
import Mathlib.Logic.Relation

/-! Parties that wait for each other.  A party is alive if it, or some party that it
waits for directly or not, can move; parties that wait only for each other and
cannot move are in a deadlock. -/

universe u v

structure WaitGraph (Party : Type u) where
  CanMove : Party → Prop
  Waits : Party → Party → Prop

namespace WaitGraph

variable {Party : Type u} {graph : WaitGraph Party} {party other : Party}

def Alive (graph : WaitGraph Party) (party : Party) : Prop :=
  ∃ other, Relation.ReflTransGen graph.Waits party other ∧ graph.CanMove other

theorem alive_of_canMove (canMove : graph.CanMove party) : graph.Alive party :=
  ⟨party, .refl, canMove⟩

theorem alive_of_waits (waits : graph.Waits party other) (canMove : graph.CanMove other) :
    graph.Alive party :=
  ⟨other, .single waits, canMove⟩

theorem not_alive_of_closed {Stuck : Party → Prop}
    (closed : ∀ party other, Stuck party → graph.Waits party other → Stuck other)
    (still : ∀ party, Stuck party → ¬graph.CanMove party) (stuck : Stuck party) :
    ¬graph.Alive party := by
  intro alive
  obtain ⟨other, reached, canMove⟩ := alive
  have stuckOther : Stuck other := by
    clear canMove
    induction reached with
    | refl => exact stuck
    | tail _ waits ih => exact closed _ _ ih waits
  exact still other stuckOther canMove

end WaitGraph

/-! Locks with one owner each, and parties that hold one lock at most. -/

section Ownership

variable {Lock : Type u} {Party : Type v} [DecidableEq Lock] [DecidableEq Party]
  {owner : Lock → Option Party} {holds : Party → Option Lock} {lock : Lock} {party : Party}

def OwnedBy (owner : Lock → Option Party) (holds : Party → Option Lock) : Prop :=
  ∀ lock party, owner lock = some party ↔ holds party = some lock

namespace OwnedBy

theorem acquire (owned : OwnedBy owner holds) (free : owner lock = none)
    (empty : holds party = none) :
    OwnedBy (Function.update owner lock (some party)) (Function.update holds party (some lock)) := by
  intro other waiting
  by_cases sameLock : other = lock
  · rw [sameLock, Function.update_self]
    by_cases sameParty : waiting = party
    · rw [sameParty, Function.update_self]
      simp only
    · have unheld : holds waiting ≠ some lock := by
        intro held
        have taken := (owned lock waiting).mpr held
        rw [free] at taken
        contradiction
      rw [Function.update_of_ne sameParty]
      simp only [Option.some.injEq, Ne.symm sameParty, unheld]
  · rw [Function.update_of_ne sameLock]
    by_cases sameParty : waiting = party
    · have unowned : owner other ≠ some party := by
        intro taken
        have held := (owned other party).mp taken
        rw [empty] at held
        contradiction
      rw [sameParty, Function.update_self]
      simp only [unowned, Option.some.injEq, Ne.symm sameLock]
    · rw [Function.update_of_ne sameParty]
      exact owned other waiting

theorem release (owned : OwnedBy owner holds) (held : holds party = some lock) :
    OwnedBy (Function.update owner lock none) (Function.update holds party none) := by
  intro other waiting
  by_cases sameLock : other = lock
  · rw [sameLock, Function.update_self]
    by_cases sameParty : waiting = party
    · rw [sameParty, Function.update_self]
      simp only [reduceCtorEq]
    · have unheld : holds waiting ≠ some lock := by
        intro also
        have taken := ((owned lock party).mpr held).symm.trans ((owned lock waiting).mpr also)
        exact sameParty (Option.some.inj taken).symm
      rw [Function.update_of_ne sameParty]
      simp only [reduceCtorEq, unheld]
  · rw [Function.update_of_ne sameLock]
    by_cases sameParty : waiting = party
    · have unowned : owner other ≠ some party := by
        intro taken
        have also := held.symm.trans ((owned other party).mp taken)
        exact sameLock (Option.some.inj also).symm
      rw [sameParty, Function.update_self]
      simp only [unowned, reduceCtorEq]
    · rw [Function.update_of_ne sameParty]
      exact owned other waiting

omit [DecidableEq Lock] in
theorem keep (owned : OwnedBy owner holds) {held : Option Lock} (same : holds party = held) :
    OwnedBy owner (Function.update holds party held) := by
  rw [← same, Function.update_eq_self]
  exact owned

end OwnedBy

end Ownership
