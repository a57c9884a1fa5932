import FastCrawl.ThreadPool.Limit

namespace FastCrawl

/-! When all threads have been joined at the destruction of the pool.  Only the
call of `shutdown` that sets the flag joins threads, and once: a thread started
after that is never joined. -/

variable {Job : Type}

namespace PoolSystem

def Joining (system : PoolSystem Job) : Prop := ∃ client due, system.clients client = .joining due

/-- No thread is started between the end of the join and the destruction. -/
def StartsBeforeJoin (system : PoolSystem Job) (action : PoolAction Job) : Prop :=
  action.started = 0 ∨ system.pool.shutdown = false ∨ system.Joining

/-- Once the pool is down, its threads are about to be joined or all are. -/
def JoinsAll (system : PoolSystem Job) : Prop :=
  system.pool.shutdown = true →
    system.Joining ∨ system.pool.joined = system.pool.threadList.length

theorem joinsAll_new (tmin tmax : UInt64) : (PoolSystem.new Job tmin tmax).JoinsAll :=
  fun down => absurd down (by simp [PoolSystem.new, ThreadPool.emplaceThreads])

variable {before after : PoolSystem Job} {action : PoolAction Job}

theorem Joining.update (joining : before.Joining) {client : Nat} {pc : ClientPc}
    (outside : ∀ due, before.clients client ≠ .joining due)
    (clients : after.clients = Function.update before.clients client pc) : after.Joining := by
  obtain ⟨joiner, due, atJoin⟩ := joining
  have other : joiner ≠ client := by
    rintro rfl
    exact outside due atJoin
  exact ⟨joiner, due, by rw [clients, Function.update_of_ne other, atJoin]⟩

/-- A step of a client that is not joining, or of a thread. -/
theorem JoinsAll.of_step (joins : before.JoinsAll) (allowed : before.StartsBeforeJoin action)
    (shutdown : (before.effect action).pool.shutdown = before.pool.shutdown)
    (joined : (before.effect action).pool.joined = before.pool.joined)
    (joining : before.Joining → (before.effect action).Joining) :
    (before.effect action).JoinsAll := by
  intro down
  rw [shutdown] at down
  rcases allowed with none | up | joiner
  · rcases joins down with joiner | all
    · exact .inl (joining joiner)
    · rw [joined, all, (before.effect_threads action).2, none]
      exact .inr rfl
  · rw [up] at down
    contradiction
  · exact .inl (joining joiner)

theorem JoinsAll.of_thread (joins : before.JoinsAll) (allowed : before.StartsBeforeJoin action)
    (thread : action.OfThread) : (before.effect action).JoinsAll := by
  have same := before.effect_sameCallers thread
  refine joins.of_step allowed same.shutdown same.joined fun joining => ?_
  obtain ⟨client, due, atJoin⟩ := joining
  exact ⟨client, due, by rw [same.clients, atJoin]⟩

theorem JoinsAll.signalShutdown (joins : before.JoinsAll) {client : Nat} {due : List Nat}
    (enabled : before.Enabled (.signalShutdown client due)) :
    (before.effect (.signalShutdown client due)).JoinsAll := by
  change (before.signalShutdown client due).JoinsAll
  cases shutdown : before.pool.shutdown with
  | true =>
      rw [signalShutdown_down shutdown]
      intro _
      rcases joins shutdown with joining | all
      · have outside : ∀ other, before.clients client ≠ .joining other :=
          fun other same => absurd (same.symm.trans enabled) (by simp)
        exact .inl (joining.update outside rfl)
      · exact .inr all
  | false =>
      rw [signalShutdown_up shutdown]
      intro _
      exact .inl ⟨client, due, Function.update_self ..⟩

theorem JoinsAll.effect (joins : before.JoinsAll) (allowed : before.StartsBeforeJoin action)
    (enabled : before.Enabled action) : (before.effect action).JoinsAll := by
  have outside {client : Nat} {pc : ClientPc} (found : before.clients client = pc)
      (notJoining : ∀ due, pc ≠ .joining due) (due : List Nat) :
      before.clients client ≠ .joining due :=
    fun same => notJoining due (found.symm.trans same)
  cases action with
  | push client job notified =>
      have joined : (before.effect (.push client job notified)).pool.joined =
          before.pool.joined := by cases notified <;> rfl
      have shutdown : (before.effect (.push client job notified)).pool.shutdown =
          before.pool.shutdown := by cases notified <;> rfl
      exact joins.of_step allowed shutdown joined
        fun joining => joining.update (outside enabled.1 (by simp)) rfl
  | reject client job => exact joins
  | grow client ticket tbusy created =>
      exact joins.of_step allowed rfl rfl
        fun joining => joining.update (outside enabled.1 (by simp)) rfl
  | startThread tcnt created => exact joins.of_step allowed rfl rfl id
  | setSize threadCnt created => exact joins.of_step allowed rfl rfl id
  | callShutdown client =>
      exact joins.of_step allowed rfl rfl
        fun joining => joining.update (outside enabled (by simp)) rfl
  | signalShutdown client due => exact joins.signalShutdown enabled
  | joinThreads client due => exact fun _ => .inr rfl
  | enterLoop worker => exact joins.of_thread allowed trivial
  | invoke worker ticket job => exact joins.of_thread allowed trivial
  | complete worker ticket job => exact joins.of_thread allowed trivial
  | relock worker ticket job => exact joins.of_thread allowed trivial
  | wakeSpuriously worker => exact joins.of_thread allowed trivial

end PoolSystem

/-- The steps of the destructor, which calls `shutdown`, and of the threads. -/
def PoolAction.OfDestructor (destructor : Nat) : PoolAction Job → Prop
  | .signalShutdown client _ => client = destructor
  | .joinThreads client _ => client = destructor
  | .enterLoop _ | .invoke .. | .complete .. | .relock .. | .wakeSpuriously _ => True
  | _ => False

structure Destroying (destructor : Nat) (system : PoolSystem Job) : Prop where
  joins : system.JoinsAll
  others : ∀ client, client ≠ destructor → system.clients client = .idle
  down : (∃ due, system.clients destructor = .shutdownCalled due) ∨ system.pool.shutdown = true

namespace Destroying

variable {before : PoolSystem Job} {action : PoolAction Job} {destructor : Nat}

theorem start (joins : before.JoinsAll) (returned : ∀ client, before.clients client = .idle) :
    Destroying destructor (before.effect (.callShutdown destructor)) := by
  refine ⟨joins.effect (.inl rfl) (returned destructor), fun client other => ?_, .inl ?_⟩
  · exact (Function.update_of_ne other _ _).trans (returned client)
  · exact ⟨before.returned, Function.update_self ..⟩

theorem of_thread (holds : Destroying destructor before) (thread : action.OfThread)
    (enabled : before.Enabled action) : Destroying destructor (before.effect action) := by
  have same := before.effect_sameCallers thread
  have started : action.started = 0 := PoolAction.started_of_thread thread
  refine ⟨holds.joins.effect (.inl started) enabled, ?_, ?_⟩
  · rw [same.clients]
    exact holds.others
  · rw [same.clients, same.shutdown]
    exact holds.down

theorem effect (holds : Destroying destructor before) (destroys : action.OfDestructor destructor)
    (enabled : before.Enabled action) : Destroying destructor (before.effect action) := by
  cases action with
  | push => exact destroys.elim
  | reject => exact destroys.elim
  | grow => exact destroys.elim
  | startThread => exact destroys.elim
  | setSize => exact destroys.elim
  | callShutdown => exact destroys.elim
  | signalShutdown client due =>
      have joins := holds.joins.effect (.inl rfl) enabled
      cases destroys
      refine ⟨joins, fun other different => ?_, .inr ?_⟩
      · have others := holds.others other different
        simp only [PoolSystem.effect, PoolSystem.signalShutdown]
        split <;> exact (Function.update_of_ne different _ _).trans others
      · simp only [PoolSystem.effect, PoolSystem.signalShutdown]
        split
        next down => exact down
        next => rfl
  | joinThreads client due =>
      have joins := holds.joins.effect (.inl rfl) enabled
      cases destroys
      refine ⟨joins, fun other different => ?_, .inr ?_⟩
      · exact (Function.update_of_ne different _ _).trans (holds.others other different)
      · rcases holds.down with ⟨called, atCall⟩ | down
        · exact absurd (atCall.symm.trans enabled.1) (by simp)
        · exact down
  | enterLoop worker => exact holds.of_thread trivial enabled
  | invoke worker ticket job => exact holds.of_thread trivial enabled
  | complete worker ticket job => exact holds.of_thread trivial enabled
  | relock worker ticket job => exact holds.of_thread trivial enabled
  | wakeSpuriously worker => exact holds.of_thread trivial enabled

end Destroying

/-- If no thread is started between the end of the join and the destruction, then
all threads have been joined when the destructor's call of `shutdown` returns. -/
theorem threads_joined_at_destruction {system later : PoolSystem Job} {destructor : Nat}
    (reached : (poolTransition Job).Reaches PoolSystem.Start PoolSystem.StartsBeforeJoin system)
    (returned : ∀ client, system.clients client = .idle)
    (destroyed : (poolTransition Job).Reaches
      (· = system.effect (.callShutdown destructor))
      (fun _ action => action.OfDestructor destructor) later)
    (ended : later.clients destructor = .idle) :
    later.pool.joined = later.pool.threadList.length := by
  have joins : system.JoinsAll :=
    PoolSystem.invariant PoolSystem.joinsAll_new
      (fun _ _ joins allowed enabled => joins.effect allowed enabled) reached
  have holds : Destroying destructor later := by
    refine Transition.Reaches.invariant ?_ ?_ destroyed
    · intro _ starts
      subst starts
      exact .start joins returned
    · exact fun _ _ holds destroys enabled => holds.effect destroys enabled
  have down : later.pool.shutdown = true := by
    rcases holds.down with ⟨due, called⟩ | down
    · exact absurd (called.symm.trans ended) (by simp)
    · exact down
  rcases holds.joins down with ⟨client, due, atJoin⟩ | all
  · by_cases same : client = destructor
    · rw [same, ended] at atJoin
      contradiction
    · rw [holds.others client same] at atJoin
      contradiction
  · exact all

theorem threads_joined_at_destruction_one_job : ∃ later : PoolSystem Nat,
    later.pool.threadList = [.exited] ∧ later.pool.joined = later.pool.threadList.length := by
  obtain ⟨system, later, ran, returned, ranLater, ended, threads⟩ :
      ∃ system later : PoolSystem Nat,
        (poolTransition Nat).run (.new Nat 1 1)
          [.push 0 7 none, .grow 0 0 0 0, .enterLoop 0, .invoke 0 0 7, .complete 0 0 7,
            .relock 0 0 7] = some system ∧
        (∀ client, system.clients client = .idle) ∧
        (poolTransition Nat).run (system.effect (.callShutdown 0))
          [.signalShutdown 0 [0], .enterLoop 0, .joinThreads 0 [0]] = some later ∧
        later.clients 0 = .idle ∧ later.pool.threadList = [.exited] :=
    ⟨_, _, rfl, fun client => match client with | 0 => rfl | _ + 1 => rfl, rfl, rfl, rfl⟩
  have reached : (poolTransition Nat).Reaches PoolSystem.Start PoolSystem.StartsBeforeJoin system :=
    Transition.Reaches.run (.start ⟨1, 1, rfl⟩)
      (by simp [PoolSystem.StartsBeforeJoin, PoolAction.started]) ran
  have destroyed : (poolTransition Nat).Reaches (· = system.effect (.callShutdown 0))
      (fun _ action => action.OfDestructor 0) later :=
    Transition.Reaches.run (.start rfl) (by simp [PoolAction.OfDestructor]) ranLater
  exact ⟨later, threads, threads_joined_at_destruction reached returned destroyed ended⟩

/-- A call of `run` that passes its check before the shutdown starts a thread after
the join. -/
def lateRun : List (PoolAction Nat) :=
  [.push 0 7 none, .grow 0 0 0 0, .enterLoop 0, .push 0 8 none, .callShutdown 1,
    .signalShutdown 1 [0], .invoke 0 0 7, .complete 0 0 7, .relock 0 0 7, .invoke 0 1 8,
    .complete 0 1 8, .relock 0 1 8, .joinThreads 1 [0], .grow 0 1 1 1]

theorem late_thread_not_joined :
    ¬∀ (system later : PoolSystem Nat) (destructor : Nat), system.Reachable →
      (∀ client, system.clients client = .idle) →
      (poolTransition Nat).Reaches (· = system.effect (.callShutdown destructor))
        (fun _ action => action.OfDestructor destructor) later →
      later.clients destructor = .idle → later.pool.joined = later.pool.threadList.length := by
  intro joins
  obtain ⟨system, later, ran, returned, ranLater, ended, joined, threads⟩ :
      ∃ system later : PoolSystem Nat,
        (poolTransition Nat).run (.new Nat 1 2) lateRun = some system ∧
        (∀ client, system.clients client = .idle) ∧
        (poolTransition Nat).run (system.effect (.callShutdown 2))
          [.signalShutdown 2 [0, 1]] = some later ∧
        later.clients 2 = .idle ∧ later.pool.joined = 1 ∧
        later.pool.threadList = [.exited, .awake] :=
    ⟨_, _, rfl, fun client => match client with | 0 => rfl | 1 => rfl | _ + 2 => rfl,
      rfl, rfl, rfl, rfl⟩
  have destroyed : (poolTransition Nat).Reaches (· = system.effect (.callShutdown 2))
      (fun _ action => action.OfDestructor 2) later :=
    Transition.Reaches.run (.start rfl) (by simp [PoolAction.OfDestructor]) ranLater
  have all := joins system later 2 (Transition.Reachable.run (.start ⟨1, 2, rfl⟩) ran) returned
    destroyed ended
  rw [joined, threads] at all
  contradiction

end FastCrawl
