import FastCrawl.ThreadPool.Limit

namespace FastCrawl

/-! When an exhausted pool grows.  `run` compares the number of threads with
`m_tbusy`, which does not count the jobs that are queued for threads that have
been notified and not yet woken. -/

variable {Job : Type}

namespace PoolSystem

/-- The queued jobs and those that threads have taken. -/
def load (system : PoolSystem Job) : Nat :=
  system.pool.jobQueue.length + system.pool.threadList.countP ThreadPc.isBusy

/-- The steps of one client that calls `run`, if no thread fails to start, and of
the threads. -/
def SingleClientStep (system : PoolSystem Job) : PoolAction Job → Prop
  | .push client _ _ => client = 0
  | .reject client _ => client = 0
  | .grow client _ tbusy created => client = 0 ∧ created = (system.pool.growCount tbusy).toNat
  | .enterLoop _ | .invoke .. | .complete .. | .relock .. | .wakeSpuriously _ => True
  | _ => False

/-- A job is pushed to a full pool, when all threads are busy, or when there is a
thread left that is neither busy nor wanted by a queued job. -/
def PushesWithSpare (system : PoolSystem Job) : PoolAction Job → Prop
  | .push _ _ _ =>
      system.pool.threadList.length = system.pool.tmax.toNat ∨
        system.pool.tbusy.toNat = system.pool.threadList.length ∨
        system.pool.jobQueue.length + system.pool.tbusy.toNat < system.pool.threadList.length
  | _ => True

instance (system : PoolSystem Job) : ∀ action, Decidable (system.SingleClientStep action)
  | .push client _ _ => inferInstanceAs (Decidable (client = 0))
  | .reject client _ => inferInstanceAs (Decidable (client = 0))
  | .grow .. => inferInstanceAs (Decidable (_ ∧ _))
  | .enterLoop _ | .invoke .. | .complete .. | .relock .. | .wakeSpuriously _ => isTrue trivial
  | .startThread .. | .setSize .. | .callShutdown _ | .signalShutdown .. | .joinThreads .. =>
      isFalse id

instance (system : PoolSystem Job) : ∀ action, Decidable (system.PushesWithSpare action)
  | .push .. => inferInstanceAs (Decidable (_ ∨ _ ∨ _))
  | .reject .. | .grow .. | .startThread .. | .setSize .. | .callShutdown _
  | .signalShutdown .. | .joinThreads .. | .enterLoop _ | .invoke .. | .complete ..
  | .relock .. | .wakeSpuriously _ => isTrue trivial

/-- A pool below its limit has a thread for each job, or will have one at the end
of the `run` in progress. -/
def Served (system : PoolSystem Job) : ClientPc → Prop
  | .idle => system.load ≤ system.pool.threadList.length
  | .pushed _ tbusy =>
      system.load ≤ system.pool.threadList.length ∨
        tbusy.toNat = system.pool.threadList.length ∧
          system.load ≤ system.pool.threadList.length + 1
  | _ => False

theorem Served.of_load_le {before after : PoolSystem Job} {pc : ClientPc}
    (served : before.Served pc)
    (length : after.pool.threadList.length = before.pool.threadList.length)
    (load : after.load ≤ before.load) : after.Served pc := by
  cases pc with
  | idle =>
      rw [Served, length]
      exact Nat.le_trans load served
  | pushed ticket tbusy =>
      rw [Served, length]
      rcases served with enough | ⟨sampled, oneShort⟩
      · exact .inl (Nat.le_trans load enough)
      · exact .inr ⟨sampled, Nat.le_trans load oneShort⟩
  | shutdownCalled due => exact served.elim
  | joining due => exact served.elim

theorem load_setPc {system : PoolSystem Job} {worker : Nat} {old : ThreadPc Job}
    (found : system.At worker old) {pc : ThreadPc Job} (same : pc.isBusy = old.isBusy) :
    (system.setPc worker pc).load = system.load := by
  have counts := countP_set_of_getElem? found ThreadPc.isBusy pc
  rw [same] at counts
  exact congrArg (system.pool.jobQueue.length + ·) (Nat.add_right_cancel counts)

/-- To take a job off the queue is to make a thread busy with it. -/
theorem load_executeQueued {system : PoolSystem Job} {worker : Nat} {old : ThreadPc Job}
    (found : system.At worker old) (idle : old.isBusy = false) :
    (system.executeQueued worker).load = system.load := by
  cases queued : system.pool.jobQueue with
  | nil =>
      rw [executeQueued_nil queued]
      refine load_setPc found ?_
      rw [idle]
      split <;> rfl
  | cons job rest =>
      have counts := countP_set_of_getElem? found ThreadPc.isBusy
        (.busy .taken system.dequeued.length job)
      rw [executeQueued_cons queued, load, load, queued]
      change rest.length + (system.pool.threadList.set worker _).countP _ = _
      simp only [idle, ThreadPc.isBusy_busy, Bool.false_eq_true, if_false, if_true] at counts
      rw [List.length_cons]
      omega

theorem load_enterLoop {system : PoolSystem Job} {worker : Nat}
    (found : system.At worker .awake) : (system.enterLoop worker).load = system.load := by
  unfold enterLoop
  split
  · exact load_setPc found rfl
  · exact load_executeQueued found rfl

theorem load_relock {system : PoolSystem Job} {worker ticket : Nat} {job : Job}
    (found : system.At worker (.busy .done ticket job)) :
    ((system.endJob worker).executeQueued worker).load < system.load := by
  have awake := (at_of_set found (system.endJob worker) rfl worker .awake).mpr (.inl ⟨rfl, rfl⟩)
  have counts := countP_set_of_getElem? found ThreadPc.isBusy .awake
  rw [load_executeQueued awake rfl, load, load]
  change system.pool.jobQueue.length + (system.pool.threadList.set worker _).countP _ < _
  simp only [ThreadPc.isBusy, Bool.false_eq_true, if_false, if_true] at counts
  omega

theorem load_push {system : PoolSystem Job} {notified : Option Nat}
    (canNotify : system.pool.CanNotify notified) (client : Nat) (job : Job) :
    (system.push client job notified).load = system.load + 1 := by
  cases notified with
  | none =>
      change (system.pool.jobQueue ++ [job]).length +
        system.pool.threadList.countP ThreadPc.isBusy = _
      rw [List.length_append, List.length_singleton, load]
      omega
  | some worker =>
      have counts := countP_set_of_getElem? canNotify ThreadPc.isBusy .awake
      change (system.pool.jobQueue ++ [job]).length +
        (system.pool.threadList.set worker .awake).countP _ = _
      simp only [ThreadPc.isBusy, Bool.false_eq_true, if_false] at counts
      rw [List.length_append, List.length_singleton, load]
      omega

theorem load_grow (system : PoolSystem Job) (client ticket : Nat) (tbusy : UInt64)
    (created : Nat) : (system.grow client ticket tbusy created).load = system.load := by
  have same : SameJobs system.pool.threadList
      (system.pool.threadList ++ List.replicate created .awake) := .append_awake created
  exact congrArg (system.pool.jobQueue.length + ·) same.count

end PoolSystem

structure GrowsInTime (system : PoolSystem Job) : Prop where
  conserved : JobConservation system
  within : system.pool.WithinLimit
  served : system.pool.threadList.length = system.pool.tmax.toNat ∨
    system.Served (system.clients 0)

namespace GrowsInTime

variable {before : PoolSystem Job} {action : PoolAction Job}

theorem new (tmin tmax : UInt64) : GrowsInTime (PoolSystem.new Job tmin tmax) := by
  refine ⟨.new tmin tmax, PoolSystem.withinLimit_new tmin tmax, .inr ?_⟩
  have noneBusy : (PoolSystem.new Job tmin tmax).load = 0 := by
    simp [PoolSystem.load, PoolSystem.new, ThreadPool.emplaceThreads, List.countP_replicate,
      ThreadPc.isBusy]
  change (PoolSystem.new Job tmin tmax).load ≤ _
  rw [noneBusy]
  exact Nat.zero_le _

theorem served_of_thread (holds : GrowsInTime before) (thread : action.OfThread)
    (load : (before.effect action).load ≤ before.load) :
    (before.effect action).pool.threadList.length = (before.effect action).pool.tmax.toNat ∨
      (before.effect action).Served ((before.effect action).clients 0) := by
  obtain ⟨sameLimit, length⟩ := before.effect_threads action
  have started : action.started = 0 := PoolAction.started_of_thread thread
  rw [started, Nat.add_zero] at length
  rw [sameLimit, length, (before.effect_sameCallers thread).clients]
  exact holds.served.imp_right fun served => served.of_load_le length load

theorem served_push (holds : GrowsInTime before) {job : Job} {notified : Option Nat}
    (spare : before.PushesWithSpare (.push 0 job notified))
    (enabled : before.Enabled (.push 0 job notified)) :
    (before.effect (.push 0 job notified)).pool.threadList.length =
        (before.effect (.push 0 job notified)).pool.tmax.toNat ∨
      (before.effect (.push 0 job notified)).Served
        ((before.effect (.push 0 job notified)).clients 0) := by
  obtain ⟨sameLimit, lengths⟩ := before.effect_threads (.push 0 job notified)
  have length : (before.effect (.push 0 job notified)).pool.threadList.length =
      before.pool.threadList.length := lengths
  have load : (before.effect (.push 0 job notified)).load = before.load + 1 :=
    PoolSystem.load_push enabled.2.2 0 job
  have client : (before.effect (.push 0 job notified)).clients 0 =
      .pushed before.accepted.length before.pool.tbusy := by
    simp [PoolSystem.effect, PoolSystem.push, PoolSystem.setClient]
  have served := holds.served
  rw [enabled.1, PoolSystem.Served] at served
  have busy := holds.conserved.busyCount
  have total : before.load = before.pool.jobQueue.length +
    before.pool.threadList.countP ThreadPc.isBusy := rfl
  rw [sameLimit, client, PoolSystem.Served, load, length]
  rcases spare with full | allBusy | more
  · exact .inl full
  · rcases served with full | enough
    · exact .inl full
    · exact .inr (.inr ⟨allBusy, by omega⟩)
  · exact .inr (.inl (by omega))

theorem served_grow (holds : GrowsInTime before) {ticket created : Nat} {tbusy : UInt64}
    (all : created = (before.pool.growCount tbusy).toNat)
    (enabled : before.Enabled (.grow 0 ticket tbusy created)) :
    (before.effect (.grow 0 ticket tbusy created)).pool.threadList.length =
        (before.effect (.grow 0 ticket tbusy created)).pool.tmax.toNat ∨
      (before.effect (.grow 0 ticket tbusy created)).Served
        ((before.effect (.grow 0 ticket tbusy created)).clients 0) := by
  obtain ⟨sameLimit, length⟩ := before.effect_threads (.grow 0 ticket tbusy created)
  have load : (before.effect (.grow 0 ticket tbusy created)).load = before.load :=
    before.load_grow 0 ticket tbusy created
  have client : (before.effect (.grow 0 ticket tbusy created)).clients 0 = .idle := by
    simp [PoolSystem.effect, PoolSystem.grow, PoolSystem.setClient]
  have bound := holds.within.growCount_bound enabled.2
  have kept : before.pool.threadList.length ≤ before.pool.tmax.toNat := holds.within
  have served := holds.served
  rw [enabled.1, PoolSystem.Served] at served
  rw [sameLimit, client, PoolSystem.Served, load, length, PoolAction.started]
  rcases served with full | enough | ⟨sampled, oneShort⟩
  · exact .inl (by omega)
  · exact .inr (by omega)
  · by_cases full : before.pool.threadList.length = before.pool.tmax.toNat
    · exact .inl (by omega)
    · have sameSize : before.pool.size = tbusy := by
        rw [← UInt64.toNat_inj, holds.within.size_toNat, sampled]
      have one : (1 : UInt64).toNat = 1 := rfl
      have limit := before.pool.tmax.toNat_lt
      have fits : before.pool.threadList.length + (1 : UInt64).toNat < 2 ^ 64 := by omega
      rw [ThreadPool.growCount, if_pos sameSize,
        (holds.within.applyThreadLimit_toNat_iff 1).mpr fits, ThreadPool.wanted] at all
      exact .inr (by omega)

theorem effect (holds : GrowsInTime before) (single : before.SingleClientStep action)
    (spare : before.PushesWithSpare action) (enabled : before.Enabled action) :
    GrowsInTime (before.effect action) := by
  have fits : before.SumFits action := by
    cases action <;> trivial
  refine ⟨holds.conserved.effect enabled,
    PoolSystem.withinLimit_effect holds.within fits enabled, ?_⟩
  cases action with
  | push client job notified =>
      cases single
      exact holds.served_push spare enabled
  | reject client job => exact holds.served
  | grow client ticket tbusy created =>
      obtain ⟨rfl, all⟩ := single
      exact holds.served_grow all enabled
  | startThread => exact single.elim
  | setSize => exact single.elim
  | callShutdown => exact single.elim
  | signalShutdown => exact single.elim
  | joinThreads => exact single.elim
  | enterLoop worker =>
      exact holds.served_of_thread trivial (Nat.le_of_eq (PoolSystem.load_enterLoop enabled))
  | invoke worker ticket job =>
      exact holds.served_of_thread trivial (Nat.le_of_eq (PoolSystem.load_setPc enabled rfl))
  | complete worker ticket job =>
      exact holds.served_of_thread trivial (Nat.le_of_eq (PoolSystem.load_setPc enabled rfl))
  | relock worker ticket job =>
      exact holds.served_of_thread trivial (Nat.le_of_lt (PoolSystem.load_relock enabled))
  | wakeSpuriously worker =>
      exact holds.served_of_thread trivial (Nat.le_of_eq (PoolSystem.load_setPc enabled rfl))

end GrowsInTime

/-- In every run of one client that pushes each job to a full pool, to one with all
threads busy, or to one with a thread to spare, a queue that waits for busy
threads while the client is outside waits for as many as the limit allows. -/
theorem exhausted_pool_is_full {system : PoolSystem Job}
    (reached : (poolTransition Job).Reaches PoolSystem.Start
      (fun system action => system.SingleClientStep action ∧ system.PushesWithSpare action) system)
    (outside : system.clients 0 = .idle) (queued : system.pool.jobQueue ≠ [])
    (allBusy : ∀ pc ∈ system.pool.threadList, pc.isBusy = true) :
    system.pool.threadList.length = system.pool.tmax.toNat := by
  have holds : GrowsInTime system :=
    PoolSystem.invariant .new
      (fun _ _ holds allowed enabled => holds.effect allowed.1 allowed.2 enabled) reached
  rcases holds.served with full | served
  · exact full
  · rw [outside, PoolSystem.Served, PoolSystem.load, List.countP_eq_length.mpr allBusy] at served
    have waiting := List.length_pos_iff.mpr queued
    omega

theorem exhausted_pool_is_full_two_threads : ∃ system : PoolSystem Nat,
    system.clients 0 = .idle ∧ system.pool.jobQueue = [9] ∧
      (∀ pc ∈ system.pool.threadList, pc.isBusy = true) ∧
      system.pool.threadList.length = system.pool.tmax.toNat := by
  obtain ⟨system, ran, outside, queued, allBusy⟩ : ∃ system,
      ((poolTransition Nat).restrict fun system action =>
        system.SingleClientStep action ∧ system.PushesWithSpare action).run (.new Nat 1 2)
          [.push 0 7 none, .grow 0 0 0 0, .enterLoop 0, .invoke 0 0 7, .push 0 8 none,
            .grow 0 1 1 1, .enterLoop 1, .invoke 1 1 8, .push 0 9 none, .grow 0 2 2 0] =
        some system ∧
      system.clients 0 = .idle ∧ system.pool.jobQueue = [9] ∧
      system.pool.threadList.all ThreadPc.isBusy = true := ⟨_, rfl, rfl, rfl, rfl⟩
  have busy := List.all_eq_true.mp allBusy
  have reached : (poolTransition Nat).Reaches PoolSystem.Start _ system :=
    Transition.Reaches.restrict (.start ⟨1, 2, rfl⟩) ran
  exact ⟨system, outside, queued, busy,
    exhausted_pool_is_full reached outside (by simp [queued]) busy⟩

/-- Two jobs pushed before the only thread wakes: one waits for the other in a pool
that could have two threads. -/
theorem exhausted_pool_stays_small :
    ¬∀ (tmin tmax : UInt64) (system : PoolSystem Nat), 1 ≤ tmin →
      (poolTransition Nat).Reaches (· = .new Nat tmin tmax) PoolSystem.SingleClientStep system →
      system.pool.shutdown = false → system.clients 0 = .idle → system.pool.jobQueue ≠ [] →
      (∀ pc ∈ system.pool.threadList, ∃ ticket job, pc = .busy .running ticket job) →
      system.pool.threadList.length = tmax.toNat := by
  intro grows
  obtain ⟨system, ran, up, outside, queued, threads⟩ : ∃ system,
      ((poolTransition Nat).restrict PoolSystem.SingleClientStep).run (.new Nat 1 2)
        [.push 0 7 none, .grow 0 0 0 0, .push 0 8 none, .grow 0 1 0 0, .enterLoop 0,
          .invoke 0 0 7] = some system ∧
      system.pool.shutdown = false ∧ system.clients 0 = .idle ∧ system.pool.jobQueue = [8] ∧
      system.pool.threadList = [.busy .running 0 7] := ⟨_, rfl, rfl, rfl, rfl, rfl⟩
  have full := grows 1 2 system (by decide) (Transition.Reaches.restrict (.start rfl) ran) up
    outside (by simp [queued]) (by simp [threads])
  rw [threads] at full
  exact absurd full (by decide)

end FastCrawl
