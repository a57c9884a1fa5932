import FastCrawl.ThreadPool.Conservation

namespace FastCrawl

/-! No wake-up is lost: while a thread sleeps, there is an awake thread for each
queued job, and after the shutdown no thread sleeps. -/

variable {Job : Type}

def ThreadPc.isAwake : ThreadPc Job → Bool
  | .awake => true
  | _ => false

structure NoLostWakeup (system : PoolSystem Job) : Prop where
  served : ∀ worker, system.pool.shutdown = false → system.At worker .waiting →
    system.pool.jobQueue.length ≤ system.pool.threadList.countP ThreadPc.isAwake
  allAwake : ∀ worker, system.pool.shutdown = true → ¬system.At worker .waiting

namespace NoLostWakeup

variable {before after : PoolSystem Job}

/-- A step that puts no thread to sleep and leaves as many awake. -/
theorem of_noSleep (kept : NoLostWakeup before)
    (shutdown : after.pool.shutdown = before.pool.shutdown)
    (noSleep : ∀ worker, after.At worker .waiting → before.At worker .waiting)
    (served : after.pool.jobQueue.length + before.pool.threadList.countP ThreadPc.isAwake ≤
      before.pool.jobQueue.length + after.pool.threadList.countP ThreadPc.isAwake) :
    NoLostWakeup after := by
  refine ⟨fun worker up asleep => ?_, fun worker down asleep => ?_⟩
  · have served := kept.served worker (shutdown ▸ up) (noSleep worker asleep)
    omega
  · exact kept.allAwake worker (shutdown ▸ down) (noSleep worker asleep)

theorem new (tmin tmax : UInt64) : NoLostWakeup (PoolSystem.new Job tmin tmax) := by
  have noneAsleep : ∀ worker, ¬(PoolSystem.new Job tmin tmax).At worker .waiting := by
    intro worker
    simp only [PoolSystem.At, PoolSystem.new, ThreadPool.emplaceThreads, List.nil_append,
      List.getElem?_replicate]
    split <;> simp
  exact ⟨fun worker _ asleep => absurd asleep (noneAsleep worker), fun worker _ => noneAsleep worker⟩

theorem push (kept : NoLostWakeup before) {client : Nat} {job : Job} {notified : Option Nat}
    (canNotify : before.pool.CanNotify notified) :
    NoLostWakeup (before.push client job notified) := by
  cases notified with
  | none =>
      have noneAsleep : ∀ worker, ¬(before.push client job none).At worker .waiting :=
        fun worker asleep => canNotify _ (List.mem_of_getElem? asleep) rfl
      exact ⟨fun worker _ asleep => absurd asleep (noneAsleep worker),
        fun worker _ => noneAsleep worker⟩
  | some worker =>
      have found : before.At worker .waiting := canNotify
      have atSet := PoolSystem.at_of_set found (before.push client job (some worker)) rfl
      refine kept.of_noSleep rfl (fun other asleep => ?_) ?_
      · rcases (atSet _ _).mp asleep with ⟨_, same⟩ | ⟨_, asleep⟩
        · contradiction
        · exact asleep
      · have counts := countP_set_of_getElem? found ThreadPc.isAwake .awake
        simp only [ThreadPc.isAwake, Bool.false_eq_true, if_false, if_true] at counts
        change (before.pool.jobQueue ++ [job]).length + _ ≤
          _ + (before.pool.threadList.set worker .awake).countP ThreadPc.isAwake
        rw [List.length_append, List.length_singleton]
        omega

theorem emplaceThreads (kept : NoLostWakeup before) {created : Nat}
    (pool : after.pool = before.pool.emplaceThreads created) : NoLostWakeup after := by
  refine kept.of_noSleep (by rw [pool]; rfl) (fun worker asleep => ?_) ?_
  · rw [PoolSystem.At, pool, ThreadPool.emplaceThreads, List.getElem?_append] at asleep
    split at asleep
    · exact asleep
    · rw [List.getElem?_replicate] at asleep
      split at asleep <;> simp at asleep
  · rw [pool]
    simp only [ThreadPool.emplaceThreads, List.countP_append]
    omega

/-- A thread that is not asleep stays so, and is no less awake. -/
theorem of_set (kept : NoLostWakeup before) {worker : Nat} {old : ThreadPc Job}
    (found : before.At worker old) (pc : ThreadPc Job) (notAsleep : pc ≠ .waiting)
    (threads : after.pool.threadList = before.pool.threadList.set worker pc)
    (shutdown : after.pool.shutdown = before.pool.shutdown)
    (served : after.pool.jobQueue.length + (if old.isAwake then 1 else 0) ≤
      before.pool.jobQueue.length + (if pc.isAwake then 1 else 0)) :
    NoLostWakeup after := by
  refine kept.of_noSleep shutdown (fun other asleep => ?_) ?_
  · rcases (PoolSystem.at_of_set found after threads _ _).mp asleep with ⟨_, same⟩ | ⟨_, asleep⟩
    · exact absurd same.symm notAsleep
    · exact asleep
  · have counts := countP_set_of_getElem? found ThreadPc.isAwake pc
    rw [threads]
    omega

theorem of_set_down (kept : NoLostWakeup before) {worker : Nat} {old : ThreadPc Job}
    (found : before.At worker old) (pc : ThreadPc Job) (notAsleep : pc ≠ .waiting)
    (threads : after.pool.threadList = before.pool.threadList.set worker pc)
    (down : before.pool.shutdown = true)
    (shutdown : after.pool.shutdown = before.pool.shutdown) : NoLostWakeup after := by
  refine ⟨fun other up => absurd (up.symm.trans (shutdown.trans down)) (by simp), ?_⟩
  intro other _ asleep
  rcases (PoolSystem.at_of_set found after threads _ _).mp asleep with ⟨_, same⟩ | ⟨_, asleep⟩
  · exact notAsleep same.symm
  · exact kept.allAwake other down asleep

/-- A thread goes to sleep only when the queue is empty and the pool is up. -/
theorem executeQueued (kept : NoLostWakeup before) {worker : Nat} {pc : ThreadPc Job}
    (found : before.At worker pc) : NoLostWakeup (before.executeQueued worker) := by
  unfold PoolSystem.executeQueued
  split
  · rename_i job rest queued
    refine kept.of_set found (.busy .taken before.dequeued.length job) (by simp) rfl rfl ?_
    change rest.length + _ ≤ before.pool.jobQueue.length + _
    rw [queued, List.length_cons]
    split <;> simp [ThreadPc.isAwake]
  · rename_i empty
    cases shutdown : before.pool.shutdown with
    | true => exact kept.of_set_down found .exited (by simp) rfl shutdown rfl
    | false =>
        refine ⟨fun other _ _ => ?_, fun other down => ?_⟩
        · change before.pool.jobQueue.length ≤ _
          rw [empty]
          exact Nat.zero_le _
        · exact absurd (shutdown.symm.trans down) (by simp)

theorem relock (kept : NoLostWakeup before) {worker ticket : Nat} {job : Job}
    (found : before.At worker (.busy .done ticket job)) :
    NoLostWakeup (before.effect (.relock worker ticket job)) := by
  have awake := (PoolSystem.at_of_set found (before.endJob worker) rfl worker .awake).mpr
    (.inl ⟨rfl, rfl⟩)
  refine executeQueued ?_ awake
  exact kept.of_set found .awake (by simp) rfl rfl (by simp [ThreadPc.isAwake,
    PoolSystem.endJob, ThreadPool.setPc])

theorem signalShutdown (kept : NoLostWakeup before) (client : Nat) (due : List Nat) :
    NoLostWakeup (before.signalShutdown client due) := by
  unfold PoolSystem.signalShutdown
  split
  · exact kept.of_noSleep rfl (fun _ asleep => asleep) (Nat.le_refl _)
  · refine ⟨fun _ up => absurd up (by simp), fun worker _ asleep => ?_⟩
    simp only [PoolSystem.At, List.getElem?_map, Option.map_eq_some_iff] at asleep
    obtain ⟨pc, _, notified⟩ := asleep
    cases pc <;> contradiction

theorem effect (kept : NoLostWakeup before) {action : PoolAction Job}
    (enabled : before.Enabled action) : NoLostWakeup (before.effect action) := by
  cases action with
  | push client job notified => exact kept.push enabled.2.2
  | reject client job => exact kept
  | grow client ticket tbusy created => exact kept.emplaceThreads rfl
  | startThread tcnt created => exact kept.emplaceThreads rfl
  | setSize threadCnt created => exact kept.emplaceThreads rfl
  | callShutdown client => exact kept.of_noSleep rfl (fun _ asleep => asleep) (Nat.le_refl _)
  | signalShutdown client due => exact kept.signalShutdown client due
  | joinThreads client due => exact kept.of_noSleep rfl (fun _ asleep => asleep) (Nat.le_refl _)
  | enterLoop worker =>
      simp only [PoolSystem.effect, PoolSystem.enterLoop]
      split
      · rename_i down
        exact kept.of_set_down enabled .exited (by simp) rfl down rfl
      · exact kept.executeQueued enabled
  | invoke worker ticket job =>
      exact kept.of_set enabled (.busy .running ticket job) (by simp) rfl rfl (Nat.le_refl _)
  | complete worker ticket job =>
      exact kept.of_set enabled (.busy .done ticket job) (by simp) rfl rfl (Nat.le_refl _)
  | relock worker ticket job => exact kept.relock enabled
  | wakeSpuriously worker =>
      exact kept.of_set enabled .awake (by simp) rfl rfl (by simp [ThreadPc.isAwake,
        PoolSystem.effect, PoolSystem.setPc, ThreadPool.setPc])

theorem of_reachable {system : PoolSystem Job} (reachable : system.Reachable) :
    NoLostWakeup system :=
  PoolSystem.invariant .new (fun _ _ kept _ enabled => kept.effect enabled) reachable

end NoLostWakeup

/-- No run loses a wake-up. -/
theorem no_lost_wakeup {system : PoolSystem Job} (reachable : system.Reachable) :
    (system.pool.shutdown = false → (∃ worker, system.At worker .waiting) →
      system.pool.jobQueue.length ≤ system.pool.threadList.countP ThreadPc.isAwake) ∧
    (system.pool.shutdown = true → ∀ worker, ¬system.At worker .waiting) := by
  have kept : NoLostWakeup system := .of_reachable reachable
  exact ⟨fun up ⟨worker, asleep⟩ => kept.served worker up asleep,
    fun down worker => kept.allAwake worker down⟩

theorem no_lost_wakeup_two_threads : ∃ system : PoolSystem Nat,
    (system.pool.jobQueue = [7] ∧ system.At 1 .waiting) ∧
    (system.pool.shutdown = false → (∃ worker, system.At worker .waiting) →
      system.pool.jobQueue.length ≤ system.pool.threadList.countP ThreadPc.isAwake) ∧
    (system.pool.shutdown = true → ∀ worker, ¬system.At worker .waiting) := by
  obtain ⟨system, ran, queued, asleep⟩ : ∃ system,
      (poolTransition Nat).run (.new Nat 2 2)
        [.enterLoop 0, .enterLoop 1, .push 0 7 (some 0)] = some system ∧
      system.pool.jobQueue = [7] ∧ system.At 1 .waiting := ⟨_, rfl, rfl, rfl⟩
  exact ⟨system, ⟨queued, asleep⟩, no_lost_wakeup (Transition.Reachable.run
    (.start ⟨2, 2, rfl⟩) ran)⟩

end FastCrawl
