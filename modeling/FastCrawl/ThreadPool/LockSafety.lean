import FastCrawl.ThreadPool.LockLevel
import FastCrawl.ThreadPool.Shutdown
import FastCrawl.ThreadPool.Wakeup

namespace FastCrawl

/-! What the refinement carries over to the locks: `m_tbusy` counts the threads with a
job, no wake-up is lost, and which jobs `shutdown` leaves behind. -/

/-- The thread has a job, which `m_tbusy` counts. -/
def WorkerPc.hasJob : WorkerPc → Bool
  | .unlockJob _ | .job _ | .call _ _ | .relock | .endJob => true
  | _ => false

/-- The thread is about to look at the queue. -/
def WorkerPc.isComing : WorkerPc → Bool
  | .lockLoop | .loop true => true
  | _ => false

def ThreadStage.isBusy {Job : Type} : ThreadStage Job → Bool
  | .taken _ | .running | .done => true
  | _ => false

def ThreadStage.isAwake {Job : Type} : ThreadStage Job → Bool
  | .awake => true
  | _ => false

theorem ThreadPc.isBusy_stage {Job : Type} :
    ThreadStage.isBusy ∘ ThreadPc.stage = (ThreadPc.isBusy : ThreadPc Job → Bool) := by
  funext place
  cases place with
  | busy at_stage ticket job => cases at_stage <;> rfl
  | _ => rfl

theorem ThreadPc.isAwake_stage {Job : Type} :
    ThreadStage.isAwake ∘ ThreadPc.stage = (ThreadPc.isAwake : ThreadPc Job → Bool) := by
  funext place
  cases place with
  | busy at_stage ticket job => cases at_stage <;> rfl
  | _ => rfl

theorem WorkerPc.isAwake_stage : ThreadStage.isAwake ∘ WorkerPc.stage = WorkerPc.isComing := by
  funext pc
  cases pc with
  | loop outer => cases outer <;> rfl
  | _ => rfl

/-- Busy on the level of regions are the threads with a job and those behind the
decrement. -/
theorem countP_busy (pcs : List WorkerPc) :
    pcs.countP (ThreadStage.isBusy ∘ WorkerPc.stage) =
      pcs.countP WorkerPc.hasJob + pcs.countP WorkerPc.isEnding := by
  induction pcs with
  | nil => rfl
  | cons pc rest ih =>
      simp only [List.countP_cons, ih]
      cases pc with
      | loop outer =>
          cases outer with
          | true => rfl
          | false => rfl
      | unlockJob taken => exact Nat.add_right_comm ..
      | job running => exact Nat.add_right_comm ..
      | call call next => exact Nat.add_right_comm ..
      | relock => exact Nat.add_right_comm ..
      | endJob => exact Nat.add_right_comm ..
      | _ => rfl

namespace Agree

variable {stage : Party → CallerStage} {locked : LockSystem} {system : PoolSystem PoolJob}

theorem countP_awake (agree : Agree stage locked system) :
    system.pool.threadList.countP ThreadPc.isAwake =
      locked.threadList.countP WorkerPc.isComing := by
  rw [← ThreadPc.isAwake_stage, ← List.countP_map, agree.threads, List.countP_map,
    WorkerPc.isAwake_stage]

theorem countP_isBusy (agree : Agree stage locked system) :
    system.pool.threadList.countP ThreadPc.isBusy =
      locked.threadList.countP WorkerPc.hasJob + locked.threadList.countP WorkerPc.isEnding := by
  rw [← ThreadPc.isBusy_stage, ← List.countP_map, agree.threads, List.countP_map, countP_busy]

/-- The decrement that is still to come on the level of regions has no part in the
count of the threads with a job. -/
theorem tbusy_toNat (agree : Agree stage locked system) (conserved : JobConservation system) :
    locked.tbusy.toNat = locked.threadList.countP WorkerPc.hasJob := by
  have busy := conserved.busyCount
  rw [agree.countP_isBusy] at busy
  have sum : locked.tbusy + .ofNat (locked.threadList.countP WorkerPc.isEnding) =
      .ofNat (locked.threadList.countP WorkerPc.hasJob) +
        .ofNat (locked.threadList.countP WorkerPc.isEnding) := by
    rw [← agree.tbusy, ← UInt64.ofNat_add, ← busy, UInt64.ofNat_toNat]
  have exactly := (UInt64.add_left_inj _).mp sum
  have within : locked.threadList.countP WorkerPc.hasJob < 2 ^ 64 := by
    apply Nat.lt_of_le_of_lt List.countP_le_length
    rw [← agree.length]
    exact conserved.countable
  rw [exactly, UInt64.toNat_ofNat']
  exact Nat.mod_eq_of_lt within

end Agree

/-- With the locks, in every reachable state: `m_tbusy` is the number of threads with a
job; while a thread waits, or is about to, there is a thread on its way to the queue
for each queued job; and after the shutdown none waits. -/
theorem locks_count_and_wake {locked : LockSystem}
    (reachable : lockTransition.Reachable LockSystem.Start locked) :
    locked.tbusy.toNat = locked.threadList.countP WorkerPc.hasJob ∧
    (locked.shutdown = false → (∃ pc ∈ locked.threadList, pc.isWaiting = true) →
      locked.jobQueue.length ≤ locked.threadList.countP WorkerPc.isComing) ∧
    (locked.shutdown = true → ∀ pc ∈ locked.threadList, pc.isWaiting = false) := by
  obtain ⟨system, reachable', refines⟩ := LockSystem.exists_refined reachable
  have agree := refines.agree
  have kept := NoLostWakeup.of_reachable reachable'
  have asleep : ∀ pc ∈ locked.threadList, pc.isWaiting = true →
      ∃ worker, system.At worker .waiting := by
    intro pc present waits
    obtain ⟨worker, found⟩ := List.mem_iff_getElem?.mp present
    obtain ⟨place, atWorker, shown⟩ := agree.exists_thread found
    have waiting : pc.stage = .waiting := by
      cases pc with
      | wait => rfl
      | blocked => rfl
      | _ => contradiction
    rw [ThreadPc.of_waiting (shown.trans waiting)] at atWorker
    exact ⟨worker, atWorker⟩
  refine ⟨agree.tbusy_toNat reachable'.conserved, fun up waiting => ?_, fun down pc present => ?_⟩
  · obtain ⟨pc, present, waits⟩ := waiting
    obtain ⟨worker, atWorker⟩ := asleep pc present waits
    have served := kept.served worker (agree.shutdown.trans up) atWorker
    rwa [agree.jobQueue, agree.countP_awake] at served
  · rw [Bool.eq_false_iff]
    intro waits
    obtain ⟨worker, atWorker⟩ := asleep pc present waits
    exact kept.allAwake worker (agree.shutdown.trans down) atWorker

/-- A client has run a job, which the one thread has taken. -/
def takenRun (job : PoolJob) : List LockAction :=
  .callPool 0 (.push job) :: List.replicate 6 (.move (.client 0) {}) ++
    List.replicate 3 (.move (.worker 0) {})

theorem locks_count_and_wake_busy : ∃ locked : LockSystem, locked.tbusy = 1 ∧
    locked.tbusy.toNat = locked.threadList.countP WorkerPc.hasJob ∧
    (locked.shutdown = false → (∃ pc ∈ locked.threadList, pc.isWaiting = true) →
      locked.jobQueue.length ≤ locked.threadList.countP WorkerPc.isComing) ∧
    (locked.shutdown = true → ∀ pc ∈ locked.threadList, pc.isWaiting = false) := by
  obtain ⟨locked, ran, tbusy⟩ : ∃ locked : LockSystem,
      lockTransition.run (.new 1 1) (takenRun .done) = some locked ∧ locked.tbusy = 1 :=
    ⟨_, rfl, rfl⟩
  exact ⟨locked, tbusy,
    locks_count_and_wake (Transition.Reachable.run (.start ⟨1, 1, rfl⟩) ran)⟩

/-- `shutdown` has not set the flag yet. -/
def CloserPc.isEarly : CloserPc → Bool
  | .idle | .lockQueue | .signal => true
  | _ => false

namespace LockSystem

variable {locked : LockSystem}

/-- Only `shutdown` sets the flag. -/
structure EarlyUp (locked : LockSystem) : Prop where
  owned : locked.Owned
  up : locked.closer.isEarly = true → locked.shutdown = false

theorem earlyUp_of_reachable (reachable : lockTransition.Reachable Start locked) :
    locked.EarlyUp := by
  refine Transition.Reachable.invariant (fun started starts => ?_) ?_ reachable
  · obtain ⟨tmin, tmax, rfl⟩ := starts
    exact ⟨owned_new tmin tmax, fun _ => rfl⟩
  intro before action holds enabled
  obtain ⟨owned, up⟩ := holds
  refine ⟨owned_effect owned enabled, ?_⟩
  have framed {after : LockSystem} (closer : after.closer = before.closer)
      (shutdown : after.shutdown = before.shutdown) :
      after.closer.isEarly = true → after.shutdown = false := by
    intro early
    rw [shutdown]
    exact up (closer ▸ early)
  cases action with
  | move party choice =>
      cases party with
      | worker index =>
          obtain ⟨pc, found, ready⟩ := enabled
          obtain ⟨between, next, after, moves⟩ := workerStep_moves owned found ready
          simp only [lockTransition, effect, advance, found, after]
          exact framed moves.frame.closer moves.frame.shutdown
      | client index =>
          obtain ⟨pc, found, ready⟩ := enabled
          have frame : Frame before (before.callStep (.client index) choice pc).1 :=
            callStep_frame (by simp) ready
          simp only [lockTransition, effect, advance, found]
          exact framed frame.closer frame.shutdown
      | closer =>
          simp only [lockTransition, effect, advance]
          cases atPc : before.closer with
          | idle => exact framed rfl rfl
          | lockQueue => exact fun _ => up (by rw [atPc]; rfl)
          | signal =>
              simp only [closerStep]
              split <;> exact fun early => by cases early
          | join index =>
              simp only [closerStep]
              split <;> exact fun early => by cases early
          | returned => exact framed rfl rfl
          | _ => exact fun early => by cases early
  | callPool client region => exact framed rfl rfl
  | callShutdown => exact fun _ => up (by rw [enabled]; rfl)
  | wakeSpuriously worker => exact framed rfl rfl

end LockSystem

/-- With the locks, from the moment at which `shutdown` sets the flag until it has joined
the last thread: all threads have exited, and no job is left in the queue just if
none was queued, or some thread had a job, when the flag was set. -/
theorem locks_shutdown_drains_iff {before later : LockSystem}
    (reachable : lockTransition.Reachable LockSystem.Start before)
    (atSignal : before.closer = .signal) (choice : Choice)
    (led : lockTransition.Leads (before.effect (.move .closer choice)) later)
    (joinedAll : later.closer = .join later.threadList.length) :
    (∀ pc ∈ later.threadList, pc = .exited) ∧
    (later.jobQueue = [] ↔ before.jobQueue = [] ∨ 0 < before.tbusy.toNat) := by
  have early : before.closer.isEarly = true := by
    rw [atSignal]
    rfl
  have up : before.shutdown = false := (LockSystem.earlyUp_of_reachable reachable).up early
  have enabled : before.Enabled (.move .closer choice) := by
    change before.CloserReady before.closer
    rw [atSignal]
    trivial
  have reachable' : lockTransition.Reachable LockSystem.Start
      (before.effect (.move .closer choice)) :=
    Transition.Reaches.step reachable (.move .closer choice) trivial enabled
  obtain ⟨system, reached, refines⟩ := LockSystem.exists_refined reachable'
  obtain ⟨system', led', refines'⟩ := lock_simulation.leads refines led
  have signalled : before.effect (.move .closer choice) = { before with
      shutdown := true
      threadList := before.threadList.map WorkerPc.notified
      closer := .unlockQueue } := by
    simp only [LockSystem.effect, LockSystem.advance, atSignal, LockSystem.closerStep, up,
      Bool.false_eq_true, if_false]
  rw [signalled] at refines led reachable'
  have agree := refines.agree
  have down : system.pool.shutdown = true := agree.shutdown
  have queue : system.pool.jobQueue = before.jobQueue := agree.jobQueue
  have owns : before.owner .jobQueue = some .closer :=
    (refines.owned .jobQueue .closer).mpr rfl
  have busy : system.pool.tbusy = before.tbusy :=
    agree.tbusy_of_quiet (LockSystem.quiet_of_owner refines.owned owns fun _ _ same => by cases same)
  have exited : ∀ pc ∈ later.threadList, pc = .exited := by
    intro pc present
    obtain ⟨worker, found⟩ := List.mem_iff_getElem?.mp present
    have joined := (refines'.joined _ joinedAll).2 worker (List.getElem?_eq_some_iff.mp found).1
    exact Option.some.inj (found.symm.trans joined)
  have noneBusy : system'.pool.tbusy.toNat = 0 := by
    have quiet : later.Quiet := fun pc present => by
      rw [exited pc present]
      exact ⟨by simp, rfl⟩
    rw [refines'.agree.tbusy_of_quiet quiet,
      refines'.agree.tbusy_toNat
        (PoolSystem.Reachable.conserved (Transition.Reachable.leads reached led'))]
    exact List.countP_eq_zero.mpr fun pc present => by simp [exited pc present, WorkerPc.hasJob]
  refine ⟨exited, ?_⟩
  rw [← refines'.agree.jobQueue, ← queue, ← busy]
  constructor
  · intro empty
    rw [or_iff_not_imp_right]
    intro idle
    rw [← PoolSystem.jobQueue_of_idle reached.conserved down (by omega) led']
    exact empty
  · intro drains
    refine PoolSystem.jobQueue_of_drains reached.conserved ⟨down, ?_⟩ led' noneBusy
    rcases drains with empty | working
    · exact .inl empty
    · exact .inr (.inl working)

theorem locks_shutdown_drains_iff_busy : ∃ before later : LockSystem,
    (before.tbusy = 1 ∧ later.closer = .join 1) ∧
    (∀ pc ∈ later.threadList, pc = .exited) ∧
    (later.jobQueue = [] ↔ before.jobQueue = [] ∨ 0 < before.tbusy.toNat) := by
  obtain ⟨before, later, ranBefore, atSignal, tbusy, ranAfter, joinedAll, one⟩ :
      ∃ before later : LockSystem,
        lockTransition.run (.new 1 1)
          (takenRun .done ++ [.callShutdown, .move .closer {}]) = some before ∧
        before.closer = .signal ∧ before.tbusy = 1 ∧
        lockTransition.run (before.effect (.move .closer {}))
          (List.replicate 2 (.move .closer {}) ++ List.replicate 5 (.move (.worker 0) {}) ++
            [.move .closer {}]) = some later ∧
        later.closer = .join later.threadList.length ∧ later.threadList.length = 1 :=
    ⟨_, _, rfl, rfl, rfl, rfl, rfl, rfl⟩
  have reachable : lockTransition.Reachable LockSystem.Start before :=
    Transition.Reachable.run (.start ⟨1, 1, rfl⟩) ranBefore
  have led : lockTransition.Leads (before.effect (.move .closer {})) later :=
    Transition.Reachable.run (.start rfl) ranAfter
  have drained := locks_shutdown_drains_iff reachable atSignal {} led joinedAll
  exact ⟨before, later, ⟨tbusy, one ▸ joinedAll⟩, drained⟩

end FastCrawl
