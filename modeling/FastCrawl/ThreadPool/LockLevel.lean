import FastCrawl.ThreadPool.Simulation

namespace FastCrawl

/-! What is proved of the system of regions holds with the locks, as the steps of
`shutdown` are simulated too: its joins, one after the other, are the one join of
all threads. -/

namespace LockSystem

variable {locked : LockSystem} {system : PoolSystem PoolJob} {choice : Choice} {index : Nat}

section Closer

theorem stage_closer (locked : LockSystem) (owner : Mutex → Option Party) (pc : CloserPc) :
    LockSystem.stage { locked with owner := owner, closer := pc } =
      Function.update locked.stage .closer pc.stage := by
  funext party
  cases party with
  | worker index =>
      have other : Party.worker index ≠ .closer := by simp
      rw [Function.update_of_ne other]
      rfl
  | client index =>
      have other : Party.client index ≠ .closer := by simp
      rw [Function.update_of_ne other]
      rfl
  | closer =>
      rw [Function.update_self]
      rfl

theorem silent_closer (agree : Agree locked.stage locked system) (owner : Mutex → Option Party)
    {pc : CloserPc} (sameStage : pc.stage = locked.closer.stage) :
    Agree (LockSystem.stage { locked with owner := owner, closer := pc })
      { locked with owner := owner, closer := pc } system := by
  have same : LockSystem.stage { locked with owner := owner, closer := pc } = locked.stage := by
    rw [stage_closer, sameStage]
    exact Function.update_eq_self ..
  rw [same]
  exact ⟨agree.tmax, agree.shutdown, agree.jobQueue, agree.tbusy, agree.threads, agree.callers⟩

theorem shutdownCalled (agree : Agree locked.stage locked system)
    (atStage : locked.stage .closer = .shutdownCalled) :
    ∃ due, system.clients (Party.caller .closer) = .shutdownCalled due := by
  have shown := (agree.callers .closer).trans atStage
  cases place : system.clients (Party.caller .closer) with
  | shutdownCalled due => exact ⟨due, rfl⟩
  | _ => simp [place, ClientPc.stage] at shown

theorem joining (agree : Agree locked.stage locked system)
    (atStage : locked.stage .closer = .joining) :
    ∃ due, system.clients (Party.caller .closer) = .joining due := by
  have shown := (agree.callers .closer).trans atStage
  cases place : system.clients (Party.caller .closer) with
  | joining due => exact ⟨due, rfl⟩
  | _ => simp [place, ClientPc.stage] at shown

/-- `notify_all` reaches the same threads on both levels. -/
theorem map_notified (agree : Agree locked.stage locked system) (quiet : locked.Quiet) :
    (system.pool.threadList.map ThreadPc.notified).map ThreadPc.stage =
      (locked.threadList.map WorkerPc.notified).map WorkerPc.stage := by
  have region : ThreadPc.stage ∘ ThreadPc.notified =
      (ThreadStage.notified ∘ ThreadPc.stage : ThreadPc PoolJob → ThreadStage PoolJob) := by
    funext place
    cases place with
    | busy at_stage ticket job => cases at_stage <;> rfl
    | _ => rfl
  have locks : ∀ pc ∈ locked.threadList,
      (WorkerPc.stage ∘ WorkerPc.notified) pc = (ThreadStage.notified ∘ WorkerPc.stage) pc := by
    intro pc present
    have notWaiting := (quiet pc present).1
    cases pc with
    | wait => contradiction
    | loop outer => cases outer <;> rfl
    | _ => rfl
  rw [List.map_map, List.map_map, region, ← List.map_map, agree.threads, List.map_map]
  exact (List.map_congr_left locks).symm

theorem follows_signal (agree : Agree locked.stage locked system) (owned : locked.Owned)
    (atSignal : locked.closer = .signal) :
    locked.Follows system (.move .closer choice) (locked.closerStep .signal) := by
  have atStage : locked.stage .closer = .shutdownCalled := by
    rw [stage, atSignal]
    rfl
  have owns : locked.owner .jobQueue = some .closer :=
    (owned _ _).mpr (by rw [holds, atSignal]; rfl)
  have quiet : locked.Quiet := quiet_of_owner owned owns fun _ _ same => by cases same
  obtain ⟨due, called⟩ := shutdownCalled agree atStage
  refine .inr ⟨.signalShutdown (Party.caller .closer) due, ⟨⟨choice, rfl⟩, rfl, atSignal⟩, called, ?_⟩
  change Agree _ _ (system.signalShutdown (Party.caller .closer) due)
  simp only [closerStep]
  split
  next down =>
    rw [PoolSystem.signalShutdown_down (agree.shutdown.trans down), stage_closer locked locked.owner]
    exact ⟨agree.tmax, agree.shutdown, agree.jobQueue, agree.tbusy, agree.threads,
      agree.update_callers .idle⟩
  next up =>
    have sameStage : LockSystem.stage { locked with
          shutdown := true
          threadList := locked.threadList.map WorkerPc.notified
          closer := .unlockQueue } =
        Function.update locked.stage .closer CloserPc.unlockQueue.stage := by
      have caller : WorkerPc.caller ∘ WorkerPc.notified = WorkerPc.caller := by
        funext pc
        cases pc <;> rfl
      rw [← stage_closer locked locked.owner]
      funext party
      cases party with
      | worker index => simp only [stage, List.getElem?_map, Option.map_map, caller]
      | client index => rfl
      | closer => rfl
    have sameEnding : WorkerPc.isEnding ∘ WorkerPc.notified = WorkerPc.isEnding := by
      funext pc
      cases pc <;> rfl
    rw [PoolSystem.signalShutdown_up (by rw [agree.shutdown]; simpa using up), sameStage]
    refine ⟨agree.tmax, rfl, agree.jobQueue, ?_, map_notified agree quiet,
      agree.update_callers (.joining due)⟩
    change system.pool.tbusy = locked.tbusy +
      .ofNat ((locked.threadList.map WorkerPc.notified).countP WorkerPc.isEnding)
    rw [List.countP_map, sameEnding]
    exact agree.tbusy

/-- The join of the last thread is the join of all. -/
theorem follows_joined (agree : Agree locked.stage locked system) (joined : locked.JoinedExited)
    (atJoin : locked.closer = .join index) (past : ¬index < locked.threadList.length) :
    locked.Follows system (.move .closer choice) { locked with closer := .unlockThreads } := by
  have atStage : locked.stage .closer = .joining := by
    rw [stage, atJoin]
    rfl
  obtain ⟨due, called⟩ := joining agree atStage
  obtain ⟨within, exited⟩ := joined index atJoin
  have all : index = locked.threadList.length := by omega
  have noThread : ∀ place ∈ system.pool.threadList, place = .exited := by
    intro place present
    obtain ⟨worker, found⟩ := List.mem_iff_getElem?.mp present
    have inRange : worker < index := by
      have inPool := (List.getElem?_eq_some_iff.mp found).1
      rw [agree.length] at inPool
      omega
    obtain ⟨place', found', shown⟩ := agree.exists_thread (exited worker inRange)
    cases found.symm.trans found'
    exact ThreadPc.of_exited shown
  refine .inr ⟨.joinThreads (Party.caller .closer) due, ⟨⟨choice, rfl⟩, rfl, all ▸ atJoin⟩,
    ⟨called, noThread⟩, ?_⟩
  rw [stage_closer locked locked.owner]
  exact ⟨agree.tmax, agree.shutdown, agree.jobQueue, agree.tbusy, agree.threads,
    agree.update_callers .idle⟩

theorem follows_closer (agree : Agree locked.stage locked system) (owned : locked.Owned)
    (joined : locked.JoinedExited) (ready : locked.CloserReady locked.closer) :
    locked.Follows system (.move .closer choice) (locked.closerStep locked.closer) := by
  have silent {pc : CloserPc} (owner : Mutex → Option Party)
      (sameStage : pc.stage = locked.closer.stage) :
      locked.Follows system (.move .closer choice) { locked with owner := owner, closer := pc } :=
    .inl (silent_closer agree owner sameStage)
  cases atPc : locked.closer with
  | signal => exact follows_signal agree owned atPc
  | join index =>
      simp only [closerStep]
      split
      · exact silent locked.owner (by rw [atPc]; rfl)
      · rename_i past
        exact follows_joined agree joined atPc past
  | idle =>
      rw [atPc] at ready
      exact ready.elim
  | returned =>
      rw [atPc] at ready
      exact ready.elim
  | lockQueue => exact silent _ (by rw [atPc]; rfl)
  | unlockDown => exact silent _ (by rw [atPc]; rfl)
  | unlockQueue => exact silent _ (by rw [atPc]; rfl)
  | lockThreads => exact silent _ (by rw [atPc]; rfl)
  | unlockThreads => exact silent _ (by rw [atPc]; rfl)

end Closer

section Joined

/-- No thread that has exited runs again. -/
def KeepsExited (before after : List WorkerPc) : Prop :=
  before.length ≤ after.length ∧
    ∀ index : Nat, before[index]? = some .exited → after[index]? = some .exited

theorem keepsExited_refl (pcs : List WorkerPc) : KeepsExited pcs pcs :=
  ⟨Nat.le_refl _, fun _ => id⟩

theorem keepsExited_set {before between : List WorkerPc} (kept : KeepsExited before between)
    {pc : WorkerPc} (found : before[index]? = some pc) (running : pc ≠ .exited)
    (next : WorkerPc) : KeepsExited before (between.set index next) := by
  obtain ⟨length, exited⟩ := kept
  refine ⟨by rwa [List.length_set], fun other hasExited => ?_⟩
  have apart : index ≠ other := by
    intro same
    rw [same, hasExited] at found
    exact running (Option.some.inj found).symm
  exact (List.getElem?_set_ne apart).trans (exited other hasExited)

theorem keepsExited_callStep (party : Party) {pc : CallPc} (ready : locked.CallReady choice pc) :
    KeepsExited locked.threadList (locked.callStep party choice pc).1.threadList := by
  refine ⟨?_, fun other hasExited => callStep_threadList party hasExited rfl ready⟩
  cases pc with
  | lock region => exact Nat.le_refl _
  | inside region => exact (Frame.runRegion ready).length
  | unlock mutex next => cases next <;> exact Nat.le_refl _

theorem keepsExited_worker {pc : WorkerPc} (found : locked.threadList[index]? = some pc)
    (ready : locked.WorkerReady choice pc) :
    KeepsExited locked.threadList (locked.workerStep index choice pc).threadList := by
  have moved := keepsExited_set (keepsExited_refl _) found
  cases pc with
  | loop outer =>
      change KeepsExited locked.threadList (locked.loopStep index outer).threadList
      unfold loopStep
      split
      · exact moved nofun _
      · split
        · exact moved nofun _
        · exact moved nofun _
  | call pc next => exact keepsExited_set (keepsExited_callStep _ ready) found nofun _
  | blocked => exact ready.elim
  | exited => exact ready.elim
  | _ => exact moved nofun _

theorem joinedExited_of_keeps {after : LockSystem} (joined : locked.JoinedExited)
    (sameCloser : after.closer = locked.closer)
    (kept : KeepsExited locked.threadList after.threadList) : after.JoinedExited := by
  intro index atJoin
  obtain ⟨within, exited⟩ := joined index (sameCloser ▸ atJoin)
  exact ⟨Nat.le_trans within kept.1, fun other earlier => kept.2 other (exited other earlier)⟩

theorem joinedExited_closer (joined : locked.JoinedExited)
    (ready : locked.CloserReady locked.closer) :
    (locked.closerStep locked.closer).JoinedExited := by
  cases atPc : locked.closer with
  | signal =>
      simp only [closerStep]
      split <;> exact fun _ atJoin => by cases atJoin
  | lockThreads =>
      intro index atJoin
      cases atJoin
      exact ⟨Nat.zero_le _, fun _ earlier => absurd earlier (Nat.not_lt_zero _)⟩
  | join index =>
      rw [atPc] at ready
      obtain ⟨within, exited⟩ := joined index atPc
      simp only [closerStep]
      split
      · rename_i inRange
        intro next atJoin
        cases atJoin
        refine ⟨inRange, fun other earlier => ?_⟩
        by_cases last : other = index
        · have canJoin : locked.CanJoin index := ready
          rw [CanJoin, List.getElem?_eq_getElem inRange, Option.map_some] at canJoin
          rw [last, List.getElem?_eq_getElem inRange]
          cases atIndex : locked.threadList[index] with
          | exited => rfl
          | _ => simp [atIndex, WorkerPc.isExited] at canJoin
        · exact exited other (by omega)
      · exact fun _ atJoin => by cases atJoin
  | idle => exact joined
  | returned => exact joined
  | _ => exact fun _ atJoin => by cases atJoin

theorem joinedExited_effect (owned : locked.Owned) (joined : locked.JoinedExited)
    {action : LockAction} (enabled : locked.Enabled action) :
    (locked.effect action).JoinedExited := by
  cases action with
  | move party choice =>
      cases party with
      | worker index =>
          obtain ⟨pc, found, ready⟩ := enabled
          obtain ⟨between, next, after, moves⟩ := workerStep_moves owned found ready
          have sameCloser : (locked.workerStep index choice pc).closer = locked.closer := by
            rw [after]
            exact moves.frame.closer
          simp only [effect, advance, found]
          exact joinedExited_of_keeps joined sameCloser (keepsExited_worker found ready)
      | client index =>
          obtain ⟨pc, found, ready⟩ := enabled
          have frame : Frame locked (locked.callStep (.client index) choice pc).1 :=
            callStep_frame (by simp) ready
          simp only [effect, advance, found]
          exact joinedExited_of_keeps joined frame.closer (keepsExited_callStep _ ready)
      | closer => exact joinedExited_closer joined enabled
  | callPool client region => exact joined
  | callShutdown => exact fun _ atJoin => by cases atJoin
  | wakeSpuriously worker =>
      obtain ⟨pc, found, blocked⟩ := Option.map_eq_some_iff.mp enabled
      refine joinedExited_of_keeps joined rfl (keepsExited_set (keepsExited_refl _) found ?_ _)
      intro exited
      rw [exited] at blocked
      contradiction

end Joined

theorem follows_effect (agree : Agree locked.stage locked system) (owned : locked.Owned)
    (joined : locked.JoinedExited) {action : LockAction} (enabled : locked.Enabled action) :
    locked.Follows system action (locked.effect action) := by
  cases action with
  | move party choice =>
      cases party with
      | worker index =>
          obtain ⟨pc, found, ready⟩ := enabled
          simp only [effect, advance, found]
          exact follows_worker agree owned found ready
      | client index =>
          obtain ⟨pc, found, ready⟩ := enabled
          simp only [effect, advance, found]
          exact follows_client agree owned found ready
      | closer => exact follows_closer agree owned joined enabled
  | callPool client region =>
      left
      obtain ⟨outside, isFirst⟩ := enabled
      have idle : locked.stage (.client client) = .outside := by
        rw [stage, Option.isNone_iff_eq_none.mp outside]
        rfl
      have called : (CallPc.lock region).stage = .outside := by
        cases region with
        | grow tbusy => contradiction
        | _ => rfl
      have same : (locked.setClient client (some (.lock region))).stage = locked.stage := by
        rw [stage_setClient, Option.map_some, Option.getD_some, called, ← idle,
          Function.update_eq_self]
      rw [effect, same]
      exact ⟨agree.tmax, agree.shutdown, agree.jobQueue, agree.tbusy, agree.threads, agree.callers⟩
  | callShutdown =>
      right
      have outside : locked.stage .closer = .outside := by
        rw [stage, enabled]
        rfl
      have idle := agree.idle outside
      refine ⟨.callShutdown (Party.caller .closer), ⟨rfl, rfl⟩, idle, ?_⟩
      rw [effect, stage_closer locked locked.owner]
      exact ⟨agree.tmax, agree.shutdown, agree.jobQueue, agree.tbusy, agree.threads,
        agree.update_callers (.shutdownCalled system.returned)⟩
  | wakeSpuriously worker =>
      right
      obtain ⟨pc, found, blocked⟩ := Option.map_eq_some_iff.mp enabled
      cases pc with
      | blocked =>
          obtain ⟨place, atWorker, shown⟩ := agree.exists_thread found
          rw [ThreadPc.of_waiting shown] at atWorker
          have same : (locked.setWorker worker .lockLoop).stage = locked.stage :=
            stage_moved rfl rfl found rfl
          refine ⟨.wakeSpuriously worker, rfl, atWorker, ?_⟩
          rw [effect, same]
          exact agree.setPc found rfl rfl rfl
      | _ => contradiction

end LockSystem

theorem refines_new (tmin tmax : UInt64) :
    Refines (LockSystem.new tmin tmax) (PoolSystem.new PoolJob tmin tmax) where
  agree := by
    have empty : Agree (fun _ => .outside) { tmax } { pool := { tmax } } :=
      ⟨rfl, rfl, rfl, rfl, rfl, fun _ => rfl⟩
    have outside : (LockSystem.new tmin tmax).stage = fun _ => .outside := by
      rw [LockSystem.new, LockSystem.stage_emplaceThreads]
      funext party
      cases party <;> rfl
    have started : Agree (fun _ => .outside) (LockSystem.new tmin tmax)
        (PoolSystem.new PoolJob tmin tmax) := empty.emplaceThreads rfl fun _ => rfl
    exact outside ▸ started
  owned := LockSystem.owned_new tmin tmax
  joined := fun _ atJoin => by cases atJoin

theorem lock_simulation :
    lockTransition.Simulation (poolTransition PoolJob) LockSystem.Performs Refines where
  step := by
    intro locked system action refines enabled
    obtain ⟨agree, owned, joined⟩ := refines
    have owned' : (locked.effect action).Owned := LockSystem.owned_effect owned enabled
    have joined' : (locked.effect action).JoinedExited :=
      LockSystem.joinedExited_effect owned joined enabled
    rcases LockSystem.follows_effect agree owned joined enabled with
      silent | ⟨answer, performs, enabled', follows⟩
    · exact .inl ⟨silent, owned', joined'⟩
    · exact .inr ⟨answer, performs, enabled', follows, owned', joined'⟩

theorem LockSystem.exists_refined {locked : LockSystem}
    (reachable : lockTransition.Reachable LockSystem.Start locked) :
    ∃ system : PoolSystem PoolJob, system.Reachable ∧ Refines locked system := by
  refine lock_simulation.reaches (fun started starts => ?_) (fun _ _ _ _ _ _ _ => trivial) reachable
  obtain ⟨tmin, tmax, rfl⟩ := starts
  exact ⟨.new PoolJob tmin tmax, ⟨tmin, tmax, rfl⟩, refines_new tmin tmax⟩

/-- The level of regions simulates that of locks: both start in the same state, and each
step with the locks is silent or performs a step of regions that can be taken.  So
every run with the locks is one of regions, with the same queue and flag, and with the
same counter but for threads between their decrement and their look at the queue. -/
theorem locks_refine_regions :
    (∀ tmin tmax, Refines (.new tmin tmax) (.new PoolJob tmin tmax)) ∧
    lockTransition.Simulation (poolTransition PoolJob) LockSystem.Performs Refines ∧
    ∀ locked, lockTransition.Reachable LockSystem.Start locked →
      ∃ system : PoolSystem PoolJob, system.Reachable ∧ Refines locked system ∧
        ∀ later, lockTransition.Leads locked later →
          ∃ system', (poolTransition PoolJob).Leads system system' ∧ Refines later system' := by
  refine ⟨refines_new, lock_simulation, fun locked reachable => ?_⟩
  obtain ⟨system, reachable', refines⟩ := LockSystem.exists_refined reachable
  exact ⟨system, reachable', refines, fun later led => lock_simulation.leads refines led⟩

end FastCrawl
