import FastCrawl.ThreadPool.Regions

namespace FastCrawl

/-! The simulation: each step of a thread, of a client or of `shutdown` on the level
of locks is silent or is one step of the system of regions. -/

namespace Agree

variable {stage : Party → CallerStage} {locked : LockSystem} {system : PoolSystem PoolJob}
  {index : Nat}

/-- Both levels move a thread, and nothing else but the owner of a mutex. -/
theorem setPc (agree : Agree stage locked system) {pc next : WorkerPc}
    (found : locked.threadList[index]? = some pc) (running : pc.isEnding = false)
    (running' : next.isEnding = false) {place : ThreadPc PoolJob}
    (sameStage : place.stage = next.stage) :
    Agree stage (locked.setWorker index next) (system.setPc index place) where
  tmax := agree.tmax
  shutdown := agree.shutdown
  jobQueue := agree.jobQueue
  tbusy := by
    have counts := countP_isEnding_set found next
    simp only [running, running', Bool.false_eq_true, if_false, Nat.add_zero] at counts
    rw [LockSystem.setWorker, counts]
    exact agree.tbusy
  threads := by
    simp only [LockSystem.setWorker, PoolSystem.setPc, ThreadPool.setPc, List.map_set,
      agree.threads, sameStage]
  callers := agree.callers

theorem takeJob (agree : Agree stage locked system) {job : PoolJob} {rest : List PoolJob}
    (tbusy : system.pool.tbusy = locked.tbusy +
      .ofNat ((locked.threadList.set index (.unlockJob job)).countP WorkerPc.isEnding)) :
    Agree stage
      ({ locked with jobQueue := rest, tbusy := locked.tbusy + 1 }.setWorker index
        (.unlockJob job)) (system.takeJob index job rest) where
  tmax := agree.tmax
  shutdown := agree.shutdown
  jobQueue := rfl
  tbusy := by
    change system.pool.tbusy + 1 = locked.tbusy + 1 + _
    rw [tbusy, UInt64.add_assoc, UInt64.add_assoc, UInt64.add_comm 1]
    rfl
  threads := by
    have sameStage (ticket : Nat) :
        (ThreadPc.busy .taken ticket job).stage = (WorkerPc.unlockJob job).stage := rfl
    simp only [LockSystem.setWorker, PoolSystem.takeJob, ThreadPool.setPc, List.map_set,
      agree.threads, sameStage]
  callers := agree.callers

/-- `while (m_job_queue.size())`, up to the next unlock or wait. -/
theorem executeQueued (agree : Agree stage locked system)
    (found : locked.threadList[index]? = some (.loop true)) :
    Agree stage (locked.loopStep index false) (system.executeQueued index) := by
  cases queued : locked.jobQueue with
  | cons job rest =>
      have taken : locked.loopStep index false =
          { locked with jobQueue := rest, tbusy := locked.tbusy + 1 }.setWorker index
            (.unlockJob job) := by
        simp only [LockSystem.loopStep, queued, Bool.false_and, Bool.false_eq_true, if_false]
      rw [taken, PoolSystem.executeQueued_cons (agree.jobQueue.trans queued)]
      apply agree.takeJob
      have counts := countP_isEnding_set found (.unlockJob job)
      simp only [WorkerPc.isEnding, Bool.false_eq_true, if_false, Nat.add_zero] at counts
      rw [counts]
      exact agree.tbusy
  | nil =>
      have left : locked.loopStep index false =
          locked.setWorker index (if locked.shutdown then .unlockExit else .wait) := by
        simp only [LockSystem.loopStep, queued, Bool.false_and, Bool.false_eq_true, if_false]
      rw [left, PoolSystem.executeQueued_nil (agree.jobQueue.trans queued), agree.shutdown]
      cases locked.shutdown with
      | true => exact agree.setPc found rfl rfl rfl
      | false => exact agree.setPc found rfl rfl rfl

theorem enterLoop (agree : Agree stage locked system)
    (found : locked.threadList[index]? = some (.loop true)) :
    Agree stage (locked.loopStep index true) (system.enterLoop index) := by
  unfold PoolSystem.enterLoop
  rw [agree.shutdown]
  cases down : locked.shutdown with
  | true =>
      have left : locked.loopStep index true = locked.setWorker index .unlockExit := by
        simp [LockSystem.loopStep, down]
      rw [left, if_pos rfl]
      exact agree.setPc found rfl rfl rfl
  | false =>
      have entered : locked.loopStep index true = locked.loopStep index false := by
        simp [LockSystem.loopStep, down]
      rw [entered, if_neg Bool.false_ne_true]
      exact agree.executeQueued found

/-- The decrement of `m_tbusy`, which the level of regions makes late. -/
theorem endJob (agree : Agree stage locked system)
    (found : locked.threadList[index]? = some (.loop false)) :
    Agree stage (locked.setWorker index (.loop true)) (system.endJob index) where
  tmax := agree.tmax
  shutdown := agree.shutdown
  jobQueue := agree.jobQueue
  tbusy := by
    have counts := countP_isEnding_set found (.loop true)
    simp only [WorkerPc.isEnding, Bool.false_eq_true, if_true, if_false, Nat.add_zero] at counts
    have busy := agree.tbusy
    rw [← counts, UInt64.ofNat_add] at busy
    change system.pool.tbusy - 1 = locked.tbusy + _
    rw [busy, ← UInt64.add_assoc]
    exact UInt64.add_sub_cancel _ _
  threads := by
    have sameStage : (ThreadPc.awake : ThreadPc PoolJob).stage = (WorkerPc.loop true).stage := rfl
    simp only [LockSystem.setWorker, PoolSystem.endJob, ThreadPool.setPc, List.map_set,
      agree.threads, sameStage]
  callers := agree.callers

theorem relock (agree : Agree stage locked system)
    (found : locked.threadList[index]? = some (.loop false)) (ticket : Nat) (job : PoolJob) :
    Agree stage (locked.loopStep index false) (system.effect (.relock index ticket job)) := by
  obtain ⟨inRange, _⟩ := List.getElem?_eq_some_iff.mp found
  have atLoop : (locked.setWorker index (.loop true)).threadList[index]? = some (.loop true) :=
    List.getElem?_set_self inRange
  have same : (locked.setWorker index (.loop true)).loopStep index false =
      locked.loopStep index false := by
    simp only [LockSystem.loopStep, LockSystem.setWorker, Bool.false_and, Bool.false_eq_true,
      if_false, List.set_set]
    cases locked.jobQueue with
    | nil => rfl
    | cons job rest => rfl
  have ended := (agree.endJob found).executeQueued atLoop
  rw [same] at ended
  exact ended

theorem setOwner (agree : Agree stage locked system) (mutex : Mutex) (owner : Option Party) :
    Agree stage (locked.setOwner mutex owner) system :=
  ⟨agree.tmax, agree.shutdown, agree.jobQueue, agree.tbusy, agree.threads, agree.callers⟩

/-- The last step of a thread on the level of regions before it ends a job. -/
theorem countEnding (agree : Agree stage locked system)
    (found : locked.threadList[index]? = some .endJob) :
    Agree stage ({ locked with tbusy := locked.tbusy - 1 }.setWorker index (.loop false)) system := by
  have moved := map_stage_set found (show (WorkerPc.loop false).stage = WorkerPc.endJob.stage from rfl)
  refine ⟨agree.tmax, agree.shutdown, agree.jobQueue, ?_, agree.threads.trans moved.symm,
    agree.callers⟩
  have counts := countP_isEnding_set found (.loop false)
  simp only [WorkerPc.isEnding, Bool.false_eq_true, if_true, if_false, Nat.add_zero] at counts
  change system.pool.tbusy = locked.tbusy - 1 +
    .ofNat ((locked.threadList.set index (.loop false)).countP WorkerPc.isEnding)
  rw [counts, UInt64.ofNat_add, UInt64.add_comm (.ofNat _), ← UInt64.add_assoc]
  have restored : locked.tbusy - 1 + .ofNat 1 = locked.tbusy := UInt64.sub_add_cancel _ _
  rw [restored]
  exact agree.tbusy

end Agree

namespace LockSystem

variable {locked : LockSystem} {system : PoolSystem PoolJob} {choice : Choice} {index : Nat}

/-- A step of a thread that is in no call, before and after it, changes no caller. -/
theorem stage_moved {between : LockSystem} (same : between.stage = locked.stage)
    (threads : between.threadList = locked.threadList) {pc next : WorkerPc}
    (found : locked.threadList[index]? = some pc) (sameCaller : next.caller = pc.caller) :
    (between.setWorker index next).stage = locked.stage := by
  have inRange : index < between.threadList.length :=
    threads ▸ (List.getElem?_eq_some_iff.mp found).1
  rw [stage_setWorker inRange, same, sameCaller, ← stage_of_found found,
    Function.update_eq_self]

theorem stage_loopStep {outer : Bool} (found : locked.threadList[index]? = some (.loop outer)) :
    (locked.loopStep index outer).stage = locked.stage := by
  unfold loopStep
  split
  · exact stage_moved rfl rfl found rfl
  · split
    · exact stage_moved rfl rfl found rfl
    · split <;> exact stage_moved rfl rfl found rfl

/-- A step on the level of locks, to `after`, is silent or performs a step of regions. -/
def Follows (locked : LockSystem) (system : PoolSystem PoolJob) (action : LockAction)
    (after : LockSystem) : Prop :=
  Agree after.stage after system ∨
    ∃ answer, locked.Performs action answer ∧ system.Enabled answer ∧
      Agree after.stage after (system.effect answer)

theorem follows_call (agree : Agree locked.stage locked system) (owned : locked.Owned)
    (party : Party) {pc : CallPc} (isCall : locked.callOf party = some pc)
    (atStage : locked.stage party = pc.stage) (holding : locked.holds party = pc.holds)
    (inCall : ∀ index, party = .worker index →
      ∃ next, locked.threadList[index]? = some (.call pc next))
    (ready : locked.CallReady choice pc) {after : LockSystem}
    (shown : ∀ later, Agree (Function.update locked.stage party
        (((locked.callStep party choice pc).2.getLeft?.map CallPc.stage).getD .outside))
      (locked.callStep party choice pc).1 later → Agree after.stage after later) :
    locked.Follows system (.move party choice) after := by
  rcases agree.callStep owned atStage holding inCall ready with
    silent | ⟨region, answer, isInside, performs, enabled, follows⟩
  · exact .inl (shown system silent)
  · have runs : locked.Runs (.move party choice) party.caller region choice :=
      ⟨party, rfl, rfl, isInside ▸ isCall⟩
    exact .inr ⟨answer, performs _ runs, enabled, shown _ follows⟩

/-- A region moves no thread but one that it wakes. -/
theorem callStep_threadList (party : Party) {pc : CallPc} {place : WorkerPc}
    (found : locked.threadList[index]? = some place) (running : place.isBlocked = false)
    (ready : locked.CallReady choice pc) :
    (locked.callStep party choice pc).1.threadList[index]? = some place := by
  have inRange := (List.getElem?_eq_some_iff.mp found).1
  have emplaced (created : Nat) :
      (locked.emplaceThreads created).threadList[index]? = some place := by
    rw [emplaceThreads, List.getElem?_append_left inRange, found]
  cases pc with
  | lock region => exact found
  | inside region =>
      cases region with
      | push job =>
          simp only [callStep, runRegion]
          split
          · exact found
          · rename_i up
            cases notified : choice.notified with
            | none => exact found
            | some worker =>
                have canNotify : locked.CanNotify choice.notified := ready.resolve_left up
                rw [notified] at canNotify
                have apart : worker ≠ index := by
                  intro same
                  rw [same] at canNotify
                  change Option.map _ locked.threadList[index]? = some true at canNotify
                  rw [found, Option.map_some, running] at canNotify
                  contradiction
                exact (List.getElem?_set_ne apart).trans found
      | grow tbusy => exact emplaced choice.created
      | size => exact found
      | setSize threadCnt => exact emplaced choice.created
      | startThread tcnt => exact emplaced choice.created
      | busy => exact found
  | unlock mutex next => cases next <;> exact found

/-- A notified thread and a new one call nothing. -/
theorem stage_callStep (party : Party) {pc : CallPc} (ready : locked.CallReady choice pc) :
    (locked.callStep party choice pc).1.stage = locked.stage := by
  cases pc with
  | lock region => rfl
  | inside region =>
      cases region with
      | push job =>
          simp only [callStep, runRegion]
          split
          · rfl
          · rename_i up
            cases notified : choice.notified with
            | none => rfl
            | some worker =>
                have canNotify : locked.CanNotify choice.notified := ready.resolve_left up
                rw [notified] at canNotify
                obtain ⟨pc, atWorker, blocked⟩ := Option.map_eq_some_iff.mp canNotify
                cases pc with
                | blocked => exact stage_moved rfl rfl atWorker rfl
                | _ => contradiction
      | grow tbusy => exact stage_emplaceThreads locked choice.created
      | size => rfl
      | setSize threadCnt => exact stage_emplaceThreads locked choice.created
      | startThread tcnt => exact stage_emplaceThreads locked choice.created
      | busy => rfl
  | unlock mutex next => cases next <;> rfl

theorem WorkerPc.ofCall_caller (next : Outcome → PoolJob) (reached : CallPc ⊕ Outcome) :
    (WorkerPc.ofCall next reached).caller =
      (reached.getLeft?.map CallPc.stage).getD .outside := by
  cases reached <;> rfl

theorem follows_worker (agree : Agree locked.stage locked system) (owned : locked.Owned)
    {pc : WorkerPc} (found : locked.threadList[index]? = some pc)
    (ready : locked.WorkerReady choice pc) :
    locked.Follows system (.move (.worker index) choice)
      (locked.workerStep index choice pc) := by
  obtain ⟨place, atIndex, shown⟩ := agree.exists_thread found
  -- A step that only the level of locks knows.
  have silent (mutex : Mutex) (owner : Option Party) (next : WorkerPc)
      (sameStage : next.stage = pc.stage) (sameEnding : next.isEnding = pc.isEnding)
      (sameCaller : next.caller = pc.caller) :
      Agree ((locked.setOwner mutex owner).setWorker index next).stage
        ((locked.setOwner mutex owner).setWorker index next) system := by
    have moved := (agree.setOwner mutex owner).setWorker found sameStage sameEnding
    have same : ((locked.setOwner mutex owner).setWorker index next).stage = locked.stage :=
      stage_moved rfl rfl found sameCaller
    exact same ▸ moved
  cases pc with
  | lockLoop => exact .inl (silent _ _ _ rfl rfl rfl)
  | loop outer =>
      right
      have same := stage_loopStep found
      cases outer with
      | true =>
          rw [ThreadPc.of_awake shown] at atIndex
          have entered := same.symm ▸ agree.enterLoop found
          exact ⟨.enterLoop index, ⟨choice, rfl, found⟩, atIndex, entered⟩
      | false =>
          obtain ⟨ticket, job, rfl⟩ := ThreadPc.of_done shown
          have ended := same.symm ▸ agree.relock found ticket job
          exact ⟨.relock index ticket job, ⟨choice, rfl, found⟩, atIndex, ended⟩
  | unlockJob job =>
      right
      obtain ⟨ticket, rfl⟩ := ThreadPc.of_taken shown
      have moved := (agree.setOwner .jobQueue none).setPc found rfl rfl
        (show (ThreadPc.busy .running ticket job).stage = (WorkerPc.job job).stage from rfl)
      have same : (locked.workerStep index choice (.unlockJob job)).stage = locked.stage :=
        stage_moved rfl rfl found rfl
      refine ⟨.invoke index ticket job, ⟨choice, rfl, found⟩, atIndex, ?_⟩
      rw [same]
      exact ⟨moved.tmax, moved.shutdown, moved.jobQueue, moved.tbusy, moved.threads, moved.callers⟩
  | job job =>
      have moved (next : WorkerPc) (sameStage : next.stage = (WorkerPc.job job).stage)
          (sameEnding : next.isEnding = false) (sameCaller : next.caller = .outside) :
          Agree (locked.setWorker index next).stage (locked.setWorker index next) system := by
        have same : (locked.setWorker index next).stage = locked.stage :=
          stage_moved rfl rfl found sameCaller
        exact same ▸ agree.setWorker found sameStage sameEnding
      cases job with
      | done =>
          right
          obtain ⟨ticket, job, rfl⟩ := ThreadPc.of_running shown
          have ended := agree.setPc found rfl rfl
            (show (ThreadPc.busy .done ticket job).stage = WorkerPc.relock.stage from rfl)
          have same : (locked.workerStep index choice (.job .done)).stage = locked.stage :=
            stage_moved rfl rfl found rfl
          refine ⟨.complete index ticket job, ⟨choice, rfl, found⟩, atIndex, ?_⟩
          rw [same]
          exact ⟨ended.tmax, ended.shutdown, ended.jobQueue, ended.tbusy, ended.threads,
            ended.callers⟩
      | compute next => exact .inl (moved _ rfl rfl rfl)
      | run job next => exact .inl (moved _ rfl rfl rfl)
      | size next => exact .inl (moved _ rfl rfl rfl)
      | busy next => exact .inl (moved _ rfl rfl rfl)
  | call pc next =>
      have isCall : locked.callOf (.worker index) = some pc := by
        simp only [callOf, found]
      apply follows_call agree owned (.worker index) isCall (stage_of_found found) (holds_of_found found)
      case inCall =>
        intro other same
        cases same
        exact ⟨next, found⟩
      case ready => exact ready
      case shown =>
        intro later agrees
        have kept := callStep_threadList (.worker index) found rfl ready
        have inRange := (List.getElem?_eq_some_iff.mp kept).1
        have stays : (WorkerPc.ofCall next (locked.callStep (.worker index) choice pc).2).stage =
              (WorkerPc.call pc next).stage ∧
            (WorkerPc.ofCall next (locked.callStep (.worker index) choice pc).2).isEnding =
              (WorkerPc.call pc next).isEnding := by
          cases (locked.callStep (.worker index) choice pc).2 <;> exact ⟨rfl, rfl⟩
        have moved := agrees.setWorker kept stays.1 stays.2
        rw [← WorkerPc.ofCall_caller next, ← stage_callStep (.worker index) ready,
          ← stage_setWorker inRange] at moved
        exact moved
  | relock => exact .inl (silent _ _ _ rfl rfl rfl)
  | endJob =>
      left
      have same : (locked.workerStep index choice .endJob).stage = locked.stage :=
        stage_moved rfl rfl found rfl
      exact same.symm ▸ agree.countEnding found
  | wait => exact .inl (silent _ _ _ rfl rfl rfl)
  | blocked => exact ready.elim
  | unlockExit => exact .inl (silent _ _ _ rfl rfl rfl)
  | exited => exact ready.elim

theorem follows_client (agree : Agree locked.stage locked system) (owned : locked.Owned)
    {pc : CallPc} (found : locked.clients index = some pc) (ready : locked.CallReady choice pc) :
    locked.Follows system (.move (.client index) choice) (locked.clientStep index choice pc) := by
  have atStage : locked.stage (.client index) = pc.stage := by
    simp only [stage, found, Option.map_some, Option.getD_some]
  have holding : locked.holds (.client index) = pc.holds := by
    simp only [holds, found, Option.bind_some]
  apply follows_call agree owned (.client index) found atStage holding (fun _ same => by cases same) ready
  intro later agrees
  have moved : Agree (locked.clientStep index choice pc).stage
      (locked.callStep (.client index) choice pc).1 later := by
    rw [clientStep, stage_setClient, stage_callStep (.client index) ready]
    exact agrees
  exact ⟨moved.tmax, moved.shutdown, moved.jobQueue, moved.tbusy, moved.threads, moved.callers⟩

end LockSystem

end FastCrawl
