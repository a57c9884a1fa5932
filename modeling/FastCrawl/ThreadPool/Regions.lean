import FastCrawl.ThreadPool.Levels

namespace FastCrawl

/-! What a region does on both levels: the code that runs under a mutex is one step
of the system of regions. -/

namespace LockSystem

section Stages

variable {locked : LockSystem} {index : Nat}

theorem stage_of_found {pc : WorkerPc} (found : locked.threadList[index]? = some pc) :
    locked.stage (.worker index) = pc.caller := by
  simp only [stage, found, Option.map_some, Option.getD_some]

theorem stage_setWorker (inRange : index < locked.threadList.length) (pc : WorkerPc) :
    (locked.setWorker index pc).stage = Function.update locked.stage (.worker index) pc.caller := by
  funext party
  by_cases same : party = .worker index
  · rw [same, Function.update_self, stage_of_found (List.getElem?_set_self inRange)]
  · rw [Function.update_of_ne same]
    cases party with
    | worker other =>
        have different : index ≠ other := fun equal => same (equal ▸ rfl)
        simp only [stage, setWorker, List.getElem?_set_ne different]
    | client _ => rfl
    | closer => rfl

theorem stage_setClient (pc : Option CallPc) :
    (locked.setClient index pc).stage =
      Function.update locked.stage (.client index) ((pc.map CallPc.stage).getD .outside) := by
  funext party
  by_cases same : party = .client index
  · rw [same, Function.update_self]
    simp only [stage, setClient, Function.update_self]
  · rw [Function.update_of_ne same]
    cases party with
    | worker _ => rfl
    | client other =>
        have different : other ≠ index := fun equal => same (equal ▸ rfl)
        simp only [stage, setClient, Function.update_of_ne different]
    | closer => rfl

theorem stage_emplaceThreads (locked : LockSystem) (created : Nat) :
    (locked.emplaceThreads created).stage = locked.stage := by
  funext party
  cases party with
  | worker index =>
      simp only [stage, emplaceThreads, List.getElem?_append]
      split
      next => rfl
      next past =>
        rw [List.getElem?_eq_none (Nat.le_of_not_lt past), List.getElem?_replicate]
        split <;> rfl
  | client _ => rfl
  | closer => rfl

end Stages

/-- No thread is on its way into the wait or behind a job, with the mutex of the
queue held. -/
def Quiet (locked : LockSystem) : Prop :=
  ∀ pc ∈ locked.threadList, pc ≠ .wait ∧ pc.isEnding = false

/-- The mutex of the queue is in other hands than those of a thread in its loop. -/
theorem quiet_of_owner {locked : LockSystem} (owned : locked.Owned) {party : Party}
    (owns : locked.owner .jobQueue = some party)
    (elsewhere : ∀ index pc, party = .worker index → locked.threadList[index]? = some pc →
      pc ≠ .wait ∧ pc.isEnding = false) : locked.Quiet := by
  intro pc present
  obtain ⟨index, found⟩ := List.mem_iff_getElem?.mp present
  by_cases holding : pc.holds = some .jobQueue
  · have also := (owned .jobQueue (.worker index)).mpr ((holds_of_found found).trans holding)
    exact elsewhere index pc (Option.some.inj (owns.symm.trans also)) found
  · cases pc with
    | wait => exact absurd rfl holding
    | loop outer => exact absurd rfl holding
    | _ => exact ⟨nofun, rfl⟩

end LockSystem

/-- The number of ending threads, with one that moves. -/
theorem countP_isEnding_set {pcs : List WorkerPc} {index : Nat} {pc : WorkerPc}
    (found : pcs[index]? = some pc) (next : WorkerPc) :
    (pcs.set index next).countP WorkerPc.isEnding + (if pc.isEnding then 1 else 0) =
      pcs.countP WorkerPc.isEnding + (if next.isEnding then 1 else 0) := by
  obtain ⟨inRange, rfl⟩ := List.getElem?_eq_some_iff.mp found
  have counted := List.boole_getElem_le_countP (p := WorkerPc.isEnding) inRange
  rw [List.countP_set inRange]
  omega

theorem map_stage_set {pcs : List WorkerPc} {index : Nat} {pc next : WorkerPc}
    (found : pcs[index]? = some pc) (sameStage : next.stage = pc.stage) :
    (pcs.set index next).map WorkerPc.stage = pcs.map WorkerPc.stage := by
  obtain ⟨inRange, rfl⟩ := List.getElem?_eq_some_iff.mp found
  rw [List.map_set, sameStage, ← List.map_set, List.set_getElem_self]

namespace Agree

variable {stage : Party → CallerStage} {locked : LockSystem} {system : PoolSystem PoolJob}
  {choice : Choice} {party : Party}

theorem length (agree : Agree stage locked system) :
    system.pool.threadList.length = locked.threadList.length := by
  simpa using congrArg List.length agree.threads

theorem tbusy_of_quiet (agree : Agree stage locked system) (quiet : locked.Quiet) :
    system.pool.tbusy = locked.tbusy := by
  have none : locked.threadList.countP WorkerPc.isEnding = 0 :=
    List.countP_eq_zero.mpr fun pc present => by simp [(quiet pc present).2]
  simpa [none] using agree.tbusy

theorem canStart_iff (agree : Agree stage locked system) (tcnt : UInt64) (created : Nat) :
    system.pool.CanStart tcnt created ↔ locked.sized.CanStart tcnt created := by
  simp only [ThreadPool.CanStart, agree.length, LockSystem.sized, List.length_map]

theorem size (agree : Agree stage locked system) : system.pool.size = locked.sized.size := by
  simp only [ThreadPool.size, agree.length, LockSystem.sized, List.length_map]

theorem applyThreadLimit (agree : Agree stage locked system) (tcnt : UInt64) :
    system.pool.applyThreadLimit tcnt = locked.sized.applyThreadLimit tcnt := by
  have sameLimit : locked.sized.tmax = system.pool.tmax := agree.tmax.symm
  simp only [ThreadPool.applyThreadLimit, agree.size, sameLimit]

/-- The stage of a thread shows its place on the level of regions. -/
theorem exists_thread (agree : Agree stage locked system) {index : Nat} {pc : WorkerPc}
    (found : locked.threadList[index]? = some pc) :
    ∃ place, system.pool.threadList[index]? = some place ∧ place.stage = pc.stage := by
  have sameStage := congrArg (fun stages => stages[index]?) agree.threads
  simp only [List.getElem?_map, found, Option.map_some] at sameStage
  exact Option.map_eq_some_iff.mp sameStage

theorem idle (agree : Agree stage locked system) (outside : stage party = .outside) :
    system.clients party.caller = .idle := by
  have shown := (agree.callers party).trans outside
  cases place : system.clients party.caller with
  | idle => rfl
  | _ => simp [place, ClientPc.stage] at shown

theorem pushed (agree : Agree stage locked system) {tbusy : UInt64}
    (atStage : stage party = .pushed tbusy) :
    ∃ ticket, system.clients party.caller = .pushed ticket tbusy := by
  have shown := (agree.callers party).trans atStage
  cases place : system.clients party.caller with
  | pushed ticket read =>
      rw [place] at shown
      cases shown
      exact ⟨ticket, rfl⟩
  | _ => simp [place, ClientPc.stage] at shown

theorem update_callers (agree : Agree stage locked system) (pc : ClientPc) (other : Party) :
    (Function.update system.clients party.caller pc other.caller).stage =
      Function.update stage party pc.stage other := by
  by_cases same : other = party
  · rw [same, Function.update_self, Function.update_self]
  · have apart : other.caller ≠ party.caller := fun equal => same (Party.caller_injective equal)
    rw [Function.update_of_ne same, Function.update_of_ne apart]
    exact agree.callers other

theorem emplaceThreads (agree : Agree stage locked system) {later : PoolSystem PoolJob}
    {created : Nat} (pool : later.pool = system.pool.emplaceThreads created)
    {stage' : Party → CallerStage}
    (callers : ∀ other : Party, (later.clients other.caller).stage = stage' other) :
    Agree stage' (locked.emplaceThreads created) later where
  tmax := by rw [pool]; exact agree.tmax
  shutdown := by rw [pool]; exact agree.shutdown
  jobQueue := by rw [pool]; exact agree.jobQueue
  tbusy := by
    have none : (List.replicate created WorkerPc.lockLoop).countP WorkerPc.isEnding = 0 := by
      simp [List.countP_replicate, WorkerPc.isEnding]
    rw [pool, LockSystem.emplaceThreads, List.countP_append, none]
    exact agree.tbusy
  threads := by
    rw [pool, LockSystem.emplaceThreads, ThreadPool.emplaceThreads, List.map_append,
      List.map_append, agree.threads, List.map_replicate, List.map_replicate]
    rfl
  callers := callers

/-- A notification reaches the same thread on both levels, if none is on its way into
the wait. -/
theorem canNotify (agree : Agree stage locked system) (quiet : locked.Quiet)
    {notified : Option Nat} (canNotify : locked.CanNotify notified) :
    system.pool.CanNotify notified := by
  cases notified with
  | none =>
      intro place present waits
      obtain ⟨index, found⟩ := List.mem_iff_getElem?.mp present
      have inRange : index < locked.threadList.length :=
        agree.length ▸ (List.getElem?_eq_some_iff.mp found).1
      have atIndex := List.getElem?_eq_getElem inRange
      obtain ⟨place', found', sameStage⟩ := agree.exists_thread atIndex
      cases found.symm.trans found'
      have present' := List.mem_of_getElem? atIndex
      have running := canNotify _ present'
      have notWaiting := (quiet _ present').1
      rw [waits] at sameStage
      cases atPc : locked.threadList[index] with
      | wait => exact notWaiting atPc
      | blocked => simp [atPc, WorkerPc.isBlocked] at running
      | loop outer => cases outer <;> simp [atPc, WorkerPc.stage, ThreadPc.stage] at sameStage
      | _ => simp [atPc, WorkerPc.stage, ThreadPc.stage] at sameStage
  | some worker =>
      obtain ⟨pc, found, blocked⟩ := Option.map_eq_some_iff.mp canNotify
      obtain ⟨place, atWorker, sameStage⟩ := agree.exists_thread found
      cases pc with
      | blocked =>
          rw [ThreadPc.of_waiting sameStage] at atWorker
          exact atWorker
      | _ => contradiction

theorem setWorker (agree : Agree stage locked system) {index : Nat} {pc next : WorkerPc}
    (found : locked.threadList[index]? = some pc) (sameStage : next.stage = pc.stage)
    (sameEnding : next.isEnding = pc.isEnding) : Agree stage (locked.setWorker index next) system where
  tmax := agree.tmax
  shutdown := agree.shutdown
  jobQueue := agree.jobQueue
  tbusy := by
    have counts := countP_isEnding_set found next
    rw [sameEnding] at counts
    rw [agree.tbusy, LockSystem.setWorker, Nat.add_right_cancel counts]
  threads := by
    rw [agree.threads, LockSystem.setWorker, map_stage_set found sameStage]
  callers := agree.callers

theorem notifyOne (agree : Agree stage locked system) {notified : Option Nat}
    (canNotify : locked.CanNotify notified) (job : PoolJob) {later : PoolSystem PoolJob}
    (pool : later.pool = { system.pool with
      jobQueue := system.pool.jobQueue ++ [job] }.notifyOne notified)
    {stage' : Party → CallerStage}
    (callers : ∀ other : Party, (later.clients other.caller).stage = stage' other) :
    Agree stage' ({ locked with jobQueue := locked.jobQueue ++ [job] }.notifyOne notified)
      later := by
  cases notified with
  | none =>
      refine ⟨?_, ?_, ?_, ?_, ?_, callers⟩
      · rw [pool]; exact agree.tmax
      · rw [pool]; exact agree.shutdown
      · rw [pool]; exact congrArg (· ++ [job]) agree.jobQueue
      · rw [pool]; exact agree.tbusy
      · rw [pool]; exact agree.threads
  | some worker =>
      obtain ⟨pc, found, isBlocked⟩ := Option.map_eq_some_iff.mp canNotify
      cases pc with
      | blocked =>
          have sameCount := Nat.add_right_cancel (countP_isEnding_set found .lockLoop)
          refine ⟨?_, ?_, ?_, ?_, ?_, callers⟩
          · rw [pool]; exact agree.tmax
          · rw [pool]; exact agree.shutdown
          · rw [pool]; exact congrArg (· ++ [job]) agree.jobQueue
          · rw [pool]
            change system.pool.tbusy = locked.tbusy +
              .ofNat ((locked.threadList.set worker .lockLoop).countP WorkerPc.isEnding)
            rw [sameCount, agree.tbusy]
          · rw [pool]
            change (system.pool.threadList.set worker .awake).map ThreadPc.stage =
              (locked.threadList.set worker .lockLoop).map WorkerPc.stage
            rw [List.map_set, List.map_set, agree.threads]
            rfl
      | _ => contradiction

/-- The code of a region leaves the system of regions as it is or is one step of it. -/
theorem runRegion (agree : Agree stage locked system) {region : Region}
    (atStage : stage party = (CallPc.inside region).stage)
    (quiet : region.mutex = .jobQueue → locked.Quiet) (ready : locked.CanRun choice region) :
    let stage' := Function.update stage party
      (CallPc.unlock region.mutex (locked.runRegion choice region).2).stage
    Agree stage' (locked.runRegion choice region).1 system ∨
      ∃ answer, (∀ action, locked.Runs action party.caller region choice →
          locked.Performs action answer) ∧
        system.Enabled answer ∧
        Agree stage' (locked.runRegion choice region).1 (system.effect answer) := by
  have kept (outside : stage party = .outside) : Function.update stage party .outside = stage :=
    Function.update_eq_self_iff.mpr outside.symm
  cases region with
  | push job =>
      right
      have idle : system.clients party.caller = .idle := agree.idle atStage
      cases down : locked.shutdown with
      | true =>
          have ran : locked.runRegion choice (.push job) =
              (locked, .inr (.queued (some false))) := if_pos down
          refine ⟨.reject party.caller job, fun action runs => ⟨choice, runs⟩,
            ⟨idle, agree.shutdown.trans down⟩, ?_⟩
          rw [ran]
          exact (kept atStage).symm ▸ agree
      | false =>
          have ran : locked.runRegion choice (.push job) =
              ({ locked with jobQueue := locked.jobQueue ++ [job] }.notifyOne choice.notified,
                .inl (.grow locked.tbusy)) := if_neg (by simp [down])
          have canNotify : locked.CanNotify choice.notified :=
            ready.resolve_left (by simp [down])
          refine ⟨.push party.caller job choice.notified, fun action runs => ⟨choice, rfl, runs⟩,
            ⟨idle, agree.shutdown.trans down, agree.canNotify (quiet rfl) canNotify⟩, ?_⟩
          rw [ran]
          refine agree.notifyOne canNotify job rfl fun other => ?_
          rw [← agree.tbusy_of_quiet (quiet rfl)]
          exact agree.update_callers _ other
  | grow tbusy =>
      right
      obtain ⟨ticket, pushed⟩ := agree.pushed atStage
      have sameCount : system.pool.growCount tbusy = locked.sized.growCount tbusy := by
        simp only [ThreadPool.growCount, agree.size, agree.applyThreadLimit]
      have canStart : system.pool.CanStart (system.pool.growCount tbusy) choice.created := by
        rw [sameCount]
        exact (agree.canStart_iff _ _).mpr ready
      exact ⟨.grow party.caller ticket tbusy choice.created,
        fun action runs => ⟨choice, rfl, runs⟩, ⟨pushed, canStart⟩,
        agree.emplaceThreads rfl (agree.update_callers .idle)⟩
  | size =>
      left
      exact (kept atStage).symm ▸ agree
  | setSize threadCnt =>
      right
      have sameCount : system.pool.sizeCount threadCnt = locked.sized.sizeCount threadCnt := by
        simp only [ThreadPool.sizeCount, agree.size, agree.applyThreadLimit]
      have canStart : system.pool.CanStart (system.pool.sizeCount threadCnt) choice.created := by
        rw [sameCount]
        exact (agree.canStart_iff _ _).mpr ready
      refine ⟨.setSize threadCnt choice.created,
        fun action runs => ⟨party.caller, choice, rfl, runs⟩, canStart, ?_⟩
      exact (kept atStage).symm ▸ agree.emplaceThreads rfl agree.callers
  | startThread tcnt =>
      right
      have canStart : system.pool.CanStart (system.pool.applyThreadLimit tcnt) choice.created := by
        rw [agree.applyThreadLimit]
        exact (agree.canStart_iff _ _).mpr ready
      refine ⟨.startThread tcnt choice.created,
        fun action runs => ⟨party.caller, choice, rfl, runs⟩, canStart, ?_⟩
      exact (kept atStage).symm ▸ agree.emplaceThreads rfl agree.callers
  | busy =>
      left
      exact (kept atStage).symm ▸ agree

/-- A step of a call, with the stage of its caller after it. -/
theorem callStep (agree : Agree stage locked system) (owned : locked.Owned) {pc : CallPc}
    (atStage : stage party = pc.stage) (holding : locked.holds party = pc.holds)
    (inCall : ∀ index, party = .worker index →
      ∃ next, locked.threadList[index]? = some (.call pc next))
    (ready : locked.CallReady choice pc) :
    let after := locked.callStep party choice pc
    let stage' := Function.update stage party
      ((after.2.getLeft?.map CallPc.stage).getD .outside)
    Agree stage' after.1 system ∨
      ∃ region answer, pc = .inside region ∧
        (∀ action, locked.Runs action party.caller region choice →
          locked.Performs action answer) ∧
        system.Enabled answer ∧ Agree stage' after.1 (system.effect answer) := by
  have kept : Function.update stage party pc.stage = stage :=
    Function.update_eq_self_iff.mpr atStage.symm
  cases pc with
  | lock region =>
      left
      have same : (CallPc.inside region).stage = (CallPc.lock region).stage := by
        cases region <;> rfl
      simp only [LockSystem.callStep, Sum.getLeft?_inl, Option.map_some, Option.getD_some, same,
        kept]
      exact ⟨agree.tmax, agree.shutdown, agree.jobQueue, agree.tbusy, agree.threads, agree.callers⟩
  | inside region =>
      have quiet (mutex : region.mutex = .jobQueue) : locked.Quiet := by
        have owns : locked.owner .jobQueue = some party :=
          mutex ▸ (owned region.mutex party).mpr holding
        refine LockSystem.quiet_of_owner owned owns fun index pc isWorker found => ?_
        obtain ⟨next, atCall⟩ := inCall index isWorker
        cases found.symm.trans atCall
        exact ⟨nofun, rfl⟩
      rcases agree.runRegion atStage quiet ready with silent | ⟨answer, performs, follows⟩
      · exact .inl silent
      · exact .inr ⟨region, answer, rfl, performs, follows⟩
  | unlock mutex next =>
      left
      cases next with
      | inl region =>
          have same : (CallPc.lock region).stage = (CallPc.unlock mutex (.inl region)).stage := by
            cases region <;> rfl
          simp only [LockSystem.callStep, Sum.getLeft?_inl, Option.map_some, Option.getD_some,
            same, kept]
          exact ⟨agree.tmax, agree.shutdown, agree.jobQueue, agree.tbusy, agree.threads,
            agree.callers⟩
      | inr outcome =>
          have outside : (CallPc.unlock mutex (.inr outcome)).stage = .outside := rfl
          rw [outside] at kept
          simp only [LockSystem.callStep, Sum.getLeft?_inr, Option.map_none, Option.getD_none, kept]
          exact ⟨agree.tmax, agree.shutdown, agree.jobQueue, agree.tbusy, agree.threads,
            agree.callers⟩

end Agree

end FastCrawl
