import FastCrawl.Program.Records

namespace FastCrawl

/-! The end of the program.  When `wait` has returned, the records are those of the
downloads, as far as the shutdown has let them run. -/

variable {environment : Environment} {host : Bytes} {tlimit : UInt64}
  {files : Bytes → Option Bytes}

namespace Session

variable {before later session : Session}

/-- The records of the first `count` jobs are what their downloads have made of them, and
those of the others have their defaults. -/
structure Downloaded (environment : Environment) (session : Session) (count : Nat) : Prop where
  done : ∀ ticket job, ticket < count → session.jobs[ticket]? = some job →
    ∃ record, session.crawler.downloads.uriRecords[job.record]? = some (job.uriStr, record) ∧
      session.crawler.download environment.zlib environment.perform job.uriStr job.line
        job.column environment.initialisation {} = .ok record
  untouched : ∀ ticket job, count ≤ ticket → session.jobs[ticket]? = some job →
    session.crawler.downloads.uriRecords[job.record]? = some (job.uriStr, {})

/-- When the main thread reports, nothing else runs. -/
theorem not_enabled_of_reporting (submitted : session.Submitted)
    (reporting : session.main = .reporting) (action : SessionAction) :
    ¬session.Enabled environment action := by
  rw [Submitted, reporting] at submitted
  obtain ⟨_, exited⟩ := submitted
  have notRunning : ∀ (worker : Nat) pc, session.pool.pool.threadList[worker]? = some pc →
      pc = .exited := fun worker pc found => exited pc (List.mem_of_getElem? found)
  intro enabled
  cases action with
  | chunk udata => exact enabled.2.not_ended.2 reporting
  | read ch =>
      have crawling := enabled.2
      rw [reporting] at crawling
      contradiction
  | work worker ticket job =>
      have running := notRunning _ _ enabled.2.1
      contradiction
  | pool action =>
      obtain ⟨_, takes, enabled⟩ := enabled
      have ofMain {client : Nat} {place : MainPc} (takes : client = 0 ∧ session.main = place)
          (other : place ≠ .reporting) : False := other (takes.2.symm.trans reporting)
      have ofThread (thread : action.OfThread) : False := by
        obtain ⟨pc, member, running⟩ := not_exited_of_ofThread thread enabled
        exact running (exited pc member)
      cases action with
      | push client job notified => exact ofMain takes (by simp)
      | reject client job => exact ofMain takes (by simp)
      | grow client ticket tbusy created => exact ofMain takes (by simp)
      | startThread tcnt created => exact takes
      | setSize threadCnt created => exact takes
      | callShutdown client => exact takes.2.not_ended.2 reporting
      | signalShutdown client due => exact ofMain takes (by simp)
      | joinThreads client due => exact ofMain takes (by simp)
      | enterLoop worker => exact ofThread trivial
      | invoke worker ticket job => exact ofThread trivial
      | complete worker ticket job => exact ofThread trivial
      | relock worker ticket job => exact ofThread trivial
      | wakeSpuriously worker => exact ofThread trivial

theorem Isolated.completed_of_reporting (isolated : session.Isolated environment host)
    (reporting : session.main = .reporting) {ticket : Nat}
    (taken : ticket < session.pool.dequeued.length) : ticket ∈ session.pool.completed := by
  have submitted := isolated.crawls.submitted
  rw [Submitted, reporting] at submitted
  obtain ⟨_, exited⟩ := submitted
  have idle : ∀ worker stage ticket job,
      ¬session.pool.At worker (.busy stage ticket job) := by
    intro worker stage ticket job at_job
    cases exited _ (List.mem_of_getElem? at_job)
  exact ShutdownDrains.completed_of_idle isolated.conserved taken fun _ _ =>
    ⟨idle _ _ _ _, idle _ _ _ _⟩

theorem Isolated.downloaded_of_completed (isolated : session.Isolated environment host)
    {count : Nat} (completed : ∀ ticket < count, ticket ∈ session.pool.completed)
    (taken : session.pool.dequeued.length ≤ count) : session.Downloaded environment count := by
  constructor
  case done =>
    intro ticket job inRange found
    refine ⟨_, ?_, isolated.written_of_completed found (completed ticket inRange)⟩
    rw [isolated.crawls.record_eq found]
    exact isolated.record ticket job found
  case untouched =>
    intro ticket job outside found
    have notInvoked : ticket ∉ session.pool.invoked := fun invoked => by
      have invokedTaken := isolated.conserved.invokedTaken ticket invoked
      omega
    rw [isolated.crawls.record_eq found, isolated.record ticket job found,
      isolated.unwritten_of_notInvoked notInvoked]

theorem Isolated.downloaded (isolated : session.Isolated environment host)
    (reporting : session.main = .reporting) :
    session.Downloaded environment session.pool.dequeued.length :=
  isolated.downloaded_of_completed (fun _ => isolated.completed_of_reporting reporting)
    (Nat.le_refl _)

/-- All jobs have been taken if and only if none is left in the queue. -/
theorem Isolated.dequeued_eq_iff (isolated : session.Isolated environment host)
    (reporting : session.main = .reporting) :
    session.pool.dequeued.length = session.jobs.length ↔ session.pool.pool.jobQueue = [] := by
  have submitted := isolated.crawls.submitted
  rw [Submitted, reporting] at submitted
  have order := congrArg List.length isolated.conserved.order
  rw [submitted.1, List.length_append, List.length_map] at order
  rw [← List.length_eq_zero_iff]
  omega

theorem Isolated.tbusy_of_reporting (isolated : session.Isolated environment host)
    (reporting : session.main = .reporting) : session.pool.pool.tbusy.toNat = 0 := by
  have submitted := isolated.crawls.submitted
  rw [Submitted, reporting] at submitted
  rw [isolated.conserved.busyCount, List.countP_eq_zero]
  intro pc member
  rw [submitted.2 pc member]
  exact Bool.false_ne_true

theorem completes_iff (reachable : before.Reachable environment host tlimit files)
    {due : List Nat} (enabled : before.Enabled environment (.pool (.signalShutdown 0 due)))
    (led : (sessionTransition environment).Leads
      (before.effect environment (.pool (.signalShutdown 0 due))) later)
    (isolated : later.Isolated environment host) (reporting : later.main = .reporting) :
    later.pool.dequeued.length = later.jobs.length ↔
      0 < before.pool.pool.tbusy.toNat ∨ before.pool.pool.jobQueue = [] := by
  have reachable' : (before.effect environment (.pool (.signalShutdown 0 due))).Reachable
      environment host tlimit files :=
    .step reachable (.pool (.signalShutdown 0 due)) trivial enabled
  refine (isolated.dequeued_eq_iff reporting).trans ?_
  -- The flag is not set yet, and is by this step.
  have up : before.pool.pool.shutdown = false := by
    have submitted := reachable.isolated.crawls.submitted
    obtain ⟨_, ⟨_, main⟩, called⟩ := enabled
    rw [Submitted, main] at submitted
    rcases submitted.2 with ⟨_, _, up⟩ | ⟨_, joining, _⟩
    · exact up
    · cases joining.symm.trans called
  obtain ⟨_, ledPool, rfl⟩ := (pool_simulation environment).leads rfl led
  have signalled : (before.effect environment (.pool (.signalShutdown 0 due))).pool =
      { before.pool.setClient 0 (.joining due) with
        pool := { before.pool.pool with
          shutdown := true
          threadList := before.pool.pool.threadList.map ThreadPc.notified } } :=
    PoolSystem.signalShutdown_up up 0 due
  have conserved := reachable'.isolated.conserved
  rw [signalled] at ledPool conserved
  constructor
  · intro empty
    rw [or_iff_not_imp_left]
    intro idle
    have same := PoolSystem.jobQueue_of_idle conserved rfl (by simpa using idle) ledPool
    exact same.symm.trans empty
  · intro drains
    refine PoolSystem.jobQueue_of_drains conserved ⟨rfl, ?_⟩ ledPool
      (isolated.tbusy_of_reporting reporting)
    rcases drains with working | empty
    · exact .inr (.inl working)
    · exact .inl empty

/-- When the main thread reports, no step of any thread is left, the first jobs have been
downloaded and the others have not been started.  No job is left out if and only if a
thread had a job, or none was queued, when `wait` set the flag. -/
theorem wait_completes_iff (reachable : before.Reachable environment host tlimit files)
    {due : List Nat} (enabled : before.Enabled environment (.pool (.signalShutdown 0 due)))
    (led : (sessionTransition environment).Leads
      (before.effect environment (.pool (.signalShutdown 0 due))) later)
    (reporting : later.main = .reporting) :
    (∀ action, ¬later.Enabled environment action) ∧
    ∃ count ≤ later.jobs.length, later.Downloaded environment count ∧
      (count = later.jobs.length ↔
        0 < before.pool.pool.tbusy.toNat ∨ before.pool.pool.jobQueue = []) := by
  have reachableLater : later.Reachable environment host tlimit files :=
    Transition.Reachable.leads (.step reachable (.pool (.signalShutdown 0 due)) trivial enabled) led
  have isolated := reachableLater.isolated
  exact ⟨not_enabled_of_reporting isolated.crawls.submitted reporting, _, isolated.dequeued_le,
    isolated.downloaded reporting, completes_iff reachable enabled led isolated reporting⟩

end Session

/-- The queue has a job and no thread has one when the flag is set. -/
theorem wait_completes_iff_idle : ∃ before later : Session,
    before.pool.pool.jobQueue.length = 1 ∧ before.pool.pool.tbusy = 0 ∧
    (∀ action, ¬ later.Enabled brokenEnvironment action) ∧
    ∃ count ≤ later.jobs.length, later.Downloaded brokenEnvironment count ∧
      (count = later.jobs.length ↔
        0 < before.pool.pool.tbusy.toNat ∨ before.pool.pool.jobQueue = []) := by
  let job : DownloadJob := { uriStr := bytes "x", line := 1, column := 9, record := 0 }
  obtain ⟨before, later, ranBefore, running, waiting, called, queued, idle, ranAfter, reporting⟩ :
      ∃ before later : Session,
        (sessionTransition brokenEnvironment).run (.new (bytes "h") 1 fun _ => none)
            (.chunk {} :: (bytes "<a href='x'").map SessionAction.read ++
              [.pool (.push 0 job none), .pool (.grow 0 0 0 0), .pool (.callShutdown 0)]) =
          some before ∧
        before.failure = none ∧ before.main = .waiting ∧
        before.pool.clients 0 = .shutdownCalled [0] ∧
        before.pool.pool.jobQueue.length = 1 ∧ before.pool.pool.tbusy = 0 ∧
        (sessionTransition brokenEnvironment).run
            (before.effect brokenEnvironment (.pool (.signalShutdown 0 [0])))
            [.pool (.enterLoop 0), .pool (.joinThreads 0 [0])] = some later ∧
        later.main = .reporting := ⟨_, _, rfl, rfl, rfl, rfl, rfl, rfl, rfl, rfl⟩
  have reachable : before.Reachable brokenEnvironment (bytes "h") 1 fun _ => none :=
    Transition.Reachable.run (.start rfl) ranBefore
  have led : (sessionTransition brokenEnvironment).Leads
      (before.effect brokenEnvironment (.pool (.signalShutdown 0 [0]))) later :=
    Transition.Reachable.run (.start rfl) ranAfter
  have enabled : before.Enabled brokenEnvironment (.pool (.signalShutdown 0 [0])) :=
    ⟨running, ⟨rfl, waiting⟩, called⟩
  have completed := Session.wait_completes_iff reachable enabled led reporting
  exact ⟨before, later, queued, idle, completed⟩

end FastCrawl
