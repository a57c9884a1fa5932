import Mathlib.Algebra.Order.BigOperators.Group.List
import FastCrawl.Library.Inevitable
import FastCrawl.Program.Failing
import FastCrawl.ThreadPool.Wakeup

namespace FastCrawl

/-! The program comes to its report, if curl ends each transfer.  Once `wait` has set the
flag, each step of a thread or of the main thread leaves less to do, and there is always
one that can be taken. -/

variable {environment : Environment} {host : Bytes} {tlimit : UInt64}
  {files : Bytes → Option Bytes}

/-- The steps that a thread can still make once the flag is set; `count` has the number of
steps of each download. -/
def ThreadPc.work (count : DownloadJob → Nat) (progress : Nat → Nat) :
    ThreadPc DownloadJob → Nat
  | .awake => 1
  | .waiting | .exited => 0
  | .busy .taken _ job => count job + 3
  | .busy .running ticket job => count job - progress ticket + 2
  | .busy .done _ _ => 1

/-- What the pooled threads do of themselves, spurious wake-ups apart. -/
def SessionAction.OfDownloads : SessionAction → Prop
  | .work .. => True
  | .pool (.enterLoop _) | .pool (.invoke ..) | .pool (.complete ..) | .pool (.relock ..) => True
  | _ => False

namespace Session

variable {before session : Session}

/-- The number of the steps of a download, if all transfers end. -/
def count (ends : environment.TransfersEnd) (session : Session) (job : DownloadJob) : Nat :=
  (session.steps environment job).length (downloadSteps_terminates ends)

/-- What is left to do: by the threads, with the queue, and by the main thread. -/
def workLeft (ends : environment.TransfersEnd) (session : Session) : Nat :=
  (session.pool.pool.threadList.map (ThreadPc.work (session.count ends) session.progress)).sum +
    (session.pool.pool.jobQueue.map fun job => session.count ends job + 3).sum +
    if session.main = .reporting then 0 else 1

/-- A thread that has a job can make a step. -/
theorem busy_moves (running : before.failure = none) {worker ticket : Nat} {stage : JobStage}
    {job : DownloadJob} (found : before.pool.At worker (.busy stage ticket job)) :
    ∃ action, SessionAction.OfDownloads action ∧ before.Enabled environment action := by
  cases stage with
  | taken => exact ⟨.pool (.invoke worker ticket job), trivial, running, trivial, found⟩
  | running =>
      by_cases ended : (before.steps environment job).TerminatedAt (before.progress ticket)
      · exact ⟨.pool (.complete worker ticket job), trivial, running, ended, found⟩
      · exact ⟨.work worker ticket job, trivial, running, found, ended⟩
  | done => exact ⟨.pool (.relock worker ticket job), trivial, running, trivial, found⟩

/-- The main thread is in `wait` behind the flag, or past it. -/
structure Ending (environment : Environment) (host : Bytes) (tlimit : UInt64)
    (files : Bytes → Option Bytes) (session : Session) : Prop where
  reachable : session.Reachable environment host tlimit files
  down : session.pool.pool.shutdown = true
  main : session.main = .waiting ∨ session.main = .reporting

namespace Ending

variable (ending : before.Ending environment host tlimit files) (waiting : before.main = .waiting)
  (running : before.failure = none)
include ending waiting running

/-- While a thread is left it can make a step, and when none is, they can be joined. -/
theorem progress : ∃ action, before.Enabled environment action := by
  by_cases left : ∀ pc ∈ before.pool.pool.threadList, pc = .exited
  · have submitted := ending.reachable.isolated.crawls.submitted
    rw [Submitted, waiting] at submitted
    obtain ⟨_, ⟨_, _, up⟩ | ⟨due, joining, _⟩⟩ := submitted
    · exact absurd (up.symm.trans ending.down) (by simp)
    · exact ⟨.pool (.joinThreads 0 due), running, ⟨rfl, waiting⟩, joining, left⟩
  · simp only [not_forall] at left
    obtain ⟨pc, present, notExited⟩ := left
    obtain ⟨worker, found⟩ := List.mem_iff_getElem?.mp present
    cases pc with
    | awake => exact ⟨.pool (.enterLoop worker), running, trivial, found⟩
    | waiting =>
        have kept := NoLostWakeup.of_reachable ending.reachable.pool
        exact absurd found (kept.allAwake worker ending.down)
    | exited => exact absurd rfl notExited
    | busy stage ticket job =>
        obtain ⟨action, _, enabled⟩ := busy_moves running found
        exact ⟨action, enabled⟩

end Ending

/-- Nothing is left to be done behind the report. -/
theorem Ending.waiting (ending : before.Ending environment host tlimit files)
    {action : SessionAction} (enabled : before.Enabled environment action) :
    before.main = .waiting := by
  refine ending.main.resolve_right fun reporting => ?_
  have submitted := ending.reachable.isolated.crawls.submitted
  exact not_enabled_of_reporting submitted reporting action enabled

section Less

variable (ends : environment.TransfersEnd)

/-- A thread that is moved to a place with less work. -/
theorem workLeft_lt_of_set {after : Session} {worker : Nat} {old new : ThreadPc DownloadJob}
    (found : before.pool.At worker old)
    (threads : after.pool.pool.threadList = before.pool.pool.threadList.set worker new)
    (crawler : after.crawler = before.crawler) (progress : after.progress = before.progress)
    (main : after.main = before.main)
    (less : ThreadPc.work (before.count ends) before.progress new +
        (after.pool.pool.jobQueue.map fun job => before.count ends job + 3).sum <
      ThreadPc.work (before.count ends) before.progress old +
        (before.pool.pool.jobQueue.map fun job => before.count ends job + 3).sum) :
    after.workLeft ends < before.workLeft ends := by
  have moved := sum_map_set found new (ThreadPc.work (before.count ends) before.progress)
  have sameCount : after.count ends = before.count ends := by
    funext job
    simp only [count, steps, crawler]
  rw [workLeft, workLeft, threads, sameCount, progress, main]
  omega

theorem workLeft_work {worker ticket : Nat} {job : DownloadJob}
    (enabled : before.Enabled environment (.work worker ticket job)) :
    (before.work environment ticket job).workLeft ends < before.workLeft ends := by
  obtain ⟨_, at_job, more⟩ := enabled
  obtain ⟨step, next⟩ := Option.ne_none_iff_exists'.mp more
  have inRange : before.progress ticket < before.count ends job :=
    Stream'.Seq.lt_length_iff.mpr ⟨step, next⟩
  let progress := Function.update before.progress ticket (before.progress ticket + 1)
  have further : before.progress ≤ progress :=
    le_update_iff.mpr ⟨Nat.le_succ _, fun _ _ => Nat.le_refl _⟩
  have fewer : (before.pool.pool.threadList.map (ThreadPc.work (before.count ends)
      progress)).sum < (before.pool.pool.threadList.map (ThreadPc.work (before.count ends)
        before.progress)).sum := by
    refine List.sum_lt_sum _ _ (fun pc _ => ?_) ⟨_, List.mem_of_getElem? at_job, ?_⟩
    · cases pc with
      | busy stage ticket' job' =>
          have bound : before.progress ticket' ≤ progress ticket' := further ticket'
          cases stage <;> simp only [ThreadPc.work] <;> omega
      | _ => exact Nat.le_refl _
    · have made : progress ticket = before.progress ticket + 1 := Function.update_self ..
      simp only [ThreadPc.work, made]
      omega
  rw [before.work_eq next]
  change _ + _ + _ < _ + _ + _
  exact Nat.add_lt_add_right (Nat.add_lt_add_right fewer _) _

theorem workLeft_invoke {worker ticket : Nat} {job : DownloadJob}
    (taken : before.pool.At worker (.busy .taken ticket job)) :
    (before.effect environment (.pool (.invoke worker ticket job))).workLeft ends <
      before.workLeft ends := by
  refine workLeft_lt_of_set ends taken rfl rfl rfl rfl (Nat.add_lt_add_right ?_ _)
  simp only [ThreadPc.work]
  omega

theorem workLeft_complete {worker ticket : Nat} {job : DownloadJob}
    (running : before.pool.At worker (.busy .running ticket job)) :
    (before.effect environment (.pool (.complete worker ticket job))).workLeft ends <
      before.workLeft ends := by
  refine workLeft_lt_of_set ends running rfl rfl rfl rfl (Nat.add_lt_add_right ?_ _)
  simp only [ThreadPc.work]
  omega

/-- A thread that comes to the queue takes a job off it, or else waits or exits. -/
theorem workLeft_executeQueued {after : Session} {system : PoolSystem DownloadJob} {worker : Nat}
    {old : ThreadPc DownloadJob} (found : before.pool.At worker old)
    (work : ThreadPc.work (before.count ends) before.progress old = 1)
    (threads : ∀ pc, system.pool.threadList.set worker pc =
      before.pool.pool.threadList.set worker pc)
    (queue : system.pool.jobQueue = before.pool.pool.jobQueue)
    (pool : after.pool = system.executeQueued worker) (crawler : after.crawler = before.crawler)
    (progress : after.progress = before.progress) (main : after.main = before.main) :
    after.workLeft ends < before.workLeft ends := by
  cases queued : before.pool.pool.jobQueue with
  | nil =>
      rw [PoolSystem.executeQueued_nil (queue.trans queued)] at pool
      have stops : after.pool.pool.threadList = before.pool.pool.threadList.set worker
          (if system.pool.shutdown then .exited else .waiting) := by
        rw [pool]
        exact threads _
      have left : after.pool.pool.jobQueue = before.pool.pool.jobQueue := by
        rw [pool]
        exact queue
      refine workLeft_lt_of_set ends found stops crawler progress main ?_
      rw [left, work]
      refine Nat.add_lt_add_right ?_ _
      split <;> exact Nat.zero_lt_one
  | cons next rest =>
      rw [PoolSystem.executeQueued_cons (queue.trans queued)] at pool
      have takes : after.pool.pool.threadList = before.pool.pool.threadList.set worker
          (.busy .taken system.dequeued.length next) := by
        rw [pool]
        exact threads _
      have left : after.pool.pool.jobQueue = rest := by
        rw [pool]
        rfl
      refine workLeft_lt_of_set ends found takes crawler progress main ?_
      rw [left, queued, List.map_cons, List.sum_cons, work]
      simp only [ThreadPc.work]
      omega

theorem workLeft_relock {worker ticket : Nat} {job : DownloadJob}
    (atRelock : before.pool.At worker (.busy .done ticket job)) :
    (before.effect environment (.pool (.relock worker ticket job))).workLeft ends <
      before.workLeft ends := by
  have threads (pc : ThreadPc DownloadJob) :
      (before.pool.endJob worker).pool.threadList.set worker pc =
        before.pool.pool.threadList.set worker pc := List.set_set ..
  exact workLeft_executeQueued ends atRelock rfl threads rfl rfl rfl rfl rfl

/-- Each step that can be taken behind the flag leaves less to do. -/
theorem Ending.less (ending : before.Ending environment host tlimit files)
    {action : SessionAction} (enabled : before.Enabled environment action) :
    (before.effect environment action).workLeft ends < before.workLeft ends := by
  have waiting := ending.waiting enabled
  cases action with
  | chunk udata => exact absurd waiting enabled.2.not_ended.1
  | read ch => exact absurd (waiting.symm.trans enabled.2) (by simp)
  | work worker ticket job => exact workLeft_work ends enabled
  | pool action =>
      obtain ⟨_, takes, enabled⟩ := enabled
      have elsewhere {client : Nat} {place : MainPc} (takes : client = 0 ∧ before.main = place)
          (other : place ≠ .waiting) : False := other (takes.2.symm.trans waiting)
      cases action with
      | push client job notified => exact (elsewhere takes (by simp)).elim
      | reject client job => exact (elsewhere takes (by simp)).elim
      | grow client ticket tbusy created => exact (elsewhere takes (by simp)).elim
      | startThread tcnt created => exact takes.elim
      | setSize threadCnt created => exact takes.elim
      | callShutdown client => exact absurd waiting takes.2.not_ended.1
      | signalShutdown client due =>
          have submitted := ending.reachable.isolated.crawls.submitted
          rw [Submitted, waiting] at submitted
          obtain ⟨_, ⟨_, _, up⟩ | ⟨_, joining, _⟩⟩ := submitted
          · exact absurd (up.symm.trans ending.down) (by simp)
          · rw [takes.1] at enabled
            exact absurd (joining.symm.trans enabled) (by simp)
      | joinThreads client due =>
          have left : (if before.main = .reporting then 0 else 1) = 1 := by
            rw [waiting]
            rfl
          rw [workLeft, workLeft, left]
          exact Nat.lt_succ_self _
      | enterLoop worker =>
          have exits : (before.pool.effect (.enterLoop worker)) =
              before.pool.setPc worker .exited := if_pos ending.down
          refine workLeft_lt_of_set ends enabled (congrArg (·.pool.threadList) exits) rfl rfl rfl ?_
          change _ + ((before.pool.effect (.enterLoop worker)).pool.jobQueue.map _).sum < _
          rw [exits]
          exact Nat.add_lt_add_right Nat.zero_lt_one _
      | invoke worker ticket job => exact workLeft_invoke ends enabled
      | complete worker ticket job => exact workLeft_complete ends enabled
      | relock worker ticket job => exact workLeft_relock ends enabled
      | wakeSpuriously worker =>
          have kept := NoLostWakeup.of_reachable ending.reachable.pool
          exact absurd enabled (kept.allAwake worker ending.down)

end Less

theorem Ending.effect (ending : before.Ending environment host tlimit files)
    {action : SessionAction} (enabled : before.Enabled environment action) :
    (before.effect environment action).Ending environment host tlimit files := by
  have waiting := ending.waiting enabled
  have reachable : (before.effect environment action).Reachable environment host tlimit files :=
    .step ending.reachable action trivial enabled
  cases action with
  | chunk udata => exact absurd waiting enabled.2.not_ended.1
  | read ch => exact absurd (waiting.symm.trans enabled.2) (by simp)
  | work worker ticket job =>
      refine ⟨reachable, ?_, .inl ?_⟩
      · change (before.work environment ticket job).pool.pool.shutdown = true
        rw [work_pool]
        exact ending.down
      · change (before.work environment ticket job).main = .waiting
        unfold work
        split <;> exact waiting
  | pool action =>
      obtain ⟨_, takes, enabled⟩ := enabled
      refine ⟨reachable, (PoolSystem.effect_of_down ending.down enabled).1, ?_⟩
      change before.mainAfter action = .waiting ∨ before.mainAfter action = .reporting
      have elsewhere {client : Nat} {place : MainPc} (takes : client = 0 ∧ before.main = place)
          (other : place ≠ .waiting) : False := other (takes.2.symm.trans waiting)
      cases action with
      | push client job notified => exact (elsewhere takes (by simp)).elim
      | reject client job => exact (elsewhere takes (by simp)).elim
      | grow client ticket tbusy created => exact (elsewhere takes (by simp)).elim
      | callShutdown client => exact absurd waiting takes.2.not_ended.1
      | signalShutdown client due => exact .inr (if_pos ending.down)
      | joinThreads client due => exact .inr rfl
      | _ => exact .inl waiting

/-- Only the crawl adds to the content. -/
theorem Ending.content (ending : before.Ending environment host tlimit files)
    {action : SessionAction} (enabled : before.Enabled environment action) :
    (before.effect environment action).content = before.content := by
  cases action with
  | chunk udata => rfl
  | read ch => exact absurd ((ending.waiting enabled).symm.trans enabled.2) (by simp)
  | work worker ticket job =>
      change (before.work environment ticket job).content = before.content
      unfold work
      split <;> rfl
  | pool action => rfl

theorem Ending.inevitable (ends : environment.TransfersEnd)
    (ending : session.Ending environment host tlimit files) :
    (sessionTransition environment).Inevitable
      (fun later => later.main = .reporting ∨ later.Fails) session := by
  refine Transition.Inevitable.of_measure Nat.lt_wfRel.wf (workLeft ends) ?progress ?keeps ending
  case progress =>
    intro later ending out
    rw [not_or] at out
    refine ending.progress (ending.main.resolve_right out.1) ?_
    by_contra failed
    exact out.2 (ending.reachable.accounted.fails failed)
  case keeps =>
    intro later action ending _ enabled
    exact ⟨ending.effect enabled, ending.less ends enabled⟩

/-- A step behind the flag calls `curl_write` in a download only. -/
theorem Ending.intact (ends : environment.TransfersEnd) (userdata : environment.UserdataIntact)
    (ending : before.Ending environment host tlimit files) {action : SessionAction}
    (enabled : before.Enabled environment action)
    (intact : ∀ udata ∈ before.found, udata.Intact) :
    ∀ udata ∈ (before.effect environment action).found, udata.Intact := by
  cases action with
  | chunk udata => exact absurd (ending.waiting enabled) enabled.2.not_ended.1
  | read ch => exact absurd ((ending.waiting enabled).symm.trans enabled.2) (by simp)
  | work worker ticket job =>
      obtain ⟨step, next⟩ := Option.ne_none_iff_exists'.mp enabled.2.2
      change ∀ udata ∈ (before.work environment ticket job).found, udata.Intact
      rw [before.work_eq next]
      intro udata called
      rcases List.mem_append.mp called with earlier | this
      · exact intact udata earlier
      · exact downloadSteps_intact ends userdata next udata this
  | pool action => exact intact

/-- What the end of the program keeps. -/
theorem Ending.leads (ending : before.Ending environment host tlimit files)
    (led : (sessionTransition environment).Leads before session) :
    session.Ending environment host tlimit files ∧ session.content = before.content := by
  refine led.invariant (fun session => session.Ending environment host tlimit files ∧
    session.content = before.content) ⟨ending, rfl⟩ ?_
  rintro later action ⟨ending, same⟩ enabled
  exact ⟨ending.effect enabled, (ending.content enabled).trans same⟩

theorem Ending.intact_leads (ends : environment.TransfersEnd)
    (userdata : environment.UserdataIntact)
    (ending : before.Ending environment host tlimit files)
    (led : (sessionTransition environment).Leads before session)
    (intact : ∀ udata ∈ before.found, udata.Intact) : ∀ udata ∈ session.found, udata.Intact := by
  refine (led.invariant (fun session => session.Ending environment host tlimit files ∧
    ∀ udata ∈ session.found, udata.Intact) ⟨ending, intact⟩ ?_).2
  rintro later action ⟨ending, intact⟩ enabled
  exact ⟨ending.effect enabled, ending.intact ends userdata enabled intact⟩

theorem Ending.signalShutdown (reachable : before.Reachable environment host tlimit files)
    {due : List Nat} (enabled : before.Enabled environment (.pool (.signalShutdown 0 due))) :
    (before.effect environment (.pool (.signalShutdown 0 due))).Ending environment host tlimit
      files where
  reachable := .step reachable (.pool (.signalShutdown 0 due)) trivial enabled
  down := by
    change (before.pool.signalShutdown 0 due).pool.shutdown = true
    cases down : before.pool.pool.shutdown with
    | true => rw [PoolSystem.signalShutdown_down down]; exact down
    | false => rw [PoolSystem.signalShutdown_up down]
  main := by
    cases down : before.pool.pool.shutdown with
    | true => exact .inr (if_pos down)
    | false => exact .inl (if_neg (by simp [down]))

/-- If curl ends each transfer then, once `wait` has set the flag, the program comes to its
report in every order of the steps that are left, or else it fails: on a link whose port is
no port number, or in a call of `curl_write` that does not find its userdata intact. -/
theorem wait_returns (ends : environment.TransfersEnd)
    (reachable : session.Reachable environment host tlimit files)
    (waiting : session.main = .waiting) (down : session.pool.pool.shutdown = true) :
    (sessionTransition environment).Inevitable
      (fun later => later.main = .reporting ∨ later.Fails) session :=
  (Ending.mk reachable down (.inl waiting)).inevitable ends

end Session

theorem wait_returns_running : ∃ session : Session,
    (session.main = .waiting ∧ session.pool.invoked = [0]) ∧
      (sessionTransition brokenEnvironment).Inevitable
        (fun later => later.main = .reporting ∨ later.Fails) session := by
  let job : DownloadJob := { uriStr := bytes "x", line := 1, column := 9, record := 0 }
  have observed : ((sessionTransition brokenEnvironment).run (.new (bytes "h") 1 fun _ => none)
      (.chunk {} :: (bytes "<a href='x'").map SessionAction.read ++
        [.pool (.push 0 job none), .pool (.grow 0 0 0 0), .pool (.enterLoop 0),
          .pool (.invoke 0 0 job), .work 0 0 job, .pool (.callShutdown 0),
          .pool (.signalShutdown 0 [0])])).map
      (fun session => (session.main, session.pool.pool.shutdown, session.pool.invoked)) =
        some (.waiting, true, [0]) := by
    decide +kernel
  obtain ⟨session, ran, same⟩ := Option.map_eq_some_iff.mp observed
  obtain ⟨waiting, same⟩ := Prod.mk.inj same
  obtain ⟨down, invoked⟩ := Prod.mk.inj same
  have reachable : session.Reachable brokenEnvironment (bytes "h") 1 fun _ => none :=
    Transition.Reachable.run (.start rfl) ran
  exact ⟨session, ⟨waiting, invoked⟩,
    Session.wait_returns brokenEnvironment_transfersEnd reachable waiting down⟩

end FastCrawl
