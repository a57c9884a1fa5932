import FastCrawl.Program.Ending
import FastCrawl.Program.Reporting
import FastCrawl.ThreadPool.Limit

namespace FastCrawl

/-! The downloads while the index page does not come any further.  No job that the pool has
accepted waits for the main thread: if curl ends each transfer, the pooled threads come to
the end of all of them by themselves. -/

section Threads

variable {Job : Type} {before after system : PoolSystem Job}

/-- No thread leaves its loop before the flag is set. -/
def PoolSystem.NoneExits (system : PoolSystem Job) : Prop :=
  system.pool.shutdown = false → ∀ pc ∈ system.pool.threadList, pc ≠ .exited

namespace PoolSystem.NoneExits

theorem of_set (kept : before.NoneExits) {worker : Nat} {pc : ThreadPc Job}
    (stays : before.pool.shutdown = false → pc ≠ .exited)
    (threads : after.pool.threadList = before.pool.threadList.set worker pc)
    (shutdown : after.pool.shutdown = before.pool.shutdown) : after.NoneExits := by
  intro up other member
  rw [threads] at member
  rw [shutdown] at up
  rcases List.mem_or_eq_of_mem_set member with member | rfl
  · exact kept up other member
  · exact stays up

theorem emplaceThreads (kept : before.NoneExits) {created : Nat}
    (pool : after.pool = before.pool.emplaceThreads created) : after.NoneExits := by
  intro up pc member
  rw [pool] at up member
  rcases List.mem_append.mp member with member | started
  · exact kept up pc member
  · rw [List.eq_of_mem_replicate started]
    simp

theorem executeQueued (kept : before.NoneExits) (worker : Nat) :
    (before.executeQueued worker).NoneExits := by
  unfold PoolSystem.executeQueued
  split
  · exact kept.of_set (fun _ => by simp) rfl rfl
  · refine kept.of_set (fun up => ?_) rfl rfl
    rw [up]
    simp

theorem effect (kept : before.NoneExits) (action : PoolAction Job) :
    (before.effect action).NoneExits := by
  cases action with
  | push client job notified =>
      cases notified with
      | none => exact kept
      | some worker => exact kept.of_set (fun _ => by simp) rfl rfl
  | reject client job => exact kept
  | grow client ticket tbusy created => exact kept.emplaceThreads rfl
  | startThread tcnt created => exact kept.emplaceThreads rfl
  | setSize threadCnt created => exact kept.emplaceThreads rfl
  | callShutdown client => exact kept
  | signalShutdown client due =>
      intro up
      simp only [PoolSystem.effect, PoolSystem.signalShutdown] at up
      split at up
      next down => exact absurd (down.symm.trans up) (by simp)
      next => contradiction
  | joinThreads client due => exact kept
  | enterLoop worker =>
      simp only [PoolSystem.effect, PoolSystem.enterLoop]
      split
      next down => exact kept.of_set (fun up => absurd (down.symm.trans up) (by simp)) rfl rfl
      next => exact kept.executeQueued worker
  | invoke worker ticket job => exact kept.of_set (fun _ => by simp) rfl rfl
  | complete worker ticket job => exact kept.of_set (fun _ => by simp) rfl rfl
  | relock worker ticket job =>
      have ended : (before.endJob worker).NoneExits := kept.of_set (fun _ => by simp) rfl rfl
      exact ended.executeQueued worker
  | wakeSpuriously worker => exact kept.of_set (fun _ => by simp) rfl rfl

theorem of_reachable (reachable : system.Reachable) : system.NoneExits := by
  refine PoolSystem.invariant (fun tmin tmax _ pc member => ?_)
    (fun _ action kept _ _ => kept.effect action) reachable
  rw [List.eq_of_mem_replicate (List.mem_append.mp member |>.resolve_left List.not_mem_nil)]
  simp

end PoolSystem.NoneExits

/-- Where no thread has a job and one is queued, a thread is awake. -/
theorem PoolSystem.awake_of_queued (exits : system.NoneExits) (kept : NoLostWakeup system)
    (up : system.pool.shutdown = false) (threads : 0 < system.pool.threadList.length)
    (idle : ∀ worker stage ticket job, ¬system.At worker (.busy stage ticket job))
    (queued : 0 < system.pool.jobQueue.length) : ∃ worker, system.At worker .awake := by
  have first : system.At 0 system.pool.threadList[0] := List.getElem?_eq_getElem threads
  cases pc : system.pool.threadList[0] with
  | awake => exact ⟨0, pc ▸ first⟩
  | waiting =>
      have served := kept.served 0 up (pc ▸ first)
      obtain ⟨pc, member, isAwake⟩ := List.countP_pos_iff.mp (queued.trans_le served)
      obtain ⟨worker, found⟩ := List.mem_iff_getElem?.mp member
      cases pc with
      | awake => exact ⟨worker, found⟩
      | _ => contradiction
  | busy stage ticket job => exact absurd (pc ▸ first) (idle 0 stage ticket job)
  | exited => exact absurd pc (exits up _ (List.getElem_mem threads))

end Threads

variable {environment : Environment} {host : Bytes} {tlimit : UInt64}
  {files : Bytes → Option Bytes}

namespace Session

variable {before session : Session}

def HasThreads (session : Session) : Prop := 0 < session.pool.pool.threadList.length

/-- A limit that is not zero leaves the pool a thread. -/
theorem hasThreads_of_reachable (limit : tlimit ≠ 0)
    (reachable : session.Reachable environment host tlimit files) : session.HasThreads := by
  refine Transition.Reachable.invariant (fun started starts => ?_)
    (fun before action kept enabled => ?_) reachable
  · have prestarted : ({ tmax := tlimit } : ThreadPool DownloadJob).applyThreadLimit 20 ≠ 0 := by
      unfold ThreadPool.applyThreadLimit
      split
      · simpa [ThreadPool.size] using limit
      · decide
    rw [starts, HasThreads]
    change 0 < (List.replicate _ _).length
    rw [List.length_replicate]
    exact Nat.pos_of_ne_zero fun none => prestarted (UInt64.toNat_inj.mp none)
  · cases action with
    | chunk udata => exact kept
    | read ch =>
        change 0 < (before.read ch).pool.pool.threadList.length
        rw [read_pool]
        exact kept
    | work worker ticket job =>
        change 0 < (before.work environment ticket job).pool.pool.threadList.length
        rw [work_pool]
        exact kept
    | pool action =>
        change 0 < (before.pool.effect action).pool.threadList.length
        rw [(before.pool.effect_threads action).2]
        exact Nat.add_pos_left kept _

/-- The main thread has got to `accepted` jobs and has not set the flag. -/
structure Stalling (environment : Environment) (host : Bytes) (tlimit : UInt64)
    (files : Bytes → Option Bytes) (accepted : Nat) (session : Session) : Prop where
  reachable : session.Reachable environment host tlimit files
  up : session.pool.pool.shutdown = false
  accepted : session.pool.accepted.length = accepted

namespace Stalling

variable {accepted : Nat} (stalling : before.Stalling environment host tlimit files accepted)
include stalling

theorem downloaded (idle : ∀ worker stage ticket job,
      ¬before.pool.At worker (.busy stage ticket job))
    (empty : before.pool.pool.jobQueue = []) : before.Downloaded environment accepted := by
  have isolated := stalling.reachable.isolated
  have order := congrArg List.length isolated.conserved.order
  rw [empty, List.append_nil, List.length_map, stalling.accepted] at order
  refine isolated.downloaded_of_completed (fun ticket taken => ?_) order.ge
  exact ShutdownDrains.completed_of_idle isolated.conserved (order ▸ taken) fun _ _ =>
    ⟨idle _ _ _ _, idle _ _ _ _⟩

/-- While a job is left, a thread can make a step towards its end. -/
theorem progress (limit : tlimit ≠ 0) (running : before.failure = none)
    (left : ¬before.Downloaded environment accepted) :
    ∃ action, SessionAction.OfDownloads action ∧ before.Enabled environment action := by
  by_cases idle : ∀ worker stage ticket job, ¬before.pool.At worker (.busy stage ticket job)
  · have queued : 0 < before.pool.pool.jobQueue.length :=
      List.length_pos_iff.mpr fun empty => left (stalling.downloaded idle empty)
    obtain ⟨worker, awake⟩ := PoolSystem.awake_of_queued
      (.of_reachable stalling.reachable.pool) (.of_reachable stalling.reachable.pool) stalling.up
      (hasThreads_of_reachable limit stalling.reachable) idle queued
    exact ⟨.pool (.enterLoop worker), trivial, running, trivial, awake⟩
  · simp only [not_forall, not_not] at idle
    obtain ⟨worker, stage, ticket, job, found⟩ := idle
    exact busy_moves running found

theorem less (ends : environment.TransfersEnd) {action : SessionAction}
    (ofDownloads : action.OfDownloads) (enabled : before.Enabled environment action) :
    (before.effect environment action).workLeft ends < before.workLeft ends := by
  cases action with
  | chunk udata => exact ofDownloads.elim
  | read ch => exact ofDownloads.elim
  | work worker ticket job => exact workLeft_work ends enabled
  | pool action =>
      obtain ⟨_, _, enabled⟩ := enabled
      cases action with
      | enterLoop worker =>
          refine workLeft_executeQueued ends enabled rfl (fun _ => rfl) rfl ?_ rfl rfl rfl
          exact if_neg (by simp [stalling.up])
      | invoke worker ticket job => exact workLeft_invoke ends enabled
      | complete worker ticket job => exact workLeft_complete ends enabled
      | relock worker ticket job => exact workLeft_relock ends enabled
      | _ => exact ofDownloads.elim

theorem effect {action : SessionAction} (ofDownloads : action.OfDownloads)
    (enabled : before.Enabled environment action) :
    (before.effect environment action).Stalling environment host tlimit files accepted := by
  have reachable : (before.effect environment action).Reachable environment host tlimit files :=
    .step stalling.reachable action trivial enabled
  cases action with
  | chunk udata => exact ofDownloads.elim
  | read ch => exact ofDownloads.elim
  | work worker ticket job =>
      have pool : (before.effect environment (.work worker ticket job)).pool = before.pool :=
        before.work_pool ticket job
      exact ⟨reachable, by rw [pool]; exact stalling.up, by rw [pool]; exact stalling.accepted⟩
  | pool action =>
      have thread : action.OfThread := by
        cases action <;> trivial
      have same := before.pool.effect_sameCallers thread
      refine ⟨reachable, same.shutdown.trans stalling.up, ?_⟩
      exact (congrArg List.length same.accepted).trans stalling.accepted

end Stalling

theorem Stalling.inevitable (ends : environment.TransfersEnd) {accepted : Nat}
    (stalling : session.Stalling environment host tlimit files accepted) (limit : tlimit ≠ 0) :
    ((sessionTransition environment).restrict fun _ action => action.OfDownloads).Inevitable
      (fun later => later.Downloaded environment accepted ∨ later.Fails) session := by
  refine Transition.Inevitable.of_measure Nat.lt_wfRel.wf (workLeft ends) ?progress ?keeps
    stalling
  case progress =>
    intro later stalling out
    rw [not_or] at out
    refine stalling.progress limit ?_ out.1
    by_contra failed
    exact out.2 (stalling.reachable.accounted.fails failed)
  case keeps =>
    intro later action stalling _ allowed
    obtain ⟨ofDownloads, enabled⟩ := allowed
    exact ⟨stalling.effect ofDownloads enabled, stalling.less ends ofDownloads enabled⟩

/-- With a limit of zero there is never a thread. -/
structure Unstaffed (session : Session) : Prop where
  tmax : session.pool.pool.tmax = 0
  threads : session.pool.pool.threadList = []
  dequeued : session.pool.dequeued = []

namespace Unstaffed

theorem not_at (unstaffed : session.Unstaffed) (worker : Nat) (pc : ThreadPc DownloadJob) :
    ¬session.pool.At worker pc := by
  intro found
  rw [PoolSystem.At, unstaffed.threads] at found
  simp at found

theorem growCount_eq (unstaffed : session.Unstaffed) (tbusy : UInt64) :
    session.pool.pool.growCount tbusy = 0 := by
  simp only [ThreadPool.growCount, ThreadPool.applyThreadLimit, ThreadPool.size, unstaffed.tmax,
    unstaffed.threads]
  split <;> rfl

theorem pool (unstaffed : before.Unstaffed) {action : PoolAction DownloadJob}
    (takes : before.Takes environment action) (enabled : before.pool.Enabled action) :
    (before.effect environment (.pool action)).Unstaffed := by
  have threads : action.started = 0 → (before.pool.effect action).pool.threadList = [] := by
    intro none
    have length := (before.pool.effect_threads action).2
    rw [unstaffed.threads, none] at length
    exact List.length_eq_zero_iff.mp length
  have tmax : (before.pool.effect action).pool.tmax = 0 :=
    (before.pool.effect_threads action).1.trans unstaffed.tmax
  cases action with
  | push client job notified => exact ⟨tmax, threads rfl, unstaffed.dequeued⟩
  | reject client job => exact ⟨tmax, threads rfl, unstaffed.dequeued⟩
  | grow client ticket tbusy created =>
      obtain ⟨_, bound, _⟩ := enabled
      rw [unstaffed.growCount_eq] at bound
      exact ⟨tmax, threads (Nat.le_zero.mp bound), unstaffed.dequeued⟩
  | startThread tcnt created => exact takes.elim
  | setSize threadCnt created => exact takes.elim
  | callShutdown client => exact ⟨tmax, threads rfl, unstaffed.dequeued⟩
  | signalShutdown client due =>
      refine ⟨tmax, threads rfl, ?_⟩
      change (before.pool.signalShutdown client due).dequeued = []
      unfold PoolSystem.signalShutdown
      split <;> exact unstaffed.dequeued
  | joinThreads client due => exact ⟨tmax, threads rfl, unstaffed.dequeued⟩
  | enterLoop worker => exact absurd enabled (unstaffed.not_at worker _)
  | invoke worker ticket job => exact absurd enabled (unstaffed.not_at worker _)
  | complete worker ticket job => exact absurd enabled (unstaffed.not_at worker _)
  | relock worker ticket job => exact absurd enabled (unstaffed.not_at worker _)
  | wakeSpuriously worker => exact absurd enabled (unstaffed.not_at worker _)

theorem of_reachable (reachable : session.Reachable environment host 0 files) :
    session.Unstaffed := by
  refine Transition.Reachable.invariant (fun started starts => ?_)
    (fun before action unstaffed enabled => ?_) reachable
  · rw [starts]
    exact ⟨rfl, rfl, rfl⟩
  · cases action with
    | chunk udata => exact ⟨unstaffed.tmax, unstaffed.threads, unstaffed.dequeued⟩
    | read ch =>
        have pool : (before.effect environment (.read ch)).pool = before.pool := before.read_pool ch
        exact ⟨pool ▸ unstaffed.tmax, pool ▸ unstaffed.threads, pool ▸ unstaffed.dequeued⟩
    | work worker ticket job => exact absurd enabled.2.1 (unstaffed.not_at worker _)
    | pool action => exact unstaffed.pool enabled.2.1 enabled.2.2

theorem not_invoked (unstaffed : session.Unstaffed)
    (isolated : session.Isolated environment host) (ticket : Nat) :
    ticket ∉ session.pool.invoked := by
  intro invoked
  have taken := isolated.conserved.invokedTaken ticket invoked
  rw [unstaffed.dequeued] at taken
  exact Nat.not_lt_zero _ taken

/-- An accepted job is not downloaded then. -/
theorem accepted_eq_nil (unstaffed : session.Unstaffed)
    (isolated : session.Isolated environment host)
    (downloaded : session.Downloaded environment session.pool.accepted.length) :
    session.pool.accepted = [] := by
  by_contra present
  have inRange : 0 < session.pool.accepted.length := List.length_pos_iff.mpr present
  have isJob : 0 < session.jobs.length :=
    inRange.trans_le isolated.crawls.submitted.accepted_part.length_le
  have found := List.getElem?_eq_getElem isJob
  obtain ⟨record, stored, made⟩ := downloaded.done 0 _ inRange found
  rw [isolated.crawls.record_eq found, isolated.record 0 _ found,
    isolated.unwritten_of_notInvoked (unstaffed.not_invoked isolated 0)] at stored
  cases stored
  have named := download_filename made
  contradiction

end Unstaffed

/-- If curl ends each transfer then, whatever the main thread has got to before `wait` sets
the flag, and if it gets no further, the threads of the pool come to the end of all accepted
jobs in every order of their steps, or else the program fails: on a link whose port is no
port number, or in a call of `curl_write` that does not find its userdata intact.  That is
so just when the limit is not zero, or no job has been accepted, or it has failed already. -/
theorem accepted_downloaded_iff (ends : environment.TransfersEnd)
    (reachable : session.Reachable environment host tlimit files)
    (up : session.pool.pool.shutdown = false) :
    ((sessionTransition environment).restrict fun _ action => action.OfDownloads).Inevitable
      (fun later => later.Downloaded environment session.pool.accepted.length ∨ later.Fails)
      session ↔ tlimit ≠ 0 ∨ session.pool.accepted = [] ∨ session.failure ≠ none := by
  have isolated := reachable.isolated
  constructor
  · intro inevitable
    by_contra neither
    rw [not_or, not_or, not_not, not_not] at neither
    obtain ⟨rfl, present, running⟩ := neither
    have unstaffed := Unstaffed.of_reachable reachable
    cases inevitable with
    | now goal =>
        rcases goal with downloaded | fails
        · exact present (unstaffed.accepted_eq_nil isolated downloaded)
        · exact fails.failed running
    | later moves _ =>
        obtain ⟨action, ofDownloads, enabled⟩ := moves
        cases action with
        | chunk udata => exact ofDownloads
        | read ch => exact ofDownloads
        | work worker ticket job => exact unstaffed.not_at worker _ enabled.2.1
        | pool action =>
            cases action with
            | enterLoop worker => exact unstaffed.not_at worker _ enabled.2.2
            | invoke worker ticket job => exact unstaffed.not_at worker _ enabled.2.2
            | complete worker ticket job => exact unstaffed.not_at worker _ enabled.2.2
            | relock worker ticket job => exact unstaffed.not_at worker _ enabled.2.2
            | _ => exact ofDownloads
  · rintro (limit | empty | failed)
    · exact (Stalling.mk reachable up rfl).inevitable ends limit
    · have order := isolated.conserved.order
      rw [empty] at order
      have taken := congrArg List.length (List.append_eq_nil_iff.mp order.symm).1
      rw [List.length_map] at taken
      refine .now (.inl (isolated.downloaded_of_completed (fun ticket inRange => ?_) ?_))
      · rw [empty] at inRange
        exact absurd inRange (Nat.not_lt_zero _)
      · exact taken.le.trans (Nat.zero_le _)
    · exact .now (.inr (reachable.accounted.fails failed))

end Session

theorem accepted_downloaded_iff_pushed : ∃ session : Session,
    session.pool.accepted.length = 1 ∧ session.failure = none ∧
    (((sessionTransition brokenEnvironment).restrict fun _ action =>
        action.OfDownloads).Inevitable
      (fun later => later.Downloaded brokenEnvironment session.pool.accepted.length ∨
        later.Fails) session ↔
          (1 : UInt64) ≠ 0 ∨ session.pool.accepted = [] ∨ session.failure ≠ none) := by
  let job : DownloadJob := { uriStr := bytes "x", line := 1, column := 9, record := 0 }
  have observed : ((sessionTransition brokenEnvironment).run (.new (bytes "h") 1 fun _ => none)
      (.chunk {} :: (bytes "<a href='x'").map SessionAction.read ++
        [.pool (.push 0 job none), .pool (.grow 0 0 0 0)])).map
      (fun session =>
        (session.pool.accepted.length, session.failure, session.pool.pool.shutdown)) =
          some (1, none, false) := by
    decide +kernel
  obtain ⟨session, ran, same⟩ := Option.map_eq_some_iff.mp observed
  obtain ⟨accepted, same⟩ := Prod.mk.inj same
  obtain ⟨running, up⟩ := Prod.mk.inj same
  have reachable : session.Reachable brokenEnvironment (bytes "h") 1 fun _ => none :=
    Transition.Reachable.run (.start rfl) ran
  exact ⟨session, accepted, running,
    Session.accepted_downloaded_iff brokenEnvironment_transfersEnd reachable up⟩

end FastCrawl
