import FastCrawl.Library.Inevitable
import FastCrawl.ThreadPool.SoleUse

namespace FastCrawl

/-! `shutdown` returns.  With a sole caller, every order of steps comes to the return of
`shutdown` once the flag is set: each step takes a thread, a queued job or `shutdown`
itself further, and one of them can always take a step. -/

open Relation

/-- A queued job, or a thread at its place. -/
inductive Task where
  | queued (job : PoolJob)
  | thread (pc : WorkerPc)

/-- The steps of threads once the flag is set, a job that is taken included. -/
inductive Task.Less : Task → Task → Prop where
  | take (job : PoolJob) : Less (.thread (.unlockJob job)) (.queued job)
  | enter : Less (.thread (.loop true)) (.thread .lockLoop)
  | leave (outer : Bool) : Less (.thread .unlockExit) (.thread (.loop outer))
  | invoke (job : PoolJob) : Less (.thread (.job job)) (.thread (.unlockJob job))
  | compute (next : Nat → PoolJob) (result : Nat) :
      Less (.thread (.job (next result))) (.thread (.job (.compute next)))
  | complete : Less (.thread .relock) (.thread (.job .done))
  | relock : Less (.thread .endJob) (.thread .relock)
  | endJob : Less (.thread (.loop false)) (.thread .endJob)
  | exit : Less (.thread .exited) (.thread .unlockExit)

namespace Task

theorem acc_exited : Acc Less (.thread .exited) := ⟨_, fun _ less => by cases less⟩

theorem acc_unlockExit : Acc Less (.thread .unlockExit) :=
  ⟨_, fun _ less => by cases less; exact acc_exited⟩

theorem acc_loop (outer : Bool) : Acc Less (.thread (.loop outer)) :=
  ⟨_, fun _ less => by cases less; exact acc_unlockExit⟩

theorem acc_endJob : Acc Less (.thread .endJob) :=
  ⟨_, fun _ less => by cases less; exact acc_loop false⟩

theorem acc_relock : Acc Less (.thread .relock) :=
  ⟨_, fun _ less => by cases less; exact acc_endJob⟩

theorem acc_job (job : PoolJob) : Acc Less (.thread (.job job)) := by
  induction job with
  | compute next ih =>
      constructor
      intro task less
      cases less
      exact ih _
  | done => exact ⟨_, fun _ less => by cases less; exact acc_relock⟩
  | _ => exact ⟨_, fun _ less => by cases less⟩

theorem acc_unlockJob (job : PoolJob) : Acc Less (.thread (.unlockJob job)) :=
  ⟨_, fun _ less => by cases less; exact acc_job job⟩

theorem less_wellFounded : WellFounded Less := by
  constructor
  intro task
  cases task with
  | queued job => exact ⟨_, fun _ less => by cases less; exact acc_unlockJob job⟩
  | thread pc =>
      cases pc with
      | lockLoop => exact ⟨_, fun _ less => by cases less; exact acc_loop true⟩
      | loop outer => exact acc_loop outer
      | unlockJob job => exact acc_unlockJob job
      | job job => exact acc_job job
      | relock => exact acc_relock
      | endJob => exact acc_endJob
      | unlockExit => exact acc_unlockExit
      | exited => exact acc_exited
      | _ => exact ⟨_, fun _ less => by cases less⟩

end Task

namespace LockSystem

variable {locked : LockSystem} {choice : Choice} {index : Nat}

/-- What is left to do for the threads. -/
def work (locked : LockSystem) : Multiset Task :=
  (locked.jobQueue.map Task.queued : List Task) + (locked.threadList.map Task.thread : List Task)

/-- What is left to do for `shutdown` once the flag is set. -/
def closing (locked : LockSystem) : Nat :=
  match locked.closer with
  | .unlockQueue => locked.threadList.length + 4
  | .lockThreads => locked.threadList.length + 3
  | .join index => locked.threadList.length - index + 2
  | .unlockThreads => 1
  | _ => 0

theorem work_setWorker {after : LockSystem} {pc next : WorkerPc}
    (found : locked.threadList[index]? = some pc) (less : Task.Less (.thread next) (.thread pc))
    (queue : after.jobQueue = locked.jobQueue)
    (threads : after.threadList = locked.threadList.set index next) :
    TransGen (CutExpand Task.Less) after.work locked.work := by
  have atIndex : (locked.threadList.map Task.thread)[index]? = some (.thread pc) := by
    rw [List.getElem?_map, found, Option.map_some]
  apply TransGen.single
  rw [work, work, queue, threads, List.map_set]
  exact (cutExpand_add_left _).mpr (cutExpand_set atIndex less)

/-- The queued job becomes the task of the thread, and the thread leaves the loop. -/
theorem work_takeJob {after : LockSystem} {outer : Bool} {job : PoolJob} {rest : List PoolJob}
    (found : locked.threadList[index]? = some (.loop outer))
    (queued : locked.jobQueue = job :: rest) (queue : after.jobQueue = rest)
    (threads : after.threadList = locked.threadList.set index (.unlockJob job)) :
    TransGen (CutExpand Task.Less) after.work locked.work := by
  have atIndex : (locked.threadList.map Task.thread)[index]? = some (.thread (.loop outer)) := by
    rw [List.getElem?_map, found, Option.map_some]
  have moved := coe_set_add atIndex (.thread (.unlockJob job))
  have left : CutExpand Task.Less after.work
      (locked.threadList.map Task.thread + (rest.map Task.queued : List Task) +
        {.thread (.unlockJob job)}) := by
    refine ⟨0, .thread (.loop outer), by simp, ?_⟩
    rw [work, queue, threads, List.map_set, add_assoc, moved]
    ac_rfl
  have taken : CutExpand Task.Less
      (locked.threadList.map Task.thread + (rest.map Task.queued : List Task) +
        {.thread (.unlockJob job)}) locked.work := by
    have same : locked.work = locked.threadList.map Task.thread +
        (rest.map Task.queued : List Task) + {.queued job} := by
      rw [work, queued, List.map_cons, ← Multiset.cons_coe, ← Multiset.singleton_add]
      ac_rfl
    rw [same]
    exact cutExpand_add_single _ (.take job)
  exact .tail (.single left) taken

theorem SoleUse.work_worker (use : locked.SoleUse) (down : locked.shutdown = true) {pc : WorkerPc}
    (found : locked.threadList[index]? = some pc) (ready : locked.WorkerReady choice pc) :
    TransGen (CutExpand Task.Less) (locked.workerStep index choice pc).work locked.work := by
  have callFree := use.threads pc (List.mem_of_getElem? found)
  have awake := use.unblocked.awake down pc (List.mem_of_getElem? found)
  cases pc with
  | lockLoop => exact work_setWorker found .enter rfl rfl
  | loop outer =>
      change TransGen _ (locked.loopStep index outer).work _
      simp only [loopStep, down, if_true]
      split
      · exact work_setWorker found (.leave outer) rfl rfl
      · split
        next job rest queued => exact work_takeJob found queued rfl rfl
        next => exact work_setWorker found (.leave outer) rfl rfl
  | unlockJob job => exact work_setWorker found (.invoke job) rfl rfl
  | job job =>
      cases job with
      | done => exact work_setWorker found .complete rfl rfl
      | compute next => exact work_setWorker found (.compute next choice.result) rfl rfl
      | _ => exact callFree.elim
  | call pc next => exact callFree.elim
  | relock => exact work_setWorker found .relock rfl rfl
  | endJob => exact work_setWorker found .endJob rfl rfl
  | wait => contradiction
  | blocked => contradiction
  | unlockExit => exact work_setWorker found .exit rfl rfl
  | exited => exact ready.elim

theorem closing_closer (signalled : locked.closer.hasSignalled = true) :
    (locked.closerStep locked.closer).work = locked.work ∧
    (locked.closerStep locked.closer).closing < locked.closing ∧
    ((locked.closerStep locked.closer).closer.hasSignalled = true ∨
      (locked.closerStep locked.closer).closer = .returned) := by
  cases atPc : locked.closer with
  | unlockQueue => exact ⟨rfl, by simp [closing, closerStep, atPc, setOwner], .inl rfl⟩
  | lockThreads => exact ⟨rfl, by simp [closing, closerStep, atPc, setOwner], .inl rfl⟩
  | join index =>
      simp only [closerStep]
      split
      · refine ⟨rfl, ?_, .inl rfl⟩
        simp only [closing, atPc]
        omega
      · refine ⟨rfl, ?_, .inl rfl⟩
        simp only [closing, atPc]
        omega
  | unlockThreads => exact ⟨rfl, by simp [closing, closerStep, atPc, setOwner], .inr rfl⟩
  | _ =>
      rw [atPc] at signalled
      contradiction

/-- The mutex of the thread list is free but for `shutdown`. -/
theorem SoleUse.threadList_free (use : locked.SoleUse) (atLock : locked.closer = .lockThreads) :
    locked.owner .threadList = none := by
  rw [← Option.not_isSome_iff_eq_none, Option.isSome_iff_exists]
  intro taken
  obtain ⟨party, owns⟩ := taken
  have holding := (use.unblocked.owned _ _).mp owns
  cases party with
  | worker index =>
      obtain ⟨pc, found, held⟩ := Option.bind_eq_some_iff.mp holding
      have callFree := use.threads pc (List.mem_of_getElem? found)
      cases pc <;> first | contradiction | cases held
  | client index =>
      have none : locked.clients index = none := by
        by_cases sole : index = 0
        · rw [sole]
          exact use.closed (by simp [atLock])
        · exact use.others index sole
      rw [holds, none] at holding
      contradiction
  | closer =>
      rw [holds, atLock] at holding
      contradiction

theorem SoleUse.progress (use : locked.SoleUse) (signalled : locked.closer.hasSignalled = true) :
    ∃ party choice, locked.Ready choice party := by
  cases atPc : locked.closer with
  | unlockQueue => exact ⟨.closer, {}, by rw [Ready, atPc]; trivial⟩
  | lockThreads => exact ⟨.closer, {}, by rw [Ready, atPc]; exact use.threadList_free atPc⟩
  | join index =>
      by_cases canJoin : locked.CanJoin index
      · exact ⟨.closer, {}, by rw [Ready, atPc]; exact canJoin⟩
      · have down : locked.shutdown = true := use.unblocked.signalled signalled
        have holding : locked.holds .closer = some .threadList := by
          rw [holds, atPc]
          rfl
        have owns := (use.unblocked.owned _ _).mpr holding
        obtain ⟨pc, found, running⟩ := Option.map_eq_some_iff.mp (not_not.mp canJoin)
        obtain ⟨party, _, choice, ready⟩ := use.unblocked.thread_alive found running owns down
        exact ⟨party, choice, ready⟩
  | unlockThreads => exact ⟨.closer, {}, by rw [Ready, atPc]; trivial⟩
  | _ =>
      rw [atPc] at signalled
      contradiction

/-- `shutdown` has set the flag, or has returned. -/
structure Closing (locked : LockSystem) : Prop where
  use : locked.SoleUse
  signalled : locked.closer.hasSignalled = true ∨ locked.closer = .returned

theorem Closing.effect (kept : locked.Closing) (signalled : locked.closer.hasSignalled = true)
    {action : LockAction} (allowed : locked.SoleCaller action) (enabled : locked.Enabled action) :
    (locked.effect action).Closing ∧
      Prod.Lex (TransGen (CutExpand Task.Less)) (· < · : Nat → Nat → Prop)
        ((locked.effect action).work, (locked.effect action).closing)
        (locked.work, locked.closing) := by
  have use := kept.use
  have used := use.effect allowed enabled
  have down : locked.shutdown = true := use.unblocked.signalled signalled
  have busy : locked.closer ≠ .idle := by
    intro idle
    rw [idle] at signalled
    contradiction
  cases action with
  | move party choice =>
      cases party with
      | worker index =>
          obtain ⟨pc, found, ready⟩ := enabled
          have less := use.work_worker down found ready
          have sameCloser := (use.worker found ready).2.1
          simp only [LockSystem.effect, advance, found] at used ⊢
          exact ⟨⟨used, sameCloser ▸ kept.signalled⟩, .left _ _ less⟩
      | client index =>
          obtain ⟨pc, found, _⟩ := enabled
          have none : locked.clients index = none := by
            by_cases sole : index = 0
            · rw [sole]
              exact use.closed busy
            · exact use.others index sole
          rw [none] at found
          contradiction
      | closer =>
          obtain ⟨same, less, signalled'⟩ := closing_closer signalled
          refine ⟨⟨used, signalled'⟩, ?_⟩
          simp only [LockSystem.effect, advance, same]
          exact .right _ less
  | callPool client region => exact absurd allowed.2.1 busy
  | callShutdown => exact absurd enabled busy
  | wakeSpuriously worker =>
      obtain ⟨pc, found, blocked⟩ := Option.map_eq_some_iff.mp enabled
      have awake := use.unblocked.awake down pc (List.mem_of_getElem? found)
      cases pc <;> contradiction

end LockSystem

/-- In a program that uses the pool as the crawler does, once `shutdown` has set the
flag, it returns in every order of steps. -/
theorem shutdown_returns {locked : LockSystem}
    (reached : lockTransition.Reaches LockSystem.Start LockSystem.SoleCaller locked)
    (signalled : locked.closer.hasSignalled = true) :
    (lockTransition.restrict LockSystem.SoleCaller).Inevitable
      (fun later => later.closer = .returned) locked := by
  have order : WellFounded (Prod.Lex (TransGen (CutExpand Task.Less)) (· < · : Nat → Nat → Prop)) :=
    WellFounded.prod_lex (Task.less_wellFounded.cutExpand.transGen) Nat.lt_wfRel.wf
  have signals {later : LockSystem} (kept : later.Closing) (out : ¬later.closer = .returned) :
      later.closer.hasSignalled = true := kept.signalled.resolve_right out
  refine Transition.Inevitable.of_measure order (fun later => (later.work, later.closing))
    ?progress ?keeps (LockSystem.Closing.mk (.reaches reached) (.inl signalled))
  case progress =>
    intro later kept out
    obtain ⟨party, choice, ready⟩ := kept.use.progress (signals kept out)
    exact ⟨.move party choice, trivial, ready⟩
  case keeps =>
    intro later action kept out enabled
    exact kept.effect (signals kept out) enabled.1 enabled.2

theorem shutdown_returns_busy : ∃ locked : LockSystem,
    (locked.closer = .unlockQueue ∧ locked.tbusy = 1) ∧
    (lockTransition.restrict LockSystem.SoleCaller).Inevitable
      (fun later => later.closer = .returned) locked := by
  let job : PoolJob := .compute fun _ => .done
  obtain ⟨busy, locked, ranBefore, idle, outside, ranAfter, atUnlock, tbusy⟩ :
      ∃ busy locked : LockSystem,
        lockTransition.run ((LockSystem.new 1 1).effect (.callPool 0 (.push job)))
          (List.replicate 6 (.move (.client 0) {}) ++ List.replicate 3 (.move (.worker 0) {})) =
            some busy ∧
        busy.closer = .idle ∧ busy.clients 0 = none ∧
        lockTransition.run (busy.effect .callShutdown) (List.replicate 2 (.move .closer {})) =
          some locked ∧
        locked.closer = .unlockQueue ∧ locked.tbusy = 1 := ⟨_, _, rfl, rfl, rfl, rfl, rfl, rfl⟩
  have allowed (actions : List LockAction) (moves : ∀ action ∈ actions, ∃ party choice,
      action = .move party choice) : ∀ action ∈ actions, ∀ state : LockSystem,
        state.SoleCaller action := by
    intro action member state
    obtain ⟨party, choice, rfl⟩ := moves action member
    trivial
  have called : lockTransition.Reaches LockSystem.Start LockSystem.SoleCaller
      ((LockSystem.new 1 1).effect (.callPool 0 (.push job))) := by
    have started : lockTransition.Reaches LockSystem.Start LockSystem.SoleCaller (.new 1 1) :=
      .start ⟨1, 1, rfl⟩
    exact Transition.Reaches.step started (.callPool 0 (.push job))
      ⟨rfl, rfl, job, rfl, fun _ => trivial⟩ ⟨rfl, rfl⟩
  have reachedBusy := Transition.Reaches.run called (allowed _ (by simp)) ranBefore
  have reached : lockTransition.Reaches LockSystem.Start LockSystem.SoleCaller locked :=
    Transition.Reaches.run (Transition.Reaches.step reachedBusy .callShutdown outside idle)
      (allowed _ (by simp)) ranAfter
  exact ⟨locked, ⟨atUnlock, tbusy⟩, shutdown_returns reached (by rw [atUnlock]; rfl)⟩

end FastCrawl
