import FastCrawl.ThreadPool.Deadlock

namespace FastCrawl

/-! A program that uses the pool as the crawler does: one caller, and jobs that do not
call the pool. -/

/-- A job that does not call the pool. -/
def PoolJob.CallFree : PoolJob → Prop
  | .done => True
  | .compute next => ∀ result, (next result).CallFree
  | .run _ _ | .size _ | .busy _ => False

def WorkerPc.CallFree : WorkerPc → Prop
  | .unlockJob run | .job run => run.CallFree
  | .call _ _ => False
  | _ => True

/-- A call of `run` with a job that does not call the pool. -/
def CallPc.RunsCallFree : CallPc → Prop
  | .lock (.push job) | .inside (.push job) => job.CallFree
  | .lock (.grow _) | .inside (.grow _) => True
  | .unlock _ (.inl (.grow _)) | .unlock _ (.inr _) => True
  | _ => False

namespace LockSystem

variable {locked : LockSystem} {choice : Choice} {index : Nat}

/-- One caller, outside the jobs, that runs jobs and then shuts the pool down. -/
def SoleCaller (locked : LockSystem) : LockAction → Prop
  | .callPool client region =>
      client = 0 ∧ locked.closer = .idle ∧ ∃ job, region = .push job ∧ job.CallFree
  | .callShutdown => locked.clients 0 = none
  | _ => True

/-- What a sole caller of the pool keeps to. -/
structure SoleUse (locked : LockSystem) : Prop where
  unblocked : locked.Unblocked
  others : ∀ client, client ≠ 0 → locked.clients client = none
  caller : ∀ pc, locked.clients 0 = some pc → pc.RunsCallFree
  closed : locked.closer ≠ .idle → locked.clients 0 = none
  queue : ∀ job ∈ locked.jobQueue, job.CallFree
  threads : ∀ pc ∈ locked.threadList, pc.CallFree

namespace SoleUse

theorem new (tmin tmax : UInt64) : (LockSystem.new tmin tmax).SoleUse where
  unblocked := unblocked_new tmin tmax
  others _ _ := rfl
  caller _ called := by cases called
  closed opened := absurd rfl opened
  queue _ queued := by cases queued
  threads pc present := by
    rw [LockSystem.new, emplaceThreads, List.nil_append] at present
    rw [List.eq_of_mem_replicate present]
    trivial

/-- No thread comes to the mutex of the thread list. -/
theorem unhindered (use : locked.SoleUse) (action : LockAction) : locked.Unhindered action := by
  cases action with
  | move party choice =>
      cases party with
      | worker index =>
          intro _ comes
          obtain ⟨pc, found, coming⟩ := Option.map_eq_some_iff.mp comes
          have callFree := use.threads pc (List.mem_of_getElem? found)
          cases pc with
          | job job => cases job <;> contradiction
          | _ => contradiction
      | client index => trivial
      | closer =>
          intro _ pc present
          have callFree := use.threads pc present
          cases pc <;> first | contradiction | exact nofun
  | _ => trivial

theorem threads_set (use : locked.SoleUse) {next : WorkerPc} (callFree : next.CallFree) :
    ∀ pc ∈ locked.threadList.set index next, pc.CallFree := by
  intro pc member
  cases List.mem_or_eq_of_mem_set member with
  | inl old => exact use.threads pc old
  | inr new => exact new ▸ callFree

theorem jobStep_callFree {job : PoolJob} (callFree : job.CallFree) :
    (jobStep choice job).CallFree := by
  cases job with
  | done => trivial
  | compute next => exact callFree choice.result
  | _ => exact callFree.elim

/-- A step of a thread concerns the threads and the queue only. -/
theorem worker (use : locked.SoleUse) {pc : WorkerPc}
    (found : locked.threadList[index]? = some pc) (ready : locked.WorkerReady choice pc) :
    (locked.workerStep index choice pc).clients = locked.clients ∧
    (locked.workerStep index choice pc).closer = locked.closer ∧
    (∀ job ∈ (locked.workerStep index choice pc).jobQueue, job.CallFree) ∧
    ∀ pc' ∈ (locked.workerStep index choice pc).threadList, pc'.CallFree := by
  have callFree := use.threads pc (List.mem_of_getElem? found)
  have moved (next : WorkerPc) (isFree : next.CallFree) :
      ∀ pc' ∈ locked.threadList.set index next, pc'.CallFree := use.threads_set isFree
  cases pc with
  | loop outer =>
      change (locked.loopStep index outer).clients = _ ∧ (locked.loopStep index outer).closer = _ ∧
        (∀ job ∈ (locked.loopStep index outer).jobQueue, job.CallFree) ∧
        ∀ pc' ∈ (locked.loopStep index outer).threadList, pc'.CallFree
      unfold loopStep
      split
      · exact ⟨rfl, rfl, use.queue, moved _ trivial⟩
      · split
        next job rest queued =>
          have jobs := use.queue
          rw [queued] at jobs
          exact ⟨rfl, rfl, fun job member => jobs job (List.mem_cons_of_mem _ member),
            moved _ (jobs job List.mem_cons_self)⟩
        next => split <;> exact ⟨rfl, rfl, use.queue, moved _ trivial⟩
  | job job => exact ⟨rfl, rfl, use.queue, moved _ (jobStep_callFree callFree)⟩
  | unlockJob job => exact ⟨rfl, rfl, use.queue, moved _ callFree⟩
  | call pc next => exact callFree.elim
  | blocked => exact ready.elim
  | exited => exact ready.elim
  | _ => exact ⟨rfl, rfl, use.queue, moved _ trivial⟩

/-- A step of the caller in `run`. -/
theorem caller_step (use : locked.SoleUse) {pc : CallPc} (found : locked.clients 0 = some pc)
    (ready : locked.CallReady choice pc) :
    (∀ pc', (locked.callStep (.client 0) choice pc).2.getLeft? = some pc' → pc'.RunsCallFree) ∧
    (∀ job ∈ (locked.callStep (.client 0) choice pc).1.jobQueue, job.CallFree) ∧
    ∀ pc' ∈ (locked.callStep (.client 0) choice pc).1.threadList, pc'.CallFree := by
  have runs := use.caller pc found
  cases pc with
  | lock region =>
      refine ⟨fun pc' next => ?_, use.queue, use.threads⟩
      cases next
      cases region with
      | push job => exact runs
      | grow tbusy => trivial
      | _ => exact runs.elim
  | inside region =>
      cases region with
      | push job =>
          simp only [callStep, runRegion]
          split
          · exact ⟨fun pc' next => (by cases next; trivial), use.queue, use.threads⟩
          · refine ⟨fun pc' next => (by cases next; trivial), ?_, ?_⟩
            · have queue : ∀ queued ∈ locked.jobQueue ++ [job], queued.CallFree := by
                intro queued member
                cases List.mem_append.mp member with
                | inl old => exact use.queue queued old
                | inr new => exact List.mem_singleton.mp new ▸ runs
              cases choice.notified <;> exact queue
            · cases choice.notified with
              | none => exact use.threads
              | some worker => exact use.threads_set trivial
      | grow tbusy =>
          refine ⟨fun pc' next => (by cases next; trivial), use.queue, fun pc' member => ?_⟩
          cases List.mem_append.mp member with
          | inl old => exact use.threads pc' old
          | inr new => exact List.eq_of_mem_replicate new ▸ trivial
      | _ => exact runs.elim
  | unlock mutex next =>
      cases next with
      | inl region =>
          refine ⟨fun pc' next => ?_, use.queue, use.threads⟩
          cases next
          cases region with
          | grow tbusy => trivial
          | _ => exact runs.elim
      | inr outcome => exact ⟨fun pc' next => (by cases next), use.queue, use.threads⟩

theorem closer_step (use : locked.SoleUse) :
    (∀ job ∈ (locked.closerStep locked.closer).jobQueue, job.CallFree) ∧
    ∀ pc ∈ (locked.closerStep locked.closer).threadList, pc.CallFree := by
  cases locked.closer with
  | signal =>
      simp only [closerStep]
      split
      · exact ⟨use.queue, use.threads⟩
      · refine ⟨use.queue, fun pc member => ?_⟩
        obtain ⟨old, present, rfl⟩ := List.mem_map.mp member
        have callFree := use.threads old present
        cases old <;> exact callFree
  | join index =>
      simp only [closerStep]
      split <;> exact ⟨use.queue, use.threads⟩
  | _ => exact ⟨use.queue, use.threads⟩

theorem callStep_clients (locked : LockSystem) (party : Party) (pc : CallPc) :
    (locked.callStep party choice pc).1.clients = locked.clients := by
  cases pc with
  | lock region => rfl
  | inside region =>
      cases region with
      | push job =>
          simp only [callStep, runRegion]
          split
          · rfl
          · cases choice.notified <;> rfl
      | _ => rfl
  | unlock mutex next => cases next <;> rfl

theorem closerStep_clients (locked : LockSystem) (pc : CloserPc) :
    (locked.closerStep pc).clients = locked.clients := by
  cases pc with
  | signal =>
      simp only [closerStep]
      split <;> rfl
  | join index =>
      simp only [closerStep]
      split <;> rfl
  | _ => rfl

theorem effect (use : locked.SoleUse) {action : LockAction} (allowed : locked.SoleCaller action)
    (enabled : locked.Enabled action) : (locked.effect action).SoleUse := by
  have unblocked := use.unblocked.effect (use.unhindered action) enabled
  cases action with
  | move party choice =>
      cases party with
      | worker index =>
          obtain ⟨pc, found, ready⟩ := enabled
          obtain ⟨clients, closer, queue, threads⟩ := use.worker found ready
          simp only [LockSystem.effect, advance, found] at unblocked ⊢
          exact ⟨unblocked, clients ▸ use.others, clients ▸ use.caller,
            clients ▸ closer ▸ use.closed, queue, threads⟩
      | client index =>
          obtain ⟨pc, found, ready⟩ := enabled
          have sole : index = 0 := by
            by_contra other
            rw [use.others index other] at found
            contradiction
          rw [sole] at found
          obtain ⟨runs, queue, threads⟩ := use.caller_step found ready
          have open_ : locked.closer = .idle := by
            by_contra closing
            rw [use.closed closing] at found
            contradiction
          have frame : Frame locked (locked.callStep (.client 0) choice pc).1 :=
            callStep_frame (by simp) ready
          have clients : (locked.clientStep 0 choice pc).clients = Function.update locked.clients 0
              (locked.callStep (.client 0) choice pc).2.getLeft? := by
            rw [← callStep_clients locked (.client 0) pc]
            rfl
          simp only [LockSystem.effect, advance, sole, found] at unblocked ⊢
          refine ⟨unblocked, fun client other => ?_, fun pc' called => ?_, fun closing => ?_, queue,
            threads⟩
          · rw [clients, Function.update_of_ne other]
            exact use.others client other
          · rw [clients, Function.update_self] at called
            exact runs pc' called
          · exact absurd (frame.closer.trans open_) closing
      | closer =>
          obtain ⟨queue, threads⟩ := use.closer_step
          have clients := closerStep_clients locked locked.closer
          have closing : locked.closer ≠ .idle := by
            intro idle
            have ready : locked.CloserReady locked.closer := enabled
            rw [idle] at ready
            exact ready
          exact ⟨unblocked, clients ▸ use.others, clients ▸ use.caller,
            fun _ => clients ▸ use.closed closing, queue, threads⟩
  | callPool client region =>
      obtain ⟨rfl, idle, job, rfl, callFree⟩ := allowed
      refine ⟨unblocked, fun client other => ?_, fun pc called => ?_,
        fun closing => absurd idle closing, use.queue, use.threads⟩
      · exact (Function.update_of_ne other ..).trans (use.others client other)
      · have same : some (CallPc.lock (.push job)) = some pc :=
          (Function.update_self (0 : Nat) _ locked.clients).symm.trans called
        cases same
        exact callFree
  | callShutdown =>
      exact ⟨unblocked, use.others, use.caller, fun _ => allowed, use.queue, use.threads⟩
  | wakeSpuriously worker =>
      exact ⟨unblocked, use.others, use.caller, use.closed, use.queue, use.threads_set trivial⟩

theorem reaches (reached : lockTransition.Reaches Start SoleCaller locked) : locked.SoleUse := by
  refine Transition.Reaches.invariant (fun started starts => ?_)
    (fun before action use allowed enabled => use.effect allowed enabled) reached
  obtain ⟨tmin, tmax, rfl⟩ := starts
  exact SoleUse.new tmin tmax

end SoleUse

end LockSystem

end FastCrawl
