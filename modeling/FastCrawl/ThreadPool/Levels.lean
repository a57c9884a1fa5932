import FastCrawl.Library.Simulation
import FastCrawl.ThreadPool.Conservation
import FastCrawl.ThreadPool.Ownership

namespace FastCrawl

/-! The pool with its locks refines the pool whose regions are single steps.  A
region takes effect where its code runs, with the mutex held; all other steps
leave the system of regions as it is. -/

/-- Where a caller stands, as both levels see it. -/
inductive CallerStage where
  | outside
  | pushed (tbusy : UInt64)
  | shutdownCalled
  | joining
deriving Repr, DecidableEq

/-- Where a pooled thread stands, as both levels see it. -/
inductive ThreadStage (Job : Type) where
  | awake
  | waiting
  | taken (job : Job)
  | running
  | done
  | exited

def ThreadStage.notified {Job : Type} : ThreadStage Job → ThreadStage Job
  | .waiting => .awake
  | stage => stage

def ClientPc.stage : ClientPc → CallerStage
  | .idle => .outside
  | .pushed _ tbusy => .pushed tbusy
  | .shutdownCalled _ => .shutdownCalled
  | .joining _ => .joining

def ThreadPc.stage {Job : Type} : ThreadPc Job → ThreadStage Job
  | .awake => .awake
  | .waiting => .waiting
  | .busy .taken _ job => .taken job
  | .busy .running _ _ => .running
  | .busy .done _ _ => .done
  | .exited => .exited

section ThreadStages

variable {Job : Type} {place : ThreadPc Job}

theorem ThreadPc.of_awake (shown : place.stage = .awake) : place = .awake := by
  cases place with
  | awake => rfl
  | busy at_stage ticket job => cases at_stage <;> contradiction
  | _ => contradiction

theorem ThreadPc.of_waiting (shown : place.stage = .waiting) : place = .waiting := by
  cases place with
  | waiting => rfl
  | busy at_stage ticket job => cases at_stage <;> contradiction
  | _ => contradiction

theorem ThreadPc.of_exited (shown : place.stage = .exited) : place = .exited := by
  cases place with
  | exited => rfl
  | busy at_stage ticket job => cases at_stage <;> contradiction
  | _ => contradiction

theorem ThreadPc.of_taken {job : Job} (shown : place.stage = .taken job) :
    ∃ ticket, place = .busy .taken ticket job := by
  cases place with
  | busy at_stage ticket queued =>
      cases at_stage with
      | taken =>
          cases shown
          exact ⟨ticket, rfl⟩
      | _ => contradiction
  | _ => contradiction

theorem ThreadPc.of_running (shown : place.stage = .running) :
    ∃ ticket job, place = .busy .running ticket job := by
  cases place with
  | busy at_stage ticket job =>
      cases at_stage with
      | running => exact ⟨ticket, job, rfl⟩
      | _ => contradiction
  | _ => contradiction

theorem ThreadPc.of_done (shown : place.stage = .done) :
    ∃ ticket job, place = .busy .done ticket job := by
  cases place with
  | busy at_stage ticket job =>
      cases at_stage with
      | done => exact ⟨ticket, job, rfl⟩
      | _ => contradiction
  | _ => contradiction

end ThreadStages

def CallPc.stage : CallPc → CallerStage
  | .lock (.grow tbusy) | .inside (.grow tbusy) | .unlock _ (.inl (.grow tbusy)) => .pushed tbusy
  | _ => .outside

/-- A job that a thread runs may itself call the pool. -/
def WorkerPc.caller : WorkerPc → CallerStage
  | .call pc _ => pc.stage
  | _ => .outside

/-- Behind the decrement of `m_tbusy` a thread has not looked at the queue yet. -/
def WorkerPc.isEnding : WorkerPc → Bool
  | .loop false => true
  | _ => false

def WorkerPc.stage : WorkerPc → ThreadStage PoolJob
  | .lockLoop | .loop true => .awake
  | .unlockJob taken => .taken taken
  | .job _ | .call _ _ => .running
  | .relock | .endJob | .loop false => .done
  | .wait | .blocked => .waiting
  | .unlockExit | .exited => .exited

def CloserPc.stage : CloserPc → CallerStage
  | .lockQueue | .signal => .shutdownCalled
  | .unlockQueue | .lockThreads | .join _ => .joining
  | _ => .outside

/-- The number of a party among the callers of the pool. -/
def Party.caller : Party → Nat
  | .closer => 0
  | .client index => 2 * index + 1
  | .worker index => 2 * index + 2

theorem Party.caller_injective : Function.Injective Party.caller := by
  intro party other same
  cases party with
  | worker index =>
      cases other with
      | worker index' =>
          simp only [caller] at same
          exact congrArg Party.worker (by omega)
      | client index' =>
          simp only [caller] at same
          omega
      | closer => contradiction
  | client index =>
      cases other with
      | worker index' =>
          simp only [caller] at same
          omega
      | client index' =>
          simp only [caller] at same
          exact congrArg Party.client (by omega)
      | closer => contradiction
  | closer =>
      cases other with
      | worker index' => contradiction
      | client index' => contradiction
      | closer => rfl

namespace LockSystem

def stage (locked : LockSystem) : Party → CallerStage
  | .worker index => (locked.threadList[index]?.map WorkerPc.caller).getD .outside
  | .client index => ((locked.clients index).map CallPc.stage).getD .outside
  | .closer => locked.closer.stage

/-- The call that a party is in. -/
def callOf (locked : LockSystem) : Party → Option CallPc
  | .worker index =>
      match locked.threadList[index]? with
      | some (.call pc _) => some pc
      | _ => none
  | .client index => locked.clients index
  | .closer => none

/-- A step with the locks that runs the code of a region. -/
def Runs (locked : LockSystem) (action : LockAction) (client : Nat) (region : Region)
    (choice : Choice) : Prop :=
  ∃ party, action = .move party choice ∧ client = party.caller ∧
    locked.callOf party = some (.inside region)

/-- A step with the locks that a pooled thread takes from its place. -/
def Steps (locked : LockSystem) (action : LockAction) (worker : Nat) (pc : WorkerPc) : Prop :=
  ∃ choice, action = .move (.worker worker) choice ∧ locked.threadList[worker]? = some pc

/-- The step of the system of regions that a step with the locks may be. -/
def Performs (locked : LockSystem) (action : LockAction) : PoolAction PoolJob → Prop
  | .push client job notified =>
      ∃ choice, notified = choice.notified ∧ locked.Runs action client (.push job) choice
  | .reject client job => ∃ choice, locked.Runs action client (.push job) choice
  | .grow client _ tbusy created =>
      ∃ choice, created = choice.created ∧ locked.Runs action client (.grow tbusy) choice
  | .startThread tcnt created =>
      ∃ client choice, created = choice.created ∧
        locked.Runs action client (.startThread tcnt) choice
  | .setSize threadCnt created =>
      ∃ client choice, created = choice.created ∧
        locked.Runs action client (.setSize threadCnt) choice
  | .callShutdown client => action = .callShutdown ∧ client = Party.caller .closer
  | .signalShutdown client _ =>
      (∃ choice, action = .move .closer choice) ∧ client = Party.caller .closer ∧
        locked.closer = .signal
  | .joinThreads client _ =>
      (∃ choice, action = .move .closer choice) ∧ client = Party.caller .closer ∧
        locked.closer = .join locked.threadList.length
  | .enterLoop worker => locked.Steps action worker (.loop true)
  | .invoke worker _ job => locked.Steps action worker (.unlockJob job)
  | .complete worker _ _ => locked.Steps action worker (.job .done)
  | .relock worker _ _ => locked.Steps action worker (.loop false)
  | .wakeSpuriously worker => action = .wakeSpuriously worker

/-- The threads that `shutdown` has joined so far have exited. -/
def JoinedExited (locked : LockSystem) : Prop :=
  ∀ index, locked.closer = .join index → index ≤ locked.threadList.length ∧
    ∀ joined < index, locked.threadList[joined]? = some .exited

end LockSystem

/-- The two levels agree, with the callers at the stages given.  A thread that has
decremented `m_tbusy` is still counted on the level of regions. -/
structure Agree (stage : Party → CallerStage) (locked : LockSystem)
    (system : PoolSystem PoolJob) : Prop where
  tmax : system.pool.tmax = locked.tmax
  shutdown : system.pool.shutdown = locked.shutdown
  jobQueue : system.pool.jobQueue = locked.jobQueue
  tbusy : system.pool.tbusy =
    locked.tbusy + .ofNat (locked.threadList.countP WorkerPc.isEnding)
  threads : system.pool.threadList.map ThreadPc.stage = locked.threadList.map WorkerPc.stage
  callers : ∀ party, (system.clients party.caller).stage = stage party

structure Refines (locked : LockSystem) (system : PoolSystem PoolJob) : Prop where
  agree : Agree locked.stage locked system
  owned : locked.Owned
  joined : locked.JoinedExited

end FastCrawl
