import FastCrawl.Library.Blocking
import FastCrawl.ThreadPool.Pool

namespace FastCrawl

/-! The thread pool with each lock, unlock, wait and join as a step of its own, and
with jobs that call their pool. -/

inductive Mutex where
  | threadList
  | jobQueue
deriving Repr, DecidableEq

/-- What a call of the pool returns: nothing if starting a thread throws. -/
inductive Outcome where
  | queued (accepted : Option Bool)
  | count (number : Option UInt64)
deriving Repr, DecidableEq

/-- A job that ends on every path: it computes, with any result, and calls `run`,
`size` and `busy` of its pool. -/
inductive PoolJob where
  | done
  | compute (next : Nat → PoolJob)
  | run (job : PoolJob) (next : Outcome → PoolJob)
  | size (next : Outcome → PoolJob)
  | busy (next : Outcome → PoolJob)

/-- The regions of code under a mutex in the calls of the pool, `grow` being the
second one of `run`. -/
inductive Region where
  | push (job : PoolJob)
  | grow (tbusy : UInt64)
  | size
  | setSize (threadCnt : UInt64)
  | startThread (tcnt : UInt64)
  | busy

def Region.mutex : Region → Mutex
  | .push _ | .busy => .jobQueue
  | .grow _ | .size | .setSize _ | .startThread _ => .threadList

/-- The regions that calls begin with. -/
def Region.isFirst : Region → Bool
  | .grow _ => false
  | _ => true

inductive CallPc where
  | lock (region : Region)
  | inside (region : Region)
  | unlock (mutex : Mutex) (next : Region ⊕ Outcome)

/-- Where a pooled thread stands in `routine`: about to lock the queue, started or
notified; in the loop with the mutex, at `while (!m_shutdown)` or behind it; with
a job that it has taken; in the job or a call that the job makes; about to lock
the queue after the job, and with the mutex then; about to wait, with the mutex;
in the wait; and about to give up the mutex and return. -/
inductive WorkerPc where
  | lockLoop
  | loop (outer : Bool)
  | unlockJob (job : PoolJob)
  | job (job : PoolJob)
  | call (pc : CallPc) (next : Outcome → PoolJob)
  | relock
  | endJob
  | wait
  | blocked
  | unlockExit
  | exited

/-- The one call of `shutdown`. -/
inductive CloserPc where
  | idle
  | lockQueue
  | signal
  | unlockDown
  | unlockQueue
  | lockThreads
  | join (index : Nat)
  | unlockThreads
  | returned
deriving Repr, DecidableEq

inductive Party where
  | worker (index : Nat)
  | client (index : Nat)
  | closer
deriving Repr, DecidableEq

structure LockSystem where
  tmax : UInt64
  tbusy : UInt64 := 0
  shutdown : Bool := false
  threadList : List WorkerPc := []
  jobQueue : List PoolJob := []
  owner : Mutex → Option Party := fun _ => none
  clients : Nat → Option CallPc := fun _ => none
  closer : CloserPc := .idle

/-- What is left open in a step: the thread that is notified, how many threads
start, and what a job computes. -/
structure Choice where
  notified : Option Nat := none
  created : Nat := 0
  result : Nat := 0
deriving Repr, DecidableEq

inductive LockAction where
  | move (party : Party) (choice : Choice)
  | callPool (client : Nat) (region : Region)
  | callShutdown
  | wakeSpuriously (worker : Nat)

def WorkerPc.isBlocked : WorkerPc → Bool
  | .blocked => true
  | _ => false

def WorkerPc.isExited : WorkerPc → Bool
  | .exited => true
  | _ => false

def WorkerPc.notified : WorkerPc → WorkerPc
  | .blocked => .lockLoop
  | pc => pc

/-- In a call that a job has made, or behind it. -/
def WorkerPc.ofCall (next : Outcome → PoolJob) : CallPc ⊕ Outcome → WorkerPc
  | .inl pc => .call pc next
  | .inr outcome => .job (next outcome)

namespace LockSystem

variable (system : LockSystem)

/-- The pool as the arithmetic of its limit sees it. -/
def sized : ThreadPool PoolJob where
  tmax := system.tmax
  threadList := system.threadList.map fun _ => .awake

def emplaceThreads (created : Nat) : LockSystem :=
  { system with threadList := system.threadList ++ List.replicate created .lockLoop }

def setWorker (index : Nat) (pc : WorkerPc) : LockSystem :=
  { system with threadList := system.threadList.set index pc }

def setOwner (mutex : Mutex) (owner : Option Party) : LockSystem :=
  { system with owner := Function.update system.owner mutex owner }

def CanNotify : Option Nat → Prop
  | some worker => (system.threadList[worker]?.map WorkerPc.isBlocked) = some true
  | none => ∀ pc ∈ system.threadList, pc.isBlocked = false

instance : ∀ notified, Decidable (system.CanNotify notified)
  | some _ => inferInstanceAs (Decidable (_ = _))
  | none => inferInstanceAs (Decidable (∀ pc ∈ system.threadList, pc.isBlocked = false))

def notifyOne : Option Nat → LockSystem
  | some worker => system.setWorker worker .lockLoop
  | none => system

/-- How many threads a region asks for. -/
def startCount : Region → UInt64
  | .grow tbusy => system.sized.growCount tbusy
  | .setSize threadCnt => system.sized.sizeCount threadCnt
  | .startThread tcnt => system.sized.applyThreadLimit tcnt
  | _ => 0

def CanRun (choice : Choice) : Region → Prop
  | .push _ => system.shutdown = true ∨ system.CanNotify choice.notified
  | .size | .busy => True
  | region => system.sized.CanStart (system.startCount region) choice.created

instance (choice : Choice) : ∀ region, Decidable (system.CanRun choice region)
  | .push _ => inferInstanceAs (Decidable (_ ∨ _))
  | .size | .busy => isTrue trivial
  | .grow _ | .setSize _ | .startThread _ => inferInstanceAs (Decidable (ThreadPool.CanStart ..))

/-- No thread that a region asks for fails to start. -/
def StartsAll (choice : Choice) (region : Region) : Prop :=
  choice.created = (system.startCount region).toNat

instance (choice : Choice) (region : Region) : Decidable (system.StartsAll choice region) :=
  inferInstanceAs (Decidable (_ = _))

/-- The code of a region, and what follows its unlock. -/
def runRegion (choice : Choice) : Region → LockSystem × (Region ⊕ Outcome)
  | .push job =>
      if system.shutdown then (system, .inr (.queued (some false)))
      else
        ({ system with jobQueue := system.jobQueue ++ [job] }.notifyOne choice.notified,
          .inl (.grow system.tbusy))
  | .grow tbusy =>
      (system.emplaceThreads choice.created,
        .inr (.queued (if system.StartsAll choice (.grow tbusy) then some true else none)))
  | .size => (system, .inr (.count system.sized.size))
  | .setSize threadCnt =>
      (system.emplaceThreads choice.created,
        .inr (.count (if system.StartsAll choice (.setSize threadCnt) then
          some (system.emplaceThreads choice.created).sized.size else none)))
  | .startThread tcnt =>
      (system.emplaceThreads choice.created,
        .inr (.count (if system.StartsAll choice (.startThread tcnt) then
          some (system.startCount (.startThread tcnt)) else none)))
  | .busy => (system, .inr (.count system.tbusy))

/-- A step of a call can be taken. -/
def CallReady (choice : Choice) : CallPc → Prop
  | .lock region => system.owner region.mutex = none
  | .inside region => system.CanRun choice region
  | .unlock _ _ => True

instance (choice : Choice) : ∀ pc, Decidable (system.CallReady choice pc)
  | .lock _ => inferInstanceAs (Decidable (_ = _))
  | .inside region => inferInstanceAs (Decidable (system.CanRun choice region))
  | .unlock _ _ => isTrue trivial

/-- A step of a call: where it stands then, or what it returns. -/
def callStep (party : Party) (choice : Choice) : CallPc → LockSystem × (CallPc ⊕ Outcome)
  | .lock region => (system.setOwner region.mutex (some party), .inl (.inside region))
  | .inside region =>
      let (after, next) := system.runRegion choice region
      (after, .inl (.unlock region.mutex next))
  | .unlock mutex (.inl region) => (system.setOwner mutex none, .inl (.lock region))
  | .unlock mutex (.inr outcome) => (system.setOwner mutex none, .inr outcome)

/-- A step of a job. -/
def jobStep (choice : Choice) : PoolJob → WorkerPc
  | .done => .relock
  | .compute next => .job (next choice.result)
  | .run job next => .call (.lock (.push job)) next
  | .size next => .call (.lock .size) next
  | .busy next => .call (.lock .busy) next

/-- `while (!m_shutdown)` and the loop in it, up to the next unlock or wait. -/
def loopStep (index : Nat) (outer : Bool) : LockSystem :=
  if outer && system.shutdown then system.setWorker index .unlockExit
  else
    match system.jobQueue with
    | job :: rest =>
        { system with jobQueue := rest, tbusy := system.tbusy + 1 }.setWorker index
          (.unlockJob job)
    | [] => system.setWorker index (if system.shutdown then .unlockExit else .wait)

def WorkerReady (choice : Choice) : WorkerPc → Prop
  | .lockLoop | .relock => system.owner .jobQueue = none
  | .call pc _ => system.CallReady choice pc
  | .blocked | .exited => False
  | _ => True

instance (choice : Choice) : ∀ pc, Decidable (system.WorkerReady choice pc)
  | .lockLoop | .relock => inferInstanceAs (Decidable (_ = _))
  | .call pc _ => inferInstanceAs (Decidable (system.CallReady choice pc))
  | .blocked | .exited => isFalse id
  | .loop _ | .unlockJob _ | .job _ | .endJob | .wait | .unlockExit => isTrue trivial

def workerStep (index : Nat) (choice : Choice) : WorkerPc → LockSystem
  | .lockLoop =>
      (system.setOwner .jobQueue (some (.worker index))).setWorker index (.loop true)
  | .loop outer => system.loopStep index outer
  | .unlockJob job => (system.setOwner .jobQueue none).setWorker index (.job job)
  | .job job => system.setWorker index (jobStep choice job)
  | .call pc next =>
      let (after, reached) := system.callStep (.worker index) choice pc
      after.setWorker index (.ofCall next reached)
  | .relock => (system.setOwner .jobQueue (some (.worker index))).setWorker index .endJob
  | .endJob => { system with tbusy := system.tbusy - 1 }.setWorker index (.loop false)
  | .wait => (system.setOwner .jobQueue none).setWorker index .blocked
  | .unlockExit => (system.setOwner .jobQueue none).setWorker index .exited
  | .blocked | .exited => system

def setClient (index : Nat) (pc : Option CallPc) : LockSystem :=
  { system with clients := Function.update system.clients index pc }

def clientStep (index : Nat) (choice : Choice) (pc : CallPc) : LockSystem :=
  let (after, reached) := system.callStep (.client index) choice pc
  after.setClient index reached.getLeft?

/-- The thread that `thread.join()` waits for has exited, or all have been joined. -/
def CanJoin (index : Nat) : Prop :=
  (system.threadList[index]?.map WorkerPc.isExited) ≠ some false

instance (index : Nat) : Decidable (system.CanJoin index) := inferInstanceAs (Decidable (_ ≠ _))

def CloserReady : CloserPc → Prop
  | .lockQueue => system.owner .jobQueue = none
  | .lockThreads => system.owner .threadList = none
  | .join index => system.CanJoin index
  | .idle | .returned => False
  | _ => True

instance : ∀ pc, Decidable (system.CloserReady pc)
  | .lockQueue | .lockThreads => inferInstanceAs (Decidable (_ = _))
  | .join index => inferInstanceAs (Decidable (system.CanJoin index))
  | .idle | .returned => isFalse id
  | .signal | .unlockDown | .unlockQueue | .unlockThreads => isTrue trivial

def closerStep : CloserPc → LockSystem
  | .lockQueue => { system.setOwner .jobQueue (some .closer) with closer := .signal }
  | .signal =>
      if system.shutdown then { system with closer := .unlockDown }
      else
        { system with
          shutdown := true
          threadList := system.threadList.map WorkerPc.notified
          closer := .unlockQueue }
  | .unlockDown => { system.setOwner .jobQueue none with closer := .returned }
  | .unlockQueue => { system.setOwner .jobQueue none with closer := .lockThreads }
  | .lockThreads => { system.setOwner .threadList (some .closer) with closer := .join 0 }
  | .join index =>
      if index < system.threadList.length then { system with closer := .join (index + 1) }
      else { system with closer := .unlockThreads }
  | .unlockThreads => { system.setOwner .threadList none with closer := .returned }
  | .idle | .returned => system

def Ready (choice : Choice) : Party → Prop
  | .worker index => ∃ pc, system.threadList[index]? = some pc ∧ system.WorkerReady choice pc
  | .client index => ∃ pc, system.clients index = some pc ∧ system.CallReady choice pc
  | .closer => system.CloserReady system.closer

instance (choice : Choice) : ∀ party, Decidable (system.Ready choice party)
  | .worker index =>
      inferInstanceAs (Decidable (∃ pc ∈ system.threadList[index]?, system.WorkerReady choice pc))
  | .client index =>
      inferInstanceAs (Decidable (∃ pc ∈ system.clients index, system.CallReady choice pc))
  | .closer => inferInstanceAs (Decidable (system.CloserReady system.closer))

def advance (choice : Choice) : Party → LockSystem
  | .worker index =>
      match system.threadList[index]? with
      | some pc => system.workerStep index choice pc
      | none => system
  | .client index =>
      match system.clients index with
      | some pc => system.clientStep index choice pc
      | none => system
  | .closer => system.closerStep system.closer

def Enabled : LockAction → Prop
  | .move party choice => system.Ready choice party
  | .callPool client region => (system.clients client).isNone ∧ region.isFirst = true
  | .callShutdown => system.closer = .idle
  | .wakeSpuriously worker => (system.threadList[worker]?.map WorkerPc.isBlocked) = some true

instance : ∀ action, Decidable (system.Enabled action)
  | .move party choice => inferInstanceAs (Decidable (system.Ready choice party))
  | .callPool .. => inferInstanceAs (Decidable (_ ∧ _))
  | .callShutdown | .wakeSpuriously _ => inferInstanceAs (Decidable (_ = _))

def effect : LockAction → LockSystem
  | .move party choice => system.advance choice party
  | .callPool client region => system.setClient client (some (.lock region))
  | .callShutdown => { system with closer := .lockQueue }
  | .wakeSpuriously worker => system.setWorker worker .lockLoop

def new (tmin tmax : UInt64) : LockSystem :=
  let system : LockSystem := { tmax }
  system.emplaceThreads (system.sized.applyThreadLimit tmin).toNat

def Start (system : LockSystem) : Prop := ∃ tmin tmax, system = .new tmin tmax

end LockSystem

def lockTransition : Transition LockSystem LockAction where
  Enabled := LockSystem.Enabled
  effect := LockSystem.effect

instance (system : LockSystem) (action : LockAction) :
    Decidable (lockTransition.Enabled system action) :=
  inferInstanceAs (Decidable (system.Enabled action))

end FastCrawl
