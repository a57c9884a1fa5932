import Mathlib.Algebra.Group.Nat.Defs
import Mathlib.Data.List.Basic
import FastCrawl.Library.Transition

namespace FastCrawl

/-! The thread pool.  A region of code under a mutex is one step, and so is the
start and the end of a job, which run under none. -/

inductive JobStage where
  | taken
  | running
  | done
deriving Repr, DecidableEq

/-- Where a pooled thread stands in `routine`: about to lock the queue, started or
notified; in `m_job_ready.wait`, not notified; with a job, which carries its
number in the order of the queue; or past the loop. -/
inductive ThreadPc (Job : Type) where
  | awake
  | waiting
  | busy (stage : JobStage) (ticket : Nat) (job : Job)
  | exited
deriving Repr, DecidableEq

/-- Where a caller of the pool stands: outside; in `run`, with the job queued and
`tbusy` read; in `shutdown`, before it locks the queue; about to join.  The jobs
in `due` were accepted by calls of `run` that returned before the shutdown. -/
inductive ClientPc where
  | idle
  | pushed (ticket : Nat) (tbusy : UInt64)
  | shutdownCalled (due : List Nat)
  | joining (due : List Nat)
deriving Repr, DecidableEq

/-- The pool.  Threads are joined in the order of the list and all at once, and
new ones are appended, so a count tells which threads have been joined. -/
structure ThreadPool (Job : Type) where
  tmax : UInt64
  tbusy : UInt64 := 0
  shutdown : Bool := false
  threadList : List (ThreadPc Job) := []
  joined : Nat := 0
  jobQueue : List Job := []

/-- The pool, its callers and the history of its jobs: the jobs accepted and
those taken off the queue, each with its thread, in order, and the numbers of
the jobs invoked, completed and accepted by a `run` that returned true.  `downs`
has the jobs due at each call of `shutdown` that has returned. -/
structure PoolSystem (Job : Type) where
  pool : ThreadPool Job
  clients : Nat → ClientPc := fun _ => .idle
  accepted : List Job := []
  dequeued : List (Job × Nat) := []
  invoked : List Nat := []
  completed : List Nat := []
  returned : List Nat := []
  downs : List (List Nat) := []

variable {Job : Type}

namespace ThreadPool

def size (pool : ThreadPool Job) : UInt64 := .ofNat pool.threadList.length

def applyThreadLimit (pool : ThreadPool Job) (tcnt : UInt64) : UInt64 :=
  if pool.size + tcnt > pool.tmax then pool.tmax - pool.size else tcnt

def emplaceThreads (pool : ThreadPool Job) (created : Nat) : ThreadPool Job :=
  { pool with threadList := pool.threadList ++ List.replicate created .awake }

def growCount (pool : ThreadPool Job) (tbusy : UInt64) : UInt64 :=
  if pool.size = tbusy then pool.applyThreadLimit 1 else 0

def sizeCount (pool : ThreadPool Job) (threadCnt : UInt64) : UInt64 :=
  if pool.size < threadCnt then pool.applyThreadLimit (threadCnt - pool.size) else 0

/-- Of `tcnt` threads `created` may start: not all, if the system refuses one, and
no more than `size_t` can count. -/
def CanStart (pool : ThreadPool Job) (tcnt : UInt64) (created : Nat) : Prop :=
  created ≤ tcnt.toNat ∧ pool.threadList.length + created < 2 ^ 64

instance (pool : ThreadPool Job) (tcnt : UInt64) (created : Nat) :
    Decidable (pool.CanStart tcnt created) := inferInstanceAs (Decidable (_ ∧ _))

def setPc (pool : ThreadPool Job) (worker : Nat) (pc : ThreadPc Job) : ThreadPool Job :=
  { pool with threadList := pool.threadList.set worker pc }

@[simp] theorem setPc_length (pool : ThreadPool Job) (worker : Nat) (pc : ThreadPc Job) :
    (pool.setPc worker pc).threadList.length = pool.threadList.length := List.length_set ..

def CanNotify (pool : ThreadPool Job) : Option Nat → Prop
  | some worker => pool.threadList[worker]? = some .waiting
  | none => ∀ pc ∈ pool.threadList, pc ≠ .waiting

instance [DecidableEq Job] (pool : ThreadPool Job) :
    ∀ notified, Decidable (pool.CanNotify notified)
  | some _ => inferInstanceAs (Decidable (_ = _))
  | none => inferInstanceAs (Decidable (∀ pc ∈ pool.threadList, pc ≠ .waiting))

def notifyOne (pool : ThreadPool Job) : Option Nat → ThreadPool Job
  | some worker => pool.setPc worker .awake
  | none => pool

end ThreadPool

def ThreadPc.notified : ThreadPc Job → ThreadPc Job
  | .waiting => .awake
  | pc => pc

/-- The regions of `run` are `push` or `reject` on the queue and `grow` on the
thread list; those of `shutdown` are `signalShutdown` and `joinThreads`; those of
`routine` are `enterLoop`, from the first lock or the end of a wait, and `relock`,
from the lock after a job, both to the next unlock. -/
inductive PoolAction (Job : Type) where
  | push (client : Nat) (job : Job) (notified : Option Nat)
  | reject (client : Nat) (job : Job)
  | grow (client ticket : Nat) (tbusy : UInt64) (created : Nat)
  | startThread (tcnt : UInt64) (created : Nat)
  | setSize (threadCnt : UInt64) (created : Nat)
  | callShutdown (client : Nat)
  | signalShutdown (client : Nat) (due : List Nat)
  | joinThreads (client : Nat) (due : List Nat)
  | enterLoop (worker : Nat)
  | invoke (worker ticket : Nat) (job : Job)
  | complete (worker ticket : Nat) (job : Job)
  | relock (worker ticket : Nat) (job : Job)
  | wakeSpuriously (worker : Nat)

/-- The steps of the pooled threads. -/
def PoolAction.OfThread : PoolAction Job → Prop
  | .enterLoop _ | .invoke .. | .complete .. | .relock .. | .wakeSpuriously _ => True
  | _ => False

namespace PoolSystem

variable (system : PoolSystem Job)

def setClient (client : Nat) (pc : ClientPc) : PoolSystem Job :=
  { system with clients := Function.update system.clients client pc }

def setPc (worker : Nat) (pc : ThreadPc Job) : PoolSystem Job :=
  { system with pool := system.pool.setPc worker pc }

def push (client : Nat) (job : Job) (notified : Option Nat) : PoolSystem Job :=
  let pool := { system.pool with jobQueue := system.pool.jobQueue ++ [job] }
  { system.setClient client (.pushed system.accepted.length system.pool.tbusy) with
    pool := pool.notifyOne notified
    accepted := system.accepted ++ [job] }

/-- `run`, in the region of the thread list.  It returns true unless starting a
thread throws. -/
def grow (client ticket : Nat) (tbusy : UInt64) (created : Nat) : PoolSystem Job :=
  let tcnt := system.pool.growCount tbusy
  { system.setClient client .idle with
    pool := system.pool.emplaceThreads created
    returned := if created = tcnt.toNat then system.returned ++ [ticket] else system.returned }

def signalShutdown (client : Nat) (due : List Nat) : PoolSystem Job :=
  if system.pool.shutdown then
    { system.setClient client .idle with downs := system.downs ++ [due] }
  else
    { system.setClient client (.joining due) with
      pool := { system.pool with
        shutdown := true
        threadList := system.pool.threadList.map ThreadPc.notified } }

def joinThreads (client : Nat) (due : List Nat) : PoolSystem Job :=
  { system.setClient client .idle with
    pool := { system.pool with joined := system.pool.threadList.length }
    downs := system.downs ++ [due] }

def takeJob (worker : Nat) (job : Job) (rest : List Job) : PoolSystem Job :=
  let pool := { system.pool with jobQueue := rest, tbusy := system.pool.tbusy + 1 }
  { system with
    pool := pool.setPc worker (.busy .taken system.dequeued.length job)
    dequeued := system.dequeued ++ [(job, worker)] }

/-- `while (m_job_queue.size())`, up to the next unlock. -/
def executeQueued (worker : Nat) : PoolSystem Job :=
  match system.pool.jobQueue with
  | job :: rest => system.takeJob worker job rest
  | [] => system.setPc worker (if system.pool.shutdown then .exited else .waiting)

theorem executeQueued_cons {system : PoolSystem Job} {job : Job} {rest : List Job}
    (queued : system.pool.jobQueue = job :: rest) (worker : Nat) :
    system.executeQueued worker = system.takeJob worker job rest := by
  rw [executeQueued, queued]

theorem executeQueued_nil {system : PoolSystem Job} (empty : system.pool.jobQueue = [])
    (worker : Nat) : system.executeQueued worker =
      system.setPc worker (if system.pool.shutdown then .exited else .waiting) := by
  rw [executeQueued, empty]

/-- A thread in its loop changes the pool and the list of the jobs taken, no more. -/
theorem executeQueued_frame (worker : Nat) : ∃ pool dequeued,
    system.executeQueued worker = { system with pool, dequeued } ∧
      pool.shutdown = system.pool.shutdown ∧ pool.joined = system.pool.joined := by
  unfold executeQueued
  split
  · exact ⟨_, _, rfl, rfl, rfl⟩
  · exact ⟨_, _, rfl, rfl, rfl⟩

/-- `while (!m_shutdown)`, up to the next unlock. -/
def enterLoop (worker : Nat) : PoolSystem Job :=
  if system.pool.shutdown then system.setPc worker .exited else system.executeQueued worker

theorem enterLoop_frame (worker : Nat) : ∃ pool dequeued,
    system.enterLoop worker = { system with pool, dequeued } ∧
      pool.shutdown = system.pool.shutdown ∧ pool.joined = system.pool.joined := by
  unfold enterLoop
  split
  · exact ⟨_, _, rfl, rfl, rfl⟩
  · exact system.executeQueued_frame worker

theorem signalShutdown_down {system : PoolSystem Job} (down : system.pool.shutdown = true)
    (client : Nat) (due : List Nat) : system.signalShutdown client due =
      { system.setClient client .idle with downs := system.downs ++ [due] } := if_pos down

theorem signalShutdown_up {system : PoolSystem Job} (up : system.pool.shutdown = false)
    (client : Nat) (due : List Nat) : system.signalShutdown client due =
      { system.setClient client (.joining due) with
        pool := { system.pool with
          shutdown := true
          threadList := system.pool.threadList.map ThreadPc.notified } } :=
  if_neg (by simp [up])

/-- The deferred action of `routine`; the thread goes on in the inner loop. -/
def endJob (worker : Nat) : PoolSystem Job :=
  { system with
    pool := { system.pool.setPc worker .awake with tbusy := system.pool.tbusy - 1 } }

def Enabled (system : PoolSystem Job) : PoolAction Job → Prop
  | .push client _ notified =>
      system.clients client = .idle ∧ system.pool.shutdown = false ∧
        system.pool.CanNotify notified
  | .reject client _ => system.clients client = .idle ∧ system.pool.shutdown = true
  | .grow client ticket tbusy created =>
      system.clients client = .pushed ticket tbusy ∧
        system.pool.CanStart (system.pool.growCount tbusy) created
  | .startThread tcnt created =>
      system.pool.CanStart (system.pool.applyThreadLimit tcnt) created
  | .setSize threadCnt created =>
      system.pool.CanStart (system.pool.sizeCount threadCnt) created
  | .callShutdown client => system.clients client = .idle
  | .signalShutdown client due => system.clients client = .shutdownCalled due
  | .joinThreads client due =>
      system.clients client = .joining due ∧ ∀ pc ∈ system.pool.threadList, pc = .exited
  | .enterLoop worker => system.pool.threadList[worker]? = some .awake
  | .invoke worker ticket job =>
      system.pool.threadList[worker]? = some (.busy .taken ticket job)
  | .complete worker ticket job =>
      system.pool.threadList[worker]? = some (.busy .running ticket job)
  | .relock worker ticket job =>
      system.pool.threadList[worker]? = some (.busy .done ticket job)
  | .wakeSpuriously worker => system.pool.threadList[worker]? = some .waiting

instance [DecidableEq Job] (system : PoolSystem Job) :
    ∀ action, Decidable (system.Enabled action)
  | .push .. => inferInstanceAs (Decidable (_ ∧ _ ∧ _))
  | .reject .. => inferInstanceAs (Decidable (_ ∧ _))
  | .grow .. => inferInstanceAs (Decidable (_ ∧ _))
  | .startThread .. => inferInstanceAs (Decidable (ThreadPool.CanStart ..))
  | .setSize .. => inferInstanceAs (Decidable (ThreadPool.CanStart ..))
  | .callShutdown _ => inferInstanceAs (Decidable (_ = _))
  | .signalShutdown .. => inferInstanceAs (Decidable (_ = _))
  | .joinThreads .. => inferInstanceAs (Decidable (_ ∧ ∀ pc ∈ system.pool.threadList, pc = .exited))
  | .enterLoop _ => inferInstanceAs (Decidable (_ = _))
  | .invoke .. => inferInstanceAs (Decidable (_ = _))
  | .complete .. => inferInstanceAs (Decidable (_ = _))
  | .relock .. => inferInstanceAs (Decidable (_ = _))
  | .wakeSpuriously _ => inferInstanceAs (Decidable (_ = _))

def effect (system : PoolSystem Job) : PoolAction Job → PoolSystem Job
  | .push client job notified => system.push client job notified
  | .reject _ _ => system
  | .grow client ticket tbusy created => system.grow client ticket tbusy created
  | .startThread _ created => { system with pool := system.pool.emplaceThreads created }
  | .setSize _ created => { system with pool := system.pool.emplaceThreads created }
  | .callShutdown client => system.setClient client (.shutdownCalled system.returned)
  | .signalShutdown client due => system.signalShutdown client due
  | .joinThreads client due => system.joinThreads client due
  | .enterLoop worker => system.enterLoop worker
  | .invoke worker ticket job =>
      { system.setPc worker (.busy .running ticket job) with
        invoked := system.invoked ++ [ticket] }
  | .complete worker ticket job =>
      { system.setPc worker (.busy .done ticket job) with
        completed := system.completed ++ [ticket] }
  | .relock worker _ _ => (system.endJob worker).executeQueued worker
  | .wakeSpuriously worker => system.setPc worker .awake

/-- What the callers of the pool see of it, the jobs apart. -/
structure SameCallers (before after : PoolSystem Job) : Prop where
  clients : after.clients = before.clients
  accepted : after.accepted = before.accepted
  returned : after.returned = before.returned
  downs : after.downs = before.downs
  shutdown : after.pool.shutdown = before.pool.shutdown
  joined : after.pool.joined = before.pool.joined

theorem SameCallers.of_frame {before after : PoolSystem Job} {pool : ThreadPool Job}
    {dequeued : List (Job × Nat)} (same : after = { before with pool, dequeued })
    (shutdown : pool.shutdown = before.pool.shutdown)
    (joined : pool.joined = before.pool.joined) : SameCallers before after := by
  rw [same]
  exact ⟨rfl, rfl, rfl, rfl, shutdown, joined⟩

theorem effect_sameCallers (before : PoolSystem Job) {action : PoolAction Job}
    (thread : action.OfThread) : SameCallers before (before.effect action) := by
  cases action with
  | enterLoop worker =>
      obtain ⟨_, _, after, shutdown, joined⟩ := before.enterLoop_frame worker
      exact .of_frame after shutdown joined
  | invoke worker ticket job => exact ⟨rfl, rfl, rfl, rfl, rfl, rfl⟩
  | complete worker ticket job => exact ⟨rfl, rfl, rfl, rfl, rfl, rfl⟩
  | relock worker ticket job =>
      obtain ⟨_, _, after, shutdown, joined⟩ :=
        (before.endJob worker).executeQueued_frame worker
      exact .of_frame after shutdown joined
  | wakeSpuriously worker => exact ⟨rfl, rfl, rfl, rfl, rfl, rfl⟩
  | _ => exact thread.elim

/-- After the shutdown no job is accepted, and only a thread that ends a job touches
the queue. -/
theorem effect_of_down {before : PoolSystem Job} {action : PoolAction Job}
    (down : before.pool.shutdown = true) (enabled : before.Enabled action) :
    (before.effect action).pool.shutdown = true ∧
    (before.effect action).accepted = before.accepted ∧
    ((∃ worker ticket job, action = .relock worker ticket job) ∨
      (before.effect action).pool.jobQueue = before.pool.jobQueue ∧
      (before.effect action).pool.tbusy = before.pool.tbusy ∧
      (before.effect action).dequeued = before.dequeued) := by
  cases action with
  | push client job notified => exact absurd (down.symm.trans enabled.2.1) (by simp)
  | signalShutdown client due =>
      have done : before.effect (.signalShutdown client due) =
          { before.setClient client .idle with downs := before.downs ++ [due] } := if_pos down
      rw [done]
      exact ⟨down, rfl, .inr ⟨rfl, rfl, rfl⟩⟩
  | enterLoop worker =>
      have left : before.effect (.enterLoop worker) = before.setPc worker .exited := if_pos down
      rw [left]
      exact ⟨down, rfl, .inr ⟨rfl, rfl, rfl⟩⟩
  | relock worker ticket job =>
      have same : SameCallers before (before.effect (.relock worker ticket job)) :=
        before.effect_sameCallers trivial
      exact ⟨same.shutdown.trans down, same.accepted, .inl ⟨worker, ticket, job, rfl⟩⟩
  | _ => exact ⟨down, rfl, .inr ⟨rfl, rfl, rfl⟩⟩

end PoolSystem

def poolTransition (Job : Type) : Transition (PoolSystem Job) (PoolAction Job) where
  Enabled := PoolSystem.Enabled
  effect := PoolSystem.effect

instance [DecidableEq Job] (system : PoolSystem Job) (action : PoolAction Job) :
    Decidable ((poolTransition Job).Enabled system action) :=
  inferInstanceAs (Decidable (system.Enabled action))

def PoolSystem.new (Job : Type) (tmin tmax : UInt64) : PoolSystem Job :=
  let pool : ThreadPool Job := { tmax }
  { pool := pool.emplaceThreads (pool.applyThreadLimit tmin).toNat }

def PoolSystem.Start (system : PoolSystem Job) : Prop :=
  ∃ tmin tmax, system = .new Job tmin tmax

/-- What holds of a new pool and is kept by each step that is allowed holds in every
run. -/
theorem PoolSystem.invariant {Holds : PoolSystem Job → Prop}
    {Allowed : PoolSystem Job → PoolAction Job → Prop}
    (new : ∀ tmin tmax, Holds (.new Job tmin tmax))
    (keeps : ∀ before action, Holds before → Allowed before action → before.Enabled action →
      Holds (before.effect action)) {system : PoolSystem Job}
    (reached : (poolTransition Job).Reaches PoolSystem.Start Allowed system) : Holds system := by
  refine Transition.Reaches.invariant (fun _ starts => ?_) keeps reached
  obtain ⟨tmin, tmax, rfl⟩ := starts
  exact new tmin tmax

end FastCrawl
