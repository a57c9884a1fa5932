import FastCrawl.ThreadPool.Ownership

namespace FastCrawl

/-! When `shutdown` ends up in a deadlock.  It joins the threads while it holds the
mutex of the thread list, which `size` takes and `run` takes after its push: a
job that comes to that mutex then waits for `shutdown`, which waits for its
thread.  The holder of the job queue can always move, so nothing else blocks a
thread that is being joined. -/

def CloserPc.wants : CloserPc → Option Mutex
  | .lockQueue => some .jobQueue
  | .lockThreads => some .threadList
  | _ => none

/-- The call of `shutdown` has set the flag and not returned. -/
def CloserPc.hasSignalled : CloserPc → Bool
  | .unlockQueue | .lockThreads | .join _ | .unlockThreads => true
  | _ => false

namespace LockSystem

def wants (system : LockSystem) : Party → Option Mutex
  | .worker index => system.threadList[index]?.bind WorkerPc.wants
  | .client index => (system.clients index).bind CallPc.wants
  | .closer => system.closer.wants

/-- A party waits for the owner of the mutex that it is about to lock, and a call
of `shutdown` for the thread that it is joining. -/
def waitGraph (system : LockSystem) : WaitGraph Party where
  CanMove party := ∃ choice, system.Ready choice party
  Waits party other :=
    (∃ mutex, system.wants party = some mutex ∧ system.owner mutex = some other) ∨
    (party = .closer ∧ ∃ index, system.closer = .join index ∧ other = .worker index ∧
      ¬system.CanJoin index)

/-- A job comes to the mutex of the thread list only while `shutdown` does not hold
it, and `shutdown` takes it for the join only when no job is waiting for it. -/
def Unhindered (system : LockSystem) : LockAction → Prop
  | .move (.worker index) _ =>
      system.owner .threadList = some .closer →
        (system.threadList[index]?.map WorkerPc.comesToThreadList) ≠ some true
  | .move .closer _ =>
      system.closer = .lockThreads → ∀ pc ∈ system.threadList, pc.wants ≠ some .threadList
  | _ => True

instance (system : LockSystem) : ∀ action, Decidable (system.Unhindered action)
  | .move (.worker _) _ => inferInstanceAs (Decidable (_ = _ → _ ≠ _))
  | .move .closer _ => inferInstanceAs (Decidable (_ = _ → ∀ pc ∈ _, _ ≠ _))
  | .move (.client _) _ | .callPool .. | .callShutdown | .wakeSpuriously _ => isTrue trivial

/-- Once the flag is set, no thread waits for a job. -/
def Awake (system : LockSystem) : Prop :=
  system.shutdown = true → ∀ pc ∈ system.threadList, pc.isWaiting = false

def Signalled (system : LockSystem) : Prop :=
  system.closer.hasSignalled = true → system.shutdown = true

/-- No thread waits for the thread list while `shutdown` holds it. -/
def Clear (system : LockSystem) : Prop :=
  system.owner .threadList = some .closer →
    ∀ pc ∈ system.threadList, pc.wants ≠ some .threadList

structure Unblocked (system : LockSystem) : Prop where
  owned : system.Owned
  awake : system.Awake
  signalled : system.Signalled
  clear : system.Clear

namespace Frame

variable {before after : LockSystem}

theorem all (frame : Frame before after) {P : WorkerPc → Prop} (start : P .lockLoop)
    (before : ∀ pc ∈ before.threadList, P pc) : ∀ pc ∈ after.threadList, P pc := by
  intro pc member
  cases frame.threads pc member with
  | inl old => exact before pc old
  | inr new => exact new ▸ start

theorem awake (frame : Frame before after) (awake : before.Awake) : after.Awake := by
  intro down
  rw [frame.shutdown] at down
  exact frame.all rfl (awake down)

theorem signalled (frame : Frame before after) (signalled : before.Signalled) :
    after.Signalled := by
  intro hasSignalled
  rw [frame.closer] at hasSignalled
  exact frame.shutdown.trans (signalled hasSignalled)

theorem clear (frame : Frame before after) (clear : before.Clear) : after.Clear := by
  intro owns
  exact frame.all nofun (clear (frame.closerOwns _ owns))

end Frame

theorem unblocked_new (tmin tmax : UInt64) : (LockSystem.new tmin tmax).Unblocked where
  owned := owned_new tmin tmax
  awake := nofun
  signalled := nofun
  clear := nofun

namespace Unblocked

variable {system : LockSystem} {choice : Choice} {index : Nat}

theorem worker (kept : system.Unblocked) {pc : WorkerPc}
    (found : system.threadList[index]? = some pc) (ready : system.WorkerReady choice pc)
    (unhindered : system.Unhindered (.move (.worker index) choice)) :
    (system.workerStep index choice pc).Unblocked := by
  obtain ⟨between, next, after, moves⟩ := workerStep_moves kept.owned found ready
  have present : pc ∈ system.threadList := List.mem_of_getElem? found
  have owned := owned_worker kept.owned found ready
  rw [after] at owned ⊢
  refine ⟨owned, ?awake, ?signalled, ?clear⟩
  case awake =>
    intro down other member
    cases List.mem_or_eq_of_mem_set member with
    | inl old => exact moves.frame.awake kept.awake down other old
    | inr new =>
        have flag : system.shutdown = true := moves.frame.shutdown.symm.trans down
        rw [new, Bool.eq_false_iff]
        intro waits
        cases moves.waits waits with
        | inl already => exact absurd (kept.awake flag pc present) (by simp [already])
        | inr up => exact absurd flag (by simp [up])
  case signalled => exact moves.frame.signalled kept.signalled
  case clear =>
    intro owns other member
    cases List.mem_or_eq_of_mem_set member with
    | inl old => exact moves.frame.clear kept.clear owns other old
    | inr new =>
        rw [new]
        intro wants
        have held : system.owner .threadList = some .closer := moves.frame.closerOwns _ owns
        have comes := moves.comes wants
        exact unhindered held (by rw [found, Option.map_some, comes])

theorem client (kept : system.Unblocked) {pc : CallPc} (found : system.clients index = some pc)
    (ready : system.CallReady choice pc) : (system.clientStep index choice pc).Unblocked := by
  have other : Party.client index ≠ .closer := by
    intro same
    cases same
  have frame : Frame system (system.callStep (.client index) choice pc).1 :=
    callStep_frame other ready
  constructor
  case owned => exact owned_client kept.owned found ready
  case awake => exact frame.awake kept.awake
  case signalled => exact frame.signalled kept.signalled
  case clear => exact frame.clear kept.clear

/-- A step of `shutdown` that takes, keeps or gives up a mutex. -/
theorem moveCloser (kept : system.Unblocked) {owner : Mutex → Option Party} {pc : CloserPc}
    (owned : OwnedBy owner (Function.update system.holds .closer pc.holds))
    (signalled : pc.hasSignalled = true → system.shutdown = true)
    (clear : owner .threadList = some .closer →
      ∀ pc ∈ system.threadList, pc.wants ≠ some .threadList) :
    LockSystem.Unblocked { system with owner := owner, closer := pc } where
  owned := owned_moveCloser owned
  awake := kept.awake
  signalled := signalled
  clear := clear

/-- With the queue in the hands of `shutdown`, no thread is on its way into the wait. -/
theorem notified_awake (kept : system.Unblocked) (atSignal : system.closer = .signal) :
    ∀ pc ∈ system.threadList.map WorkerPc.notified, pc.isWaiting = false := by
  intro pc member
  obtain ⟨old, present, same⟩ := List.mem_map.mp member
  obtain ⟨index, found⟩ := List.mem_iff_getElem?.mp present
  have owns : system.owner .jobQueue = some .closer :=
    (kept.owned _ _).mpr (by rw [holds, atSignal]; rfl)
  rw [← same]
  cases old with
  | wait =>
      have also := (kept.owned .jobQueue (.worker index)).mpr (holds_of_found found)
      cases owns.symm.trans also
  | _ => rfl

theorem signal (kept : system.Unblocked) (atSignal : system.closer = .signal) :
    (system.closerStep .signal).Unblocked := by
  have holding : system.holds .closer = some .jobQueue := by rw [holds, atSignal]; rfl
  have unowned : system.owner .threadList ≠ some .closer := by
    intro owns
    have also := (kept.owned _ _).mp owns
    rw [holding] at also
    contradiction
  have owned := owned_signal kept.owned atSignal
  simp only [closerStep] at owned ⊢
  split
  next => exact kept.moveCloser (kept.owned.keep holding) (absurd · Bool.false_ne_true) kept.clear
  next up =>
    rw [if_neg up] at owned
    constructor
    case owned => exact owned
    case awake => exact fun _ => kept.notified_awake atSignal
    case signalled => exact fun _ => rfl
    case clear => exact fun owns => absurd owns unowned

theorem closer (kept : system.Unblocked) (ready : system.CloserReady system.closer)
    (unhindered : system.Unhindered (.move .closer choice)) :
    (system.closerStep system.closer).Unblocked := by
  have holding : system.holds .closer = system.closer.holds := rfl
  have signalled := kept.signalled
  cases atPc : system.closer with
  | idle => exact kept
  | lockQueue =>
      rw [atPc] at ready holding
      have clear : (system.setOwner .jobQueue (some .closer)).Clear := kept.clear
      exact kept.moveCloser (kept.owned.acquire ready holding) (absurd · Bool.false_ne_true) clear
  | signal => exact kept.signal atPc
  | unlockDown =>
      rw [atPc] at holding
      exact kept.moveCloser (kept.owned.release holding) (absurd · Bool.false_ne_true) kept.clear
  | unlockQueue =>
      rw [atPc] at holding
      have down : system.shutdown = true := signalled (by rw [atPc]; rfl)
      exact kept.moveCloser (kept.owned.release holding) (fun _ => down) kept.clear
  | lockThreads =>
      rw [atPc] at ready holding
      have down : system.shutdown = true := signalled (by rw [atPc]; rfl)
      exact kept.moveCloser (kept.owned.acquire ready holding) (fun _ => down)
        fun _ => unhindered atPc
  | join index =>
      rw [atPc] at holding
      have down : system.shutdown = true := signalled (by rw [atPc]; rfl)
      simp only [closerStep]
      split
      next => exact kept.moveCloser (kept.owned.keep holding) (fun _ => down) kept.clear
      next => exact kept.moveCloser (kept.owned.keep holding) (fun _ => down) kept.clear
  | unlockThreads =>
      rw [atPc] at holding
      have released : Function.update system.owner .threadList none .threadList ≠ some .closer := by
        simp
      exact kept.moveCloser (kept.owned.release holding) (absurd · Bool.false_ne_true)
        fun owns => absurd owns released
  | returned => exact kept

theorem callPool (kept : system.Unblocked) (region : Region)
    (outside : (system.clients index).isNone) :
    (system.setClient index (some (.lock region))).Unblocked where
  owned := owned_callPool kept.owned region outside
  awake := kept.awake
  signalled := kept.signalled
  clear := kept.clear

theorem effect (kept : system.Unblocked) {action : LockAction}
    (unhindered : system.Unhindered action) (enabled : system.Enabled action) :
    (system.effect action).Unblocked := by
  cases action with
  | move party choice =>
      cases party with
      | worker index =>
          obtain ⟨pc, found, ready⟩ := enabled
          simp only [LockSystem.effect, advance, found]
          exact kept.worker found ready unhindered
      | client index =>
          obtain ⟨pc, found, ready⟩ := enabled
          simp only [LockSystem.effect, advance, found]
          exact kept.client found ready
      | closer => exact kept.closer enabled unhindered
  | callPool client region => exact kept.callPool region enabled.1
  | callShutdown =>
      have empty : system.holds .closer = none := by rw [holds, enabled]; rfl
      exact kept.moveCloser (kept.owned.keep empty) (absurd · Bool.false_ne_true) kept.clear
  | wakeSpuriously worker =>
      have frame := Frame.wake system enabled
      have owned : (system.effect (.wakeSpuriously worker)).Owned :=
        owned_effect kept.owned enabled
      constructor
      case owned => exact owned
      case awake => exact frame.awake kept.awake
      case signalled => exact frame.signalled kept.signalled
      case clear => exact frame.clear kept.clear

theorem reaches (reached : lockTransition.Reaches Start Unhindered system) :
    system.Unblocked := by
  induction reached with
  | start starts =>
      obtain ⟨tmin, tmax, rfl⟩ := starts
      exact unblocked_new tmin tmax
  | step _ _ unhindered enabled kept => exact kept.effect unhindered enabled

end Unblocked

section Progress

variable {system : LockSystem} {party : Party} {index : Nat}

theorem exists_canNotify (system : LockSystem) : ∃ notified, system.CanNotify notified := by
  by_cases running : ∀ pc ∈ system.threadList, pc.isBlocked = false
  · exact ⟨none, running⟩
  · simp only [not_forall, Bool.not_eq_false] at running
    obtain ⟨pc, present, blocked⟩ := running
    obtain ⟨worker, found⟩ := List.mem_iff_getElem?.mp present
    have canNotify : (system.threadList[worker]?.map WorkerPc.isBlocked) = some true := by
      rw [found, Option.map_some, blocked]
    exact ⟨some worker, canNotify⟩

theorem callReady_of_holdsQueue (system : LockSystem) {pc : CallPc}
    (holding : pc.holds = some .jobQueue) : ∃ choice, system.CallReady choice pc := by
  cases pc with
  | lock region => contradiction
  | inside region =>
      cases region with
      | push job =>
          obtain ⟨notified, canNotify⟩ := system.exists_canNotify
          exact ⟨{ notified }, .inr canNotify⟩
      | busy => exact ⟨{}, trivial⟩
      | grow tbusy => cases holding
      | size => cases holding
      | setSize threadCnt => cases holding
      | startThread tcnt => cases holding
  | unlock mutex next => exact ⟨{}, trivial⟩

/-- No region under the mutex of the queue waits for anything. -/
theorem queueOwner_canMove (owned : system.Owned)
    (owns : system.owner .jobQueue = some party) : system.waitGraph.CanMove party := by
  have holding : system.holds party = some .jobQueue := (owned _ _).mp owns
  cases party with
  | worker index =>
      obtain ⟨pc, found, held⟩ := Option.bind_eq_some_iff.mp holding
      cases pc with
      | loop outer => exact ⟨{}, _, found, trivial⟩
      | unlockJob job => exact ⟨{}, _, found, trivial⟩
      | call pc next =>
          obtain ⟨choice, ready⟩ := system.callReady_of_holdsQueue held
          exact ⟨choice, _, found, ready⟩
      | endJob => exact ⟨{}, _, found, trivial⟩
      | wait => exact ⟨{}, _, found, trivial⟩
      | unlockExit => exact ⟨{}, _, found, trivial⟩
      | _ => contradiction
  | client index =>
      obtain ⟨pc, found, held⟩ := Option.bind_eq_some_iff.mp holding
      obtain ⟨choice, ready⟩ := system.callReady_of_holdsQueue held
      exact ⟨choice, pc, found, ready⟩
  | closer =>
      have held : system.closer.holds = some .jobQueue := holding
      have ready : system.CloserReady system.closer := by
        cases atPc : system.closer with
        | signal => trivial
        | unlockDown => trivial
        | unlockQueue => trivial
        | _ =>
            rw [atPc] at held
            cases held
      exact ⟨{}, ready⟩

theorem wantsQueue_alive (owned : system.Owned) (wants : system.wants party = some .jobQueue)
    (ready : system.owner .jobQueue = none → system.waitGraph.CanMove party) :
    system.waitGraph.Alive party := by
  cases owns : system.owner .jobQueue with
  | none => exact WaitGraph.alive_of_canMove (ready owns)
  | some other =>
      exact WaitGraph.alive_of_waits (.inl ⟨_, wants, owns⟩) (queueOwner_canMove owned owns)

theorem wants_of_found {pc : WorkerPc} (found : system.threadList[index]? = some pc) :
    system.wants (.worker index) = pc.wants := by
  simp only [wants, found, Option.bind_some]

/-- A thread in a call of the pool, while `shutdown` has the thread list. -/
theorem Unblocked.call_alive (kept : system.Unblocked) {pc : CallPc} {next : Outcome → PoolJob}
    (found : system.threadList[index]? = some (.call pc next))
    (owns : system.owner .threadList = some .closer) :
    system.waitGraph.Alive (.worker index) := by
  cases pc with
  | lock region =>
      have wants : system.wants (.worker index) = some region.mutex := wants_of_found found
      cases mutex : region.mutex with
      | jobQueue =>
          rw [mutex] at wants
          refine wantsQueue_alive kept.owned wants fun free => ?_
          have ready : system.owner region.mutex = none := by rw [mutex, free]
          exact ⟨{}, _, found, ready⟩
      | threadList =>
          have clear := kept.clear owns _ (List.mem_of_getElem? found)
          exact absurd (congrArg some mutex) clear
  | inside region =>
      have holding : system.holds (.worker index) = some region.mutex := holds_of_found found
      have owner := (kept.owned _ _).mpr holding
      cases mutex : region.mutex with
      | jobQueue =>
          rw [mutex] at owner
          exact WaitGraph.alive_of_canMove (queueOwner_canMove kept.owned owner)
      | threadList =>
          rw [mutex, owns] at owner
          cases owner
  | unlock mutex following => exact WaitGraph.alive_of_canMove ⟨{}, _, found, trivial⟩

theorem Unblocked.thread_alive (kept : system.Unblocked) {pc : WorkerPc}
    (found : system.threadList[index]? = some pc) (running : pc.isExited = false)
    (owns : system.owner .threadList = some .closer) (down : system.shutdown = true) :
    system.waitGraph.Alive (.worker index) := by
  have awake : pc.isWaiting = false := kept.awake down pc (List.mem_of_getElem? found)
  cases pc with
  | lockLoop =>
      exact wantsQueue_alive kept.owned (wants_of_found found) fun free => ⟨{}, _, found, free⟩
  | loop outer => exact WaitGraph.alive_of_canMove ⟨{}, _, found, trivial⟩
  | unlockJob job => exact WaitGraph.alive_of_canMove ⟨{}, _, found, trivial⟩
  | job job => exact WaitGraph.alive_of_canMove ⟨{}, _, found, trivial⟩
  | call pc next => exact kept.call_alive found owns
  | relock =>
      exact wantsQueue_alive kept.owned (wants_of_found found) fun free => ⟨{}, _, found, free⟩
  | endJob => exact WaitGraph.alive_of_canMove ⟨{}, _, found, trivial⟩
  | wait => contradiction
  | blocked => contradiction
  | unlockExit => exact WaitGraph.alive_of_canMove ⟨{}, _, found, trivial⟩
  | exited => contradiction

/-- The thread that is being joined waits for the thread list, and `shutdown` has it. -/
theorem deadlock {region : Region} {next : Outcome → PoolJob}
    (joining : system.closer = .join index)
    (found : system.threadList[index]? = some (.call (.lock region) next))
    (mutex : region.mutex = .threadList) (owns : system.owner .threadList = some .closer) :
    ¬system.waitGraph.Alive (.worker index) := by
  have wants : system.wants (.worker index) = some .threadList :=
    (wants_of_found found).trans (congrArg some mutex)
  have closed (party other : Party) (stuck : party = .worker index ∨ party = .closer)
      (waits : system.waitGraph.Waits party other) : other = .worker index ∨ other = .closer := by
    rcases waits with ⟨lock, wanted, owned⟩ | ⟨_, joined, atJoin, thread, _⟩
    · cases stuck with
      | inl isWorker =>
          rw [isWorker, wants] at wanted
          cases wanted
          exact .inr (Option.some.inj (owned.symm.trans owns))
      | inr isCloser =>
          rw [isCloser, LockSystem.wants, joining] at wanted
          cases wanted
    · rw [joining] at atJoin
      cases atJoin
      exact .inl thread
  have still (party : Party) (stuck : party = .worker index ∨ party = .closer) :
      ¬system.waitGraph.CanMove party := by
    intro ⟨choice, ready⟩
    cases stuck with
    | inl isWorker =>
        cases isWorker
        obtain ⟨pc, same, ready⟩ := ready
        cases found.symm.trans same
        have free : system.owner region.mutex = none := ready
        rw [mutex, owns] at free
        cases free
    | inr isCloser =>
        cases isCloser
        have canJoin : system.CloserReady system.closer := ready
        rw [joining] at canJoin
        exact canJoin (by rw [found]; rfl)
  exact WaitGraph.not_alive_of_closed closed still (.inl rfl)

end Progress

end LockSystem

/-- In every run in which no job comes to the mutex of the thread list while
`shutdown` holds it, and none is waiting for it when `shutdown` takes it for the
join, a thread that is being joined can move, or a party that it waits for can. -/
theorem joined_thread_alive {system : LockSystem}
    (reached : lockTransition.Reaches LockSystem.Start LockSystem.Unhindered system) {index : Nat}
    (joining : system.closer = .join index) (blocked : ¬system.CanJoin index) :
    system.waitGraph.Alive (.worker index) := by
  have kept := LockSystem.Unblocked.reaches reached
  have holding : system.holds .closer = some .threadList := by rw [LockSystem.holds, joining]; rfl
  have owns : system.owner .threadList = some .closer := (kept.owned _ _).mpr holding
  have down : system.shutdown = true := kept.signalled (by rw [joining]; rfl)
  obtain ⟨pc, found, running⟩ := Option.map_eq_some_iff.mp (not_not.mp blocked)
  exact kept.thread_alive found running owns down

/-- A client runs `job`, a thread takes it, and `shutdown` gets to the join. -/
def joinRun (job : PoolJob) : List LockAction :=
  .callPool 0 (.push job) :: List.replicate 6 (.move (.client 0) {}) ++
    List.replicate 3 (.move (.worker 0) {}) ++ .callShutdown :: List.replicate 4 (.move .closer {})

theorem joined_thread_alive_busy : ∃ system : LockSystem,
    system.closer = .join 0 ∧ system.owner .jobQueue = none ∧
      system.waitGraph.Alive (.worker 0) := by
  obtain ⟨system, ran, joining, free, blocked⟩ : ∃ system : LockSystem,
      (lockTransition.restrict LockSystem.Unhindered).run (.new 1 1)
        (joinRun (.busy fun _ => .done) ++ [.move (.worker 0) {}]) = some system ∧
      system.closer = .join 0 ∧ system.owner .jobQueue = none ∧
      (system.threadList[0]?.map WorkerPc.isExited) = some false :=
    ⟨_, rfl, rfl, rfl, rfl⟩
  have started : lockTransition.Reaches LockSystem.Start LockSystem.Unhindered (.new 1 1) :=
    .start ⟨1, 1, rfl⟩
  exact ⟨system, joining, free,
    joined_thread_alive (started.restrict ran) joining (not_not.mpr blocked)⟩

/-- A job that calls `size` of its own pool during the join. -/
theorem size_in_job_deadlocks :
    ¬∀ (system : LockSystem) (index : Nat), lockTransition.Reachable LockSystem.Start system →
      system.closer = .join index → ¬system.CanJoin index →
      system.waitGraph.Alive (.worker index) := by
  intro alive
  obtain ⟨system, ran, joining, owns, threads⟩ : ∃ system : LockSystem,
      lockTransition.run (.new 1 1)
        (joinRun (.size fun _ => .done) ++ [.move (.worker 0) {}]) = some system ∧
      system.closer = .join 0 ∧ system.owner .threadList = some .closer ∧
      system.threadList = [.call (.lock .size) fun _ => .done] :=
    ⟨_, rfl, rfl, rfl, rfl⟩
  have blocked : ¬system.CanJoin 0 := by
    rw [LockSystem.CanJoin, threads]
    decide
  have reached : lockTransition.Reachable LockSystem.Start system :=
    Transition.Reachable.run (.start ⟨1, 1, rfl⟩) ran
  have stuck := LockSystem.deadlock joining (by rw [threads]; rfl) rfl owns
  exact stuck (alive system 0 reached joining blocked)

end FastCrawl
