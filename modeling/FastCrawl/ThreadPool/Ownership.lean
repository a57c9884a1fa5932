import FastCrawl.ThreadPool.Locks

namespace FastCrawl

/-! Which party holds which mutex of the thread pool, and what a step of a thread
or a client changes. -/

def CallPc.holds : CallPc → Option Mutex
  | .lock _ => none
  | .inside region => some region.mutex
  | .unlock mutex _ => some mutex

def CallPc.wants : CallPc → Option Mutex
  | .lock region => some region.mutex
  | _ => none

def WorkerPc.holds : WorkerPc → Option Mutex
  | .loop _ | .unlockJob _ | .endJob | .wait | .unlockExit => some .jobQueue
  | .call pc _ => pc.holds
  | _ => none

def WorkerPc.wants : WorkerPc → Option Mutex
  | .lockLoop | .relock => some .jobQueue
  | .call pc _ => pc.wants
  | _ => none

def CloserPc.holds : CloserPc → Option Mutex
  | .signal | .unlockDown | .unlockQueue => some .jobQueue
  | .join _ | .unlockThreads => some .threadList
  | _ => none

def WorkerPc.isWaiting : WorkerPc → Bool
  | .wait | .blocked => true
  | _ => false

/-- The next step of a thread takes it to the lock of the thread list. -/
def WorkerPc.comesToThreadList : WorkerPc → Bool
  | .job (.size _) => true
  | .call (.unlock _ (.inl region)) _ => region.mutex = .threadList
  | _ => false

theorem WorkerPc.holds_of_isBlocked {pc : WorkerPc} (blocked : pc.isBlocked = true) :
    pc.holds = none := by
  cases pc with
  | blocked => rfl
  | _ => contradiction

theorem WorkerPc.holds_comp_notified : WorkerPc.holds ∘ WorkerPc.notified = WorkerPc.holds := by
  funext pc
  cases pc <;> rfl

theorem WorkerPc.ofCall_holds (next : Outcome → PoolJob) (reached : CallPc ⊕ Outcome) :
    (WorkerPc.ofCall next reached).holds = reached.getLeft?.bind CallPc.holds := by
  cases reached <;> rfl

namespace LockSystem

def holds (system : LockSystem) : Party → Option Mutex
  | .worker index => system.threadList[index]?.bind WorkerPc.holds
  | .client index => (system.clients index).bind CallPc.holds
  | .closer => system.closer.holds

def Owned (system : LockSystem) : Prop := OwnedBy system.owner system.holds

section Holds

variable {system : LockSystem} {index : Nat} {pc : WorkerPc}

theorem holds_setWorker (inRange : index < system.threadList.length) (pc : WorkerPc) :
    (system.setWorker index pc).holds =
      Function.update system.holds (.worker index) pc.holds := by
  funext party
  by_cases same : party = .worker index
  · rw [same, Function.update_self]
    simp only [holds, setWorker, List.getElem?_set_self inRange, Option.bind_some]
  · rw [Function.update_of_ne same]
    cases party with
    | worker other =>
        have different : index ≠ other := fun equal => same (equal ▸ rfl)
        simp only [holds, setWorker, List.getElem?_set_ne different]
    | client _ => rfl
    | closer => rfl

theorem holds_setClient (pc : Option CallPc) :
    (system.setClient index pc).holds =
      Function.update system.holds (.client index) (pc.bind CallPc.holds) := by
  funext party
  by_cases same : party = .client index
  · rw [same, Function.update_self]
    simp only [holds, setClient, Function.update_self]
  · rw [Function.update_of_ne same]
    cases party with
    | worker _ => rfl
    | client other =>
        have different : other ≠ index := fun equal => same (equal ▸ rfl)
        simp only [holds, setClient, Function.update_of_ne different]
    | closer => rfl

theorem holds_closer (system : LockSystem) (owner : Mutex → Option Party) (pc : CloserPc) :
    LockSystem.holds { system with owner := owner, closer := pc } =
      Function.update system.holds .closer pc.holds := by
  funext party
  cases party with
  | worker index =>
      have other : Party.worker index ≠ .closer := nofun
      rw [Function.update_of_ne other]
      rfl
  | client index =>
      have other : Party.client index ≠ .closer := nofun
      rw [Function.update_of_ne other]
      rfl
  | closer =>
      rw [Function.update_self]
      rfl

theorem holds_emplaceThreads (system : LockSystem) (created : Nat) :
    (system.emplaceThreads created).holds = system.holds := by
  funext party
  cases party with
  | worker index =>
      simp only [holds, emplaceThreads, List.getElem?_append]
      split
      next => rfl
      next past =>
        rw [List.getElem?_eq_none (Nat.le_of_not_lt past), List.getElem?_replicate]
        split <;> rfl
  | client _ => rfl
  | closer => rfl

theorem holds_of_found (found : system.threadList[index]? = some pc) :
    system.holds (.worker index) = pc.holds := by
  simp only [holds, found, Option.bind_some]

theorem holds_wake (blocked : (system.threadList[index]?.map WorkerPc.isBlocked) = some true) :
    (system.setWorker index .lockLoop).holds = system.holds := by
  obtain ⟨pc, atIndex, isBlocked⟩ := Option.map_eq_some_iff.mp blocked
  have inRange := (List.getElem?_eq_some_iff.mp atIndex).1
  have empty : system.holds (.worker index) = none :=
    (holds_of_found atIndex).trans (WorkerPc.holds_of_isBlocked isBlocked)
  rw [holds_setWorker inRange]
  exact Function.update_eq_self_iff.mpr empty.symm

end Holds

/-- What the code under a mutex leaves as it is, and a step of a thread or a client
besides its own place: no thread is stopped, and one that is notified or new is
about to lock the queue. -/
structure Frame (before after : LockSystem) : Prop where
  holds : after.holds = before.holds
  closer : after.closer = before.closer
  shutdown : after.shutdown = before.shutdown
  length : before.threadList.length ≤ after.threadList.length
  threads : ∀ pc ∈ after.threadList, pc ∈ before.threadList ∨ pc = .lockLoop
  closerOwns : ∀ mutex, after.owner mutex = some .closer → before.owner mutex = some .closer

namespace Frame

variable {before after : LockSystem}

theorem refl (system : LockSystem) : Frame system system where
  holds := rfl
  closer := rfl
  shutdown := rfl
  length := Nat.le_refl _
  threads _ member := .inl member
  closerOwns _ owns := owns

theorem setOwner (frame : Frame before after) (mutex : Mutex) (owner : Option Party)
    (other : owner ≠ some .closer) : Frame before (after.setOwner mutex owner) where
  holds := frame.holds
  closer := frame.closer
  shutdown := frame.shutdown
  length := frame.length
  threads := frame.threads
  closerOwns lock owns := by
    by_cases same : lock = mutex
    · rw [same] at owns
      exact absurd ((Function.update_self ..).symm.trans owns) other
    · exact frame.closerOwns lock ((Function.update_of_ne same ..).symm.trans owns)

theorem emplaceThreads (system : LockSystem) (created : Nat) :
    Frame system (system.emplaceThreads created) where
  holds := holds_emplaceThreads system created
  closer := rfl
  shutdown := rfl
  length := by
    rw [LockSystem.emplaceThreads, List.length_append]
    exact Nat.le_add_right ..
  threads pc member := by
    cases List.mem_append.mp member with
    | inl old => exact .inl old
    | inr new => exact .inr (List.eq_of_mem_replicate new)
  closerOwns _ owns := owns

theorem wake (system : LockSystem) {worker : Nat}
    (blocked : (system.threadList[worker]?.map WorkerPc.isBlocked) = some true) :
    Frame system (system.setWorker worker .lockLoop) where
  holds := holds_wake blocked
  closer := rfl
  shutdown := rfl
  length := Nat.le_of_eq (List.length_set ..).symm
  threads _ member := List.mem_or_eq_of_mem_set member
  closerOwns _ owns := owns

theorem push {system : LockSystem} {notified : Option Nat} (job : PoolJob)
    (canNotify : system.CanNotify notified) :
    Frame system ({ system with jobQueue := system.jobQueue ++ [job] }.notifyOne notified) := by
  have queued : Frame system { system with jobQueue := system.jobQueue ++ [job] } :=
    ⟨rfl, rfl, rfl, Nat.le_refl _, fun _ member => .inl member, fun _ owns => owns⟩
  cases notified with
  | none => exact queued
  | some worker =>
      have woken := wake { system with jobQueue := system.jobQueue ++ [job] } canNotify
      exact ⟨woken.holds, rfl, rfl, woken.length, woken.threads, woken.closerOwns⟩

theorem runRegion {system : LockSystem} {choice : Choice} {region : Region}
    (ready : system.CanRun choice region) : Frame system (system.runRegion choice region).1 := by
  cases region with
  | push job =>
      simp only [LockSystem.runRegion]
      split
      next => exact refl system
      next up => exact push job (ready.resolve_left up)
  | grow tbusy => exact emplaceThreads system choice.created
  | size => exact refl system
  | setSize threadCnt => exact emplaceThreads system choice.created
  | startThread tcnt => exact emplaceThreads system choice.created
  | busy => exact refl system

end Frame

section Calls

variable {system : LockSystem} {choice : Choice} {party : Party} {pc : CallPc}

theorem runRegion_owner (system : LockSystem) (choice : Choice) (region : Region) :
    (system.runRegion choice region).1.owner = system.owner := by
  cases region with
  | push job =>
      simp only [runRegion]
      split
      next => rfl
      next => cases choice.notified <;> rfl
  | _ => rfl

theorem callStep_frame (other : party ≠ .closer) (ready : system.CallReady choice pc) :
    Frame system (system.callStep party choice pc).1 := by
  cases pc with
  | lock region =>
      exact (Frame.refl system).setOwner region.mutex (some party)
        fun same => other (Option.some.inj same)
  | inside region => exact Frame.runRegion ready
  | unlock mutex next =>
      have released := (Frame.refl system).setOwner mutex none nofun
      cases next with
      | inl region => exact released
      | inr outcome => exact released

theorem callStep_owned (owned : system.Owned) (found : system.holds party = pc.holds)
    (ready : system.CallReady choice pc) :
    OwnedBy (system.callStep party choice pc).1.owner
      (Function.update system.holds party
        ((system.callStep party choice pc).2.getLeft?.bind CallPc.holds)) := by
  cases pc with
  | lock region => exact owned.acquire ready found
  | inside region =>
      change OwnedBy (system.runRegion choice region).1.owner
        (Function.update system.holds party (some region.mutex))
      rw [runRegion_owner]
      exact owned.keep found
  | unlock mutex next =>
      cases next with
      | inl region => exact owned.release found
      | inr outcome => exact owned.release found

end Calls

/-- A thread's step to `next`, behind the changes that lead to `between`: it waits
only if the flag is not set, and comes to the thread list only where the place
that it leaves says so. -/
structure Moves (system : LockSystem) (index : Nat) (pc : WorkerPc) (between : LockSystem)
    (next : WorkerPc) : Prop where
  frame : Frame system between
  owned : OwnedBy between.owner (Function.update system.holds (.worker index) next.holds)
  waits : next.isWaiting = true → pc.isWaiting = true ∨ system.shutdown = false
  comes : next.wants = some .threadList → pc.comesToThreadList = true

section Workers

variable {system : LockSystem} {choice : Choice} {index : Nat} {pc : WorkerPc}

theorem loopStep_moves (owned : system.Owned) (outer : Bool)
    (found : system.threadList[index]? = some (.loop outer)) :
    ∃ between next, system.loopStep index outer = between.setWorker index next ∧
      Moves system index (.loop outer) between next := by
  have holding : system.holds (.worker index) = some .jobQueue := holds_of_found found
  have exits : Moves system index (.loop outer) system .unlockExit :=
    ⟨Frame.refl system, owned.keep holding, nofun, nofun⟩
  simp only [loopStep]
  split
  next => exact ⟨_, _, rfl, exits⟩
  next =>
    split
    next job rest _ =>
      have taken : Frame system { system with jobQueue := rest, tbusy := system.tbusy + 1 } :=
        ⟨rfl, rfl, rfl, Nat.le_refl _, fun _ member => .inl member, fun _ owns => owns⟩
      exact ⟨_, _, rfl, taken, owned.keep holding, nofun, nofun⟩
    next =>
      split
      next => exact ⟨_, _, rfl, exits⟩
      next up =>
        have flag : system.shutdown = false := Bool.eq_false_iff.mpr up
        exact ⟨_, _, rfl, Frame.refl system, owned.keep holding, fun _ => .inr flag, nofun⟩

theorem jobStep_moves (owned : system.Owned) (job : PoolJob)
    (found : system.threadList[index]? = some (.job job)) :
    Moves system index (.job job) system (jobStep choice job) := by
  have empty : system.holds (.worker index) = none := holds_of_found found
  cases job with
  | done => exact ⟨Frame.refl system, owned.keep empty, nofun, nofun⟩
  | compute next => exact ⟨Frame.refl system, owned.keep empty, nofun, nofun⟩
  | run job next => exact ⟨Frame.refl system, owned.keep empty, nofun, nofun⟩
  | size next => exact ⟨Frame.refl system, owned.keep empty, nofun, fun _ => rfl⟩
  | busy next => exact ⟨Frame.refl system, owned.keep empty, nofun, nofun⟩

theorem callStep_comes (party : Party) (call : CallPc) (next : Outcome → PoolJob) :
    (WorkerPc.ofCall next (system.callStep party choice call).2).wants = some .threadList →
      (WorkerPc.call call next).comesToThreadList = true := by
  intro wants
  cases call with
  | lock region => contradiction
  | inside region => contradiction
  | unlock mutex following =>
      cases following with
      | inl region => exact decide_eq_true (Option.some.inj wants)
      | inr outcome => contradiction

theorem workerStep_moves (owned : system.Owned) (found : system.threadList[index]? = some pc)
    (ready : system.WorkerReady choice pc) :
    ∃ between next, system.workerStep index choice pc = between.setWorker index next ∧
      Moves system index pc between next := by
  have holding : system.holds (.worker index) = pc.holds := holds_of_found found
  have locked := (Frame.refl system).setOwner .jobQueue (some (.worker index)) nofun
  have unlocked := (Frame.refl system).setOwner .jobQueue none nofun
  cases pc with
  | lockLoop => exact ⟨_, _, rfl, locked, owned.acquire ready holding, nofun, nofun⟩
  | loop outer => exact loopStep_moves owned outer found
  | unlockJob job => exact ⟨_, _, rfl, unlocked, owned.release holding, nofun, nofun⟩
  | job job => exact ⟨_, _, rfl, jobStep_moves owned job found⟩
  | call pc next =>
      have keeps := callStep_owned owned holding ready
      rw [← WorkerPc.ofCall_holds next] at keeps
      have runs (reached : CallPc ⊕ Outcome) :
          (WorkerPc.ofCall next reached).isWaiting = false := by
        cases reached <;> rfl
      exact ⟨_, _, rfl, callStep_frame nofun ready, keeps,
        fun waits => absurd waits (Bool.eq_false_iff.mp (runs _)), callStep_comes _ pc next⟩
  | relock => exact ⟨_, _, rfl, locked, owned.acquire ready holding, nofun, nofun⟩
  | endJob =>
      have ended : Frame system { system with tbusy := system.tbusy - 1 } :=
        ⟨rfl, rfl, rfl, Nat.le_refl _, fun _ member => .inl member, fun _ owns => owns⟩
      exact ⟨_, _, rfl, ended, owned.keep holding, nofun, nofun⟩
  | wait => exact ⟨_, _, rfl, unlocked, owned.release holding, fun _ => .inl rfl, nofun⟩
  | blocked => exact ready.elim
  | unlockExit => exact ⟨_, _, rfl, unlocked, owned.release holding, nofun, nofun⟩
  | exited => exact ready.elim

end Workers

section Steps

variable {system : LockSystem} {choice : Choice} {index : Nat}

theorem owned_new (tmin tmax : UInt64) : (LockSystem.new tmin tmax).Owned := by
  intro lock party
  rw [LockSystem.new, holds_emplaceThreads]
  have unowned : (none : Option Party) ≠ some party := by simp
  have empty : LockSystem.holds { tmax } party ≠ some lock := by
    cases party <;> simp [holds, CloserPc.holds]
  exact iff_of_false unowned empty

theorem owned_worker (owned : system.Owned) {pc : WorkerPc}
    (found : system.threadList[index]? = some pc) (ready : system.WorkerReady choice pc) :
    (system.workerStep index choice pc).Owned := by
  obtain ⟨between, next, after, moves⟩ := workerStep_moves owned found ready
  have inRange : index < between.threadList.length :=
    Nat.lt_of_lt_of_le (List.getElem?_eq_some_iff.mp found).1 moves.frame.length
  have owns := moves.owned
  rw [← moves.frame.holds, ← holds_setWorker inRange] at owns
  rw [after]
  exact owns

theorem owned_client (owned : system.Owned) {pc : CallPc}
    (found : system.clients index = some pc) (ready : system.CallReady choice pc) :
    (system.clientStep index choice pc).Owned := by
  have holding : system.holds (.client index) = pc.holds := by
    simp only [holds, found, Option.bind_some]
  have other : Party.client index ≠ .closer := by simp
  have frame : Frame system (system.callStep (.client index) choice pc).1 :=
    callStep_frame other ready
  have owns := callStep_owned owned holding ready
  rw [← frame.holds, ← holds_setClient] at owns
  exact owns

theorem owned_moveCloser {owner : Mutex → Option Party} {pc : CloserPc}
    (owned : OwnedBy owner (Function.update system.holds .closer pc.holds)) :
    LockSystem.Owned { system with owner := owner, closer := pc } := by
  rw [Owned, holds_closer]
  exact owned

theorem owned_signal (owned : system.Owned) (atSignal : system.closer = .signal) :
    (system.closerStep .signal).Owned := by
  have holding : system.holds .closer = some .jobQueue := by
    rw [holds, atSignal]
    rfl
  simp only [closerStep]
  split
  · exact owned_moveCloser (owned.keep holding)
  · have same : LockSystem.holds { system with
        shutdown := true
        threadList := system.threadList.map WorkerPc.notified
        closer := .unlockQueue } = system.holds := by
      funext party
      cases party with
      | worker other =>
          simp only [holds, List.getElem?_map, Option.bind_map, WorkerPc.holds_comp_notified]
      | client other => rfl
      | closer => exact holding.symm
    rw [Owned, same]
    exact owned

theorem owned_closer (owned : system.Owned) (ready : system.CloserReady system.closer) :
    (system.closerStep system.closer).Owned := by
  have holding : system.holds .closer = system.closer.holds := rfl
  cases atPc : system.closer with
  | idle => exact owned
  | lockQueue =>
      rw [atPc] at ready holding
      exact owned_moveCloser (owned.acquire ready holding)
  | signal => exact owned_signal owned atPc
  | unlockDown =>
      rw [atPc] at holding
      exact owned_moveCloser (owned.release holding)
  | unlockQueue =>
      rw [atPc] at holding
      exact owned_moveCloser (owned.release holding)
  | lockThreads =>
      rw [atPc] at ready holding
      exact owned_moveCloser (owned.acquire ready holding)
  | join index =>
      rw [atPc] at holding
      simp only [closerStep]
      split
      · exact owned_moveCloser (owned.keep holding)
      · exact owned_moveCloser (owned.keep holding)
  | unlockThreads =>
      rw [atPc] at holding
      exact owned_moveCloser (owned.release holding)
  | returned => exact owned

theorem owned_callPool (owned : system.Owned) (region : Region)
    (outside : (system.clients index).isNone) :
    (system.setClient index (some (.lock region))).Owned := by
  have empty : system.holds (.client index) = none := by
    rw [holds, Option.isNone_iff_eq_none.mp outside, Option.bind_none]
  rw [Owned, holds_setClient]
  exact owned.keep empty

theorem owned_effect (owned : system.Owned) {action : LockAction}
    (enabled : system.Enabled action) : (system.effect action).Owned := by
  cases action with
  | move party choice =>
      cases party with
      | worker index =>
          obtain ⟨pc, found, ready⟩ := enabled
          simp only [effect, advance, found]
          exact owned_worker owned found ready
      | client index =>
          obtain ⟨pc, found, ready⟩ := enabled
          simp only [effect, advance, found]
          exact owned_client owned found ready
      | closer => exact owned_closer owned enabled
  | callPool client region => exact owned_callPool owned region enabled.1
  | callShutdown =>
      have empty : system.holds .closer = none := by
        rw [holds, enabled]
        rfl
      exact owned_moveCloser (owned.keep empty)
  | wakeSpuriously worker =>
      change OwnedBy system.owner (system.setWorker worker .lockLoop).holds
      rw [holds_wake enabled]
      exact owned

end Steps

end LockSystem

end FastCrawl
