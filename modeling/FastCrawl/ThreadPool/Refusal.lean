import FastCrawl.ThreadPool.Pool

namespace FastCrawl

/-! The calls that start threads, when the system may refuse to start one. -/

/-- `std::system_error`, from the constructor of a `std::thread` that is refused. -/
inductive SystemError where
  | threadRefused
deriving Repr, DecidableEq

variable {Job : Type}

namespace ThreadPool

/-- The loop of `start_thread_impl` with `missing` iterations to go; `grants` has the
answer of the system to each attempt to start a thread. -/
def emplaceLoop (grants : Nat → Bool) :
    (missing attempt : Nat) → ThreadPool Job → Except SystemError Unit × ThreadPool Job
  | 0, _, pool => (.ok (), pool)
  | missing + 1, attempt, pool =>
      if grants attempt then emplaceLoop grants missing (attempt + 1) (pool.emplaceThreads 1)
      else (.error .threadRefused, pool)

def startThreadImpl (pool : ThreadPool Job) (grants : Nat → Bool) (tcnt : UInt64) :
    Except SystemError UInt64 × ThreadPool Job :=
  let tcnt := pool.applyThreadLimit tcnt
  let (ended, after) := emplaceLoop grants tcnt.toNat 0 pool
  (ended.map fun _ => tcnt, after)

def startThread (pool : ThreadPool Job) (grants : Nat → Bool) (tcnt : UInt64) :
    Except SystemError UInt64 × ThreadPool Job :=
  pool.startThreadImpl grants tcnt

/-- `run`, in the region of the job queue: the busy threads, if it goes on. -/
def pushJob (pool : ThreadPool Job) (job : Job) (notified : Option Nat) :
    Option UInt64 × ThreadPool Job :=
  if pool.shutdown then (none, pool)
  else
    let after := { pool with jobQueue := pool.jobQueue ++ [job] }.notifyOne notified
    (some after.tbusy, after)

/-- `run`, in the region of the thread list. -/
def checkThreads (pool : ThreadPool Job) (grants : Nat → Bool) (tbusy : UInt64) :
    Except SystemError Bool × ThreadPool Job :=
  if pool.size = tbusy then
    let (ended, after) := pool.startThreadImpl grants 1
    (ended.map fun _ => true, after)
  else (.ok true, pool)

/-- A call of `run`.  The other threads do what they do `meanwhile`, between its two
regions. -/
def run (pool : ThreadPool Job) (grants : Nat → Bool) (job : Job) (notified : Option Nat)
    (meanwhile : ThreadPool Job → ThreadPool Job) : Except SystemError Bool × ThreadPool Job :=
  match pool.pushJob job notified with
  | (none, after) => (.ok false, after)
  | (some tbusy, after) => (meanwhile after).checkThreads grants tbusy

/-- How many threads start before one is refused. -/
def granted (grants : Nat → Bool) : (missing attempt : Nat) → Nat
  | 0, _ => 0
  | missing + 1, attempt =>
      if grants attempt then granted grants missing (attempt + 1) + 1 else 0

section Loop

variable (grants : Nat → Bool)

theorem granted_le (missing attempt : Nat) : granted grants missing attempt ≤ missing := by
  induction missing generalizing attempt with
  | zero => exact Nat.le_refl 0
  | succ missing ih =>
      unfold granted
      split
      · exact Nat.succ_le_succ (ih _)
      · exact Nat.zero_le _

theorem granted_eq_iff (missing attempt : Nat) :
    granted grants missing attempt = missing ↔
      ∀ index < missing, grants (attempt + index) = true := by
  induction missing generalizing attempt with
  | zero => exact iff_of_true rfl fun index small => absurd small (Nat.not_lt_zero _)
  | succ missing ih =>
      unfold granted
      rw [Nat.forall_lt_succ_left]
      split
      next grant =>
        rw [Nat.add_right_cancel_iff, ih]
        simp only [Nat.add_zero, grant, true_and, Nat.add_assoc, Nat.add_comm 1]
      next refused => exact iff_of_false (Nat.zero_ne_add_one _) fun all => refused all.1

theorem emplaceThreads_emplaceThreads (pool : ThreadPool Job) (first second : Nat) :
    (pool.emplaceThreads first).emplaceThreads second = pool.emplaceThreads (first + second) := by
  simp only [emplaceThreads, List.append_assoc, List.replicate_append_replicate]

theorem emplaceLoop_eq (missing attempt : Nat) (pool : ThreadPool Job) :
    emplaceLoop grants missing attempt pool =
      (if granted grants missing attempt = missing then .ok () else .error .threadRefused,
        pool.emplaceThreads (granted grants missing attempt)) := by
  induction missing generalizing attempt pool with
  | zero => simp [emplaceLoop, granted, emplaceThreads]
  | succ missing ih =>
      unfold emplaceLoop granted
      split
      next =>
        rw [ih, emplaceThreads_emplaceThreads, Nat.add_comm 1]
        simp only [Nat.add_right_cancel_iff]
      next => simp [emplaceThreads]

end Loop

/-- The system starts the next `tcnt` threads. -/
def GrantsAll (grants : Nat → Bool) (tcnt : UInt64) : Prop :=
  ∀ attempt < tcnt.toNat, grants attempt = true

instance (grants : Nat → Bool) (tcnt : UInt64) : Decidable (GrantsAll grants tcnt) :=
  inferInstanceAs (Decidable (∀ attempt < tcnt.toNat, grants attempt = true))

theorem grantsAll_iff (grants : Nat → Bool) (tcnt : UInt64) :
    GrantsAll grants tcnt ↔ granted grants tcnt.toNat 0 = tcnt.toNat := by
  rw [granted_eq_iff]
  simp only [GrantsAll, Nat.zero_add]

theorem grantsAll_zero (grants : Nat → Bool) : GrantsAll grants 0 :=
  fun attempt small => absurd small (Nat.not_lt_zero attempt)

variable (pool : ThreadPool Job) (grants : Nat → Bool) (tcnt : UInt64)

/-- The threads that started before one is refused stay in the list. -/
theorem startThreadImpl_eq :
    pool.startThreadImpl grants tcnt =
      (if GrantsAll grants (pool.applyThreadLimit tcnt) then .ok (pool.applyThreadLimit tcnt)
        else .error .threadRefused,
        pool.emplaceThreads (granted grants (pool.applyThreadLimit tcnt).toNat 0)) := by
  simp only [startThreadImpl, emplaceLoop_eq, grantsAll_iff]
  split
  next => rfl
  next => rfl

/-- `start_thread` returns how many threads it has started. -/
def CountsStarted : Prop :=
  ∃ count, pool.startThread grants tcnt = (.ok count, pool.emplaceThreads count.toNat)

theorem countsStarted_iff :
    pool.CountsStarted grants tcnt ↔ GrantsAll grants (pool.applyThreadLimit tcnt) := by
  unfold CountsStarted startThread
  rw [startThreadImpl_eq]
  split
  next all => exact iff_of_true ⟨_, by rw [(grantsAll_iff _ _).mp all]⟩ all
  next refused =>
    refine iff_of_false (fun counts => ?_) refused
    obtain ⟨count, counted⟩ := counts
    cases congrArg Prod.fst counted

section Run

variable (job : Job) (notified : Option Nat) (meanwhile : ThreadPool Job → ThreadPool Job)

@[simp] theorem notifyOne_jobQueue : (pool.notifyOne notified).jobQueue = pool.jobQueue := by
  cases notified <;> rfl

@[simp] theorem notifyOne_tbusy : (pool.notifyOne notified).tbusy = pool.tbusy := by
  cases notified <;> rfl

theorem checkThreads_eq (tbusy : UInt64) :
    pool.checkThreads grants tbusy =
      (if GrantsAll grants (pool.growCount tbusy) then .ok true else .error .threadRefused,
        pool.emplaceThreads (granted grants (pool.growCount tbusy).toNat 0)) := by
  unfold checkThreads growCount
  split
  next =>
    simp only [startThreadImpl_eq]
    split
    next => rfl
    next => rfl
  next => simp [grantsAll_zero, granted, emplaceThreads]

/-- The thread list and the queue are apart: `run` does not take back a job. -/
theorem checkThreads_jobQueue (tbusy : UInt64) :
    (pool.checkThreads grants tbusy).2.jobQueue = pool.jobQueue := by
  rw [checkThreads_eq]
  rfl

theorem run_down (down : pool.shutdown = true) :
    pool.run grants job notified meanwhile = (.ok false, pool) := by
  simp only [run, pushJob, down, if_true]

theorem pushJob_up (up : ¬pool.shutdown = true) :
    pool.pushJob job notified =
      (some pool.tbusy,
        { pool with jobQueue := pool.jobQueue ++ [job] }.notifyOne notified) := by
  rw [pushJob, if_neg up]
  simp only [notifyOne_tbusy]

theorem run_up (up : ¬pool.shutdown = true) :
    pool.run grants job notified meanwhile =
      (meanwhile (pool.pushJob job notified).2).checkThreads grants pool.tbusy := by
  simp only [run, pool.pushJob_up job notified up]

/-- Whatever comes of the thread, the queue is left as the first region leaves it. -/
theorem run_jobQueue (up : ¬pool.shutdown = true) :
    (pool.run grants job notified meanwhile).2.jobQueue =
      (meanwhile (pool.pushJob job notified).2).jobQueue := by
  rw [pool.run_up grants job notified meanwhile up, checkThreads_jobQueue]

/-- `run` returns true just when it has queued the job, and leaves it queued for what the
other threads do `meanwhile`.  When it returns false the queue is as it was, and when it
throws the queue is the one that the others leave without the job. -/
structure QueuesHonestly : Prop where
  queued : (pool.run grants job notified meanwhile).1 = .ok true ↔
    (pool.pushJob job notified).2.jobQueue = pool.jobQueue ++ [job] ∧
      (pool.run grants job notified meanwhile).2.jobQueue =
        (meanwhile (pool.pushJob job notified).2).jobQueue
  rejected : (pool.run grants job notified meanwhile).1 = .ok false →
    (pool.run grants job notified meanwhile).2.jobQueue = pool.jobQueue
  thrown : ∀ error, (pool.run grants job notified meanwhile).1 = .error error →
    (pool.run grants job notified meanwhile).2.jobQueue =
      (meanwhile { (pool.pushJob job notified).2 with jobQueue := pool.jobQueue }).jobQueue

theorem queuesHonestly_iff :
    pool.QueuesHonestly grants job notified meanwhile ↔
      pool.shutdown = true ∨
        GrantsAll grants ((meanwhile (pool.pushJob job notified).2).growCount pool.tbusy) := by
  by_cases down : pool.shutdown = true
  · have noJob : pool.jobQueue ≠ pool.jobQueue ++ [job] := by simp
    have rejected : pool.pushJob job notified = (none, pool) := if_pos down
    have ended := pool.run_down grants job notified meanwhile down
    refine iff_of_true ⟨?queued, fun _ => by rw [ended], fun error thrown => ?thrown⟩ (.inl down)
    case queued =>
      rw [ended, rejected]
      exact iff_of_false (fun same => by cases same) fun queued => noJob queued.1
    case thrown =>
      rw [ended] at thrown
      cases thrown
  · have pushed : (pool.pushJob job notified).2.jobQueue = pool.jobQueue ++ [job] := by
      rw [pool.pushJob_up job notified down, notifyOne_jobQueue]
    have left := pool.run_jobQueue grants job notified meanwhile down
    have ended := pool.run_up grants job notified meanwhile down
    rw [or_iff_right down]
    constructor
    · intro honest
      have returned := honest.queued.mpr ⟨pushed, left⟩
      rw [ended, checkThreads_eq] at returned
      by_contra refused
      rw [if_neg refused] at returned
      cases returned
    · intro all
      have returned : (pool.run grants job notified meanwhile).1 = .ok true := by
        rw [ended, checkThreads_eq, if_pos all]
      refine ⟨iff_of_true returned ⟨pushed, left⟩, fun rejected => ?_, fun error thrown => ?_⟩
      · cases returned.symm.trans rejected
      · cases returned.symm.trans thrown

end Run

end ThreadPool

namespace PoolSystem

variable (system : PoolSystem Job) (grants : Nat → Bool)

/-! The steps of the pool are these calls, for as many threads as a `size_t` counts. -/

theorem pushJob_step {client : Nat} {job : Job} {notified : Option Nat}
    (enabled : system.Enabled (.push client job notified)) :
    (system.effect (.push client job notified)).pool = (system.pool.pushJob job notified).2 ∧
      (system.effect (.push client job notified)).clients client =
        .pushed system.accepted.length system.pool.tbusy := by
  have up : ¬system.pool.shutdown = true := by simp [enabled.2.1]
  rw [system.pool.pushJob_up job notified up]
  exact ⟨rfl, Function.update_self ..⟩

theorem checkThreads_step {client ticket : Nat} {tbusy : UInt64}
    (pushed : system.clients client = .pushed ticket tbusy)
    (countable : system.pool.threadList.length + (system.pool.growCount tbusy).toNat < 2 ^ 64) :
    ∃ created, system.Enabled (.grow client ticket tbusy created) ∧
      (system.effect (.grow client ticket tbusy created)).pool =
        (system.pool.checkThreads grants tbusy).2 ∧
      (system.effect (.grow client ticket tbusy created)).returned =
        if (system.pool.checkThreads grants tbusy).1 = .ok true then
          system.returned ++ [ticket] else system.returned := by
  have most := ThreadPool.granted_le grants (system.pool.growCount tbusy).toNat 0
  refine ⟨_, ⟨pushed, most, Nat.lt_of_le_of_lt (Nat.add_le_add_left most _) countable⟩, ?_⟩
  rw [ThreadPool.checkThreads_eq]
  refine ⟨rfl, ?_⟩
  have full := ThreadPool.grantsAll_iff grants (system.pool.growCount tbusy)
  by_cases all : ThreadPool.GrantsAll grants (system.pool.growCount tbusy)
  · rw [if_pos all, if_pos rfl]
    exact if_pos (full.mp all)
  · rw [if_neg all, if_neg fun same => by cases same]
    exact if_neg (mt full.mpr all)

theorem startThread_step {tcnt : UInt64}
    (countable : system.pool.threadList.length +
      (system.pool.applyThreadLimit tcnt).toNat < 2 ^ 64) :
    ∃ created, system.Enabled (.startThread tcnt created) ∧
      (system.effect (.startThread tcnt created)).pool =
        (system.pool.startThread grants tcnt).2 := by
  have most := ThreadPool.granted_le grants (system.pool.applyThreadLimit tcnt).toNat 0
  refine ⟨_, ⟨most, Nat.lt_of_le_of_lt (Nat.add_le_add_left most _) countable⟩, ?_⟩
  rw [ThreadPool.startThread, ThreadPool.startThreadImpl_eq]
  rfl

end PoolSystem

/-- `run` and `start_thread` report what they did just when the system refuses none of
the threads that they try to start: else `run` throws with the job in the queue,
and `start_thread` throws with some threads started. -/
theorem honest_iff_granted (pool : ThreadPool Job) (grants : Nat → Bool) (job : Job)
    (notified : Option Nat) (meanwhile : ThreadPool Job → ThreadPool Job) (tcnt : UInt64) :
    (pool.QueuesHonestly grants job notified meanwhile ↔
      pool.shutdown = true ∨ ThreadPool.GrantsAll grants
        ((meanwhile (pool.pushJob job notified).2).growCount pool.tbusy)) ∧
    (pool.CountsStarted grants tcnt ↔
      ThreadPool.GrantsAll grants (pool.applyThreadLimit tcnt)) :=
  ⟨pool.queuesHonestly_iff grants job notified meanwhile, pool.countsStarted_iff grants tcnt⟩

/-- The first job of an empty pool is queued, and no thread can be started for it. -/
theorem refused_thread_dishonest :
    ¬∀ (pool : ThreadPool Nat) (grants : Nat → Bool) (job : Nat) (notified : Option Nat)
      (meanwhile : ThreadPool Nat → ThreadPool Nat) (tcnt : UInt64),
      pool.QueuesHonestly grants job notified meanwhile ∧ pool.CountsStarted grants tcnt := by
  intro honest
  have empty := (honest { tmax := 18446744073709551615 } (fun _ => false) 7 none id 1).1
  have thrown : ThreadPool.run { tmax := 18446744073709551615 } (fun _ => false) 7 none id =
      (.error .threadRefused, { tmax := 18446744073709551615, jobQueue := [7] }) := rfl
  have returned := empty.queued.mpr ⟨rfl, rfl⟩
  rw [thrown] at returned
  cases returned

end FastCrawl
