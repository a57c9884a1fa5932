import Mathlib.Data.List.Count
import Mathlib.Order.Basic
import FastCrawl.ThreadPool.Pool

namespace FastCrawl

/-! Every accepted job is queued or has been taken by one thread, which invokes
it once, and `m_tbusy` counts the threads that have taken a job. -/

variable {Job : Type}

def ThreadPc.isBusy : ThreadPc Job → Bool
  | .busy .. => true
  | _ => false

@[simp] theorem ThreadPc.isBusy_busy (stage : JobStage) (ticket : Nat) (job : Job) :
    (busy stage ticket job).isBusy = true := rfl

theorem countP_set_of_getElem? {pcs : List (ThreadPc Job)} {worker : Nat} {old : ThreadPc Job}
    (found : pcs[worker]? = some old) (member : ThreadPc Job → Bool) (pc : ThreadPc Job) :
    (pcs.set worker pc).countP member + (if member old then 1 else 0) =
      pcs.countP member + (if member pc then 1 else 0) := by
  obtain ⟨inRange, rfl⟩ := List.getElem?_eq_some_iff.mp found
  have counted := List.boole_getElem_le_countP (p := member) inRange
  rw [List.countP_set inRange]
  omega

theorem countP_lt_length {pcs : List (ThreadPc Job)} {worker : Nat} {pc : ThreadPc Job}
    (found : pcs[worker]? = some pc) (member : ThreadPc Job → Bool)
    (noMember : member pc = false) : pcs.countP member < pcs.length := by
  refine Nat.lt_of_le_of_ne List.countP_le_length fun all => ?_
  have isMember := List.countP_eq_length.mp all pc (List.mem_of_getElem? found)
  rw [noMember] at isMember
  contradiction

theorem getElem?_set_pc {pcs : List (ThreadPc Job)} {worker other : Nat} {old pc : ThreadPc Job}
    (found : pcs[worker]? = some old) :
    (pcs.set worker pc)[other]? = if other = worker then some pc else pcs[other]? := by
  obtain ⟨inRange, _⟩ := List.getElem?_eq_some_iff.mp found
  by_cases same : other = worker
  · rw [if_pos same, same, List.getElem?_set_self inRange]
  · rw [if_neg same, List.getElem?_set_ne (Ne.symm same)]

theorem getElem?_concat_eq_some {α : Type} {items : List α} {last item : α} {place : Nat} :
    (items ++ [last])[place]? = some item ↔
      items[place]? = some item ∨ place = items.length ∧ item = last := by
  rw [List.getElem?_append]
  split
  · rename_i inRange
    simp [Nat.ne_of_lt inRange]
  · rename_i outside
    rw [List.getElem?_eq_none (Nat.not_lt.mp outside), List.getElem?_singleton]
    split
    · rename_i last
      simp [show place = items.length by omega, eq_comm]
    · rename_i beyond
      simp [show place ≠ items.length by omega]

/-- The threads with jobs are the same, and have the same jobs. -/
structure SameJobs (before after : List (ThreadPc Job)) : Prop where
  busy : ∀ (worker : Nat) stage ticket job,
    after[worker]? = some (.busy stage ticket job) ↔ before[worker]? = some (.busy stage ticket job)
  count : after.countP ThreadPc.isBusy = before.countP ThreadPc.isBusy

namespace SameJobs

variable {pcs : List (ThreadPc Job)}

theorem refl : SameJobs pcs pcs := ⟨fun _ _ _ _ => Iff.rfl, rfl⟩

theorem set {worker : Nat} {old pc : ThreadPc Job} (found : pcs[worker]? = some old)
    (oldIdle : old.isBusy = false) (idle : pc.isBusy = false) :
    SameJobs pcs (pcs.set worker pc) := by
  refine ⟨fun other stage ticket job => ?_, ?_⟩
  · rw [getElem?_set_pc found]
    split
    · rename_i same
      rw [same, found, Option.some_inj, Option.some_inj]
      constructor
      · rintro rfl
        contradiction
      · rintro rfl
        contradiction
    · rfl
  · have counted := countP_set_of_getElem? found ThreadPc.isBusy pc
    simpa [oldIdle, idle] using counted

theorem append_awake (created : Nat) :
    SameJobs pcs (pcs ++ List.replicate created .awake) := by
  refine ⟨fun other stage ticket job => ?_, by simp [List.countP_replicate, ThreadPc.isBusy]⟩
  rw [List.getElem?_append]
  split
  · rfl
  · rename_i outside
    rw [List.getElem?_eq_none (Nat.not_lt.mp outside), List.getElem?_replicate]
    split <;> simp

theorem notified : SameJobs pcs (pcs.map ThreadPc.notified) := by
  refine ⟨fun other stage ticket job => ?_, ?_⟩
  · rw [List.getElem?_map]
    cases pcs[other]? with
    | none => simp
    | some pc => cases pc <;> simp [ThreadPc.notified]
  · rw [List.countP_map]
    congr 1
    funext pc
    cases pc <;> rfl

end SameJobs

def PoolSystem.At (system : PoolSystem Job) (worker : Nat) (pc : ThreadPc Job) : Prop :=
  system.pool.threadList[worker]? = some pc

theorem PoolSystem.At.unique {system : PoolSystem Job} {worker : Nat} {pc pc' : ThreadPc Job}
    (found : system.At worker pc) (found' : system.At worker pc') : pc = pc' :=
  Option.some.inj (found.symm.trans found')

theorem PoolSystem.at_of_set {before : PoolSystem Job} {worker : Nat} {old pc : ThreadPc Job}
    (found : before.At worker old) (after : PoolSystem Job)
    (set : after.pool.threadList = before.pool.threadList.set worker pc) (other : Nat)
    (pc' : ThreadPc Job) :
    after.At other pc' ↔ other = worker ∧ pc' = pc ∨ other ≠ worker ∧ before.At other pc' := by
  rw [At, set, getElem?_set_pc found]
  split
  · rename_i same
    simp [same, eq_comm]
  · rename_i different
    simp [different, At]

/-- Accepted jobs leave the queue in order, each is taken by one thread and
invoked once by it, and the counter of busy threads is exact. -/
structure JobConservation (system : PoolSystem Job) : Prop where
  order : system.accepted = system.dequeued.map Prod.fst ++ system.pool.jobQueue
  held : ∀ worker stage ticket job, system.At worker (.busy stage ticket job) →
    system.dequeued[ticket]? = some (job, worker)
  notYetInvoked : ∀ ticket job worker, system.dequeued[ticket]? = some (job, worker) →
    system.At worker (.busy .taken ticket job) → system.invoked.count ticket = 0
  invokedOnce : ∀ ticket job worker, system.dequeued[ticket]? = some (job, worker) →
    ¬system.At worker (.busy .taken ticket job) → system.invoked.count ticket = 1
  invokedTaken : ∀ ticket ∈ system.invoked, ticket < system.dequeued.length
  completed : ∀ ticket job worker, system.dequeued[ticket]? = some (job, worker) →
    (ticket ∈ system.completed ↔ ¬system.At worker (.busy .taken ticket job) ∧
      ¬system.At worker (.busy .running ticket job))
  completedTaken : ∀ ticket ∈ system.completed, ticket < system.dequeued.length
  busyCount : system.pool.tbusy.toNat = system.pool.threadList.countP ThreadPc.isBusy
  countable : system.pool.threadList.length < 2 ^ 64

namespace JobConservation

variable {before after : PoolSystem Job}

theorem of_sameJobs (conserved : JobConservation before)
    (same : SameJobs before.pool.threadList after.pool.threadList)
    (dequeued : after.dequeued = before.dequeued) (invoked : after.invoked = before.invoked)
    (completed : after.completed = before.completed)
    (tbusy : after.pool.tbusy = before.pool.tbusy)
    (order : after.accepted = after.dequeued.map Prod.fst ++ after.pool.jobQueue)
    (countable : after.pool.threadList.length < 2 ^ 64) : JobConservation after := by
  have sameAt : ∀ worker stage ticket job, after.At worker (.busy stage ticket job) ↔
      before.At worker (.busy stage ticket job) := same.busy
  refine ⟨order, ?_, ?_, ?_, ?_, ?_, ?_, ?_, countable⟩
  · simpa only [sameAt, dequeued] using conserved.held
  · simpa only [sameAt, dequeued, invoked] using conserved.notYetInvoked
  · simpa only [sameAt, dequeued, invoked] using conserved.invokedOnce
  · simpa only [dequeued, invoked] using conserved.invokedTaken
  · simpa only [sameAt, dequeued, completed] using conserved.completed
  · simpa only [dequeued, completed] using conserved.completedTaken
  · rw [tbusy, conserved.busyCount, same.count]

theorem new (tmin tmax : UInt64) : JobConservation (PoolSystem.new Job tmin tmax) := by
  have none_busy : ∀ worker stage ticket job,
      ¬(PoolSystem.new Job tmin tmax).At worker (.busy stage ticket job) := by
    intro worker stage ticket job
    simp only [PoolSystem.At, PoolSystem.new, ThreadPool.emplaceThreads, List.nil_append,
      List.getElem?_replicate]
    split <;> simp
  refine ⟨rfl, fun _ _ _ _ at_job => absurd at_job (none_busy _ _ _ _),
    ?_, ?_, ?_, ?_, ?_, ?_, ?_⟩
  · simp [PoolSystem.new]
  · simp [PoolSystem.new]
  · simp [PoolSystem.new]
  · simp [PoolSystem.new]
  · simp [PoolSystem.new]
  · simp [PoolSystem.new, ThreadPool.emplaceThreads, List.countP_replicate, ThreadPc.isBusy]
  · simpa [PoolSystem.new, ThreadPool.emplaceThreads] using UInt64.toNat_lt _

theorem takeJob (conserved : JobConservation before) {worker : Nat} {pc : ThreadPc Job}
    (found : before.At worker pc) (idle : pc.isBusy = false) {job : Job} {rest : List Job}
    (queued : before.pool.jobQueue = job :: rest) :
    JobConservation (before.takeJob worker job rest) := by
  have noJob : ∀ stage ticket job, ¬before.At worker (.busy stage ticket job) := by
    intro stage ticket job at_job
    obtain rfl := found.unique at_job
    contradiction
  have atSet := PoolSystem.at_of_set found (before.takeJob worker job rest) rfl
  have sameOld : ∀ other stage ticket job', ticket < before.dequeued.length →
      ((before.takeJob worker job rest).At other (.busy stage ticket job') ↔
        before.At other (.busy stage ticket job')) := by
    intro other stage ticket job' old
    rw [atSet]
    constructor
    · intro atPlace
      rcases atPlace with ⟨_, same⟩ | ⟨_, at_job⟩
      · cases same
        omega
      · exact at_job
    · intro at_job
      refine .inr ⟨?_, at_job⟩
      rintro rfl
      exact noJob _ _ _ at_job
  have sameLength : before.dequeued.length ≤ (before.takeJob worker job rest).dequeued.length := by
    simp [PoolSystem.takeJob]
  have atNew := (atSet worker (.busy .taken before.dequeued.length job)).mpr (.inl ⟨rfl, rfl⟩)
  have counted := countP_lt_length found ThreadPc.isBusy idle
  have countable := conserved.countable
  refine ⟨?order, ?held, ?notYetInvoked, ?invokedOnce, ?invokedTaken, ?completed,
    ?completedTaken, ?busyCount, ?countable⟩
  case order =>
    change before.accepted = (before.dequeued ++ [(job, worker)]).map Prod.fst ++ rest
    simp [conserved.order, queued]
  case held =>
    intro other stage ticket job' at_job
    rcases (atSet _ _).mp at_job with ⟨rfl, same⟩ | ⟨_, at_job⟩
    · cases same
      exact List.getElem?_concat_length
    · have earlier := conserved.held _ _ _ _ at_job
      exact getElem?_concat_eq_some.mpr (.inl earlier)
  case notYetInvoked =>
    intro ticket job' other taken at_job
    rcases getElem?_concat_eq_some.mp taken with old | ⟨rfl, _⟩
    · have inRange := (List.getElem?_eq_some_iff.mp old).1
      exact conserved.notYetInvoked _ _ _ old ((sameOld _ _ _ _ inRange).mp at_job)
    · exact List.count_eq_zero.mpr fun invoked => absurd (conserved.invokedTaken _ invoked)
        (Nat.lt_irrefl _)
  case invokedOnce =>
    intro ticket job' other taken not_at
    rcases getElem?_concat_eq_some.mp taken with old | ⟨rfl, same⟩
    · have inRange := (List.getElem?_eq_some_iff.mp old).1
      exact conserved.invokedOnce _ _ _ old (mt (sameOld _ _ _ _ inRange).mpr not_at)
    · cases same
      exact absurd atNew not_at
  case invokedTaken =>
    intro ticket invoked
    exact Nat.lt_of_lt_of_le (conserved.invokedTaken ticket invoked) sameLength
  case completed =>
    intro ticket job' other taken
    rcases getElem?_concat_eq_some.mp taken with old | ⟨rfl, same⟩
    · have inRange := (List.getElem?_eq_some_iff.mp old).1
      rw [sameOld _ _ _ _ inRange, sameOld _ _ _ _ inRange]
      exact conserved.completed _ _ _ old
    · cases same
      exact iff_of_false (fun completed => absurd (conserved.completedTaken _ completed)
        (Nat.lt_irrefl _)) fun gone => gone.1 atNew
  case completedTaken =>
    intro ticket completed
    exact Nat.lt_of_lt_of_le (conserved.completedTaken ticket completed) sameLength
  case busyCount =>
    have counts := countP_set_of_getElem? found ThreadPc.isBusy
      (.busy .taken before.dequeued.length job)
    rw [idle, ThreadPc.isBusy_busy, if_neg Bool.false_ne_true, if_pos rfl] at counts
    have noWrap : (before.pool.tbusy + 1).toNat = before.pool.tbusy.toNat + 1 := by
      rw [UInt64.toNat_add, conserved.busyCount]
      exact Nat.mod_eq_of_lt (by simp only [UInt64.toNat_one]; omega)
    exact noWrap.trans (conserved.busyCount ▸ counts.symm)
  case countable =>
    change (before.pool.threadList.set worker _).length < 2 ^ 64
    rwa [List.length_set]

theorem setPc (conserved : JobConservation before) {worker : Nat} {old pc : ThreadPc Job}
    (found : before.At worker old) (oldIdle : old.isBusy = false) (idle : pc.isBusy = false) :
    JobConservation (before.setPc worker pc) :=
  conserved.of_sameJobs (SameJobs.set found oldIdle idle) rfl rfl rfl rfl conserved.order
    ((ThreadPool.setPc_length ..).trans_lt conserved.countable)

theorem executeQueued (conserved : JobConservation before) {worker : Nat} {pc : ThreadPc Job}
    (found : before.At worker pc) (idle : pc.isBusy = false) :
    JobConservation (before.executeQueued worker) := by
  unfold PoolSystem.executeQueued
  split
  · rename_i job rest queued
    exact conserved.takeJob found idle queued
  · refine conserved.setPc found idle ?_
    split <;> rfl

/-- A thread with a job goes on to another stage of it or is done with it. -/
theorem of_progress (conserved : JobConservation before) {worker ticket : Nat} {stage : JobStage}
    {job : Job} (found : before.At worker (.busy stage ticket job)) (pc : ThreadPc Job)
    (sameJob : ∀ stage' ticket' job', pc = .busy stage' ticket' job' →
      ticket' = ticket ∧ job' = job)
    (notTaken : pc ≠ .busy .taken ticket job)
    (threads : after.pool.threadList = before.pool.threadList.set worker pc)
    (dequeued : after.dequeued = before.dequeued)
    (order : after.accepted = after.dequeued.map Prod.fst ++ after.pool.jobQueue)
    (invoked : ∀ other, after.invoked.count other =
      if other = ticket then 1 else before.invoked.count other)
    (completed : ∀ other, other ∈ after.completed ↔
      if other = ticket then pc ≠ .busy .running ticket job else other ∈ before.completed)
    (busyCount : after.pool.tbusy.toNat = after.pool.threadList.countP ThreadPc.isBusy) :
    JobConservation after := by
  have atSet := PoolSystem.at_of_set found after threads
  have taken := conserved.held _ _ _ _ found
  have inRange := (List.getElem?_eq_some_iff.mp taken).1
  have sameOther : ∀ other stage' ticket' job', ticket' ≠ ticket →
      (after.At other (.busy stage' ticket' job') ↔
        before.At other (.busy stage' ticket' job')) := by
    intro other stage' ticket' job' different
    rw [atSet]
    constructor
    · intro atPlace
      rcases atPlace with ⟨_, same⟩ | ⟨_, at_job⟩
      · exact absurd (sameJob _ _ _ same.symm).1 different
      · exact at_job
    · intro at_job
      refine .inr ⟨?_, at_job⟩
      rintro rfl
      cases at_job.unique found
      exact different rfl
  have atTicket : ∀ stage', after.At worker (.busy stage' ticket job) ↔
      pc = .busy stage' ticket job := by
    intro stage'
    rw [atSet]
    simp [eq_comm]
  refine ⟨order, ?held, ?notYetInvoked, ?invokedOnce, ?invokedTaken, ?completed,
    ?completedTaken, busyCount, ?countable⟩
  case held =>
    intro other stage' ticket' job' at_job
    rw [dequeued]
    rcases (atSet _ _).mp at_job with ⟨rfl, same⟩ | ⟨_, at_job⟩
    · obtain ⟨rfl, rfl⟩ := sameJob _ _ _ same.symm
      exact taken
    · exact conserved.held _ _ _ _ at_job
  case notYetInvoked =>
    intro ticket' job' other taken' at_job
    rw [dequeued] at taken'
    by_cases same : ticket' = ticket
    · subst same
      cases taken.symm.trans taken'
      exact absurd ((atTicket _).mp at_job) notTaken
    · rw [invoked, if_neg same]
      exact conserved.notYetInvoked _ _ _ taken' ((sameOther _ _ _ _ same).mp at_job)
  case invokedOnce =>
    intro ticket' job' other taken' not_at
    rw [dequeued] at taken'
    rw [invoked]
    split
    · rfl
    · rename_i different
      exact conserved.invokedOnce _ _ _ taken' (mt (sameOther _ _ _ _ different).mpr not_at)
  case invokedTaken =>
    intro ticket' member
    rw [dequeued]
    have counted := List.count_pos_iff.mpr member
    rw [invoked] at counted
    split at counted
    · rename_i same
      rwa [same]
    · exact conserved.invokedTaken _ (List.count_pos_iff.mp counted)
  case completed =>
    intro ticket' job' other taken'
    rw [dequeued] at taken'
    rw [completed]
    split
    · rename_i same
      subst same
      cases taken.symm.trans taken'
      rw [atTicket, atTicket]
      exact ⟨fun notRunning => ⟨notTaken, notRunning⟩, And.right⟩
    · rename_i different
      rw [sameOther _ _ _ _ different, sameOther _ _ _ _ different]
      exact conserved.completed _ _ _ taken'
  case completedTaken =>
    intro ticket' member
    rw [dequeued]
    rw [completed] at member
    split at member
    · rename_i same
      rwa [same]
    · exact conserved.completedTaken _ member
  case countable =>
    rw [threads, List.length_set]
    exact conserved.countable

theorem invoke (conserved : JobConservation before) {worker ticket : Nat} {job : Job}
    (found : before.At worker (.busy .taken ticket job)) :
    JobConservation (before.effect (.invoke worker ticket job)) := by
  have taken := conserved.held _ _ _ _ found
  refine conserved.of_progress found (.busy .running ticket job) ?_ (by simp) rfl rfl
    conserved.order (fun other => ?_) (fun other => ?_) ?_
  · rintro _ _ _ ⟨⟩
    exact ⟨rfl, rfl⟩
  · change (before.invoked ++ [ticket]).count other = _
    rw [List.count_append]
    split
    · rename_i same
      rw [same, conserved.notYetInvoked _ _ _ taken found]
      simp
    · rename_i different
      simp [Ne.symm different]
  · change other ∈ before.completed ↔ _
    split
    · rename_i same
      rw [same, conserved.completed _ _ _ taken]
      simp [found]
    · rfl
  · have counts := countP_set_of_getElem? found ThreadPc.isBusy (.busy .running ticket job)
    exact conserved.busyCount.trans (Nat.add_right_cancel counts).symm

theorem complete (conserved : JobConservation before) {worker ticket : Nat} {job : Job}
    (found : before.At worker (.busy .running ticket job)) :
    JobConservation (before.effect (.complete worker ticket job)) := by
  have taken := conserved.held _ _ _ _ found
  have notTaken : ¬before.At worker (.busy .taken ticket job) := fun at_taken => by
    cases found.unique at_taken
  refine conserved.of_progress found (.busy .done ticket job) ?_ (by simp) rfl rfl
    conserved.order (fun other => ?_) (fun other => ?_) ?_
  · rintro _ _ _ ⟨⟩
    exact ⟨rfl, rfl⟩
  · change before.invoked.count other = _
    split
    · rename_i same
      rw [same, conserved.invokedOnce _ _ _ taken notTaken]
    · rfl
  · change other ∈ before.completed ++ [ticket] ↔ _
    split
    · rename_i same
      simp [same]
    · rename_i different
      simp [different]
  · have counts := countP_set_of_getElem? found ThreadPc.isBusy (.busy .done ticket job)
    exact conserved.busyCount.trans (Nat.add_right_cancel counts).symm

theorem tbusy_pos (conserved : JobConservation before) {worker ticket : Nat} {stage : JobStage}
    {job : Job} (found : before.At worker (.busy stage ticket job)) :
    0 < before.pool.tbusy.toNat := by
  rw [conserved.busyCount, List.countP_pos_iff]
  exact ⟨_, List.mem_of_getElem? found, rfl⟩

theorem endJob (conserved : JobConservation before) {worker ticket : Nat} {job : Job}
    (found : before.At worker (.busy .done ticket job)) :
    JobConservation (before.endJob worker) := by
  have taken := conserved.held _ _ _ _ found
  have notTaken : ¬before.At worker (.busy .taken ticket job) := fun at_taken => by
    cases found.unique at_taken
  have notRunning : ¬before.At worker (.busy .running ticket job) := fun at_running => by
    cases found.unique at_running
  refine conserved.of_progress found .awake (by simp) (by simp) rfl rfl
    conserved.order (fun other => ?_) (fun other => ?_) ?_
  · change before.invoked.count other = _
    split
    · rename_i same
      rw [same, conserved.invokedOnce _ _ _ taken notTaken]
    · rfl
  · change other ∈ before.completed ↔ _
    split
    · rename_i same
      rw [same, conserved.completed _ _ _ taken]
      simp [notTaken, notRunning]
    · rfl
  · have counts := countP_set_of_getElem? found ThreadPc.isBusy .awake
    have positive := conserved.tbusy_pos found
    have noWrap : (before.pool.tbusy - 1).toNat = before.pool.tbusy.toNat - 1 :=
      UInt64.toNat_sub_of_le _ _ (UInt64.le_iff_toNat_le.mpr positive)
    refine noWrap.trans ?_
    rw [conserved.busyCount, ← Nat.add_sub_cancel (m := 1) (n := List.countP _ _)]
    exact congrArg (· - 1) counts.symm

theorem push (conserved : JobConservation before) {client : Nat} {job : Job}
    {notified : Option Nat} (canNotify : before.pool.CanNotify notified) :
    JobConservation (before.push client job notified) := by
  have same : SameJobs before.pool.threadList
      (before.push client job notified).pool.threadList := by
    cases notified with
    | none => exact .refl
    | some worker => exact SameJobs.set canNotify rfl rfl
  have sameQueue : (before.push client job notified).pool.jobQueue =
      before.pool.jobQueue ++ [job] := by
    cases notified <;> rfl
  have sameBusy : (before.push client job notified).pool.tbusy = before.pool.tbusy := by
    cases notified <;> rfl
  refine conserved.of_sameJobs same rfl rfl rfl sameBusy ?_ ?_
  · change before.accepted ++ [job] = before.dequeued.map Prod.fst ++ _
    rw [sameQueue, conserved.order, List.append_assoc]
  · cases notified with
    | none => exact conserved.countable
    | some worker =>
        exact (ThreadPool.setPc_length ..).trans_lt conserved.countable

theorem emplaceThreads (conserved : JobConservation before) {tcnt : UInt64} {created : Nat}
    (canStart : before.pool.CanStart tcnt created)
    (pool : after.pool = before.pool.emplaceThreads created)
    (accepted : after.accepted = before.accepted) (dequeued : after.dequeued = before.dequeued)
    (invoked : after.invoked = before.invoked) (completed : after.completed = before.completed) :
    JobConservation after := by
  refine conserved.of_sameJobs ?_ dequeued invoked completed (by rw [pool]; rfl) ?_ ?_
  · rw [pool]
    exact SameJobs.append_awake created
  · rw [pool, accepted, dequeued]
    exact conserved.order
  · rw [pool]
    simpa [ThreadPool.emplaceThreads] using canStart.2

theorem relock (conserved : JobConservation before) {worker ticket : Nat} {job : Job}
    (found : before.At worker (.busy .done ticket job)) :
    JobConservation (before.effect (.relock worker ticket job)) := by
  have awake : (before.endJob worker).At worker .awake := by
    change (before.pool.threadList.set worker .awake)[worker]? = some .awake
    rw [getElem?_set_pc found, if_pos rfl]
  exact (conserved.endJob found).executeQueued awake rfl

theorem effect (conserved : JobConservation before) {action : PoolAction Job}
    (enabled : before.Enabled action) : JobConservation (before.effect action) := by
  cases action with
  | push client job notified => exact conserved.push enabled.2.2
  | reject client job => exact conserved
  | grow client ticket tbusy created =>
      exact conserved.emplaceThreads enabled.2 rfl rfl rfl rfl rfl
  | startThread tcnt created => exact conserved.emplaceThreads enabled rfl rfl rfl rfl rfl
  | setSize threadCnt created => exact conserved.emplaceThreads enabled rfl rfl rfl rfl rfl
  | callShutdown client =>
      exact conserved.of_sameJobs .refl rfl rfl rfl rfl conserved.order conserved.countable
  | signalShutdown client due =>
      simp only [PoolSystem.effect, PoolSystem.signalShutdown]
      split
      · exact conserved.of_sameJobs .refl rfl rfl rfl rfl conserved.order conserved.countable
      · exact conserved.of_sameJobs .notified rfl rfl rfl rfl conserved.order
          (by simpa using conserved.countable)
  | joinThreads client due =>
      exact conserved.of_sameJobs .refl rfl rfl rfl rfl conserved.order conserved.countable
  | enterLoop worker =>
      simp only [PoolSystem.effect, PoolSystem.enterLoop]
      split
      · exact conserved.setPc enabled rfl rfl
      · exact conserved.executeQueued enabled rfl
  | invoke worker ticket job => exact conserved.invoke enabled
  | complete worker ticket job => exact conserved.complete enabled
  | relock worker ticket job => exact conserved.relock enabled
  | wakeSpuriously worker => exact conserved.setPc enabled rfl rfl

end JobConservation

abbrev PoolSystem.Reachable (system : PoolSystem Job) : Prop :=
  (poolTransition Job).Reachable PoolSystem.Start system

theorem PoolSystem.Reachable.conserved {system : PoolSystem Job} (reachable : system.Reachable) :
    JobConservation system :=
  PoolSystem.invariant .new (fun _ _ conserved _ enabled => conserved.effect enabled) reachable

theorem PoolSystem.shutdown_closes {system later : PoolSystem Job}
    (leads : (poolTransition Job).Leads system later) (down : system.pool.shutdown = true) :
    later.pool.shutdown = true ∧ later.accepted = system.accepted := by
  refine Transition.Leads.invariant
    (fun later => later.pool.shutdown = true ∧ later.accepted = system.accepted) leads ⟨down, rfl⟩ ?_
  intro middle action closed enabled
  obtain ⟨down, accepted⟩ := closed
  obtain ⟨stillDown, sameAccepted, _⟩ := effect_of_down down enabled
  exact ⟨stillDown, sameAccepted.trans accepted⟩

/-- Jobs are conserved in every run: they leave the queue in the order in which
they were accepted, each is taken and invoked once, none is accepted after the
shutdown, and `m_tbusy` counts the threads with a job, so that it neither
underflows nor exceeds the number of threads. -/
theorem jobs_conserved {system : PoolSystem Job} (reachable : system.Reachable) :
    JobConservation system ∧
    system.pool.tbusy.toNat ≤ system.pool.threadList.length ∧
    (∀ worker stage ticket job, system.At worker (.busy stage ticket job) →
      0 < system.pool.tbusy.toNat) ∧
    (∀ later, (poolTransition Job).Leads system later → system.pool.shutdown = true →
      later.pool.shutdown = true ∧ later.accepted = system.accepted) := by
  have conserved := reachable.conserved
  refine ⟨conserved, ?_, fun _ _ _ _ => conserved.tbusy_pos, fun _ => PoolSystem.shutdown_closes⟩
  rw [conserved.busyCount]
  exact List.countP_le_length

theorem jobs_conserved_two_jobs : ∃ system : PoolSystem Nat,
    system.dequeued = [(7, 0)] ∧ system.pool.jobQueue = [8] ∧
      JobConservation system ∧
      system.pool.tbusy.toNat ≤ system.pool.threadList.length ∧
      (∀ worker stage ticket job, system.At worker (.busy stage ticket job) →
        0 < system.pool.tbusy.toNat) ∧
      (∀ later, (poolTransition Nat).Leads system later → system.pool.shutdown = true →
        later.pool.shutdown = true ∧ later.accepted = system.accepted) := by
  obtain ⟨system, ran, dequeued, queued⟩ : ∃ system,
      (poolTransition Nat).run (.new Nat 1 1)
        [.push 0 7 none, .grow 0 0 0 0, .push 0 8 none, .enterLoop 0] = some system ∧
      system.dequeued = [(7, 0)] ∧ system.pool.jobQueue = [8] := ⟨_, rfl, rfl, rfl⟩
  exact ⟨system, dequeued, queued, jobs_conserved (Transition.Reachable.run
    (.start ⟨1, 1, rfl⟩) ran)⟩

end FastCrawl
