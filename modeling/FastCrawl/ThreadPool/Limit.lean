import FastCrawl.ThreadPool.Conservation
import FastCrawl.ThreadPool.Refusal

namespace FastCrawl

/-! The limit of the pool.  It is kept while the sum that is compared with it does
not wrap around, and what `start_thread` starts is then what there is room for. -/

variable {Job : Type}

namespace ThreadPool

variable {pool : ThreadPool Job}

def WithinLimit (pool : ThreadPool Job) : Prop := pool.threadList.length ≤ pool.tmax.toNat

/-- How many of `tcnt` threads there is room for. -/
def wanted (pool : ThreadPool Job) (tcnt : UInt64) : Nat :=
  min tcnt.toNat (pool.tmax.toNat - pool.threadList.length)

/-- `start_thread` adds to the list the threads that there is room for and no others, and
returns how many. -/
def StartsWanted (pool : ThreadPool Job) (grants : Nat → Bool) (tcnt : UInt64) : Prop :=
  ∃ count, pool.startThread grants tcnt = (.ok count, pool.emplaceThreads count.toNat) ∧
    count.toNat = pool.wanted tcnt

namespace WithinLimit

variable (within : pool.WithinLimit)
include within

theorem countable : pool.threadList.length < 2 ^ 64 :=
  Nat.lt_of_le_of_lt within pool.tmax.toNat_lt

theorem size_toNat : pool.size.toNat = pool.threadList.length := by
  rw [size, UInt64.toNat_ofNat']
  exact Nat.mod_eq_of_lt within.countable

theorem room_toNat : (pool.tmax - pool.size).toNat = pool.tmax.toNat - pool.threadList.length := by
  have notMore : pool.size ≤ pool.tmax := by
    rw [UInt64.le_iff_toNat_le, within.size_toNat]
    exact within
  rw [UInt64.toNat_sub_of_le _ _ notMore, within.size_toNat]

theorem sum_toNat (tcnt : UInt64) :
    (pool.size + tcnt).toNat = (pool.threadList.length + tcnt.toNat) % 2 ^ 64 := by
  rw [UInt64.toNat_add, within.size_toNat]

/-- Within the limit, the number of threads to start is exact just when the sum
fits. -/
theorem applyThreadLimit_toNat_iff (tcnt : UInt64) :
    (pool.applyThreadLimit tcnt).toNat = pool.wanted tcnt ↔
      pool.threadList.length + tcnt.toNat < 2 ^ 64 := by
  have limit := pool.tmax.toNat_lt
  have small := tcnt.toNat_lt
  have kept : pool.threadList.length ≤ pool.tmax.toNat := within
  have sum := within.sum_toNat tcnt
  unfold applyThreadLimit wanted
  by_cases exceeds : pool.size + tcnt > pool.tmax
  · have exceedsNat : pool.tmax.toNat < (pool.size + tcnt).toNat := UInt64.lt_iff_toNat_lt.mp exceeds
    rw [if_pos exceeds, within.room_toNat]
    omega
  · have underNat : ¬pool.tmax.toNat < (pool.size + tcnt).toNat :=
      fun more => exceeds (UInt64.lt_iff_toNat_lt.mpr more)
    rw [if_neg exceeds]
    omega

theorem startsWanted_iff (grants : Nat → Bool) (tcnt : UInt64) :
    pool.StartsWanted grants tcnt ↔ pool.threadList.length + tcnt.toNat < 2 ^ 64 ∧
      ∀ attempt < pool.wanted tcnt, grants attempt = true := by
  have countExact := within.applyThreadLimit_toNat_iff tcnt
  have counts := pool.countsStarted_iff grants tcnt
  constructor
  · rintro ⟨count, started, same⟩
    have granted : GrantsAll grants (pool.applyThreadLimit tcnt) := counts.mp ⟨count, started⟩
    have returned := congrArg Prod.fst started
    rw [startThread, startThreadImpl_eq, if_pos granted] at returned
    rw [← Except.ok.inj returned] at same
    refine ⟨countExact.mp same, ?_⟩
    rw [← same]
    exact granted
  · rintro ⟨fits, granted⟩
    have same := countExact.mpr fits
    have all : GrantsAll grants (pool.applyThreadLimit tcnt) := by
      rw [GrantsAll, same]
      exact granted
    refine ⟨pool.applyThreadLimit tcnt, ?_, same⟩
    rw [startThread, startThreadImpl_eq, if_pos all, (grantsAll_iff _ _).mp all]

theorem growCount_bound {tbusy : UInt64} {created : Nat}
    (canStart : pool.CanStart (pool.growCount tbusy) created) :
    pool.threadList.length + created ≤ pool.tmax.toNat := by
  obtain ⟨most, countable⟩ := canStart
  have kept : pool.threadList.length ≤ pool.tmax.toNat := within
  unfold growCount at most
  split at most
  · by_cases fits : pool.threadList.length + (1 : UInt64).toNat < 2 ^ 64
    · rw [(within.applyThreadLimit_toNat_iff 1).mpr fits, wanted] at most
      omega
    · have one : (1 : UInt64).toNat = 1 := rfl
      omega
  · have none : (0 : UInt64).toNat = 0 := rfl
    omega

theorem sizeCount_bound {threadCnt : UInt64} {created : Nat}
    (canStart : pool.CanStart (pool.sizeCount threadCnt) created) :
    pool.threadList.length + created ≤ pool.tmax.toNat := by
  have most := canStart.1
  have kept : pool.threadList.length ≤ pool.tmax.toNat := within
  unfold sizeCount at most
  split at most
  · rename_i missing
    have missingNat : pool.threadList.length < threadCnt.toNat := by
      rw [← within.size_toNat]
      exact UInt64.lt_iff_toNat_lt.mp missing
    have missingExact : (threadCnt - pool.size).toNat = threadCnt.toNat - pool.threadList.length := by
      rw [UInt64.toNat_sub_of_le _ _ (UInt64.le_of_lt missing), within.size_toNat]
    have small := threadCnt.toNat_lt
    rw [(within.applyThreadLimit_toNat_iff _).mpr (by omega), wanted] at most
    omega
  · have none : (0 : UInt64).toNat = 0 := rfl
    omega

end WithinLimit

end ThreadPool

/-- The number of threads that a step starts. -/
def PoolAction.started : PoolAction Job → Nat
  | .grow _ _ _ created => created
  | .startThread _ created => created
  | .setSize _ created => created
  | _ => 0

theorem PoolAction.started_of_thread {action : PoolAction Job} (thread : action.OfThread) :
    action.started = 0 := by
  cases action with
  | grow => exact thread.elim
  | startThread => exact thread.elim
  | setSize => exact thread.elim
  | _ => rfl

namespace PoolSystem

theorem executeQueued_threads (system : PoolSystem Job) (worker : Nat) :
    (system.executeQueued worker).pool.tmax = system.pool.tmax ∧
      (system.executeQueued worker).pool.threadList.length = system.pool.threadList.length := by
  unfold executeQueued
  split
  · exact ⟨rfl, ThreadPool.setPc_length ..⟩
  · exact ⟨rfl, ThreadPool.setPc_length ..⟩

theorem effect_threads (system : PoolSystem Job) (action : PoolAction Job) :
    (system.effect action).pool.tmax = system.pool.tmax ∧
      (system.effect action).pool.threadList.length =
        system.pool.threadList.length + action.started := by
  cases action with
  | push client job notified =>
      cases notified with
      | none => exact ⟨rfl, rfl⟩
      | some worker => exact ⟨rfl, ThreadPool.setPc_length ..⟩
  | grow client ticket tbusy created =>
      exact ⟨rfl, by simp [effect, grow, ThreadPool.emplaceThreads, PoolAction.started]⟩
  | startThread tcnt created =>
      exact ⟨rfl, by simp [effect, ThreadPool.emplaceThreads, PoolAction.started]⟩
  | setSize threadCnt created =>
      exact ⟨rfl, by simp [effect, ThreadPool.emplaceThreads, PoolAction.started]⟩
  | signalShutdown client due =>
      simp only [effect, signalShutdown]
      split
      · exact ⟨rfl, rfl⟩
      · exact ⟨rfl, List.length_map ..⟩
  | enterLoop worker =>
      simp only [effect, enterLoop]
      split
      · exact ⟨rfl, ThreadPool.setPc_length ..⟩
      · exact system.executeQueued_threads worker
  | relock worker ticket job =>
      obtain ⟨sameLimit, sameLength⟩ := (system.endJob worker).executeQueued_threads worker
      exact ⟨sameLimit, sameLength.trans (ThreadPool.setPc_length ..)⟩
  | invoke worker ticket job => exact ⟨rfl, ThreadPool.setPc_length ..⟩
  | complete worker ticket job => exact ⟨rfl, ThreadPool.setPc_length ..⟩
  | wakeSpuriously worker => exact ⟨rfl, ThreadPool.setPc_length ..⟩
  | _ => exact ⟨rfl, rfl⟩

/-- A call of `start_thread` is made while the sum that it compares fits. -/
def SumFits (system : PoolSystem Job) : PoolAction Job → Prop
  | .startThread tcnt _ => system.pool.threadList.length + tcnt.toNat < 2 ^ 64
  | _ => True

theorem withinLimit_new (tmin tmax : UInt64) :
    (PoolSystem.new Job tmin tmax).pool.WithinLimit := by
  have empty : ({ tmax } : ThreadPool Job).WithinLimit := Nat.zero_le _
  have fits : ({ tmax } : ThreadPool Job).threadList.length + tmin.toNat < 2 ^ 64 := by
    simpa using tmin.toNat_lt
  have count := (empty.applyThreadLimit_toNat_iff tmin).mpr fits
  simp only [ThreadPool.WithinLimit, PoolSystem.new, ThreadPool.emplaceThreads, List.nil_append,
    List.length_replicate, count, ThreadPool.wanted]
  exact Nat.min_le_right ..

theorem withinLimit_effect {before : PoolSystem Job} (within : before.pool.WithinLimit)
    {action : PoolAction Job} (fits : before.SumFits action) (enabled : before.Enabled action) :
    (before.effect action).pool.WithinLimit := by
  obtain ⟨sameLimit, length⟩ := before.effect_threads action
  rw [ThreadPool.WithinLimit, sameLimit, length]
  cases action with
  | grow client ticket tbusy created => exact within.growCount_bound enabled.2
  | startThread tcnt created =>
      have most : created ≤ _ := enabled.1
      have kept : before.pool.threadList.length ≤ before.pool.tmax.toNat := within
      rw [(within.applyThreadLimit_toNat_iff tcnt).mpr fits, ThreadPool.wanted] at most
      simp only [PoolAction.started]
      omega
  | setSize threadCnt created => exact within.sizeCount_bound enabled
  | _ => exact within

end PoolSystem

theorem PoolSystem.withinLimit_reaches {system : PoolSystem Job}
    (reached : (poolTransition Job).Reaches PoolSystem.Start PoolSystem.SumFits system) :
    system.pool.WithinLimit :=
  PoolSystem.invariant PoolSystem.withinLimit_new
    (fun _ _ within fits enabled => PoolSystem.withinLimit_effect within fits enabled) reached

/-- In every run in which the sum fits at each call of `start_thread`, the limit is
kept and its subtraction does not wrap; and in each state of such a run a call of
`start_thread` starts as many threads as asked for and as there is room for, and
returns their number, exactly if the sum fits and the system starts each of them. -/
theorem thread_limit {system : PoolSystem Job}
    (reached : (poolTransition Job).Reaches PoolSystem.Start PoolSystem.SumFits system) :
    system.pool.threadList.length ≤ system.pool.tmax.toNat ∧
    (system.pool.tmax - system.pool.size).toNat =
      system.pool.tmax.toNat - system.pool.threadList.length ∧
    ∀ grants tcnt, system.pool.StartsWanted grants tcnt ↔
      system.pool.threadList.length + tcnt.toNat < 2 ^ 64 ∧
        ∀ attempt < system.pool.wanted tcnt, grants attempt = true := by
  have within := PoolSystem.withinLimit_reaches reached
  exact ⟨within, within.room_toNat, within.startsWanted_iff⟩

theorem thread_limit_five : ∃ system : PoolSystem Nat, system.pool.threadList.length = 3 ∧
    system.pool.threadList.length ≤ system.pool.tmax.toNat ∧
    (system.pool.tmax - system.pool.size).toNat =
      system.pool.tmax.toNat - system.pool.threadList.length ∧
    ∀ grants tcnt, system.pool.StartsWanted grants tcnt ↔
      system.pool.threadList.length + tcnt.toNat < 2 ^ 64 ∧
        ∀ attempt < system.pool.wanted tcnt, grants attempt = true := by
  have started : (poolTransition Nat).Reaches PoolSystem.Start PoolSystem.SumFits
      (.new Nat 1 3) := .start ⟨1, 3, rfl⟩
  have fits : (PoolSystem.new Nat 1 3).SumFits (.startThread 5 2) := by
    rw [PoolSystem.SumFits]
    decide
  have reached := Transition.Reaches.step started (.startThread 5 2) fits
    ⟨by decide, by decide⟩
  exact ⟨_, rfl, thread_limit reached⟩

/-- `start_thread(SIZE_MAX)` on a full pool starts threads. -/
theorem thread_limit_exceeded :
    ¬∀ (tmin tmax : UInt64) (system : PoolSystem Nat),
      (poolTransition Nat).Reachable (· = .new Nat tmin tmax) system →
      system.pool.threadList.length ≤ tmax.toNat := by
  intro limited
  obtain ⟨system, ran, length⟩ : ∃ system,
      (poolTransition Nat).run (.new Nat 1 1) [.startThread 18446744073709551615 1] = some system ∧
        system.pool.threadList.length = 2 := ⟨_, rfl, rfl⟩
  have few := limited 1 1 system (Transition.Reachable.run (.start rfl) ran)
  rw [length] at few
  exact absurd few (by decide)

end FastCrawl
