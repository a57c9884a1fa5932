import FastCrawl.ThreadPool.Conservation

namespace FastCrawl

/-! When the shutdown drains the queue.  A thread tests `m_shutdown` before it
looks at the queue, except right after a job: queued jobs are executed if some
thread is busy when the flag is set, and are lost if none is. -/

variable {Job : Type}

namespace PoolSystem

/-- A condition under which a call of `shutdown`, about to lock the queue, returns
only when the jobs that are due have been executed. -/
def WillDrain (system : PoolSystem Job) (due : List Nat) : Prop :=
  if system.pool.shutdown then
    ∀ ticket ∈ due, ticket < system.dequeued.length ∧ ∀ worker job,
      ¬system.At worker (.busy .taken ticket job) ∧ ¬system.At worker (.busy .running ticket job)
  else
    0 < system.pool.tbusy.toNat ∨ ∀ ticket ∈ due, ticket < system.dequeued.length

def DrainingStep (system : PoolSystem Job) : PoolAction Job → Prop
  | .signalShutdown _ due => system.WillDrain due
  | _ => True

/-- The flag is set, and none of the jobs that are due can be left behind. -/
def Drains (system : PoolSystem Job) (due : List Nat) : Prop :=
  system.pool.shutdown = true ∧
    (system.pool.jobQueue = [] ∨ 0 < system.pool.tbusy.toNat ∨
      ∀ ticket ∈ due, ticket < system.dequeued.length)

def Sound (system : PoolSystem Job) : ClientPc → Prop
  | .idle => True
  | .pushed ticket _ => ticket < system.accepted.length
  | .shutdownCalled due => ∀ ticket ∈ due, ticket < system.accepted.length
  | .joining due => (∀ ticket ∈ due, ticket < system.accepted.length) ∧ system.Drains due

variable {before : PoolSystem Job} {action : PoolAction Job}

theorem accepted_mono (before : PoolSystem Job) (action : PoolAction Job) :
    before.accepted.length ≤ (before.effect action).accepted.length := by
  have ofThread (thread : action.OfThread) :
      before.accepted.length ≤ (before.effect action).accepted.length :=
    Nat.le_of_eq (congrArg List.length (before.effect_sameCallers thread).accepted).symm
  cases action with
  | push client job notified => simp [effect, push]
  | signalShutdown client due =>
      simp only [effect, signalShutdown]
      split <;> exact Nat.le_refl _
  | enterLoop worker => exact ofThread trivial
  | relock worker ticket job => exact ofThread trivial
  | _ => exact Nat.le_refl _

theorem completed_mono {ticket : Nat} (completed : ticket ∈ before.completed)
    (action : PoolAction Job) : ticket ∈ (before.effect action).completed := by
  cases action with
  | signalShutdown client due =>
      simp only [effect, signalShutdown]
      split <;> exact completed
  | enterLoop worker =>
      obtain ⟨_, _, after, _⟩ := before.enterLoop_frame worker
      exact (congrArg PoolSystem.completed after).symm ▸ completed
  | complete worker ticket' job => exact List.mem_append_left _ completed
  | relock worker ticket' job =>
      obtain ⟨_, _, after, _⟩ := (before.endJob worker).executeQueued_frame worker
      exact (congrArg PoolSystem.completed after).symm ▸ completed
  | _ => exact completed

theorem Drains.effect {due : List Nat} (drains : before.Drains due)
    (conserved : JobConservation before) (enabled : before.Enabled action) :
    (before.effect action).Drains due := by
  obtain ⟨down, left⟩ := drains
  obtain ⟨stillDown, _, ⟨worker, ticket, job, rfl⟩ | ⟨sameQueue, sameBusy, sameDequeued⟩⟩ :=
    effect_of_down down enabled
  · refine ⟨stillDown, ?_⟩
    have sameQueue : (before.endJob worker).pool.jobQueue = before.pool.jobQueue := rfl
    cases queued : before.pool.jobQueue with
    | nil =>
        left
        change ((before.endJob worker).executeQueued worker).pool.jobQueue = []
        rw [executeQueued_nil (sameQueue.trans queued)]
        exact queued
    | cons head rest =>
        right
        left
        change 0 < ((before.endJob worker).executeQueued worker).pool.tbusy.toNat
        rw [executeQueued_cons (sameQueue.trans queued)]
        change 0 < (before.pool.tbusy - 1 + 1).toNat
        rw [UInt64.sub_add_cancel]
        exact conserved.tbusy_pos enabled
  · rw [Drains, sameQueue, sameBusy, sameDequeued]
    exact ⟨stillDown, left⟩

theorem Sound.update {clients : Nat → ClientPc} (sound : ∀ other, before.Sound (clients other))
    (pc : ClientPc) (soundPc : before.Sound pc) (client other : Nat) :
    before.Sound (Function.update clients client pc other) := by
  rw [Function.update_apply]
  split
  · exact soundPc
  · exact sound other

theorem Sound.effect {pc : ClientPc} (sound : before.Sound pc)
    (conserved : JobConservation before) (enabled : before.Enabled action) :
    (before.effect action).Sound pc := by
  have more := accepted_mono before action
  cases pc with
  | idle => trivial
  | pushed ticket tbusy => exact Nat.lt_of_lt_of_le sound more
  | shutdownCalled due => exact fun ticket isDue => Nat.lt_of_lt_of_le (sound ticket isDue) more
  | joining due =>
      exact ⟨fun ticket isDue => Nat.lt_of_lt_of_le (sound.1 ticket isDue) more,
        sound.2.effect conserved enabled⟩

end PoolSystem

structure ShutdownDrains (system : PoolSystem Job) : Prop where
  conserved : JobConservation system
  clients : ∀ client, system.Sound (system.clients client)
  returned : ∀ ticket ∈ system.returned, ticket < system.accepted.length
  drained : ∀ due ∈ system.downs, ∀ ticket ∈ due, ticket ∈ system.completed

namespace ShutdownDrains

variable {before : PoolSystem Job} {action : PoolAction Job}

theorem new (tmin tmax : UInt64) : ShutdownDrains (PoolSystem.new Job tmin tmax) :=
  ⟨.new tmin tmax, fun _ => trivial, by simp [PoolSystem.new], by simp [PoolSystem.new]⟩

theorem completed_of_idle (conserved : JobConservation before) {ticket : Nat}
    (taken : ticket < before.dequeued.length)
    (idle : ∀ worker job, ¬before.At worker (.busy .taken ticket job) ∧
      ¬before.At worker (.busy .running ticket job)) : ticket ∈ before.completed :=
  (conserved.completed ticket _ _ (List.getElem?_eq_getElem taken)).mpr (idle _ _)

theorem joined (holds : ShutdownDrains before) {client : Nat} {due : List Nat}
    (enabled : before.Enabled (.joinThreads client due)) :
    ∀ ticket ∈ due, ticket ∈ before.completed := by
  obtain ⟨joining, exited⟩ := enabled
  have sound := holds.clients client
  rw [joining] at sound
  obtain ⟨accepted, _, drains⟩ := sound
  have noBusy : ∀ worker stage ticket job, ¬before.At worker (.busy stage ticket job) := by
    intro worker stage ticket job at_job
    cases exited _ (List.mem_of_getElem? at_job)
  have noneBusy : before.pool.tbusy.toNat = 0 := by
    rw [holds.conserved.busyCount, List.countP_eq_zero]
    intro pc member
    rw [exited pc member]
    exact Bool.false_ne_true
  intro ticket isDue
  refine completed_of_idle holds.conserved ?_ fun _ _ => ⟨noBusy _ _ _ _, noBusy _ _ _ _⟩
  rcases drains with empty | busy | taken
  · have order := congrArg List.length holds.conserved.order
    have inRange := accepted ticket isDue
    simp only [empty, List.append_nil, List.length_map] at order
    omega
  · omega
  · exact taken ticket isDue

theorem signalShutdown (holds : ShutdownDrains before) {client : Nat} {due : List Nat}
    (willDrain : before.WillDrain due)
    (enabled : before.Enabled (.signalShutdown client due)) :
    ShutdownDrains (before.signalShutdown client due) := by
  have dueSound := holds.clients client
  rw [show before.clients client = .shutdownCalled due from enabled] at dueSound
  have conserved := holds.conserved.effect enabled
  have sound : ∀ other, (before.signalShutdown client due).Sound (before.clients other) :=
    fun other => (holds.clients other).effect holds.conserved enabled
  change JobConservation (before.signalShutdown client due) at conserved
  cases down : before.pool.shutdown with
  | true =>
      rw [PoolSystem.WillDrain, if_pos down] at willDrain
      rw [PoolSystem.signalShutdown_down down] at conserved sound ⊢
      refine ⟨conserved, PoolSystem.Sound.update sound .idle trivial client, holds.returned,
        fun other member ticket isDue => ?_⟩
      rcases List.mem_append.mp member with earlier | this
      · exact holds.drained other earlier ticket isDue
      · rw [List.mem_singleton.mp this] at isDue
        exact completed_of_idle holds.conserved (willDrain ticket isDue).1
          (willDrain ticket isDue).2
  | false =>
      rw [PoolSystem.WillDrain, if_neg (by simp [down])] at willDrain
      rw [PoolSystem.signalShutdown_up down] at conserved sound ⊢
      refine ⟨conserved, PoolSystem.Sound.update sound (.joining due) ?_ client,
        holds.returned, holds.drained⟩
      exact ⟨dueSound, rfl, .inr willDrain⟩

theorem effect (holds : ShutdownDrains before) (draining : before.DrainingStep action)
    (enabled : before.Enabled action) : ShutdownDrains (before.effect action) := by
  have conserved := holds.conserved.effect enabled
  have sound : ∀ client, (before.effect action).Sound (before.clients client) :=
    fun client => (holds.clients client).effect holds.conserved enabled
  have returned : ∀ ticket ∈ before.returned, ticket < (before.effect action).accepted.length :=
    fun ticket member => Nat.lt_of_lt_of_le (holds.returned ticket member)
      (PoolSystem.accepted_mono before action)
  have drained : ∀ due ∈ before.downs, ∀ ticket ∈ due, ticket ∈ (before.effect action).completed :=
    fun due isDown ticket isDue =>
      PoolSystem.completed_mono (holds.drained due isDown ticket isDue) action
  have soundUpdate : ∀ client pc, (before.effect action).Sound pc → ∀ other,
      (before.effect action).Sound (Function.update before.clients client pc other) :=
    fun client pc soundPc => PoolSystem.Sound.update sound pc soundPc client
  have unchanged : (before.effect action).clients = before.clients →
      (before.effect action).returned = before.returned →
      (before.effect action).downs = before.downs → ShutdownDrains (before.effect action) := by
    intro sameClients sameReturned sameDowns
    refine ⟨conserved, ?_, ?_, ?_⟩
    · rwa [sameClients]
    · rwa [sameReturned]
    · rwa [sameDowns]
  have ofThread (thread : action.OfThread) : ShutdownDrains (before.effect action) := by
    have same := before.effect_sameCallers thread
    exact unchanged same.clients same.returned same.downs
  cases action with
  | push client job notified =>
      refine ⟨conserved, soundUpdate client _ ?_, returned, drained⟩
      change before.accepted.length < (before.accepted ++ [job]).length
      simp
  | reject client job => exact holds
  | grow client ticket tbusy created =>
      refine ⟨conserved, soundUpdate client .idle trivial, fun other member => ?_, drained⟩
      have ticketSound := holds.clients client
      rw [enabled.1] at ticketSound
      simp only [PoolSystem.effect, PoolSystem.grow] at member
      split at member
      · rcases List.mem_append.mp member with earlier | this
        · exact returned other earlier
        · rw [List.mem_singleton.mp this]
          exact ticketSound
      · exact returned other member
  | callShutdown client =>
      exact ⟨conserved, soundUpdate client (.shutdownCalled before.returned) returned,
        returned, drained⟩
  | signalShutdown client due => exact holds.signalShutdown draining enabled
  | joinThreads client due =>
      refine ⟨conserved, soundUpdate client .idle trivial, returned, fun other member => ?_⟩
      rcases List.mem_append.mp member with earlier | this
      · exact holds.drained other earlier
      · rw [List.mem_singleton.mp this]
        exact holds.joined enabled
  | startThread tcnt created => exact unchanged rfl rfl rfl
  | setSize threadCnt created => exact unchanged rfl rfl rfl
  | enterLoop worker => exact ofThread trivial
  | invoke worker ticket job => exact ofThread trivial
  | complete worker ticket job => exact ofThread trivial
  | relock worker ticket job => exact ofThread trivial
  | wakeSpuriously worker => exact ofThread trivial

end ShutdownDrains

namespace PoolSystem

variable {system later : PoolSystem Job}

/-- With no thread busy when the flag is set, the queue stays as it is. -/
theorem jobQueue_of_idle (conserved : JobConservation system)
    (down : system.pool.shutdown = true) (noneBusy : system.pool.tbusy.toNat = 0)
    (leads : (poolTransition Job).Leads system later) :
    later.pool.jobQueue = system.pool.jobQueue := by
  have stuck := Transition.Leads.invariant (fun later : PoolSystem Job =>
    JobConservation later ∧ later.pool.shutdown = true ∧ later.pool.tbusy.toNat = 0 ∧
      later.pool.jobQueue = system.pool.jobQueue) leads ⟨conserved, down, noneBusy, rfl⟩ ?_
  · exact stuck.2.2.2
  intro middle action stuck enabled
  obtain ⟨conserved, down, noneBusy, queue⟩ := stuck
  obtain ⟨stillDown, _, ⟨worker, ticket, job, rfl⟩ | ⟨sameQueue, sameBusy, _⟩⟩ :=
    effect_of_down down enabled
  · have busy := conserved.tbusy_pos enabled
    omega
  · exact ⟨conserved.effect enabled, stillDown, (congrArg UInt64.toNat sameBusy).trans noneBusy,
      sameQueue.trans queue⟩

/-- With a thread busy, or nothing queued, nothing is left once no thread is busy. -/
theorem jobQueue_of_drains (conserved : JobConservation system)
    (drains : system.Drains (List.range system.accepted.length))
    (leads : (poolTransition Job).Leads system later) (noneBusy : later.pool.tbusy.toNat = 0) :
    later.pool.jobQueue = [] := by
  obtain ⟨conserved', _, queue⟩ := Transition.Leads.invariant (fun later : PoolSystem Job =>
    JobConservation later ∧ later.Drains (List.range system.accepted.length)) leads
    ⟨conserved, drains⟩ fun middle action holds enabled =>
      ⟨holds.1.effect enabled, holds.2.effect holds.1 enabled⟩
  rcases queue with empty | busy | taken
  · exact empty
  · omega
  · have sameAccepted := (shutdown_closes leads drains.1).2
    have order := congrArg List.length conserved'.order
    rw [sameAccepted, List.length_append, List.length_map] at order
    rw [← List.length_eq_zero_iff]
    by_contra left
    have last := taken (system.accepted.length - 1) (by rw [List.mem_range]; omega)
    omega

end PoolSystem

/-- In every run in which each call of `shutdown` that sets or finds the flag does
so while it will drain, the calls that have returned have drained. -/
theorem shutdown_drains {system : PoolSystem Job}
    (reached : (poolTransition Job).Reaches PoolSystem.Start PoolSystem.DrainingStep system) :
    ∀ due ∈ system.downs, ∀ ticket ∈ due,
      ticket ∈ system.completed ∧ ticket < system.dequeued.length := by
  have holds : ShutdownDrains system :=
    PoolSystem.invariant .new (fun _ _ holds draining enabled => holds.effect draining enabled)
      reached
  intro due isDown ticket isDue
  have completed := holds.drained due isDown ticket isDue
  exact ⟨completed, holds.conserved.completedTaken ticket completed⟩

theorem shutdown_drains_busy : ∃ system : PoolSystem Nat, system.downs = [[0, 1]] ∧
    ∀ due ∈ system.downs, ∀ ticket ∈ due,
      ticket ∈ system.completed ∧ ticket < system.dequeued.length := by
  obtain ⟨busy, later, ranBefore, called, up, tbusy, ranAfter, downs⟩ :
      ∃ busy later : PoolSystem Nat,
        (poolTransition Nat).run (.new Nat 1 1)
          [.push 0 7 none, .grow 0 0 0 0, .enterLoop 0, .push 0 8 none, .grow 0 1 1 0,
            .callShutdown 0] = some busy ∧
        busy.clients 0 = .shutdownCalled [0, 1] ∧ busy.pool.shutdown = false ∧
        busy.pool.tbusy = 1 ∧
        (poolTransition Nat).run (busy.effect (.signalShutdown 0 [0, 1]))
          [.invoke 0 0 7, .complete 0 0 7, .relock 0 0 7, .invoke 0 1 8, .complete 0 1 8,
            .relock 0 1 8, .joinThreads 0 [0, 1]] = some later ∧
        later.downs = [[0, 1]] := ⟨_, _, rfl, rfl, rfl, rfl, rfl, rfl⟩
  have willDrain : busy.WillDrain [0, 1] := by
    rw [PoolSystem.WillDrain, up, tbusy]
    exact .inl (by decide)
  have reached : (poolTransition Nat).Reaches PoolSystem.Start PoolSystem.DrainingStep busy :=
    Transition.Reaches.run (.start ⟨1, 1, rfl⟩) (by simp [PoolSystem.DrainingStep]) ranBefore
  have reachedLater : (poolTransition Nat).Reaches PoolSystem.Start PoolSystem.DrainingStep later :=
    Transition.Reaches.run (.step reached (.signalShutdown 0 [0, 1]) willDrain called)
      (by simp [PoolSystem.DrainingStep]) ranAfter
  exact ⟨later, downs, shutdown_drains reachedLater⟩

/-- A job that is queued when the flag is set, with no thread busy, is never
executed. -/
theorem shutdown_loses {before later : PoolSystem Job} (reachable : before.Reachable)
    {client : Nat} {due : List Nat} (enabled : before.Enabled (.signalShutdown client due))
    (up : before.pool.shutdown = false) (noneBusy : before.pool.tbusy.toNat = 0)
    (leads : (poolTransition Job).Leads (before.effect (.signalShutdown client due)) later)
    {ticket : Nat} (queued : before.dequeued.length ≤ ticket) : ticket ∉ later.completed := by
  have stuck : JobConservation later ∧ later.pool.shutdown = true ∧
      later.pool.tbusy.toNat = 0 ∧ later.dequeued = before.dequeued := by
    refine Transition.Leads.invariant (fun later => JobConservation later ∧
      later.pool.shutdown = true ∧ later.pool.tbusy.toNat = 0 ∧
      later.dequeued = before.dequeued) leads ?start ?keeps
    case start =>
      refine ⟨reachable.conserved.effect enabled, ?_⟩
      change (before.signalShutdown client due).pool.shutdown = true ∧
        (before.signalShutdown client due).pool.tbusy.toNat = 0 ∧
        (before.signalShutdown client due).dequeued = before.dequeued
      rw [PoolSystem.signalShutdown_up up]
      exact ⟨rfl, noneBusy, rfl⟩
    case keeps =>
      intro middle action stuck enabled
      obtain ⟨conserved, down, noneBusy, dequeued⟩ := stuck
      obtain ⟨stillDown, _, ⟨worker, ticket, job, rfl⟩ | ⟨_, sameBusy, sameDequeued⟩⟩ :=
        PoolSystem.effect_of_down down enabled
      · have busy := conserved.tbusy_pos enabled
        omega
      · exact ⟨conserved.effect enabled, stillDown,
          (congrArg UInt64.toNat sameBusy).trans noneBusy, sameDequeued.trans dequeued⟩
  intro completed
  have taken := stuck.1.completedTaken ticket completed
  rw [stuck.2.2.2] at taken
  omega

def losingRun : List (PoolAction Nat) :=
  [.push 0 7 none, .grow 0 0 0 0, .callShutdown 0, .signalShutdown 0 [0], .enterLoop 0,
    .joinThreads 0 [0]]

theorem shutdown_loses_job :
    ¬∀ (tmin tmax : UInt64) (system : PoolSystem Nat), 1 ≤ tmin → 1 ≤ tmax →
      (poolTransition Nat).Reachable (· = .new Nat tmin tmax) system →
      ∀ due ∈ system.downs, ∀ ticket ∈ due, ticket ∈ system.completed := by
  intro drains
  obtain ⟨system, ran, downs, completed⟩ : ∃ system,
      (poolTransition Nat).run (.new Nat 1 1) losingRun = some system ∧
        system.downs = [[0]] ∧ system.completed = [] := ⟨_, rfl, rfl, rfl⟩
  have reached : (poolTransition Nat).Reachable (· = .new Nat 1 1) system :=
    Transition.Reachable.run (.start rfl) ran
  have executed := drains 1 1 system (by decide) (by decide) reached [0] (by simp [downs]) 0
    (by simp)
  rw [completed] at executed
  contradiction

end FastCrawl
