import Mathlib.Data.List.Induction

namespace Automata

/-! Deterministic machines that may emit one output for each input item, and
the rules that relate two machines or a machine and a program. -/

universe u v w x

variable {σ σ' τ : Type u} {α : Type v} {β β' : Type w} {ω : Type x} {ε : Type u}

structure Mealy (σ : Type u) (α : Type v) (β : Type w) where
  next : σ → α → σ
  emit : σ → α → Option β

namespace Mealy

variable (machine : Mealy σ α β)

def run (state : σ) (input : List α) : σ := input.foldl machine.next state

def outputs : σ → List α → List β
  | _, [] => []
  | state, item :: rest =>
      (machine.emit state item).toList ++ outputs (machine.next state item) rest

@[simp] theorem run_cons (state : σ) (item : α) (rest : List α) :
    machine.run state (item :: rest) = machine.run (machine.next state item) rest := rfl

theorem run_append (state : σ) (first second : List α) :
    machine.run state (first ++ second) = machine.run (machine.run state first) second :=
  List.foldl_append ..

@[simp] theorem outputs_nil (state : σ) : machine.outputs state [] = [] := rfl

@[simp] theorem outputs_cons (state : σ) (item : α) (rest : List α) :
    machine.outputs state (item :: rest) =
      (machine.emit state item).toList ++ machine.outputs (machine.next state item) rest := rfl

theorem outputs_append (state : σ) (first second : List α) :
    machine.outputs state (first ++ second) =
      machine.outputs state first ++ machine.outputs (machine.run state first) second := by
  induction first generalizing state with
  | nil => rfl
  | cons item rest ih => simp [ih]

/-- A map of states that commutes with every step, up to a map of outputs. -/
structure Hom (target : Mealy σ' α β') (onState : σ → σ') (onOutput : β → β') : Prop where
  next : ∀ state item, onState (machine.next state item) = target.next (onState state) item
  emit : ∀ state item,
    (machine.emit state item).map onOutput = target.emit (onState state) item

variable {machine} {target : Mealy σ' α β'} {onState : σ → σ'} {onOutput : β → β'}

theorem Hom.run (hom : machine.Hom target onState onOutput) (state : σ) (input : List α) :
    onState (machine.run state input) = target.run (onState state) input := by
  induction input generalizing state with
  | nil => rfl
  | cons item rest ih => rw [run_cons, run_cons, ih, hom.next]

theorem Hom.outputs (hom : machine.Hom target onState onOutput) (state : σ) (input : List α) :
    (machine.outputs state input).map onOutput = target.outputs (onState state) input := by
  induction input generalizing state with
  | nil => rfl
  | cons item rest ih =>
      rw [outputs_cons, outputs_cons, List.map_append, ih, hom.next, ← hom.emit, Option.toList_map]

theorem outputs_invariant (Holds : σ → Prop) {Emitted : β → Prop}
    (next : ∀ state item, Holds state → Holds (machine.next state item))
    (emit : ∀ state item output, Holds state → machine.emit state item = some output →
      Emitted output)
    {state : σ} (holds : Holds state) (input : List α) :
    ∀ output ∈ machine.outputs state input, Emitted output := by
  induction input generalizing state with
  | nil => simp
  | cons item rest ih =>
      intro output member
      rcases List.mem_append.mp member with head | tail
      · exact emit state item output holds (Option.mem_toList.mp head)
      · exact ih (next state item holds) output tail

theorem mem_outputs {state : σ} {input : List α} {output : β} :
    output ∈ machine.outputs state input ↔
      ∃ before item after, input = before ++ item :: after ∧
        machine.emit (machine.run state before) item = some output := by
  constructor
  · intro member
    induction input generalizing state with
    | nil => simp at member
    | cons item rest ih =>
        rcases List.mem_append.mp member with head | tail
        · exact ⟨[], item, rest, rfl, Option.mem_toList.mp head⟩
        · obtain ⟨before, last, after, rfl, emitted⟩ := ih tail
          exact ⟨item :: before, last, after, rfl, emitted⟩
  · intro found
    obtain ⟨before, item, after, rfl, emitted⟩ := found
    rw [outputs_append, outputs_cons, emitted]
    simp

/-- Each output was emitted by one item, after the outputs before it. -/
theorem outputs_eq_append_cons {state : σ} {input : List α} {earlier later : List β} {output : β}
    (split : machine.outputs state input = earlier ++ output :: later) :
    ∃ read item rest, input = read ++ item :: rest ∧ machine.outputs state read = earlier ∧
      machine.emit (machine.run state read) item = some output := by
  induction input generalizing state earlier with
  | nil => simp at split
  | cons item rest ih =>
      rw [outputs_cons] at split
      cases emitted : machine.emit state item with
      | none =>
          rw [emitted, Option.toList_none, List.nil_append] at split
          obtain ⟨read, last, after, rfl, sameEarlier, emits⟩ := ih split
          refine ⟨item :: read, last, after, rfl, ?_, emits⟩
          rw [outputs_cons, emitted, Option.toList_none, List.nil_append, sameEarlier]
      | some first =>
          rw [emitted, Option.toList_some, List.singleton_append] at split
          cases earlier with
          | nil =>
              obtain ⟨rfl, _⟩ := List.cons.inj split
              exact ⟨[], item, rest, rfl, rfl, emitted⟩
          | cons head earlier =>
              obtain ⟨rfl, splitRest⟩ := List.cons.inj split
              obtain ⟨read, last, after, rfl, sameEarlier, emits⟩ := ih splitRest
              refine ⟨item :: read, last, after, rfl, ?_, emits⟩
              rw [outputs_cons, emitted, Option.toList_some, List.singleton_append, sameEarlier]

theorem run_invariant (Holds : List α → σ → Prop)
    (next : ∀ read state item, Holds read state →
      Holds (read ++ [item]) (machine.next state item))
    {state : σ} (holds : Holds [] state) (input : List α) :
    Holds input (machine.run state input) := by
  induction input using List.reverseRecOn with
  | nil => exact holds
  | append_singleton read item ih =>
      rw [run_append]
      exact next read _ item ih

/-- Successive outputs are related if every output is remembered by the states
after it, in a way that relates it to the outputs emitted from them. -/
theorem outputs_pairwise (Holds : σ → Prop) (Remembered : β → σ → Prop)
    {Related : β → β → Prop}
    (next : ∀ state item, Holds state → Holds (machine.next state item))
    (remember : ∀ state item output, Holds state → machine.emit state item = some output →
      Remembered output (machine.next state item))
    (keep : ∀ earlier state item, Holds state → Remembered earlier state →
      Remembered earlier (machine.next state item))
    (relate : ∀ earlier state item output, Holds state → Remembered earlier state →
      machine.emit state item = some output → Related earlier output)
    {state : σ} (holds : Holds state) (input : List α) :
    (machine.outputs state input).Pairwise Related := by
  have remembered : ∀ earlier : β, ∀ input : List α, ∀ state : σ, Holds state →
      Remembered earlier state → ∀ output ∈ machine.outputs state input,
        Related earlier output := by
    intro earlier input state holds remembered
    exact outputs_invariant (fun state => Holds state ∧ Remembered earlier state)
      (fun state item kept => ⟨next state item kept.1, keep earlier state item kept.1 kept.2⟩)
      (fun state item output kept emitted =>
        relate earlier state item output kept.1 kept.2 emitted) ⟨holds, remembered⟩ input
  induction input generalizing state with
  | nil => exact .nil
  | cons item rest ih =>
      rw [outputs_cons]
      cases emitted : machine.emit state item with
      | none => exact ih (next state item holds)
      | some output =>
          refine .cons ?_ (ih (next state item holds))
          exact remembered output rest _ (next state item holds)
            (remember state item output holds emitted)

/-- A run along which every state, the first and the last included, is inside a
given region. -/
structure Walk (machine : Mealy σ α β) (Inside : σ → Prop) (state : σ) (input : List α)
    (after : σ) (emitted : List β) : Prop where
  run : machine.run state input = after
  outputs : machine.outputs state input = emitted
  inside : ∀ initial, initial <+: input → Inside (machine.run state initial)

section Walk

variable {Inside : σ → Prop} {before middle after : σ} {first second : List α} {input : List α}
  {item : α} {emitted later : List β}

theorem Walk.nil (inside : Inside before) : machine.Walk Inside before [] before [] where
  run := rfl
  outputs := rfl
  inside initial isPrefix := by
    rw [List.prefix_nil.mp isPrefix]
    exact inside

theorem Walk.single {output : Option β} (inside : Inside before) (insideAfter : Inside after)
    (next : machine.next before item = after) (emit : machine.emit before item = output) :
    machine.Walk Inside before [item] after output.toList where
  run := next
  outputs := by rw [outputs_cons, emit, outputs_nil, List.append_nil]
  inside initial isPrefix := by
    rcases List.prefix_cons_iff.mp isPrefix with rfl | ⟨shorter, rfl, shorterPrefix⟩
    · exact inside
    · rw [List.prefix_nil.mp shorterPrefix, run_cons, next]
      exact insideAfter

theorem Walk.append (head : machine.Walk Inside before first middle emitted)
    (tail : machine.Walk Inside middle second after later) :
    machine.Walk Inside before (first ++ second) after (emitted ++ later) where
  run := by rw [run_append, head.run, tail.run]
  outputs := by rw [outputs_append, head.outputs, head.run, tail.outputs]
  inside initial isPrefix := by
    obtain ⟨remaining, joined⟩ := isPrefix
    rcases List.append_eq_append_iff.mp joined with ⟨middle, rfl, _⟩ | ⟨shorter, rfl, rfl⟩
    · exact head.inside initial (List.prefix_append initial middle)
    · rw [run_append, head.run]
      exact tail.inside shorter (List.prefix_append shorter remaining)

theorem Walk.cons (inside : Inside before) (silent : machine.emit before item = none)
    (rest : machine.Walk Inside (machine.next before item) input after emitted) :
    machine.Walk Inside before (item :: input) after emitted := by
  have insideNext : Inside (machine.next before item) := rest.inside [] (List.nil_prefix)
  exact (Walk.single inside insideNext rfl silent).append rest

end Walk

/-- A program step that never fails realizes a machine when it keeps a relation
between program states and machine states, and folds what the machine emits
into the observed part of its own state. -/
def Realizes (machine : Mealy σ α β) (step : τ → α → Except ε τ) (Related : τ → σ → Prop)
    (observe : τ → ω) (apply : ω → β → ω) : Prop :=
  ∀ {before : τ} {state : σ} (item : α), Related before state →
    ∃ after, step before item = .ok after ∧ Related after (machine.next state item) ∧
      observe after = (machine.emit state item).toList.foldl apply (observe before)

theorem Realizes.foldlM {step : τ → α → Except ε τ} {Related : τ → σ → Prop}
    {observe : τ → ω} {apply : ω → β → ω}
    (realizes : machine.Realizes step Related observe apply)
    {before : τ} {state : σ} (related : Related before state) (input : List α) :
    ∃ after, input.foldlM step before = .ok after ∧ Related after (machine.run state input) ∧
      observe after = (machine.outputs state input).foldl apply (observe before) := by
  induction input generalizing before state with
  | nil => exact ⟨before, rfl, related, rfl⟩
  | cons item rest ih =>
      obtain ⟨middle, stepped, middleRelated, middleObserved⟩ := realizes item related
      obtain ⟨after, finished, afterRelated, afterObserved⟩ := ih middleRelated
      refine ⟨after, ?_, afterRelated, ?_⟩
      · rw [List.foldlM_cons, stepped]
        exact finished
      · rw [afterObserved, middleObserved, outputs_cons, List.foldl_append]

end Mealy

end Automata
