import Mathlib.Data.List.Basic

namespace Scanning

/-! Nested scanning loops over a chunk of data.

A scanner keeps its position in a finite automaton between calls.  Inside one
call an outer loop picks an inner loop by looking at the state; the inner loop
consumes data until it returns or the chunk ends.  The results below say that
where the loops return, and where the data is cut into chunks, does not matter:
what runs is a left fold of one step per item of data.
-/

universe u v w x

variable {σ : Type u} {α : Type v} {ε : Type w} {ν : Type x}

/-- How one pass through a loop body ends: another pass follows, or the
function containing the loop returns. -/
inductive Flow (σ : Type u) where
  | next (state : σ)
  | leave (state : σ)

namespace Flow

def state : Flow σ → σ
  | .next after => after
  | .leave after => after

@[simp] theorem state_next (after : σ) : (next after).state = after := rfl

@[simp] theorem state_leave (after : σ) : (leave after).state = after := rfl

def atEndOfScope (action : σ → σ) : Flow σ → Flow σ
  | .next after => .next (action after)
  | .leave after => .leave (action after)

def map (f : σ → σ) : Flow σ → Flow σ
  | .next after => .next (f after)
  | .leave after => .leave (f after)

theorem state_map (f : σ → σ) (flow : Flow σ) : (flow.map f).state = f flow.state := by
  cases flow <;> rfl

end Flow

/-- `while (offset < size) { ch = data[offset++]; body }` with the state and
the offset that the loop hands back. -/
def scan (body : α → σ → Except ε (Flow σ)) (data : List α) (state : σ) (offset : Nat) :
    Except ε (σ × Nat) :=
  if inside : offset < data.length then
    match body data[offset] state with
    | .error reason => .error reason
    | .ok (.leave after) => .ok (after, offset + 1)
    | .ok (.next after) => scan body data after (offset + 1)
  else .ok (state, offset)
termination_by data.length - offset

theorem scan_of_end (body : α → σ → Except ε (Flow σ)) {data : List α} {offset : Nat}
    (state : σ) (ended : ¬ offset < data.length) :
    scan body data state offset = .ok (state, offset) := by
  rw [scan, dif_neg ended]

theorem scan_progress {body : α → σ → Except ε (Flow σ)} {data : List α}
    {state after : σ} {offset reached : Nat} (inside : offset < data.length)
    (scanned : scan body data state offset = .ok (after, reached)) : offset < reached := by
  induction remaining : data.length - offset generalizing state offset with
  | zero => omega
  | succ remaining ih =>
      rw [scan, dif_pos inside] at scanned
      split at scanned
      · contradiction
      · cases scanned
        omega
      · rename_i next _
        by_cases more : offset + 1 < data.length
        · have later := ih more scanned (by omega)
          omega
        · rw [scan_of_end body next more] at scanned
          cases scanned
          omega

/-- The outer loop `while (offset < size) crawl(data, size, offset)`.  It ends
because every inner loop makes progress. -/
def drive (crawl : List α → σ → Nat → Except ε (σ × Nat))
    (progress : ∀ {data state offset after reached}, offset < data.length →
      crawl data state offset = .ok (after, reached) → offset < reached)
    (data : List α) (state : σ) (offset : Nat) : Except ε σ :=
  if _inside : offset < data.length then
    match _crawled : crawl data state offset with
    | .error reason => .error reason
    | .ok (after, reached) => drive crawl progress data after reached
  else .ok state
termination_by data.length - offset
decreasing_by
  have forward := progress _inside _crawled
  omega

/-- The inner loops of a scanner.  `stays` is the condition under which leaving
a loop early cannot be observed: a pass that keeps looping does not change
which loop the state selects. -/
structure Loops (ν : Type x) (σ : Type u) (α : Type v) (ε : Type w) where
  select : σ → ν
  body : ν → α → σ → Except ε (Flow σ)
  stays : ∀ {state after : σ} {ch : α},
    body (select state) ch state = .ok (.next after) → select after = select state

namespace Loops

variable (loops : Loops ν σ α ε)

def step (state : σ) (ch : α) : Except ε σ :=
  (loops.body (loops.select state) ch state).map Flow.state

def crawl (data : List α) (state : σ) (offset : Nat) : Except ε (σ × Nat) :=
  scan (loops.body (loops.select state)) data state offset

theorem crawl_progress {data : List α} {state after : σ} {offset reached : Nat}
    (inside : offset < data.length)
    (crawled : loops.crawl data state offset = .ok (after, reached)) : offset < reached :=
  scan_progress inside crawled

theorem crawl_bind_foldlM (data : List α) (state : σ) (offset : Nat) :
    (loops.crawl data state offset >>= fun result =>
        (data.drop result.2).foldlM loops.step result.1) =
      (data.drop offset).foldlM loops.step state := by
  induction remaining : data.length - offset generalizing state offset with
  | zero =>
      have ended : ¬ offset < data.length := by omega
      simp only [crawl, scan_of_end _ state ended]
      rfl
  | succ remaining ih =>
      have inside : offset < data.length := by omega
      rw [← List.getElem_cons_drop inside, List.foldlM_cons]
      rw [crawl, scan, dif_pos inside, step]
      split
      · rename_i reason failed
        rw [failed]
        rfl
      · rename_i after left
        rw [left]
        rfl
      · rename_i after continued
        rw [continued, ← loops.stays continued]
        exact ih after (offset + 1) (by omega)

theorem drive_eq_foldlM (data : List α) (state : σ) (offset : Nat) :
    drive loops.crawl loops.crawl_progress data state offset =
      (data.drop offset).foldlM loops.step state := by
  induction remaining : data.length - offset using Nat.strongRecOn generalizing state offset with
  | _ remaining ih =>
      rw [drive]
      split
      · rename_i inside
        rw [← loops.crawl_bind_foldlM]
        split
        · rename_i reason failed
          rw [failed]
          rfl
        · rename_i after reached crawled
          have forward := loops.crawl_progress inside crawled
          rw [crawled, ih (data.length - reached) (by omega) after reached rfl]
          rfl
      · rename_i ended
        rw [List.drop_eq_nil_of_le (by omega)]
        rfl

/-- Feeding chunks one after another is feeding their concatenation. -/
theorem foldlM_drive_eq_foldlM (chunks : List (List α)) (state : σ) :
    chunks.foldlM (fun state chunk => drive loops.crawl loops.crawl_progress chunk state 0) state =
      chunks.flatten.foldlM loops.step state := by
  induction chunks generalizing state with
  | nil => rfl
  | cons chunk chunks ih =>
      rw [List.foldlM_cons, List.flatten_cons, List.foldlM_append, loops.drive_eq_foldlM,
        List.drop_zero]
      exact congrArg _ (funext ih)

/-- A map of states that commutes with every loop body commutes with the steps. -/
theorem step_map (f : σ → σ) (select : ∀ state, loops.select (f state) = loops.select state)
    (body : ∀ loop ch state,
      loops.body loop ch (f state) = (loops.body loop ch state).map (Flow.map f))
    (state : σ) (ch : α) : loops.step (f state) ch = (loops.step state ch).map f := by
  rw [step, step, select, body]
  cases loops.body (loops.select state) ch state with
  | error reason => rfl
  | ok flow => exact congrArg Except.ok (flow.state_map f)

end Loops

end Scanning
