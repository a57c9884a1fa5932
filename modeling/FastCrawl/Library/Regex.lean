import Mathlib.Logic.Function.Basic

/-! Regular expressions with capture groups, matched by backtracking: quantifiers
are greedy, the alternatives of a quantifier are tried in order, and the first
way to match that lets the rest of the match succeed is taken. -/

universe u v

inductive Regex (α : Type u) where
  | empty
  | set (member : α → Bool)
  | cat (first second : Regex α)
  | opt (body : Regex α)
  | star (body : Regex α)
  | group (index : Nat) (body : Regex α)
  | bol
  | eol

namespace Regex

variable {α : Type u} {β : Type v}

/-- How far a match has come: the input, what is left of it and the captures. -/
structure State (α : Type u) where
  input : List α
  rest : List α
  captures : Nat → Option (List α)

namespace State

def start (input : List α) : State α := ⟨input, input, fun _ => none⟩

/-- What the given group has captured; nothing is an empty capture. -/
def text (state : State α) (index : Nat) : List α := (state.captures index).getD []

/-- Capture what `before` had left to read and `after` has not. -/
def capture (index : Nat) (before after : State α) : State α :=
  { after with
    captures := Function.update after.captures index
      (some (before.rest.take (before.rest.length - after.rest.length))) }

def skip (member : α → Bool) (state : State α) : State α :=
  { state with rest := state.rest.dropWhile member }

def drop (count : Nat) (state : State α) : State α :=
  { state with rest := state.rest.drop count }

def Ahead (member : α → Bool) (state : State α) : Prop :=
  ∃ item rest, state.rest = item :: rest ∧ member item = true

/-- `shorter` has read some members of the set after `state`, but not all it could. -/
def Short (member : α → Bool) (state shorter : State α) : Prop :=
  shorter.Ahead member ∧
    ∃ read, (∀ item ∈ read, member item = true) ∧ state.rest = read ++ shorter.rest

end State

/-- Repeat `body` as often as it can be and the continuation allows.  A
repetition that reads nothing is refused. -/
def repeatGreedy (body : State α → (State α → Option β) → Option β)
    (resume : State α → Option β) : Nat → State α → Option β
  | 0, state => resume state
  | fuel + 1, state =>
      (body state fun after =>
        if after.rest.length < state.rest.length then
          repeatGreedy body resume fuel after
        else none) <|> resume state

def exec : Regex α → State α → (State α → Option β) → Option β
  | .empty, state, resume => resume state
  | .set member, state, resume =>
      match state.rest with
      | [] => none
      | item :: rest => if member item then resume { state with rest } else none
  | .cat first second, state, resume =>
      first.exec state fun middle => second.exec middle resume
  | .opt body, state, resume =>
      (body.exec state fun after =>
        if after.rest.length < state.rest.length then resume after else none) <|>
        resume state
  | .star body, state, resume =>
      repeatGreedy body.exec resume state.rest.length state
  | .group index body, state, resume =>
      body.exec state fun after => resume (state.capture index after)
  | .bol, state, resume =>
      if state.rest.length = state.input.length then resume state else none
  | .eol, state, resume => if state.rest = [] then resume state else none

def accept (state : State α) : Option (State α) := if state.rest = [] then some state else none

def fullMatch (regex : Regex α) (input : List α) : Option (State α) :=
  regex.exec (.start input) accept

def plus (body : Regex α) : Regex α := .cat body (.star body)

def literal [DecidableEq α] (text : List α) : Regex α :=
  text.foldr (fun item rest => .cat (.set (· == item)) rest) .empty

theorem exec_eq_none {regex : Regex α} {resume : State α → Option β}
    (fails : ∀ state, resume state = none) (state : State α) :
    regex.exec state resume = none := by
  induction regex generalizing state resume with
  | empty => exact fails state
  | set member =>
      cases found : state.rest with
      | nil => simp [exec, found]
      | cons item rest => simp [exec, found, fails]
  | cat first second ihFirst ihSecond => exact ihFirst (ihSecond fails) state
  | opt body ih =>
      rw [exec, ih _ state, fails state]
      · rfl
      · simp [fails]
  | star body ih =>
      have rounds : ∀ fuel state, repeatGreedy body.exec resume fuel state = none := by
        intro fuel
        induction fuel with
        | zero => exact fails
        | succ fuel ihFuel =>
            intro state
            rw [repeatGreedy, ih _ state, fails state]
            · rfl
            · simp [ihFuel]
      exact rounds _ state
  | group index body ih =>
      rw [exec]
      exact ih (fun after => fails (state.capture index after)) state
  | bol => simp [exec, fails]
  | eol => simp [exec, fails]

theorem repeatGreedy_eq (body : Regex α) (resume : State α → Option β) {fuel : Nat}
    {state : State α} (enough : state.rest.length ≤ fuel) :
    repeatGreedy body.exec resume fuel state =
      repeatGreedy body.exec resume state.rest.length state := by
  induction fuel using Nat.strongRecOn generalizing state with
  | ind fuel ih =>
      cases fuel with
      | zero => rw [Nat.le_zero.mp enough]
      | succ fuel =>
          cases length : state.rest.length with
          | zero =>
              have refused : body.exec state (fun after =>
                  if after.rest.length < state.rest.length then
                    repeatGreedy body.exec resume fuel after
                  else none) = none :=
                exec_eq_none (by simp [length]) state
              change (_ <|> resume state) = resume state
              rw [refused]
              rfl
          | succ shorter =>
              have sameRound : (fun after : State α =>
                  if after.rest.length < state.rest.length then
                    repeatGreedy body.exec resume fuel after
                  else none) = fun after : State α =>
                  if after.rest.length < state.rest.length then
                    repeatGreedy body.exec resume shorter after
                  else none := by
                funext after
                split
                · rw [ih fuel (by omega) (by omega), ih shorter (by omega) (by omega)]
                · rfl
              rw [repeatGreedy, repeatGreedy, sameRound]

theorem exec_star (body : Regex α) (state : State α) (resume : State α → Option β) :
    body.star.exec state resume =
      ((body.exec state fun after =>
        if after.rest.length < state.rest.length then body.star.exec after resume else none)
        <|> resume state) := by
  have unrolled : body.star.exec state resume =
      repeatGreedy body.exec resume (state.rest.length + 1) state :=
    (repeatGreedy_eq body resume (Nat.le_succ _)).symm
  rw [unrolled, repeatGreedy]
  congr 1
  congr 1
  funext after
  split
  · exact repeatGreedy_eq body resume (by omega)
  · rfl

theorem exec_set_cons {member : α → Bool} {item : α} {input rest : List α}
    {captures : Nat → Option (List α)} (resume : State α → Option β) :
    (set member).exec ⟨input, item :: rest, captures⟩ resume =
      if member item then resume ⟨input, rest, captures⟩ else none := rfl

theorem State.Short.cons {member : α → Bool} {item : α} {input rest : List α}
    {captures : Nat → Option (List α)} {shorter : State α}
    (short : State.Short member ⟨input, rest, captures⟩ shorter) (isMember : member item = true) :
    State.Short member ⟨input, item :: rest, captures⟩ shorter := by
  obtain ⟨ahead, read, allMembers, same⟩ := short
  have same : rest = read ++ shorter.rest := same
  exact ⟨ahead, item :: read, by simpa [isMember] using allMembers, by simp [same]⟩

section Set

variable {member : α → Bool} {state : State α} {resume : State α → Option β}

/-- A repeated set takes the longest run unless the continuation fails after it
and succeeds after a shorter one. -/
theorem exec_star_set
    (greedy : resume (state.skip member) = none →
      ∀ shorter, state.Short member shorter → resume shorter = none) :
    (set member).star.exec state resume = resume (state.skip member) := by
  obtain ⟨input, rest, captures⟩ := state
  induction rest with
  | nil =>
      rw [exec_star]
      rfl
  | cons item rest ih =>
      rw [exec_star, exec_set_cons]
      simp only [List.length_cons, Nat.lt_succ_self, if_true]
      cases found : member item with
      | false => simp [State.skip, found]
      | true =>
          have sameSkip : State.skip member ⟨input, item :: rest, captures⟩ =
              State.skip member ⟨input, rest, captures⟩ := by
            simp [State.skip, found]
          rw [sameSkip] at greedy ⊢
          rw [if_pos rfl, ih fun failed shorter short => greedy failed shorter (short.cons found)]
          cases longest : resume (State.skip member ⟨input, rest, captures⟩) with
          | some result => rfl
          | none =>
              rw [greedy longest ⟨input, item :: rest, captures⟩
                ⟨⟨item, rest, rfl, found⟩, [], by simp, rfl⟩]
              rfl

theorem exec_plus_set
    (greedy : state.rest.takeWhile member ≠ [] → resume (state.skip member) = none →
      ∀ shorter, state.Short member shorter → resume shorter = none) :
    (set member).plus.exec state resume =
      if state.rest.takeWhile member ≠ [] then resume (state.skip member) else none := by
  obtain ⟨input, rest, captures⟩ := state
  cases rest with
  | nil => rfl
  | cons item rest =>
      rw [plus, exec, exec_set_cons]
      cases found : member item with
      | false => simp [found]
      | true =>
          have sameSkip : State.skip member ⟨input, item :: rest, captures⟩ =
              State.skip member ⟨input, rest, captures⟩ := by
            simp [State.skip, found]
          have some_run : (item :: rest).takeWhile member ≠ [] := by simp [found]
          rw [sameSkip] at greedy ⊢
          rw [if_pos rfl, if_pos some_run, exec_star_set fun failed shorter short =>
            greedy some_run failed shorter (short.cons found)]

def State.run (index : Nat) (member : α → Bool) (state : State α) : State α :=
  { state with
    rest := state.rest.dropWhile member
    captures := Function.update state.captures index (some (state.rest.takeWhile member)) }

theorem capture_skip (index : Nat) (member : α → Bool) (state : State α) :
    state.capture index (state.skip member) = state.run index member := by
  have taken : state.rest.take (state.rest.length - (state.rest.dropWhile member).length) =
      state.rest.takeWhile member := by
    have split := List.takeWhile_append_dropWhile (p := member) (l := state.rest)
    generalize state.rest.takeWhile member = run at *
    generalize state.rest.dropWhile member = rest at *
    rw [← split, List.take_left' (by simp)]
  simp only [State.capture, State.skip, State.run, taken]

theorem exec_group_star_set {index : Nat}
    (greedy : resume (state.run index member) = none →
      ∀ shorter, state.Short member shorter → resume shorter = none) :
    (group index (set member).star).exec state resume = resume (state.run index member) := by
  rw [exec, exec_star_set, capture_skip]
  rw [capture_skip]
  exact fun failed shorter short => greedy failed _ short

theorem exec_group_plus_set {index : Nat}
    (greedy : state.rest.takeWhile member ≠ [] → resume (state.run index member) = none →
      ∀ shorter, state.Short member shorter → resume shorter = none) :
    (group index (set member).plus).exec state resume =
      if state.rest.takeWhile member ≠ [] then resume (state.run index member) else none := by
  rw [exec, exec_plus_set, capture_skip]
  rw [capture_skip]
  exact fun some_run failed shorter short => greedy some_run failed _ short

end Set

theorem exec_literal [DecidableEq α] (text : List α) (state : State α)
    (resume : State α → Option β) :
    (literal text).exec state resume =
      if text <+: state.rest then resume (state.drop text.length) else none := by
  induction text generalizing state with
  | nil => simp [literal, exec, State.drop]
  | cons item text ih =>
      have unfolded : literal (item :: text) = .cat (.set (· == item)) (literal text) := rfl
      rw [unfolded, exec, exec]
      cases rest : state.rest with
      | nil => simp
      | cons head tail =>
          simp only [beq_iff_eq, ih, List.cons_prefix_cons, State.drop, List.length_cons, rest,
            List.drop_succ_cons]
          by_cases same : head = item
          · simp only [same, if_true, true_and]
          · rw [if_neg same, if_neg fun both => same both.1.symm]

theorem exec_literal_of_ahead [DecidableEq α] {member : α → Bool} {mark : α} {text : List α}
    (foreign : member mark = false) {state : State α} (ahead : state.Ahead member)
    (resume : State α → Option β) : (literal (mark :: text)).exec state resume = none := by
  obtain ⟨item, rest, found, isMember⟩ := ahead
  rw [exec_literal, found, if_neg]
  intro isPrefix
  obtain ⟨rfl, _⟩ := List.cons_prefix_cons.mp isPrefix
  rw [foreign] at isMember
  contradiction

/-- An optional part is taken if it can be, provided that leaving it out is no
better for the rest of the match. -/
theorem exec_opt_of_eq {body : Regex α} {state after : State α}
    {resume : State α → Option β} {matched : Prop} [Decidable matched]
    (only : ∀ next : State α → Option β,
      (∀ later, resume later = none → next later = none) →
      (∀ later, later.rest.length < state.rest.length → next later = resume later) →
      body.exec state next = if matched then next after else none)
    (progress : matched → after.rest.length < state.rest.length)
    (noBetter : matched → resume after = none → resume state = none) :
    body.opt.exec state resume = resume (if matched then after else state) := by
  rw [exec, only]
  · split
    · rename_i found
      rw [if_pos (progress found)]
      cases result : resume after with
      | none => exact noBetter found result
      | some _ => rfl
    · rfl
  · intro later failed
    rw [failed, ite_self]
  · exact fun later shorter => if_pos shorter

theorem exec_opt_of_none {body : Regex α} {state : State α} {resume : State α → Option β}
    (never : ∀ next : State α → Option β, body.exec state next = none) :
    body.opt.exec state resume = resume state := by
  rw [exec, never]
  rfl

theorem exec_eol_accept (state : State α) : eol.exec state accept = accept state := by
  rw [exec, accept]
  split <;> rfl

theorem accept_of_ahead {member : α → Bool} {state : State α} (ahead : state.Ahead member) :
    accept state = none := by
  obtain ⟨item, rest, found, _⟩ := ahead
  simp [accept, found]

theorem State.Ahead.mono {member wider : α → Bool} {state : State α} (ahead : state.Ahead member)
    (contained : ∀ item, member item = true → wider item = true) : state.Ahead wider := by
  obtain ⟨item, rest, found, isMember⟩ := ahead
  exact ⟨item, rest, found, contained item isMember⟩

theorem not_ahead_run (index : Nat) (member : α → Bool) (state : State α) :
    ¬(state.run index member).Ahead member := by
  intro ahead
  obtain ⟨item, rest, found, isMember⟩ := ahead
  have stopped := List.head?_dropWhile_not member state.rest
  have found : state.rest.dropWhile member = item :: rest := found
  rw [found] at stopped
  simp [isMember] at stopped

section Simp

variable (index index' : Nat) (member : α → Bool) (count : Nat) (state before : State α)

@[simp] theorem capture_rest : (before.capture index state).rest = state.rest := rfl

@[simp] theorem run_rest : (state.run index member).rest = state.rest.dropWhile member := rfl

@[simp] theorem drop_rest : (state.drop count).rest = state.rest.drop count := rfl

@[simp] theorem capture_text (other : index' ≠ index) :
    (before.capture index state).text index' = state.text index' := by
  simp [State.text, State.capture, Function.update_of_ne other]

@[simp] theorem run_text_self :
    (state.run index member).text index = state.rest.takeWhile member := by
  simp [State.text, State.run]

@[simp] theorem run_text (other : index' ≠ index) :
    (state.run index member).text index' = state.text index' := by
  simp [State.text, State.run, Function.update_of_ne other]

@[simp] theorem drop_text : (state.drop count).text index = state.text index := rfl

end Simp

end Regex
