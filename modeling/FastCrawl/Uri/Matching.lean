import Mathlib.Data.List.TakeWhile
import FastCrawl.Uri.Splitter

namespace FastCrawl

open Regex

/-! Backtracking never changes the split: each part of the expression matches in
one way, and the rest of the match succeeds after it or nowhere. -/

/-- A match has captured the parts taken so far. -/
structure UriParts.Shows (parts : UriParts) (state : Regex.State UInt8) : Prop where
  rest : state.rest = parts.rest
  scheme : state.text 2 = parts.scheme
  user : state.text 4 = parts.user
  password : state.text 6 = parts.password
  host : state.text 7 = parts.host
  port : state.text 9 = parts.port
  path : state.text 10 = parts.path
  query : state.text 12 = parts.query
  fragment : state.text 14 = parts.fragment

def UriParts.ofState (state : Regex.State UInt8) : UriParts where
  rest := state.rest
  scheme := state.text 2
  user := state.text 4
  password := state.text 6
  host := state.text 7
  port := state.text 9
  path := state.text 10
  query := state.text 12
  fragment := state.text 14

theorem UriParts.ofState_shows (state : Regex.State UInt8) : (ofState state).Shows state :=
  ⟨rfl, rfl, rfl, rfl, rfl, rfl, rfl, rfl, rfl⟩

/-- The rest of a match succeeds just where no line break is in the fragment. -/
def Settled (resume : Regex.State UInt8 → Option (Regex.State UInt8)) : Prop :=
  ∀ state, resume state = none ↔ BrokenFragment state.rest

/-- The expression matches what `split` takes, in one way only. -/
def Takes (regex : Regex UInt8) (split : UriParts → UriParts) : Prop :=
  ∀ resume, Settled resume → ∀ (parts : UriParts) state, parts.Shows state →
    ∃ after, regex.exec state resume = resume after ∧ (split parts).Shows after ∧
      (BrokenFragment after.rest ↔ BrokenFragment state.rest)

theorem Takes.cat {first second : Regex UInt8} {splitFirst splitSecond : UriParts → UriParts}
    (takesFirst : Takes first splitFirst) (takesSecond : Takes second splitSecond) :
    Takes (first.cat second) (splitSecond ∘ splitFirst) := by
  intro resume settled parts state shows
  have settledSecond : Settled fun middle => second.exec middle resume := by
    intro middle
    obtain ⟨after, matched, _, sameFragment⟩ :=
      takesSecond resume settled _ middle (UriParts.ofState_shows middle)
    simp only [matched]
    rw [settled after, sameFragment]
  obtain ⟨middle, matchedFirst, showsFirst, sameFirst⟩ := takesFirst _ settledSecond _ state shows
  obtain ⟨after, matchedSecond, showsSecond, sameSecond⟩ := takesSecond _ settled _ middle showsFirst
  exact ⟨after, by rw [exec, matchedFirst, matchedSecond], showsSecond, sameSecond.trans sameFirst⟩

/-- What `Settled` leaves of a continuation that refuses to stay at `state`. -/
structure SettledBelow (state : Regex.State UInt8)
    (next : Regex.State UInt8 → Option (Regex.State UInt8)) : Prop where
  broken : ∀ later, BrokenFragment later.rest → next later = none
  failed : ∀ later, later.rest.length < state.rest.length → next later = none →
    BrokenFragment later.rest

theorem takes_opt {body : Regex UInt8} {split : UriParts → UriParts}
    (matched : Bytes → Prop) [∀ text, Decidable (matched text)]
    (after : Regex.State UInt8 → Regex.State UInt8)
    (only : ∀ {state next}, SettledBelow state next →
      body.exec state next = if matched state.rest then next (after state) else none)
    (progress : ∀ {state : Regex.State UInt8}, matched state.rest →
      (after state).rest.length < state.rest.length)
    (sameFragment : ∀ {state : Regex.State UInt8}, matched state.rest →
      (BrokenFragment (after state).rest ↔ BrokenFragment state.rest))
    (shows : ∀ {parts : UriParts} {state : Regex.State UInt8}, parts.Shows state →
      (split parts).Shows (if matched state.rest then after state else state)) :
    Takes body.opt split := by
  intro resume settled parts state before
  refine ⟨if matched state.rest then after state else state, ?_, shows before, ?_⟩
  · refine exec_opt_of_eq (fun next fails same => only ⟨?_, ?_⟩) progress ?_
    · exact fun later broken => fails later ((settled later).mpr broken)
    · exact fun later shorter failed => (settled later).mp (same later shorter ▸ failed)
    · intro found failed
      rwa [settled, sameFragment found, ← settled state] at failed
  · split
    · rename_i found
      exact sameFragment found
    · rfl

/-- A shorter run of bytes that are no `#` fails where the longest run does. -/
theorem SettledBelow.greedy {state before : Regex.State UInt8}
    {next : Regex.State UInt8 → Option (Regex.State UInt8)} (settled : SettledBelow state next)
    {member : UInt8 → Bool} (noHash : ∀ ch, member ch = true → queryChar ch = true)
    (after : Regex.State UInt8 → Regex.State UInt8)
    (sameRest : ∀ later, (after later).rest = later.rest)
    {longest : Regex.State UInt8} (ran : longest.rest = before.rest.dropWhile member)
    (shorter : longest.rest.length < state.rest.length) (failed : next (after longest) = none) :
    ∀ later, before.Short member later → next (after later) = none := by
  intro later short
  obtain ⟨_, read, isRun, same⟩ := short
  have broken := settled.failed _ (by rwa [sameRest]) failed
  refine settled.broken _ ?_
  rwa [sameRest, ran, brokenFragment_dropWhile noHash, same,
    brokenFragment_append fun ch member => noHash ch (isRun ch member), ← sameRest] at broken

theorem nameChar_queryChar (ch : UInt8) (isName : nameChar ch = true) : queryChar ch = true := by
  rw [queryChar, bne_iff_ne]
  exact ne_of_class isName (by decide)

theorem wordChar_queryChar (ch : UInt8) (isWord : wordChar ch = true) : queryChar ch = true :=
  nameChar_queryChar ch (by simp [nameChar, isWord])

theorem hostChar_queryChar (ch : UInt8) (isHost : hostChar ch = true) : queryChar ch = true := by
  rw [queryChar, bne_iff_ne]
  exact ne_of_class isHost (by decide)

theorem isDigit_queryChar (ch : UInt8) (isDigit : Decimal.isDigit ch = true) :
    queryChar ch = true := by
  rw [queryChar, bne_iff_ne]
  exact ne_of_class isDigit (by decide)

theorem pathChar_queryChar (ch : UInt8) (isPath : pathChar ch = true) : queryChar ch = true := by
  rw [pathChar, Bool.and_eq_true] at isPath
  exact isPath.2

theorem length_dropWhile_lt {member : UInt8 → Bool} {text : Bytes}
    (nonempty : text.takeWhile member ≠ []) :
    (text.dropWhile member).length < text.length := by
  have whole := congrArg List.length (List.takeWhile_append_dropWhile (p := member) (l := text))
  have positive := List.length_pos_iff.mpr nonempty
  rw [List.length_append] at whole
  omega

theorem takes_scheme : Takes schemeRegex UriParts.splitScheme := by
  refine takes_opt
    (fun text => text.takeWhile nameChar ≠ [] ∧
      bytes "://" <+: text.dropWhile nameChar)
    (fun state => state.capture 1 ((state.run 2 nameChar).drop 3)) ?_ ?_ ?_ ?_
  · intro state next _
    rw [exec, exec, exec_group_plus_set, exec_literal, ite_and]
    · rfl
    · exact fun _ _ shorter short => exec_literal_of_ahead (by decide) short.1 _
  · intro state taken
    obtain ⟨nonempty, _⟩ := taken
    have shorter := length_dropWhile_lt nonempty
    simp only [capture_rest, drop_rest, run_rest, List.length_drop]
    omega
  · intro state taken
    obtain ⟨_, isPrefix⟩ := taken
    refine (brokenFragment_drop (bytes "://") (by decide) isPrefix).trans ?_
    exact brokenFragment_dropWhile nameChar_queryChar _
  · intro parts state reads
    obtain ⟨rest, scheme, user, password, host, port, path, query, fragment⟩ := reads
    unfold UriParts.splitScheme
    simp only [rest]
    split
    · constructor <;> simp [*]
    · constructor <;> assumption

theorem takes_userinfo : Takes userinfoRegex UriParts.splitUserinfo := by
  refine takes_opt
    (fun text =>
      text.takeWhile nameChar ≠ [] ∧ bytes ":" <+: text.dropWhile nameChar ∧
        ((text.dropWhile nameChar).drop 1).takeWhile wordChar ≠ [] ∧
        bytes "@" <+: ((text.dropWhile nameChar).drop 1).dropWhile wordChar)
    (fun state =>
      let afterUser := state.run 4 nameChar
      let afterPassword := (afterUser.drop 1).run 6 wordChar
      state.capture 3 ((afterUser.capture 5 afterPassword).drop 1)) ?_ ?_ ?_ ?_
  · intro state next _
    rw [exec, exec, exec_group_plus_set, exec, exec, exec, exec_literal, exec_group_plus_set,
      exec_literal, ite_and, ite_and, ite_and]
    · rfl
    · intro _ _ shorter short
      have ahead : ((state.run 4 nameChar).capture 5 shorter).Ahead wordChar := short.1
      exact exec_literal_of_ahead (by decide) ahead _
    · exact fun _ _ shorter short => exec_literal_of_ahead (by decide) short.1 _
  · intro state taken
    obtain ⟨nonempty, _⟩ := taken
    have shorter := length_dropWhile_lt nonempty
    have within := (List.dropWhile_sublist wordChar
      (l := (state.rest.dropWhile nameChar).drop 1)).length_le
    simp only [capture_rest, drop_rest, run_rest, List.length_drop] at within ⊢
    omega
  · intro state taken
    obtain ⟨_, colon, _, at_sign⟩ := taken
    refine (brokenFragment_drop (bytes "@") (by decide) at_sign).trans ?_
    refine (brokenFragment_dropWhile wordChar_queryChar _).trans ?_
    refine (brokenFragment_drop (bytes ":") (by decide) colon).trans ?_
    exact brokenFragment_dropWhile nameChar_queryChar _
  · intro parts state reads
    obtain ⟨rest, scheme, user, password, host, port, path, query, fragment⟩ := reads
    unfold UriParts.splitUserinfo
    simp only [rest]
    split
    · constructor <;> simp [*]
    · constructor <;> assumption

theorem takes_host : Takes hostRegex UriParts.splitHost := by
  refine takes_opt (fun text => text.takeWhile hostChar ≠ [])
    (fun state => state.run 7 hostChar) ?_ ?_ ?_ ?_
  · intro state next settled
    exact exec_group_plus_set fun nonempty failed later short =>
      settled.greedy hostChar_queryChar id (fun _ => rfl) rfl
        (length_dropWhile_lt nonempty) failed later short
  · exact length_dropWhile_lt
  · exact fun _ => brokenFragment_dropWhile hostChar_queryChar _
  · intro parts state reads
    obtain ⟨rest, scheme, user, password, host, port, path, query, fragment⟩ := reads
    unfold UriParts.splitHost
    simp only [rest]
    split
    · constructor <;> simp [*]
    · constructor <;> assumption

theorem takes_port : Takes portRegex UriParts.splitPort := by
  refine takes_opt
    (fun text =>
      bytes ":" <+: text ∧ (text.drop 1).takeWhile Decimal.isDigit ≠ [])
    (fun state => state.capture 8 ((state.drop 1).run 9 Decimal.isDigit)) ?_ ?_ ?_ ?_
  · intro state next settled
    rw [exec, exec, exec_literal, exec_group_plus_set, ite_and]
    · rfl
    · intro nonempty failed later short
      refine settled.greedy isDigit_queryChar (State.capture 8 state) (fun _ => rfl) rfl
        ?_ failed later short
      have shorter := length_dropWhile_lt nonempty
      simp only [run_rest, drop_rest, List.length_drop] at shorter ⊢
      omega
  · intro state taken
    obtain ⟨_, nonempty⟩ := taken
    have shorter := length_dropWhile_lt nonempty
    simp only [capture_rest, run_rest, drop_rest, List.length_drop] at shorter ⊢
    omega
  · intro state taken
    obtain ⟨colon, _⟩ := taken
    refine (brokenFragment_dropWhile isDigit_queryChar _).trans ?_
    exact brokenFragment_drop (bytes ":") (by decide) colon
  · intro parts state reads
    obtain ⟨rest, scheme, user, password, host, port, path, query, fragment⟩ := reads
    unfold UriParts.splitPort
    simp only [rest]
    split
    · constructor <;> simp [*]
    · constructor <;> assumption

def Finishes (regex : Regex UInt8) (split : UriParts → UriParts) (parts : UriParts)
    (state : Regex.State UInt8) : Prop :=
  (BrokenFragment state.rest → regex.exec state accept = none) ∧
    (¬BrokenFragment state.rest →
      ∃ after, regex.exec state accept = some after ∧ (split parts).Shows after)

theorem fragment_of_ahead {state : Regex.State UInt8} (ahead : state.Ahead queryChar) :
    (fragmentRegex.cat eol).exec state accept = none := by
  have skipped : (fragmentRegex.cat eol).exec state accept = eol.exec state accept :=
    exec_opt_of_none fun next => exec_literal_of_ahead (by decide) ahead _
  rw [skipped, exec_eol_accept, accept_of_ahead ahead]

theorem query_of_ahead {state : Regex.State UInt8} (ahead : state.Ahead pathChar) :
    (queryRegex.cat (fragmentRegex.cat eol)).exec state accept = none := by
  have skipped : (queryRegex.cat (fragmentRegex.cat eol)).exec state accept =
      (fragmentRegex.cat eol).exec state accept :=
    exec_opt_of_none fun next => exec_literal_of_ahead (by decide) ahead _
  rw [skipped, fragment_of_ahead (ahead.mono pathChar_queryChar)]

def fragmentTaken (state : Regex.State UInt8) : Regex.State UInt8 :=
  state.capture 13 ((state.drop 1).run 14 plainChar)

theorem finishes_fragment {parts : UriParts} {state : Regex.State UInt8}
    (shows : parts.Shows state) (stopped : ¬state.Ahead queryChar) :
    Finishes (fragmentRegex.cat eol) UriParts.splitFragment parts state := by
  cases found : state.rest with
  | nil =>
      have matched : (fragmentRegex.cat eol).exec state accept = some state := by
        have skipped : (fragmentRegex.cat eol).exec state accept = eol.exec state accept := by
          refine exec_opt_of_none fun next => ?_
          rw [exec, exec, exec_literal, found, if_neg (by decide)]
        rw [skipped, exec_eol_accept, accept, if_pos found]
      have noHash : ¬bytes "#" <+: parts.rest := by
        rw [← shows.rest, found]
        decide
      have whole : ¬BrokenFragment state.rest := by simp [found, BrokenFragment]
      refine ⟨fun broken => absurd broken whole, fun _ => ⟨state, matched, ?_⟩⟩
      rwa [UriParts.splitFragment, if_neg noHash]
  | cons head fragment =>
      have hash : head = '#'.toUInt8 := by
        by_contra other
        exact stopped ⟨head, fragment, found, by simp [queryChar, other]⟩
      subst hash
      have marked : bytes "#" <+: state.rest := ⟨fragment, found.symm⟩
      have skipped : accept state = none := by simp [accept, found]
      have matched : (fragmentRegex.cat eol).exec state accept = accept (fragmentTaken state) := by
        have taken : (fragmentRegex.cat eol).exec state accept =
            eol.exec (if bytes "#" <+: state.rest then fragmentTaken state else state) accept := by
          refine exec_opt_of_eq (fun next fails _ => ?_) (fun _ => ?_) (fun _ _ => ?_)
          · rw [exec, exec, exec_literal, exec_group_star_set]
            · rfl
            · intro _ later short
              have ahead : (state.capture 13 later).Ahead plainChar := short.1
              exact fails _ (by rw [exec_eol_accept, accept_of_ahead ahead])
          · have within := (List.dropWhile_sublist plainChar (l := fragment)).length_le
            simpa [fragmentTaken, found] using Nat.lt_succ_of_le within
          · rw [exec_eol_accept, skipped]
        rw [taken, if_pos marked, exec_eol_accept]
      have afterRest : (fragmentTaken state).rest = fragment.dropWhile plainChar := by
        simp [fragmentTaken, found]
      have broken : BrokenFragment state.rest ↔ ¬fragment.dropWhile plainChar = [] := by
        rw [found, brokenFragment_cons_hash, List.dropWhile_eq_nil_iff]
        simp [plainChar]
      rw [Finishes, broken, matched, accept, afterRest]
      refine ⟨fun stuck => if_neg stuck, fun whole => ?_⟩
      rw [not_not] at whole
      refine ⟨_, if_pos whole, ?_⟩
      have all : fragment.takeWhile plainChar = fragment := by
        simpa [whole] using List.takeWhile_append_dropWhile (p := plainChar) (l := fragment)
      obtain ⟨rest, scheme, user, password, host, port, path, query, _⟩ := shows
      rw [UriParts.splitFragment, if_pos (rest ▸ marked), ← rest, found]
      constructor <;> simp [*, fragmentTaken]

def queryTaken (state : Regex.State UInt8) : Regex.State UInt8 :=
  state.capture 11 ((state.drop 1).run 12 queryChar)

theorem finishes_query {parts : UriParts} {state : Regex.State UInt8}
    (shows : parts.Shows state) (stopped : ¬state.Ahead pathChar) :
    Finishes (queryRegex.cat (fragmentRegex.cat eol))
      (UriParts.splitFragment ∘ UriParts.splitQuery) parts state := by
  by_cases mark : bytes "?" <+: state.rest
  · have ahead : state.Ahead queryChar := by
      obtain ⟨rest, same⟩ := mark
      exact ⟨'?'.toUInt8, rest, same.symm, by decide⟩
    have matched : (queryRegex.cat (fragmentRegex.cat eol)).exec state accept =
        (fragmentRegex.cat eol).exec (queryTaken state) accept := by
      have taken : (queryRegex.cat (fragmentRegex.cat eol)).exec state accept =
          (fragmentRegex.cat eol).exec
            (if bytes "?" <+: state.rest then queryTaken state else state) accept := by
        refine exec_opt_of_eq (fun next fails _ => ?_) (fun _ => ?_) (fun _ _ => ?_)
        · rw [exec, exec, exec_literal, exec_group_star_set]
          · rfl
          · intro _ later short
            have ahead : (state.capture 11 later).Ahead queryChar := short.1
            exact fails _ (fragment_of_ahead ahead)
        · obtain ⟨rest, same⟩ := mark
          have within := (List.dropWhile_sublist queryChar (l := rest)).length_le
          have found : state.rest = '?'.toUInt8 :: rest := same.symm
          simpa [queryTaken, found] using Nat.lt_succ_of_le within
        · exact fragment_of_ahead ahead
      rw [taken, if_pos mark]
    have sameFragment : BrokenFragment (queryTaken state).rest ↔ BrokenFragment state.rest :=
      (brokenFragment_dropWhile (fun _ isQuery => isQuery) _).trans
        (brokenFragment_drop (bytes "?") (by decide) mark)
    have showsTaken : parts.splitQuery.Shows (queryTaken state) := by
      obtain ⟨rest, scheme, user, password, host, port, path, query, fragment⟩ := shows
      rw [UriParts.splitQuery, if_pos (rest ▸ mark), ← rest]
      constructor <;> simp [*, queryTaken]
    have finished := finishes_fragment showsTaken (not_ahead_run 12 queryChar (state.drop 1))
    rwa [Finishes, sameFragment, ← matched] at finished
  · have skipped : (queryRegex.cat (fragmentRegex.cat eol)).exec state accept =
        (fragmentRegex.cat eol).exec state accept := by
      refine exec_opt_of_none fun next => ?_
      rw [exec, exec, exec_literal, if_neg mark]
    have stoppedQuery : ¬state.Ahead queryChar := by
      intro hash
      obtain ⟨head, rest, found, isQuery⟩ := hash
      by_cases question : head = '?'.toUInt8
      · exact mark ⟨rest, by rw [found, question]; rfl⟩
      · exact stopped ⟨head, rest, found, by
          rw [pathChar, Bool.and_eq_true, bne_iff_ne]
          exact ⟨question, isQuery⟩⟩
    have finished := finishes_fragment shows stoppedQuery
    rw [Finishes, skipped, Function.comp, UriParts.splitQuery, if_neg (shows.rest ▸ mark)]
    exact finished

theorem finishes_path {parts : UriParts} {state : Regex.State UInt8} (shows : parts.Shows state) :
    Finishes (pathRegex.cat (queryRegex.cat (fragmentRegex.cat eol)))
      (UriParts.splitFragment ∘ UriParts.splitQuery ∘ UriParts.splitPath) parts state := by
  have matched : (pathRegex.cat (queryRegex.cat (fragmentRegex.cat eol))).exec state accept =
      (queryRegex.cat (fragmentRegex.cat eol)).exec (state.run 10 pathChar) accept :=
    exec_group_star_set fun _ later short => query_of_ahead short.1
  have sameFragment : BrokenFragment (state.run 10 pathChar).rest ↔ BrokenFragment state.rest :=
    brokenFragment_dropWhile pathChar_queryChar _
  have showsTaken : parts.splitPath.Shows (state.run 10 pathChar) := by
    obtain ⟨rest, scheme, user, password, host, port, path, query, fragment⟩ := shows
    rw [UriParts.splitPath, ← rest]
    constructor <;> simp [*]
  have finished := finishes_query showsTaken (not_ahead_run 10 pathChar state)
  rwa [Finishes, sameFragment, ← matched] at finished

/-- The match fails just on a line break in the fragment, and otherwise captures
the split. -/
theorem fullMatch_sRegex (text : Bytes) :
    (BrokenFragment text → sRegex.fullMatch text = none) ∧
      (¬BrokenFragment text →
        ∃ bref, sRegex.fullMatch text = some bref ∧ (UriParts.split text).Shows bref) := by
  have takes := takes_scheme.cat (takes_userinfo.cat (takes_host.cat takes_port))
  have settled : Settled fun middle =>
      (pathRegex.cat (queryRegex.cat (fragmentRegex.cat eol))).exec middle accept := by
    intro middle
    obtain ⟨fails, succeeds⟩ := finishes_path (UriParts.ofState_shows middle)
    refine ⟨fun failed => ?_, fails⟩
    by_contra whole
    obtain ⟨after, succeeded, _⟩ := succeeds whole
    exact absurd (succeeded.symm.trans failed) (by simp)
  have startShows : ({ rest := text } : UriParts).Shows (Regex.State.start text) :=
    ⟨rfl, rfl, rfl, rfl, rfl, rfl, rfl, rfl, rfl⟩
  obtain ⟨middle, matched, shows, sameFragment⟩ := takes _ settled _ _ startShows
  have split : sRegex.fullMatch text =
      (pathRegex.cat (queryRegex.cat (fragmentRegex.cat eol))).exec middle accept :=
    (if_pos rfl).trans matched
  have finished := finishes_path shows
  rw [Finishes, ← split, sameFragment] at finished
  simp only [Function.comp_apply] at finished
  rw [UriParts.split]
  exact finished

end FastCrawl
