import FastCrawl.Uri.Parse

namespace FastCrawl

/-! The URI parser without backtracking: the parts are taken off the string one
after another, each as long as it can be. -/

/-- The parts taken so far and what is left of the string. -/
structure UriParts where
  rest : Bytes
  scheme : Bytes := []
  user : Bytes := []
  password : Bytes := []
  host : Bytes := []
  port : Bytes := []
  path : Bytes := []
  query : Bytes := []
  fragment : Bytes := []

namespace UriParts

def splitScheme (parts : UriParts) : UriParts :=
  let scheme := parts.rest.takeWhile nameChar
  let rest := parts.rest.dropWhile nameChar
  if scheme ≠ [] ∧ bytes "://" <+: rest then { parts with scheme, rest := rest.drop 3 } else parts

def splitUserinfo (parts : UriParts) : UriParts :=
  let user := parts.rest.takeWhile nameChar
  let afterUser := parts.rest.dropWhile nameChar
  let password := (afterUser.drop 1).takeWhile wordChar
  let afterPassword := (afterUser.drop 1).dropWhile wordChar
  if user ≠ [] ∧ bytes ":" <+: afterUser ∧ password ≠ [] ∧ bytes "@" <+: afterPassword then
    { parts with user, password, rest := afterPassword.drop 1 }
  else parts

def splitHost (parts : UriParts) : UriParts :=
  let host := parts.rest.takeWhile hostChar
  if host ≠ [] then { parts with host, rest := parts.rest.dropWhile hostChar } else parts

def splitPort (parts : UriParts) : UriParts :=
  let port := (parts.rest.drop 1).takeWhile Decimal.isDigit
  if bytes ":" <+: parts.rest ∧ port ≠ [] then
    { parts with port, rest := (parts.rest.drop 1).dropWhile Decimal.isDigit }
  else parts

def splitPath (parts : UriParts) : UriParts :=
  { parts with
    path := parts.rest.takeWhile pathChar, rest := parts.rest.dropWhile pathChar }

def splitQuery (parts : UriParts) : UriParts :=
  if bytes "?" <+: parts.rest then
    { parts with
      query := (parts.rest.drop 1).takeWhile queryChar
      rest := (parts.rest.drop 1).dropWhile queryChar }
  else parts

def splitFragment (parts : UriParts) : UriParts :=
  if bytes "#" <+: parts.rest then { parts with fragment := parts.rest.drop 1, rest := [] }
  else parts

def split (text : Bytes) : UriParts :=
  ({ rest := text } : UriParts).splitScheme.splitUserinfo.splitHost.splitPort.splitPath.splitQuery
    |>.splitFragment

section Host

variable (parts : UriParts)

@[simp] theorem splitScheme_host : parts.splitScheme.host = parts.host := by
  simp only [splitScheme, apply_ite host, ite_self]

@[simp] theorem splitUserinfo_host : parts.splitUserinfo.host = parts.host := by
  simp only [splitUserinfo, apply_ite host, ite_self]

@[simp] theorem splitPort_host : parts.splitPort.host = parts.host := by
  simp only [splitPort, apply_ite host, ite_self]

@[simp] theorem splitPath_host : parts.splitPath.host = parts.host := rfl

@[simp] theorem splitQuery_host : parts.splitQuery.host = parts.host := by
  simp only [splitQuery, apply_ite host, ite_self]

@[simp] theorem splitFragment_host : parts.splitFragment.host = parts.host := by
  simp only [splitFragment, apply_ite host, ite_self]

end Host

section User

variable (parts : UriParts)

@[simp] theorem splitHost_user : parts.splitHost.user = parts.user := by
  simp only [splitHost, apply_ite user, ite_self]

@[simp] theorem splitPort_user : parts.splitPort.user = parts.user := by
  simp only [splitPort, apply_ite user, ite_self]

@[simp] theorem splitPath_user : parts.splitPath.user = parts.user := rfl

@[simp] theorem splitQuery_user : parts.splitQuery.user = parts.user := by
  simp only [splitQuery, apply_ite user, ite_self]

@[simp] theorem splitFragment_user : parts.splitFragment.user = parts.user := by
  simp only [splitFragment, apply_ite user, ite_self]

end User

theorem split_host (text : Bytes) : ∀ ch ∈ (split text).host, hostChar ch = true := by
  intro ch member
  simp only [split, splitFragment_host, splitQuery_host, splitPath_host, splitPort_host] at member
  simp only [splitHost] at member
  split at member
  · exact List.all_eq_true.mp List.all_takeWhile ch member
  · simp at member

def uri (parts : UriParts) : Uri where
  scheme := parts.scheme
  user := parts.user
  password := parts.password
  host := parts.host
  port := .ofNat (Decimal.read parts.port)
  path := parts.path
  query := parts.query
  fragment := parts.fragment

end UriParts

/-- The text after the first `#` has a line break. -/
def BrokenFragment (text : Bytes) : Prop :=
  ((text.dropWhile queryChar).any lineBreak) = true

instance (text : Bytes) : Decidable (BrokenFragment text) := inferInstanceAs (Decidable (_ = true))

theorem lineBreak_iff {ch : UInt8} :
    lineBreak ch = true ↔ ch = '\n'.toUInt8 ∨ ch = '\r'.toUInt8 := by
  simp only [lineBreak, Bool.or_eq_true, beq_iff_eq]

theorem brokenFragment_cons_hash {rest : Bytes} :
    BrokenFragment ('#'.toUInt8 :: rest) ↔ ∃ ch ∈ rest, lineBreak ch = true := by
  have stop : queryChar '#'.toUInt8 = false := by decide
  have noBreak : lineBreak '#'.toUInt8 = false := by decide
  simp [BrokenFragment, stop, noBreak]

theorem brokenFragment_iff {text : Bytes} :
    BrokenFragment text ↔ ∃ before after, text = before ++ '#'.toUInt8 :: after ∧
      '#'.toUInt8 ∉ before ∧ ∃ ch ∈ after, ch = '\n'.toUInt8 ∨ ch = '\r'.toUInt8 := by
  induction text with
  | nil => simp [BrokenFragment]
  | cons head rest ih =>
      by_cases hash : head = '#'.toUInt8
      · subst hash
        simp only [brokenFragment_cons_hash, lineBreak_iff]
        constructor
        · intro broken
          exact ⟨[], rest, rfl, by simp, broken⟩
        · intro broken
          obtain ⟨before, after, same, absent, ch, member, isBreak⟩ := broken
          cases before with
          | nil =>
              cases same
              exact ⟨ch, member, isBreak⟩
          | cons first before =>
              cases same
              simp at absent
      · have skip : queryChar head = true := by simp [queryChar, hash]
        have sameBroken : BrokenFragment (head :: rest) ↔ BrokenFragment rest := by
          simp [BrokenFragment, skip]
        rw [sameBroken, ih]
        constructor
        · intro broken
          obtain ⟨before, after, rfl, absent, found⟩ := broken
          exact ⟨head :: before, after, rfl, by simp [absent, Ne.symm hash], found⟩
        · intro broken
          obtain ⟨before, after, same, absent, found⟩ := broken
          cases before with
          | nil =>
              cases same
              exact absurd rfl hash
          | cons first before =>
              cases same
              exact ⟨before, after, rfl, fun member => absent (List.mem_cons_of_mem _ member), found⟩

theorem brokenFragment_append {read rest : Bytes} (noHash : ∀ ch ∈ read, queryChar ch = true) :
    BrokenFragment (read ++ rest) ↔ BrokenFragment rest := by
  rw [BrokenFragment, List.dropWhile_append_of_pos noHash, BrokenFragment]

theorem brokenFragment_dropWhile {member : UInt8 → Bool}
    (noHash : ∀ ch, member ch = true → queryChar ch = true) (text : Bytes) :
    BrokenFragment (text.dropWhile member) ↔ BrokenFragment text := by
  conv_rhs => rw [← List.takeWhile_append_dropWhile (p := member) (l := text)]
  refine (brokenFragment_append fun ch taken => noHash ch ?_).symm
  exact List.all_eq_true.mp List.all_takeWhile ch taken

theorem brokenFragment_drop (mark : Bytes) {text : Bytes} (noHash : mark.all queryChar = true)
    (isPrefix : mark <+: text) : BrokenFragment (text.drop mark.length) ↔ BrokenFragment text := by
  obtain ⟨rest, rfl⟩ := isPrefix
  rw [List.drop_left', brokenFragment_append (List.all_eq_true.mp noHash)]
  rfl

/-- A run of `member` ends in front of `text`. -/
def Stops (member : UInt8 → Bool) (text : Bytes) : Prop :=
  ∀ ch, text.head? = some ch → member ch = false

section Stops

variable {member : UInt8 → Bool} {text rest : Bytes}

theorem stops_nil : Stops member [] := by simp [Stops]

theorem stops_cons {ch : UInt8} (noMember : member ch = false) : Stops member (ch :: rest) := by
  intro head same
  cases same
  exact noMember

theorem Stops.takeWhile (stops : Stops member text) : text.takeWhile member = [] := by
  cases text with
  | nil => rfl
  | cons ch rest => simp [stops ch rfl]

theorem Stops.dropWhile (stops : Stops member text) : text.dropWhile member = text := by
  cases text with
  | nil => rfl
  | cons ch rest => simp [stops ch rfl]

theorem takeWhile_append_stops (members : ∀ ch ∈ text, member ch = true)
    (stops : Stops member rest) : (text ++ rest).takeWhile member = text := by
  rw [List.takeWhile_append_of_pos members, stops.takeWhile, List.append_nil]

theorem dropWhile_append_stops (members : ∀ ch ∈ text, member ch = true)
    (stops : Stops member rest) : (text ++ rest).dropWhile member = rest := by
  rw [List.dropWhile_append_of_pos members, stops.dropWhile]

end Stops

theorem stops_dropWhile (member : UInt8 → Bool) (text : Bytes) :
    Stops member (text.dropWhile member) := by
  intro ch first
  have head := List.head?_dropWhile_not member text
  rw [first] at head
  simpa using head

theorem not_prefix_of_stops {ch : UInt8} {mark text : Bytes} (stops : Stops (· == ch) text) :
    ¬ch :: mark <+: text := by
  intro isPrefix
  obtain ⟨rest, rfl⟩ := isPrefix
  simpa using stops ch rfl

theorem wordChar_of_isDigit {ch : UInt8} (isDigit : Decimal.isDigit ch = true) :
    wordChar ch = true := by
  have sameRange : within '0' '9' ch = Decimal.isDigit ch := rfl
  rw [wordChar, sameRange, isDigit, Bool.or_true]

theorem nameChar_of_wordChar {ch : UInt8} (isWord : wordChar ch = true) : nameChar ch = true := by
  rw [nameChar, isWord, Bool.true_or]

theorem hostChar_of_nameChar {ch : UInt8} (isName : nameChar ch = true) : hostChar ch = true := by
  rw [hostChar, isName, Bool.true_or, Bool.true_or]

theorem pathChar_of_hostChar {ch : UInt8} (isHost : hostChar ch = true) : pathChar ch = true := by
  have question := ne_of_class isHost (show hostChar '?'.toUInt8 = false by decide)
  have hash := ne_of_class isHost (show hostChar '#'.toUInt8 = false by decide)
  simp [pathChar, question, hash]

/-! What a text begins with, as the expression sees it. -/

def HasScheme (text : Bytes) : Prop :=
  text.takeWhile nameChar ≠ [] ∧ bytes "://" <+: text.dropWhile nameChar

instance (text : Bytes) : Decidable (HasScheme text) := instDecidableAnd

def HasUserinfo (text : Bytes) : Prop :=
  let afterUser := text.dropWhile nameChar
  text.takeWhile nameChar ≠ [] ∧ bytes ":" <+: afterUser ∧
    (afterUser.drop 1).takeWhile wordChar ≠ [] ∧
      bytes "@" <+: (afterUser.drop 1).dropWhile wordChar

instance (text : Bytes) : Decidable (HasUserinfo text) := instDecidableAnd

def HasPort (text : Bytes) : Prop :=
  bytes ":" <+: text ∧ (text.drop 1).takeWhile Decimal.isDigit ≠ []

instance (text : Bytes) : Decidable (HasPort text) := instDecidableAnd

namespace Stops

variable {member : UInt8 → Bool} {text rest : Bytes}

theorem mono {smaller : UInt8 → Bool} (stops : Stops member text)
    (le : ∀ ch, smaller ch = true → member ch = true) : Stops smaller text := by
  intro ch first
  rw [Bool.eq_false_iff]
  intro isSmaller
  exact absurd ((stops ch first).symm.trans (le ch isSmaller)) (by decide)

theorem append (stops : Stops member text) (restStops : Stops member rest) :
    Stops member (text ++ rest) := by
  cases text with
  | nil => exact restStops
  | cons ch text => exact stops_cons (stops ch rfl)

theorem of_append (stops : Stops member (text ++ rest)) : Stops member text := by
  cases text with
  | nil => exact stops_nil
  | cons ch text => exact stops_cons (stops ch rfl)

theorem takeWhile_append (stops : Stops member rest) :
    (text ++ rest).takeWhile member = text.takeWhile member := by
  induction text with
  | nil => exact stops.takeWhile
  | cons ch text ih => simp only [List.cons_append, List.takeWhile_cons, ih]

theorem dropWhile_append (stops : Stops member rest) :
    (text ++ rest).dropWhile member = text.dropWhile member ++ rest := by
  induction text with
  | nil => exact stops.dropWhile
  | cons ch text ih =>
      simp only [List.cons_append, List.dropWhile_cons, ih]
      split <;> rfl

theorem prefix_append_iff {mark : Bytes} (stops : Stops member rest)
    (members : mark.all member = true) : mark <+: text ++ rest ↔ mark <+: text := by
  induction mark generalizing text with
  | nil => simp only [List.nil_prefix]
  | cons first mark ih =>
      rw [List.all_cons, Bool.and_eq_true] at members
      cases text with
      | nil =>
          rw [List.nil_append]
          constructor
          · intro isPrefix
            obtain ⟨after, rfl⟩ := isPrefix
            exact absurd (members.1.symm.trans (stops first rfl)) (by decide)
          · intro isPrefix
            exact absurd (List.prefix_nil.mp isPrefix) (List.cons_ne_nil _ _)
      | cons ch text =>
          rw [List.cons_append, List.cons_prefix_cons, List.cons_prefix_cons, ih members.2]

/-! What a text begins with does not depend on its query and fragment. -/

variable (stops : Stops pathChar rest)
include stops

theorem name : Stops nameChar rest :=
  stops.mono fun _ isName => pathChar_of_hostChar (hostChar_of_nameChar isName)

theorem word : Stops wordChar rest := stops.name.mono fun _ => nameChar_of_wordChar

theorem digit : Stops Decimal.isDigit rest := stops.word.mono fun _ => wordChar_of_isDigit

theorem hasScheme_append : HasScheme (text ++ rest) ↔ HasScheme text := by
  rw [HasScheme, HasScheme, stops.name.takeWhile_append, stops.name.dropWhile_append,
    stops.prefix_append_iff (by decide)]

theorem colon_append (holds : Bytes → Prop)
    (same : ∀ after, holds (after ++ rest) ↔ holds after) :
    (bytes ":" <+: text ++ rest ∧ holds ((text ++ rest).drop 1)) ↔
      (bytes ":" <+: text ∧ holds (text.drop 1)) := by
  rw [stops.prefix_append_iff (by decide)]
  cases text with
  | nil =>
      have noColon : ¬bytes ":" <+: ([] : Bytes) := by decide
      simp only [noColon, false_and]
  | cons ch text =>
      rw [List.cons_append, List.drop_one, List.tail_cons, same, List.drop_one, List.tail_cons]

theorem hasUserinfo_append : HasUserinfo (text ++ rest) ↔ HasUserinfo text := by
  simp only [HasUserinfo, stops.name.takeWhile_append, stops.name.dropWhile_append]
  refine and_congr_right fun _ => stops.colon_append
    (fun after => after.takeWhile wordChar ≠ [] ∧ bytes "@" <+: after.dropWhile wordChar) ?_
  intro after
  rw [stops.word.takeWhile_append, stops.word.dropWhile_append,
    stops.prefix_append_iff (by decide)]

theorem hasPort_append : HasPort (text ++ rest) ↔ HasPort text :=
  stops.colon_append (fun after => after.takeWhile Decimal.isDigit ≠ [])
    fun after => by rw [stops.digit.takeWhile_append]

end Stops

end FastCrawl
