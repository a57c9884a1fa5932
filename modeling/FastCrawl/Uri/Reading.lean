import FastCrawl.Uri.Serialise

namespace FastCrawl

/-! The text of the parts that the parser takes, and the URIs that are read back. -/

theorem mark_append_drop {mark text : Bytes} (isPrefix : mark <+: text) :
    text = mark ++ text.drop mark.length := by
  obtain ⟨rest, rfl⟩ := isPrefix
  rw [List.drop_left]

theorem takeWhile_mem {member : UInt8 → Bool} {text : Bytes} :
    ∀ ch ∈ text.takeWhile member, member ch = true :=
  List.all_eq_true.mp List.all_takeWhile

namespace UriParts

/-- The port as it stands in the text. -/
def portText (port : Bytes) : Bytes := if port ≠ [] then ':'.toUInt8 :: port else []

theorem pathChar_portText {port : Bytes} (areDigits : ∀ ch ∈ port, Decimal.isDigit ch = true) :
    ∀ ch ∈ portText port, pathChar ch = true := by
  unfold portText
  split
  · exact Uri.pathChar_port areDigits
  · exact List.forall_mem_nil _

section Steps

variable (parts : UriParts) (text : Bytes) (rest : parts.rest = text)
include rest

theorem splitScheme_reads (unset : parts.scheme = []) :
    ∃ scheme after, parts.splitScheme = { parts with scheme, rest := after } ∧
      text = Uri.schemeText { scheme } ++ after ∧ (∀ ch ∈ scheme, nameChar ch = true) ∧
        (scheme = [] ↔ ¬HasScheme text) := by
  subst rest
  by_cases taken : HasScheme parts.rest
  · refine ⟨parts.rest.takeWhile nameChar, (parts.rest.dropWhile nameChar).drop 3,
      if_pos taken, ?_, takeWhile_mem, iff_of_false taken.1 (not_not.mpr taken)⟩
    rw [Uri.schemeText, if_pos taken.1, List.append_assoc]
    exact List.takeWhile_append_dropWhile.symm.trans (congrArg _ (mark_append_drop taken.2))
  · refine ⟨[], parts.rest, (if_neg taken).trans ?_, rfl, List.forall_mem_nil _,
      iff_of_true rfl taken⟩
    rw [← unset]

theorem splitUserinfo_reads (unset : parts.user = [] ∧ parts.password = []) :
    ∃ user password after, parts.splitUserinfo = { parts with user, password, rest := after } ∧
      text = Uri.userText { user, password } ++ after ∧
        (∀ ch ∈ user, nameChar ch = true) ∧ (∀ ch ∈ password, wordChar ch = true) ∧
          (password = [] ↔ user = []) ∧ (user = [] ↔ ¬HasUserinfo text) := by
  subst rest
  by_cases taken : HasUserinfo parts.rest
  · obtain ⟨user, colon, password, atSign⟩ := id taken
    refine ⟨_, _, _, if_pos taken, ?_, takeWhile_mem, takeWhile_mem, iff_of_false password user,
      iff_of_false user (not_not.mpr taken)⟩
    rw [Uri.userText_password user password]
    simp only [List.append_assoc, List.cons_append, List.nil_append]
    conv_lhs => rw [← List.takeWhile_append_dropWhile (p := nameChar) (l := parts.rest)]
    refine congrArg _ ((mark_append_drop colon).trans (congrArg (_ :: ·) ?_))
    exact List.takeWhile_append_dropWhile.symm.trans (congrArg _ (mark_append_drop atSign))
  · refine ⟨[], [], parts.rest, (if_neg taken).trans ?_, rfl, List.forall_mem_nil _,
      List.forall_mem_nil _, Iff.rfl, iff_of_true rfl taken⟩
    cases parts
    cases unset.1
    cases unset.2
    rfl

theorem splitHost_reads (unset : parts.host = []) :
    ∃ host after, parts.splitHost = { parts with host, rest := after } ∧ text = host ++ after ∧
      (∀ ch ∈ host, hostChar ch = true) ∧ Stops hostChar after := by
  subst rest
  refine ⟨parts.rest.takeWhile hostChar, parts.rest.dropWhile hostChar, ?_,
    List.takeWhile_append_dropWhile.symm, takeWhile_mem, stops_dropWhile _ _⟩
  simp only [splitHost]
  split
  next => rfl
  next hostless =>
    rw [not_ne_iff] at hostless
    have nothing := List.takeWhile_append_dropWhile (p := hostChar) (l := parts.rest)
    rw [hostless, List.nil_append] at nothing
    rw [hostless, nothing, ← unset]

theorem splitPort_reads (unset : parts.port = []) :
    ∃ port after, parts.splitPort = { parts with port, rest := after } ∧
      text = portText port ++ after ∧
        (∀ ch ∈ port, Decimal.isDigit ch = true) ∧ (port = [] → ¬HasPort text) ∧
          (port ≠ [] → Stops Decimal.isDigit after) := by
  subst rest
  by_cases taken : HasPort parts.rest
  · refine ⟨_, _, if_pos taken, ?_, takeWhile_mem, fun portless => absurd portless taken.2,
      fun _ => stops_dropWhile _ _⟩
    rw [portText, if_pos taken.2, List.cons_append, List.takeWhile_append_dropWhile]
    exact mark_append_drop taken.1
  · refine ⟨[], parts.rest, (if_neg taken).trans ?_, rfl, List.forall_mem_nil _, fun _ => taken,
      absurd rfl⟩
    rw [← unset]

theorem splitQuery_reads (unset : parts.query = []) :
    ∃ query after, parts.splitQuery = { parts with query, rest := after } ∧
      (∀ ch ∈ query, queryChar ch = true) ∧
        (BrokenFragment after ↔ BrokenFragment text) := by
  subst rest
  by_cases taken : bytes "?" <+: parts.rest
  · refine ⟨_, _, if_pos taken, takeWhile_mem, ?_⟩
    rw [brokenFragment_dropWhile fun _ isQuery => isQuery]
    exact brokenFragment_drop (bytes "?") (by decide) taken
  · refine ⟨[], parts.rest, (if_neg taken).trans ?_, List.forall_mem_nil _, Iff.rfl⟩
    rw [← unset]

theorem splitFragment_reads (unset : parts.fragment = []) :
    ∃ fragment after, parts.splitFragment = { parts with fragment, rest := after } ∧
      (¬BrokenFragment text →
        '\n'.toUInt8 ∉ fragment ∧ '\r'.toUInt8 ∉ fragment) := by
  subst rest
  by_cases taken : bytes "#" <+: parts.rest
  · refine ⟨_, _, if_pos taken, ?_⟩
    intro whole
    rw [mark_append_drop taken] at whole
    have noBreak : ∀ ch ∈ parts.rest.drop 1, ¬lineBreak ch = true := by
      intro ch member isBreak
      exact whole (brokenFragment_cons_hash.mpr ⟨ch, member, isBreak⟩)
    exact ⟨fun member => noBreak _ member (by decide), fun member => noBreak _ member (by decide)⟩
  · refine ⟨[], parts.rest, (if_neg taken).trans ?_, fun _ => ⟨List.not_mem_nil, List.not_mem_nil⟩⟩
    rw [← unset]

end Steps

/-- The text has the parts one after another, and each of them is as long as it can be. -/
structure Reads (parts : UriParts) (text : Bytes) : Prop where
  written : ∃ rest, Stops pathChar rest ∧
    text = parts.uri.schemeText ++
      (parts.uri.userText ++ (parts.host ++ (portText parts.port ++ parts.path)) ++ rest)
  scheme : ∀ ch ∈ parts.scheme, nameChar ch = true
  user : ∀ ch ∈ parts.user, nameChar ch = true
  password : ∀ ch ∈ parts.password, wordChar ch = true
  passwordUser : parts.password = [] ↔ parts.user = []
  host : ∀ ch ∈ parts.host, hostChar ch = true
  port : ∀ ch ∈ parts.port, Decimal.isDigit ch = true
  path : ∀ ch ∈ parts.path, pathChar ch = true
  query : ∀ ch ∈ parts.query, queryChar ch = true
  fragment : ¬BrokenFragment text →
    '\n'.toUInt8 ∉ parts.fragment ∧ '\r'.toUInt8 ∉ parts.fragment
  noScheme : parts.scheme = [] →
    ¬HasScheme (parts.uri.userText ++ (parts.host ++ (portText parts.port ++ parts.path)))
  noUserinfo : parts.user = [] → ¬HasUserinfo (parts.host ++ (portText parts.port ++ parts.path))
  noHost : Stops hostChar (portText parts.port ++ parts.path)
  noPort : parts.port = [] → ¬HasPort parts.path
  noDigit : parts.port ≠ [] → Stops Decimal.isDigit parts.path

theorem reads_split (text : Bytes) : (split text).Reads text := by
  obtain ⟨scheme, authority, schemeTaken, textEq, isScheme, noScheme⟩ :=
    splitScheme_reads { rest := text } text rfl rfl
  obtain ⟨user, password, hostRest, userTaken, authorityEq, isUser, isPassword, passwordUser,
    noUserinfo⟩ := splitUserinfo_reads { rest := authority, scheme } authority rfl ⟨rfl, rfl⟩
  obtain ⟨host, portRest, hostTaken, hostRestEq, isHost, noHost⟩ :=
    splitHost_reads { rest := hostRest, scheme, user, password } hostRest rfl rfl
  obtain ⟨port, pathRest, portTaken, portRestEq, isPort, noPort, noDigit⟩ :=
    splitPort_reads { rest := portRest, scheme, user, password, host } portRest rfl rfl
  obtain ⟨path, tail, rfl, isPath, tailStops⟩ :
      ∃ path tail, pathRest = path ++ tail ∧ (∀ ch ∈ path, pathChar ch = true) ∧
        Stops pathChar tail :=
    ⟨_, _, List.takeWhile_append_dropWhile.symm, takeWhile_mem, stops_dropWhile _ _⟩
  obtain ⟨query, fragmentRest, queryTaken, isQuery, queryBroken⟩ :=
    splitQuery_reads { rest := tail, scheme, user, password, host, port, path } tail rfl rfl
  obtain ⟨fragment, rest, fragmentTaken, isFragment⟩ :=
    splitFragment_reads { rest := fragmentRest, scheme, user, password, host, port, path, query }
      fragmentRest rfl rfl
  rw [split, schemeTaken, userTaken, hostTaken, portTaken, splitPath,
    takeWhile_append_stops isPath tailStops, dropWhile_append_stops isPath tailStops,
    queryTaken, fragmentTaken]
  -- The text after each part, with the query and the fragment apart.
  rw [← List.append_assoc] at portRestEq
  rw [portRestEq, ← List.append_assoc] at hostRestEq
  rw [hostRestEq, ← List.append_assoc] at authorityEq
  rw [authorityEq] at textEq
  have unbroken : BrokenFragment text ↔ BrokenFragment tail := by
    rw [textEq, brokenFragment_append fun ch member => pathChar_queryChar ch
        (Uri.pathChar_schemeText isScheme ch member),
      brokenFragment_append fun ch member => pathChar_queryChar ch
        (Uri.pathChar_front (Uri.pathChar_userText isUser isPassword) isHost
          (pathChar_portText isPort) isPath ch member)]
  exact
    { written := ⟨tail, tailStops, textEq⟩
      scheme := isScheme
      user := isUser
      password := isPassword
      passwordUser
      host := isHost
      port := isPort
      path := isPath
      query := isQuery
      fragment := fun whole => isFragment (mt (queryBroken.trans unbroken.symm).mp whole)
      noScheme := by
        intro schemeless
        have absent := noScheme.mp schemeless
        cases schemeless
        rw [textEq] at absent
        exact mt tailStops.hasScheme_append.mpr absent
      noUserinfo := by
        intro userless
        have absent := noUserinfo.mp userless
        rw [authorityEq, Uri.userText_nil userless] at absent
        exact mt tailStops.hasUserinfo_append.mpr absent
      noHost := by
        rw [portRestEq] at noHost
        exact noHost.of_append
      noPort := by
        intro portless
        have absent := noPort portless
        cases portless
        rw [portRestEq] at absent
        exact mt tailStops.hasPort_append.mpr absent
      noDigit := fun port => (noDigit port).of_append }

theorem portText_eq_nil_iff {port : Bytes} : portText port = [] ↔ port = [] := by
  unfold portText
  split
  next present => exact iff_of_false (List.cons_ne_nil _ _) present
  next absent => exact iff_of_true rfl (not_ne_iff.mp absent)

namespace Reads

variable {parts : UriParts}

theorem pathChar_front {text port : Bytes} (reads : parts.Reads text)
    (isPort : ∀ ch ∈ port, pathChar ch = true) :
    ∀ ch ∈ parts.uri.userText ++ (parts.host ++ (port ++ parts.path)), pathChar ch = true :=
  Uri.pathChar_front (Uri.pathChar_userText reads.user reads.password) reads.host isPort reads.path

/-- If the parts are those of the text that is written of them, the authority is
written as it was read. -/
theorem authority_eq (reads : parts.Reads parts.uri.operatorString) :
    parts.uri.userText ++ (parts.host ++ portText parts.port) =
      if parts.host ≠ [] then parts.uri.userText ++ (parts.host ++ parts.uri.portText) else [] := by
  obtain ⟨rest, restStops, written⟩ := reads.written
  have readFront : parts.uri.operatorString.takeWhile pathChar = parts.uri.schemeText ++
      (parts.uri.userText ++ (parts.host ++ (portText parts.port ++ parts.path))) := by
    rw [written, List.takeWhile_append_of_pos (Uri.pathChar_schemeText reads.scheme),
      takeWhile_append_stops (reads.pathChar_front (pathChar_portText reads.port)) restStops]
  have writtenFront : parts.uri.operatorString.takeWhile pathChar = parts.uri.schemeText ++
      ((if parts.host ≠ [] then parts.uri.userText ++ (parts.host ++ parts.uri.portText) else []) ++
        parts.path) := by
    rw [Uri.operatorString, List.takeWhile_append_of_pos (Uri.pathChar_schemeText reads.scheme)]
    refine congrArg _ ?_
    change List.takeWhile pathChar ((if parts.host ≠ [] then _ else _) ++ (parts.path ++
      parts.uri.tailText)) = _
    split
    · have front := reads.pathChar_front parts.uri.pathChar_portText
      have stops := takeWhile_append_stops front parts.uri.stops_tailText
      simp only [List.append_assoc] at stops ⊢
      exact stops
    · exact takeWhile_append_stops reads.path parts.uri.stops_tailText
  have same := List.append_cancel_left (readFront.symm.trans writtenFront)
  rw [← List.append_assoc parts.host, ← List.append_assoc parts.uri.userText] at same
  exact List.append_cancel_right same

theorem authority_empty (reads : parts.Reads parts.uri.operatorString)
    (hostless : parts.host = []) :
    parts.user = [] ∧ parts.port = [] := by
  have same := reads.authority_eq
  rw [if_neg (not_not.mpr hostless), List.append_eq_nil_iff, List.append_eq_nil_iff] at same
  exact ⟨Uri.userText_eq_nil_iff.mp same.1, portText_eq_nil_iff.mp same.2.2⟩

theorem portText_eq (reads : parts.Reads parts.uri.operatorString) :
    portText parts.port = parts.uri.portText := by
  by_cases hostless : parts.host = []
  · have portless := (reads.authority_empty hostless).2
    have zero : parts.uri.port = 0 := by simp [uri, portless, Decimal.read]
    rw [portText_eq_nil_iff.mpr portless, Uri.portText_nil zero]
  · have same := reads.authority_eq
    rw [if_pos hostless] at same
    exact List.append_cancel_left (List.append_cancel_left same)

theorem readable (reads : parts.Reads parts.uri.operatorString)
    (whole : ¬BrokenFragment parts.uri.operatorString) : parts.uri.Readable := by
  have portEq := reads.portText_eq
  have portIff : parts.port = [] ↔ parts.uri.port = 0 := by
    rw [← portText_eq_nil_iff, portEq]
    rcases parts.uri.portText_eq with ⟨zero, nothing, _⟩ | ⟨port, shown, _⟩
    · exact iff_of_true nothing zero
    · exact iff_of_false (by rw [shown]; exact List.cons_ne_nil _ _) port
  exact
    { scheme := reads.scheme
      user := reads.user
      password := reads.password
      passwordUser := reads.passwordUser
      host := reads.host
      userHost := mt fun hostless => (reads.authority_empty hostless).1
      portHost := mt fun hostless => portIff.mp (reads.authority_empty hostless).2
      path := reads.path
      query := reads.query
      fragment := reads.fragment whole
      noScheme := by
        rw [← portEq]
        exact reads.noScheme
      noUserinfo := by
        rw [← portEq]
        exact reads.noUserinfo
      noHost := by
        rw [← portEq]
        exact reads.noHost
      noPort := fun portless => reads.noPort (portIff.mpr portless)
      noDigit := fun port => reads.noDigit (mt portIff.mp port) }

end Reads

end UriParts

/-- A URI that is written is read back just when it is readable. -/
theorem Uri.parse_operatorString_readable (uri : Uri) :
    parse uri.operatorString = .ok uri ↔ uri.Readable := by
  refine ⟨fun parsed => ?_, Readable.parse_operatorString⟩
  have reads := UriParts.reads_split uri.operatorString
  rw [parse_eq] at parsed
  split_ifs at parsed with broken fits
  · cases Except.ok.inj parsed
    exact absurd broken (by decide)
  · generalize UriParts.split uri.operatorString = parts at parsed reads
    cases Except.ok.inj parsed
    exact reads.readable broken

end FastCrawl
