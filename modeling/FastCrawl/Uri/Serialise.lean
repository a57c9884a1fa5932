import FastCrawl.Uri.Split

namespace FastCrawl

/-! Writing a URI, and the URIs that are read back from what is written. -/

namespace Uri

def schemeText (uri : Uri) : Bytes := if uri.scheme ≠ [] then uri.scheme ++ bytes "://" else []

def userText (uri : Uri) : Bytes :=
  if uri.user ≠ [] then
    uri.user ++ (if uri.password ≠ [] then ':'.toUInt8 :: uri.password else []) ++ ['@'.toUInt8]
  else []

def portText (uri : Uri) : Bytes :=
  if uri.port ≠ 0 then ':'.toUInt8 :: Decimal.print uri.port.toNat else []

def queryText (uri : Uri) : Bytes := if uri.query ≠ [] then '?'.toUInt8 :: uri.query else []

def fragmentText (uri : Uri) : Bytes :=
  if uri.fragment ≠ [] then '#'.toUInt8 :: uri.fragment else []

/-- `uri::operator std::string` -/
def operatorString (uri : Uri) : Bytes :=
  uri.schemeText ++
    ((if uri.host ≠ [] then uri.userText ++ (uri.host ++ uri.portText) else []) ++
      (uri.path ++ (uri.queryText ++ uri.fragmentText)))

/-- The parts are of the characters that the expression takes for them, nothing is
left out that is not empty, and none of them, written after the others, is taken
for a part that is empty. -/
structure Readable (uri : Uri) : Prop where
  scheme : ∀ ch ∈ uri.scheme, nameChar ch = true
  user : ∀ ch ∈ uri.user, nameChar ch = true
  password : ∀ ch ∈ uri.password, wordChar ch = true
  passwordUser : uri.password = [] ↔ uri.user = []
  host : ∀ ch ∈ uri.host, hostChar ch = true
  userHost : uri.user ≠ [] → uri.host ≠ []
  portHost : uri.port ≠ 0 → uri.host ≠ []
  path : ∀ ch ∈ uri.path, pathChar ch = true
  query : ∀ ch ∈ uri.query, queryChar ch = true
  fragment : '\n'.toUInt8 ∉ uri.fragment ∧ '\r'.toUInt8 ∉ uri.fragment
  noScheme : uri.scheme = [] →
    ¬HasScheme (uri.userText ++ (uri.host ++ (uri.portText ++ uri.path)))
  noUserinfo : uri.user = [] → ¬HasUserinfo (uri.host ++ (uri.portText ++ uri.path))
  noHost : Stops hostChar (uri.portText ++ uri.path)
  noPort : uri.port = 0 → ¬HasPort uri.path
  noDigit : uri.port ≠ 0 → Stops Decimal.isDigit uri.path

/-- What is written after the path. -/
def tailText (uri : Uri) : Bytes := uri.queryText ++ uri.fragmentText

def portDigits (uri : Uri) : Bytes := if uri.port ≠ 0 then Decimal.print uri.port.toNat else []

theorem isDigit_portDigits (uri : Uri) : ∀ ch ∈ uri.portDigits, Decimal.isDigit ch = true := by
  intro ch member
  unfold portDigits at member
  split at member
  · exact Decimal.isDigit_of_mem_print member
  · contradiction

section Texts

variable {uri : Uri}

theorem userText_nil (userless : uri.user = []) : uri.userText = [] := if_neg (not_not.mpr userless)

theorem userText_password (user : uri.user ≠ []) (password : uri.password ≠ []) :
    uri.userText = uri.user ++ (':'.toUInt8 :: (uri.password ++ ['@'.toUInt8])) := by
  rw [userText, if_pos user, if_pos password, List.append_assoc, List.cons_append]

theorem userText_eq_nil_iff : uri.userText = [] ↔ uri.user = [] := by
  refine ⟨fun nothing => ?_, userText_nil⟩
  by_contra user
  rw [userText, if_pos user] at nothing
  exact absurd (List.append_eq_nil_iff.mp nothing).2 (List.cons_ne_nil _ _)

theorem portText_nil (portless : uri.port = 0) : uri.portText = [] :=
  if_neg (not_not.mpr portless)

theorem stops_fragmentText (uri : Uri) {member : UInt8 → Bool}
    (hash : member '#'.toUInt8 = false) : Stops member uri.fragmentText := by
  unfold fragmentText
  split
  · exact stops_cons hash
  · exact stops_nil

theorem stops_tailText (uri : Uri) : Stops pathChar uri.tailText := by
  unfold tailText queryText
  split
  · exact stops_cons (by decide)
  · exact uri.stops_fragmentText (by decide)

end Texts

theorem portText_eq (uri : Uri) :
    uri.port = 0 ∧ uri.portText = [] ∧ uri.portDigits = [] ∨
      uri.port ≠ 0 ∧ uri.portText = ':'.toUInt8 :: uri.portDigits ∧ uri.portDigits ≠ [] := by
  unfold portText portDigits
  split
  next port =>
    refine .inr ⟨port, rfl, ?_⟩
    intro empty
    have printed := Decimal.read_print uri.port.toNat
    rw [empty] at printed
    exact port (UInt16.toNat_inj.mp printed.symm)
  next portless => exact .inl ⟨not_ne_iff.mp portless, rfl, rfl⟩

theorem read_portDigits (uri : Uri) : Decimal.read uri.portDigits = uri.port.toNat := by
  unfold portDigits
  split
  next => exact Decimal.read_print _
  next port =>
    rw [not_ne_iff] at port
    rw [port]
    rfl

section Front

variable {uri : Uri}

theorem pathChar_schemeText (scheme : ∀ ch ∈ uri.scheme, nameChar ch = true) :
    ∀ ch ∈ uri.schemeText, pathChar ch = true := by
  intro ch member
  unfold schemeText at member
  split at member
  · rcases List.mem_append.mp member with name | mark
    · exact pathChar_of_hostChar (hostChar_of_nameChar (scheme ch name))
    · exact List.all_eq_true.mp (show (bytes "://").all pathChar = true by decide) ch mark
  · contradiction

theorem pathChar_userText (user : ∀ ch ∈ uri.user, nameChar ch = true)
    (password : ∀ ch ∈ uri.password, wordChar ch = true) :
    ∀ ch ∈ uri.userText, pathChar ch = true := by
  intro ch member
  unfold userText at member
  split at member
  · rcases List.mem_append.mp member with named | atSign
    · rcases List.mem_append.mp named with name | secret
      · exact pathChar_of_hostChar (hostChar_of_nameChar (user ch name))
      · split at secret
        · rcases List.mem_cons.mp secret with rfl | word
          · decide
          · exact pathChar_of_hostChar
              (hostChar_of_nameChar (nameChar_of_wordChar (password ch word)))
        · contradiction
    · rw [List.mem_singleton.mp atSign]
      decide
  · contradiction

theorem pathChar_port {digits : Bytes} (areDigits : ∀ ch ∈ digits, Decimal.isDigit ch = true) :
    ∀ ch ∈ ':'.toUInt8 :: digits, pathChar ch = true := by
  intro ch member
  rcases List.mem_cons.mp member with rfl | isDigit
  · decide
  · exact pathChar_of_hostChar
      (hostChar_of_nameChar (nameChar_of_wordChar (wordChar_of_isDigit (areDigits ch isDigit))))

theorem pathChar_portText (uri : Uri) : ∀ ch ∈ uri.portText, pathChar ch = true := by
  rcases uri.portText_eq with ⟨_, nothing, _⟩ | ⟨_, shown, _⟩
  · intro ch member
    rw [nothing] at member
    contradiction
  · rw [shown]
    exact pathChar_port uri.isDigit_portDigits

theorem pathChar_front {before host port path : Bytes}
    (isBefore : ∀ ch ∈ before, pathChar ch = true) (isHost : ∀ ch ∈ host, hostChar ch = true)
    (isPort : ∀ ch ∈ port, pathChar ch = true) (isPath : ∀ ch ∈ path, pathChar ch = true) :
    ∀ ch ∈ before ++ (host ++ (port ++ path)), pathChar ch = true := by
  rw [List.forall_mem_append, List.forall_mem_append, List.forall_mem_append]
  exact ⟨isBefore, fun ch member => pathChar_of_hostChar (isHost ch member), isPort, isPath⟩

theorem queryChar_queryText (query : ∀ ch ∈ uri.query, queryChar ch = true) :
    ∀ ch ∈ uri.queryText, queryChar ch = true := by
  intro ch member
  unfold queryText at member
  split at member
  · rcases List.mem_cons.mp member with rfl | inQuery
    · decide
    · exact query ch inQuery
  · contradiction

end Front

theorem operatorString_eq {uri : Uri} (userHost : uri.user ≠ [] → uri.host ≠ [])
    (portHost : uri.port ≠ 0 → uri.host ≠ []) :
    uri.operatorString =
      uri.schemeText ++ (uri.userText ++ (uri.host ++ (uri.portText ++ uri.path)) ++
        uri.tailText) := by
  unfold operatorString
  by_cases hostless : uri.host = []
  · have noUser : uri.user = [] := by
      by_contra user
      exact userHost user hostless
    have noPort : uri.port = 0 := by
      by_contra port
      exact portHost port hostless
    simp [hostless, userText_nil noUser, portText_nil noPort, tailText]
  · simp [hostless, tailText]

theorem splitFragment {uri : Uri} {parts : UriParts} (rest : parts.rest = uri.fragmentText)
    (unset : parts.fragment = []) :
    parts.splitFragment = { parts with rest := [], fragment := uri.fragment } := by
  unfold UriParts.splitFragment
  by_cases fragmentless : uri.fragment = []
  · have nothing : uri.fragmentText = [] := by simp [fragmentText, fragmentless]
    have noMark : ¬bytes "#" <+: ([] : Bytes) := by decide
    rw [nothing] at rest
    simp only [rest, noMark, if_false, fragmentless]
    cases parts
    simp_all
  · have shown : uri.fragmentText = '#'.toUInt8 :: uri.fragment := if_pos fragmentless
    simp only [rest, shown, List.drop_one, List.tail_cons]
    rw [if_pos ⟨_, rfl⟩]

namespace Readable

variable {uri : Uri} (readable : uri.Readable)
include readable

theorem splitScheme :
    ({ rest := uri.operatorString } : UriParts).splitScheme =
      { rest := uri.userText ++ (uri.host ++ (uri.portText ++ uri.path)) ++ uri.tailText
        scheme := uri.scheme } := by
  rw [operatorString_eq readable.userHost readable.portHost]
  unfold UriParts.splitScheme
  by_cases schemeless : uri.scheme = []
  · have nothing : uri.schemeText = [] := by simp [schemeText, schemeless]
    have noScheme := readable.noScheme schemeless
    rw [← uri.stops_tailText.hasScheme_append] at noScheme
    rw [nothing, List.nil_append, schemeless]
    exact if_neg noScheme
  · have shown : uri.schemeText = uri.scheme ++ bytes "://" := if_pos schemeless
    have stops : Stops nameChar (bytes "://" ++
        (uri.userText ++ (uri.host ++ (uri.portText ++ uri.path)) ++ uri.tailText)) :=
      stops_cons (by decide)
    rw [shown, List.append_assoc]
    simp only [takeWhile_append_stops readable.scheme stops,
      dropWhile_append_stops readable.scheme stops]
    rw [if_pos ⟨schemeless, List.prefix_append ..⟩]
    rfl

theorem splitUserinfo {parts : UriParts}
    (rest : parts.rest =
      uri.userText ++ (uri.host ++ (uri.portText ++ uri.path)) ++ uri.tailText)
    (unset : parts.user = [] ∧ parts.password = []) :
    parts.splitUserinfo =
      { parts with
        rest := uri.host ++ (uri.portText ++ uri.path) ++ uri.tailText
        user := uri.user
        password := uri.password } := by
  unfold UriParts.splitUserinfo
  by_cases userless : uri.user = []
  · have noUserinfo := readable.noUserinfo userless
    rw [← uri.stops_tailText.hasUserinfo_append] at noUserinfo
    rw [userText_nil userless, List.nil_append] at rest
    rw [← rest] at noUserinfo
    refine (if_neg noUserinfo).trans ?_
    obtain ⟨noUser, noPassword⟩ := unset
    rw [userless, readable.passwordUser.mpr userless, ← rest]
    cases parts
    cases noUser
    cases noPassword
    rfl
  · have password : uri.password ≠ [] := mt readable.passwordUser.mp userless
    have stopsUser : Stops nameChar (':'.toUInt8 :: (uri.password ++ ('@'.toUInt8 ::
        (uri.host ++ (uri.portText ++ uri.path) ++ uri.tailText)))) := stops_cons (by decide)
    have stopsPassword : Stops wordChar ('@'.toUInt8 ::
        (uri.host ++ (uri.portText ++ uri.path) ++ uri.tailText)) := stops_cons (by decide)
    have shown : parts.rest = uri.user ++ (':'.toUInt8 :: (uri.password ++ ('@'.toUInt8 ::
        (uri.host ++ (uri.portText ++ uri.path) ++ uri.tailText)))) := by
      rw [rest, userText_password userless password]
      simp only [List.append_assoc, List.cons_append, List.nil_append]
    simp only [shown, takeWhile_append_stops readable.user stopsUser,
      dropWhile_append_stops readable.user stopsUser, List.drop_one, List.tail_cons,
      takeWhile_append_stops readable.password stopsPassword,
      dropWhile_append_stops readable.password stopsPassword]
    rw [if_pos ⟨userless, ⟨_, rfl⟩, password, ⟨_, rfl⟩⟩]

theorem splitHost {parts : UriParts}
    (rest : parts.rest = uri.host ++ (uri.portText ++ uri.path) ++ uri.tailText)
    (unset : parts.host = []) :
    parts.splitHost =
      { parts with rest := uri.portText ++ uri.path ++ uri.tailText, host := uri.host } := by
  have stops : Stops hostChar (uri.portText ++ uri.path ++ uri.tailText) :=
    readable.noHost.append (uri.stops_tailText.mono fun _ => pathChar_of_hostChar)
  rw [List.append_assoc] at rest
  unfold UriParts.splitHost
  simp only [rest, takeWhile_append_stops readable.host stops,
    dropWhile_append_stops readable.host stops]
  split
  next => rfl
  next hostless =>
    rw [not_ne_iff] at hostless
    rw [hostless, List.nil_append] at rest
    rw [hostless, ← rest, ← unset]

theorem splitPort {parts : UriParts}
    (rest : parts.rest = uri.portText ++ uri.path ++ uri.tailText) (unset : parts.port = []) :
    parts.splitPort =
      { parts with rest := uri.path ++ uri.tailText, port := uri.portDigits } := by
  unfold UriParts.splitPort
  rcases uri.portText_eq with ⟨portless, nothing, noDigits⟩ | ⟨port, shown, digits⟩
  · have noPort := readable.noPort portless
    rw [← uri.stops_tailText.hasPort_append] at noPort
    rw [nothing, List.nil_append] at rest
    rw [← rest] at noPort
    refine (if_neg noPort).trans ?_
    rw [noDigits, ← rest, ← unset]
  · have stops : Stops Decimal.isDigit (uri.path ++ uri.tailText) :=
      (readable.noDigit port).append uri.stops_tailText.digit
    simp only [rest, shown, List.append_assoc, List.cons_append, List.drop_one, List.tail_cons,
      takeWhile_append_stops uri.isDigit_portDigits stops,
      dropWhile_append_stops uri.isDigit_portDigits stops]
    rw [if_pos ⟨⟨_, rfl⟩, digits⟩]

theorem splitPath {parts : UriParts} (rest : parts.rest = uri.path ++ uri.tailText) :
    parts.splitPath = { parts with rest := uri.tailText, path := uri.path } := by
  unfold UriParts.splitPath
  rw [rest, takeWhile_append_stops readable.path uri.stops_tailText,
    dropWhile_append_stops readable.path uri.stops_tailText]

theorem splitQuery {parts : UriParts} (rest : parts.rest = uri.tailText)
    (unset : parts.query = []) :
    parts.splitQuery = { parts with rest := uri.fragmentText, query := uri.query } := by
  have stops : Stops queryChar uri.fragmentText := uri.stops_fragmentText (by decide)
  unfold UriParts.splitQuery
  rw [tailText] at rest
  by_cases queryless : uri.query = []
  · have nothing : uri.queryText = [] := by simp [queryText, queryless]
    have noMark : ¬bytes "?" <+: uri.fragmentText :=
      not_prefix_of_stops (uri.stops_fragmentText (by decide))
    rw [nothing, List.nil_append] at rest
    simp only [rest, noMark, if_false, queryless]
    rw [← rest, ← unset]
  · have shown : uri.queryText = '?'.toUInt8 :: uri.query := if_pos queryless
    simp only [rest, shown, List.cons_append, List.drop_one, List.tail_cons,
      takeWhile_append_stops readable.query stops,
      dropWhile_append_stops readable.query stops]
    rw [if_pos ⟨_, rfl⟩]

theorem split_operatorString :
    UriParts.split uri.operatorString =
      { rest := []
        scheme := uri.scheme
        user := uri.user
        password := uri.password
        host := uri.host
        port := uri.portDigits
        path := uri.path
        query := uri.query
        fragment := uri.fragment } := by
  rw [UriParts.split, readable.splitScheme, readable.splitUserinfo rfl ⟨rfl, rfl⟩,
    readable.splitHost rfl rfl, readable.splitPort rfl rfl, readable.splitPath rfl,
    readable.splitQuery rfl rfl, Uri.splitFragment rfl rfl]

theorem not_brokenFragment : ¬BrokenFragment uri.operatorString := by
  have unbroken : ¬BrokenFragment uri.fragmentText := by
    unfold fragmentText
    by_cases fragmentless : uri.fragment = []
    · simp [fragmentless, BrokenFragment]
    · rw [if_pos fragmentless, brokenFragment_cons_hash]
      intro broken
      obtain ⟨ch, member, isBreak⟩ := broken
      rcases lineBreak_iff.mp isBreak with rfl | rfl
      · exact readable.fragment.1 member
      · exact readable.fragment.2 member
  rw [operatorString_eq readable.userHost readable.portHost, tailText,
    brokenFragment_append fun ch member => pathChar_queryChar ch
      (pathChar_schemeText readable.scheme ch member),
    brokenFragment_append fun ch member => pathChar_queryChar ch
      (pathChar_front (pathChar_userText readable.user readable.password) readable.host
        uri.pathChar_portText readable.path ch member),
    brokenFragment_append (queryChar_queryText readable.query)]
  exact unbroken

theorem parse_operatorString : parse uri.operatorString = .ok uri := by
  have split := readable.split_operatorString
  have fits : (UriParts.split uri.operatorString).PortFits := by
    rw [UriParts.PortFits, split, read_portDigits]
    exact Nat.le_of_lt_succ uri.port.toNat_lt
  rw [parse_eq, if_neg readable.not_brokenFragment, if_pos fits, split]
  simp only [UriParts.uri, read_portDigits, UInt16.ofNat_toNat]

end Readable

end Uri

end FastCrawl
