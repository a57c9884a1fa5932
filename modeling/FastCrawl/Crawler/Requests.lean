import FastCrawl.Crawler.Download
import FastCrawl.Uri.Roundtrip

namespace FastCrawl

/-! What a download asks curl for: a URL, and the header that names the host.  The two are
written apart, from the same URI. -/

/-- What a function that is given a `c_str()` sees. -/
def cString (text : Bytes) : Bytes := text.takeWhile fun ch => ch != 0

structure Request where
  url : Bytes
  hostHeader : Bytes
deriving Repr, DecidableEq

/-- `CURLOPT_URL` and `CURLOPT_HTTPHEADER` of `download::run` -/
def Download.request (dl : Download) : Request where
  url := cString dl.mUri.operatorString
  hostHeader := cString (bytes "Host: " ++ dl.mUri.host)

theorem cString_eq_self_iff {text : Bytes} : cString text = text ↔ 0 ∉ text := by
  rw [cString, List.takeWhile_eq_self_iff]
  constructor
  · intro kept member
    exact absurd (kept 0 member) (by decide)
  · intro absent ch member
    rw [bne_iff_ne]
    rintro rfl
    exact absent member

theorem zero_not_mem_cString (text : Bytes) : 0 ∉ cString text := by
  intro member
  exact absurd (takeWhile_mem 0 member) (by decide)

theorem zero_not_mem_of_class {member : UInt8 → Bool} {text : Bytes}
    (isMember : ∀ ch ∈ text, member ch = true) (noMember : member 0 = false) : 0 ∉ text := by
  intro zero
  exact absurd ((isMember 0 zero).symm.trans noMember) (by simp)

namespace UriParts

theorem splitQuery_subset {parts : UriParts} (unset : parts.query = []) :
    parts.splitQuery.query ⊆ parts.rest ∧ parts.splitQuery.rest ⊆ parts.rest ∧
      parts.splitQuery.path = parts.path ∧ parts.splitQuery.fragment = parts.fragment := by
  unfold splitQuery
  split
  · have dropped := (List.drop_suffix 1 parts.rest).subset
    exact ⟨List.Subset.trans (List.takeWhile_sublist _).subset dropped,
      List.Subset.trans (List.dropWhile_sublist _).subset dropped, rfl, rfl⟩
  · rw [unset]
    exact ⟨List.nil_subset _, List.Subset.refl _, rfl, rfl⟩

theorem splitFragment_subset {parts : UriParts} (unset : parts.fragment = []) :
    parts.splitFragment.fragment ⊆ parts.rest ∧ parts.splitFragment.path = parts.path ∧
      parts.splitFragment.query = parts.query := by
  unfold splitFragment
  split
  · exact ⟨(List.drop_suffix 1 parts.rest).subset, rfl, rfl⟩
  · rw [unset]
    exact ⟨List.nil_subset _, rfl, rfl⟩

/-- What is read behind the authority is of the text. -/
theorem split_subset (text : Bytes) : (split text).path ⊆ text ∧ (split text).query ⊆ text ∧
    (split text).fragment ⊆ text := by
  obtain ⟨scheme, authority, schemeTaken, textEq, _⟩ :=
    splitScheme_reads { rest := text } text rfl rfl
  obtain ⟨user, password, hostRest, userTaken, authorityEq, _⟩ :=
    splitUserinfo_reads { rest := authority, scheme } authority rfl ⟨rfl, rfl⟩
  obtain ⟨host, portRest, hostTaken, hostRestEq, _⟩ :=
    splitHost_reads { rest := hostRest, scheme, user, password } hostRest rfl rfl
  obtain ⟨port, pathRest, portTaken, portRestEq, _⟩ :=
    splitPort_reads { rest := portRest, scheme, user, password, host } portRest rfl rfl
  have behind : pathRest ⊆ text := by
    rw [textEq, authorityEq, hostRestEq, portRestEq]
    simp only [← List.append_assoc]
    exact List.subset_append_right _ _
  have left : (pathRest.dropWhile pathChar) ⊆ text :=
    List.Subset.trans (List.dropWhile_sublist _).subset behind
  let parts : UriParts :=
    { rest := pathRest.dropWhile pathChar, scheme, user, password, host, port
      path := pathRest.takeWhile pathChar }
  have unset : parts.query = [] := rfl
  obtain ⟨query, queryRest, queryPath, queryFragment⟩ := splitQuery_subset unset
  obtain ⟨fragment, fragmentPath, fragmentQuery⟩ := splitFragment_subset queryFragment
  have split : split text = parts.splitQuery.splitFragment := by
    rw [UriParts.split, schemeTaken, userTaken, hostTaken, portTaken]
    rfl
  rw [split, fragmentPath, queryPath, fragmentQuery]
  exact ⟨List.Subset.trans (List.takeWhile_sublist _).subset behind, List.Subset.trans query left,
    List.Subset.trans fragment (List.Subset.trans queryRest left)⟩

/-- What is written behind the scheme and the user for these parts on a host, which may
not be that of the parts, is not taken for other parts. -/
structure LastsAt (parts : UriParts) (host : Bytes) : Prop where
  isHost : ∀ ch ∈ host, hostChar ch = true
  userHost : parts.user ≠ [] → host ≠ []
  zeroPort : Decimal.read parts.port = 0 → Stops hostChar parts.path ∧ ¬HasPort parts.path ∧
    (parts.user = [] → ¬HasUserinfo (host ++ parts.path) ∧
      (parts.scheme = [] → ¬HasScheme (host ++ parts.path)))
  port : Decimal.read parts.port ≠ 0 → host ≠ [] ∧ (parts.user = [] →
    ¬((∀ ch ∈ host, nameChar ch = true) ∧ bytes "@" <+: parts.path.dropWhile wordChar))

end UriParts

namespace Uri

theorem hasUserinfo_written_iff {uri : Uri} (isHost : ∀ ch ∈ uri.host, hostChar ch = true)
    (hosted : uri.host ≠ []) (port : uri.port ≠ 0) :
    HasUserinfo (uri.host ++ (uri.portText ++ uri.path)) ↔
      (∀ ch ∈ uri.host, nameChar ch = true) ∧ bytes "@" <+: uri.path.dropWhile wordChar := by
  rcases uri.portText_eq with ⟨zero, _⟩ | ⟨_, shown, digits⟩
  · exact absurd zero port
  · rw [shown, List.cons_append, hasUserinfo_port_iff isHost uri.isDigit_portDigits digits]
    simp only [ne_eq, hosted, not_false_eq_true, true_and]

variable {uri : Uri}

theorem zero_not_mem_schemeText (scheme : ∀ ch ∈ uri.scheme, nameChar ch = true) :
    0 ∉ uri.schemeText := by
  unfold schemeText
  split
  · rw [List.mem_append, not_or]
    exact ⟨zero_not_mem_of_class scheme (by decide), by decide⟩
  · exact List.not_mem_nil

theorem zero_not_mem_userText (user : ∀ ch ∈ uri.user, nameChar ch = true)
    (password : ∀ ch ∈ uri.password, wordChar ch = true) : 0 ∉ uri.userText := by
  have noUser := zero_not_mem_of_class user (by decide)
  have noPassword := zero_not_mem_of_class password (by decide)
  have colon : 0 ≠ ':'.toUInt8 := by decide
  have atSign : 0 ≠ '@'.toUInt8 := by decide
  unfold userText
  split_ifs
  · simp only [List.mem_append, List.mem_cons, List.not_mem_nil, noUser, noPassword, colon,
      atSign, or_self, not_false_eq_true]
  · simp only [List.mem_append, List.mem_cons, List.not_mem_nil, noUser, atSign, or_self,
      not_false_eq_true]
  · exact List.not_mem_nil

theorem zero_not_mem_portText (uri : Uri) : 0 ∉ uri.portText := by
  have colon : 0 ≠ ':'.toUInt8 := by decide
  have noDigits := zero_not_mem_of_class uri.isDigit_portDigits (by decide)
  rcases uri.portText_eq with ⟨_, nothing, _⟩ | ⟨_, shown, _⟩
  · rw [nothing]
    exact List.not_mem_nil
  · rw [shown, List.mem_cons, not_or]
    exact ⟨colon, noDigits⟩

theorem zero_mem_queryText : 0 ∈ uri.queryText ↔ 0 ∈ uri.query := by
  have mark : 0 ≠ '?'.toUInt8 := by decide
  unfold queryText
  split
  next => rw [List.mem_cons, or_iff_right mark]
  next unset => rw [not_not.mp unset]

theorem zero_mem_fragmentText : 0 ∈ uri.fragmentText ↔ 0 ∈ uri.fragment := by
  have mark : 0 ≠ '#'.toUInt8 := by decide
  unfold fragmentText
  split
  next => rw [List.mem_cons, or_iff_right mark]
  next unset => rw [not_not.mp unset]

/-- What a parsed URI keeps of the text. -/
structure KeptOf (uri : Uri) (text : Bytes) : Prop where
  scheme : ∀ ch ∈ uri.scheme, nameChar ch = true
  user : ∀ ch ∈ uri.user, nameChar ch = true
  password : ∀ ch ∈ uri.password, wordChar ch = true
  host : ∀ ch ∈ uri.host, hostChar ch = true
  behind : uri.path ⊆ text ∧ uri.query ⊆ text ∧ uri.fragment ⊆ text

/-- Only behind the authority can a byte of zero stand. -/
theorem KeptOf.zero_not_mem_iff {text : Bytes} (kept : uri.KeptOf text) :
    0 ∉ uri.operatorString ↔ 0 ∉ uri.path ∧ 0 ∉ uri.query ∧ 0 ∉ uri.fragment := by
  have userText := zero_not_mem_userText kept.user kept.password
  have host := zero_not_mem_of_class kept.host (by decide)
  have authority :
      0 ∉ (if uri.host ≠ [] then uri.userText ++ (uri.host ++ uri.portText) else []) := by
    split
    · simp only [List.mem_append, userText, host, zero_not_mem_portText, or_self,
        not_false_eq_true]
    · exact List.not_mem_nil
  rw [operatorString, List.mem_append, List.mem_append, List.mem_append, List.mem_append,
    or_iff_right (zero_not_mem_schemeText kept.scheme), or_iff_right authority,
    zero_mem_queryText, zero_mem_fragmentText, not_or, not_or]

end Uri

namespace UriParts

/-- The URI of the parts, on another host. -/
def uriAt (parts : UriParts) (host : Bytes) : Uri := { parts.uri with host }

variable {parts : UriParts} {host text : Bytes}

theorem lastsAt_of_readable (fits : parts.PortFits)
    (readable : (parts.uriAt host).Readable) : parts.LastsAt host where
  isHost := readable.host
  userHost := readable.userHost
  zeroPort := by
    intro zero
    have portless : (parts.uriAt host).port = 0 := (port_eq_zero_iff fits).mpr zero
    have noHost := readable.noHost
    have noUserinfo := readable.noUserinfo
    have noScheme := readable.noScheme
    rw [Uri.portText_nil portless, List.nil_append] at noHost noUserinfo noScheme
    refine ⟨noHost, readable.noPort portless, fun userless => ⟨noUserinfo userless, ?_⟩⟩
    intro schemeless
    rw [Uri.userText_nil userless] at noScheme
    exact noScheme schemeless
  port := by
    intro shown
    have port : (parts.uriAt host).port ≠ 0 := mt (port_eq_zero_iff fits).mp shown
    have hosted : host ≠ [] := readable.portHost port
    refine ⟨hosted, fun userless => ?_⟩
    exact mt (Uri.hasUserinfo_written_iff readable.host hosted port).mpr
      (readable.noUserinfo userless)

theorem Reads.readable_of_lastsAt (reads : parts.Reads text) (whole : ¬BrokenFragment text)
    (fits : parts.PortFits) (lasts : parts.LastsAt host) : (parts.uriAt host).Readable := by
  have zeroIff : (parts.uriAt host).port = 0 ↔ Decimal.read parts.port = 0 := port_eq_zero_iff fits
  have noUserinfo : parts.user = [] →
      ¬HasUserinfo (host ++ ((parts.uriAt host).portText ++ parts.path)) := by
    intro userless
    by_cases zero : (parts.uriAt host).port = 0
    · rw [Uri.portText_nil zero, List.nil_append]
      exact ((lasts.zeroPort (zeroIff.mp zero)).2.2 userless).1
    · obtain ⟨hosted, notUser⟩ := lasts.port (mt zeroIff.mpr zero)
      have written : HasUserinfo (host ++ ((parts.uriAt host).portText ++ parts.path)) ↔ _ :=
        Uri.hasUserinfo_written_iff lasts.isHost hosted zero
      exact mt written.mp (notUser userless)
  have noHost : Stops hostChar ((parts.uriAt host).portText ++ parts.path) := by
    rcases (parts.uriAt host).portText_eq with ⟨zero, nothing, _⟩ | ⟨_, shown, _⟩
    · rw [nothing]
      exact (lasts.zeroPort (zeroIff.mp zero)).1
    · rw [shown]
      exact stops_cons (by decide)
  exact
    { scheme := reads.scheme
      user := reads.user
      password := reads.password
      passwordUser := reads.passwordUser
      host := lasts.isHost
      userHost := lasts.userHost
      portHost := fun port => (lasts.port (mt zeroIff.mpr port)).1
      path := reads.path
      query := reads.query
      fragment := reads.fragment whole
      noScheme := fun schemeless =>
        Uri.not_hasScheme_front reads.user reads.password lasts.isHost
          (or_iff_not_imp_left.mpr (mt reads.passwordUser.mp))
          fun userless zero => ((lasts.zeroPort (zeroIff.mp zero)).2.2 userless).2 schemeless
      noUserinfo
      noHost
      noPort := fun zero => (lasts.zeroPort (zeroIff.mp zero)).2.1
      noDigit := fun port => by
        refine reads.noDigit fun portless => port (zeroIff.mpr ?_)
        rw [portless]
        rfl }

end UriParts

/-- The URI of a link is that of its parts, on the host of the page if it has none. -/
theorem downloadUri_cases {mHost text : Bytes} {uri : Uri}
    (asked : downloadUri mHost text = .ok uri) :
    (BrokenFragment text ∧ uri = { host := mHost }) ∨
      ¬BrokenFragment text ∧ (UriParts.split text).PortFits ∧
        uri = (UriParts.split text).uriAt (if (UriParts.split text).host = [] then mHost
          else (UriParts.split text).host) := by
  rw [downloadUri, parse_eq] at asked
  generalize UriParts.split text = parts at asked ⊢
  split_ifs at asked with broken fits
  · exact .inl ⟨broken, (Except.ok.inj asked).symm⟩
  · refine .inr ⟨broken, fits, (Except.ok.inj asked).symm.trans ?_⟩
    by_cases hostless : parts.host = []
    · rw [if_pos hostless]
      exact if_pos hostless
    · rw [if_neg hostless]
      exact if_neg hostless
  · contradiction

/-- The host of a page stands alone where the text of a link is broken. -/
theorem readable_host_iff {host : Bytes} :
    Uri.Readable { host } ↔ ∀ ch ∈ host, hostChar ch = true := by
  refine ⟨Uri.Readable.host, fun isHost => ?_⟩
  have written : Uri.Writable { host } :=
    { scheme := List.forall_mem_nil _
      user := List.forall_mem_nil _
      password := List.forall_mem_nil _
      host := isHost
      path := List.forall_mem_nil _
      query := List.forall_mem_nil _
      passwordUser := fun password => absurd rfl password
      userHost := fun user => absurd rfl user
      portHost := fun port => absurd rfl port
      pathSlash := .inl rfl
      fragment := ⟨List.not_mem_nil, List.not_mem_nil⟩ }
  exact written.readable (.inl rfl)

theorem keptOf_of_parse {text : Bytes} {uri : Uri} (parsed : Uri.parse text = .ok uri) :
    uri.KeptOf text := by
  have reads := UriParts.reads_split text
  have behind := UriParts.split_subset text
  rw [parse_eq] at parsed
  generalize UriParts.split text = parts at parsed reads behind
  split_ifs at parsed
  · cases Except.ok.inj parsed
    exact ⟨List.forall_mem_nil _, List.forall_mem_nil _, List.forall_mem_nil _,
      List.forall_mem_nil _, List.nil_subset _, List.nil_subset _, List.nil_subset _⟩
  · cases Except.ok.inj parsed
    exact ⟨reads.scheme, reads.user, reads.password, reads.host, behind⟩

/-- curl is given text without a byte of zero, so that a URI with one is cut short. -/
theorem parse_cString_iff (uri : Uri) : Uri.parse (cString uri.operatorString) = .ok uri ↔
    (0 ∉ uri.path ∧ 0 ∉ uri.query ∧ 0 ∉ uri.fragment) ∧ uri.Readable := by
  rw [← Uri.parse_operatorString_readable]
  constructor
  · intro parsed
    have kept := keptOf_of_parse parsed
    have absent := zero_not_mem_cString uri.operatorString
    have behind : 0 ∉ uri.path ∧ 0 ∉ uri.query ∧ 0 ∉ uri.fragment :=
      ⟨fun zero => absent (kept.behind.1 zero), fun zero => absent (kept.behind.2.1 zero),
        fun zero => absent (kept.behind.2.2 zero)⟩
    have whole := kept.zero_not_mem_iff.mpr behind
    rw [cString_eq_self_iff.mpr whole] at parsed
    exact ⟨behind, parsed⟩
  · rintro ⟨behind, parsed⟩
    have kept := keptOf_of_parse parsed
    have whole := kept.zero_not_mem_iff.mpr behind
    rw [cString_eq_self_iff.mpr whole]
    exact parsed

/-- The header names a host of the characters of hosts as it stands. -/
theorem hostHeader_eq {dl : Download} (isHost : ∀ ch ∈ dl.mUri.host, hostChar ch = true) :
    dl.request.hostHeader = bytes "Host: " ++ dl.mUri.host := by
  refine cString_eq_self_iff.mpr ?_
  rw [List.mem_append, not_or]
  exact ⟨by decide, zero_not_mem_of_class isHost (by decide)⟩

/-- Of a link `:80@evil/x` on the host `h`, the header names `h`, and the URL another host. -/
example :
    let dl : Download :=
      { mUri := { host := bytes "h", port := 80, path := bytes "@evil/x" }, mFilename := [] }
    downloadUri (bytes "h") (bytes ":80@evil/x") = .ok dl.mUri ∧
      dl.request.hostHeader = bytes "Host: h" ∧
      (Uri.parse dl.request.url).toOption.map Uri.host = some (bytes "evil") := by
  decide

end FastCrawl
