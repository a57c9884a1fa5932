import FastCrawl.Uri.Split
import FastCrawl.Crawler.Outline

namespace FastCrawl

open Scanning

/-! What is asked for when a page refers to content without naming a host. -/

variable {attributes : AttributeMap}

/-- The host of a crawler is a constant. -/
def KeepsHost (body : LoopBody) : Prop :=
  ∀ ch crawler flow, body ch crawler = .ok flow → flow.state.host = crawler.host

theorem state_atEndOfScope_host (ch : UInt8) (flow : Flow HtmlCrawler) :
    (flow.atEndOfScope (HtmlTag.setLastCh ch)).state.host = flow.state.host := by
  cases flow <;> rfl

theorem ascend_host (crawler : HtmlCrawler) : (HtmlTag.ascend crawler).host = crawler.host := rfl

theorem descend_host (ch : UInt8) (crawler : HtmlCrawler) :
    (HtmlTag.descend ch crawler).host = crawler.host := rfl

theorem crawlBody_keepsHost : KeepsHost HtmlDoc.crawlBody := by
  intro ch crawler flow ran
  simp only [HtmlDoc.crawlBody] at ran
  split at ran <;> cases ran <;> rfl

theorem crawlSkippedBody_keepsHost : KeepsHost HtmlTag.crawlSkippedBody := by
  intro ch crawler flow ran
  simp only [HtmlTag.crawlSkippedBody, Except.ok.injEq] at ran
  rw [← ran, state_atEndOfScope_host]
  simp only [apply_ite Flow.state, apply_ite HtmlCrawler.host, Flow.state_next, Flow.state_leave,
    ascend_host, ite_self]
  rfl

theorem crawlAttrsBody_keepsHost : KeepsHost (HtmlTag.crawlAttrsBody attributes) := by
  intro ch crawler flow ran
  simp only [HtmlTag.crawlAttrsBody, Except.ok.injEq] at ran
  rw [← ran, state_atEndOfScope_host]
  simp only [apply_ite Flow.state, apply_ite HtmlCrawler.host, Flow.state_next, Flow.state_leave,
    ascend_host, descend_host, ite_self]
  rfl

theorem process_host {crawler after : HtmlCrawler}
    (processed : HtmlElementAttribute.process crawler = .ok after) :
    after.host = crawler.host := by
  unfold HtmlElementAttribute.process at processed
  split at processed
  · contradiction
  · split at processed <;> cases processed <;> rfl

theorem elementAttribute_keepsHost : KeepsHost HtmlElementAttribute.crawlBody := by
  intro ch crawler flow ran
  have finished {leave : HtmlCrawler → Flow HtmlCrawler}
      (kept : ∀ crawler, (leave crawler).state.host = crawler.host)
      (ended : (HtmlElementAttribute.process (crawler.updatePosition ch)).map leave = .ok flow) :
      flow.state.host = crawler.host := by
    cases processed : HtmlElementAttribute.process (crawler.updatePosition ch) with
    | error failure =>
        rw [processed] at ended
        contradiction
    | ok after =>
        rw [processed] at ended
        cases ended
        rw [kept, process_host processed]
        rfl
  simp only [HtmlElementAttribute.crawlBody] at ran
  split_ifs at ran
  all_goals first
    | exact finished (fun _ => rfl) ran
    | (cases ran; rfl)

theorem HtmlCrawler.step_host {crawler after : HtmlCrawler} {ch : UInt8}
    (stepped : crawler.step attributes ch = .ok after) : after.host = crawler.host := by
  have keeps : KeepsHost (CrawlLoop.body attributes crawler.currentLoop) := by
    cases crawler.currentLoop with
    | doc => exact crawlBody_keepsHost
    | tagSkipped => exact crawlSkippedBody_keepsHost
    | tagAttrs => exact crawlAttrsBody_keepsHost
    | elementAttr => exact elementAttribute_keepsHost
  unfold HtmlCrawler.step Loops.step at stepped
  cases ran : (crawlLoops attributes).body ((crawlLoops attributes).select crawler) ch crawler with
  | error failure =>
      rw [ran] at stepped
      contradiction
  | ok flow =>
      rw [ran] at stepped
      cases stepped
      exact keeps ch crawler flow ran

theorem HtmlCrawler.callAll_host {crawler after : HtmlCrawler} {chunks : List Bytes}
    (called : crawler.callAll attributes chunks = .ok after) : after.host = crawler.host := by
  rw [HtmlCrawler.callAll_eq_foldlM] at called
  generalize chunks.flatten = data at called
  induction data generalizing crawler with
  | nil =>
      cases called
      rfl
  | cons ch rest ih =>
      rw [List.foldlM_cons] at called
      cases stepped : crawler.step attributes ch with
      | error failure =>
          rw [stepped] at called
          contradiction
      | ok middle =>
          rw [stepped] at called
          rw [ih called, HtmlCrawler.step_host stepped]

/-- A relative reference without an authority.  Characters that no URI has are not
excluded, but for line breaks in the fragment. -/
structure RelativeReference where
  path : Bytes
  query : Option Bytes
  fragment : Option Bytes
  pathChars : ∀ ch ∈ path, pathChar ch = true
  noAuthority : ¬bytes "//" <+: path
  noScheme : ':'.toUInt8 ∉ path.takeWhile fun ch => ch ≠ '/'.toUInt8
  queryChars : ∀ text ∈ query, ∀ ch ∈ text, queryChar ch = true
  fragmentChars : ∀ text ∈ fragment, ∀ ch ∈ text, lineBreak ch = false

namespace RelativeReference

variable (reference : RelativeReference)

/-- What follows the path. -/
def tail : Bytes :=
  (reference.query.map fun text => '?'.toUInt8 :: text).getD [] ++
    (reference.fragment.map fun text => '#'.toUInt8 :: text).getD []

def text : Bytes := reference.path ++ reference.tail

theorem stops_tail {member : UInt8 → Bool} (question : member '?'.toUInt8 = false)
    (hash : member '#'.toUInt8 = false) : Stops member reference.tail := by
  unfold tail
  cases reference.query with
  | some query => exact stops_cons question
  | none =>
      cases reference.fragment with
      | some fragment => exact stops_cons hash
      | none => exact stops_nil

theorem not_brokenFragment : ¬BrokenFragment reference.text := by
  rw [text, brokenFragment_append fun ch member => pathChar_queryChar ch
    (reference.pathChars ch member), tail]
  have queryText : ∀ ch ∈ (reference.query.map fun text => '?'.toUInt8 :: text).getD [],
      queryChar ch = true := by
    intro ch member
    cases query : reference.query with
    | none => simp [query] at member
    | some text =>
        rw [query] at member
        rcases List.mem_cons.mp member with rfl | inText
        · decide
        · exact reference.queryChars text query ch inText
  rw [brokenFragment_append queryText]
  cases fragment : reference.fragment with
  | none => simp [BrokenFragment]
  | some text =>
      rw [Option.map_some, Option.getD_some, brokenFragment_cons_hash]
      intro broken
      obtain ⟨ch, member, isBreak⟩ := broken
      rw [reference.fragmentChars text fragment ch member] at isBreak
      contradiction

/-- The first colon of a relative reference comes after a slash. -/
theorem stops_dropWhile {member : UInt8 → Bool}
    (inPath : ∀ ch, member ch = true → pathChar ch = true)
    (slash : member '/'.toUInt8 = false) :
    Stops (· == ':'.toUInt8) (reference.text.dropWhile member) := by
  intro ch first
  by_contra colon
  have isColon : ch = ':'.toUInt8 := by simpa using colon
  subst isColon
  obtain ⟨more, dropped⟩ : ∃ more, reference.text.dropWhile member = ':'.toUInt8 :: more := by
    cases shape : reference.text.dropWhile member with
    | nil => simp [shape] at first
    | cons head more =>
        rw [shape] at first
        cases first
        exact ⟨more, rfl⟩
  have members : ∀ ch ∈ reference.text.takeWhile member, member ch = true :=
    fun ch taken => List.all_eq_true.mp List.all_takeWhile ch taken
  have split : reference.path ++ reference.tail =
      (reference.text.takeWhile member ++ [':'.toUInt8]) ++ more := by
    rw [List.append_assoc, List.singleton_append, ← dropped, List.takeWhile_append_dropWhile, text]
  have areInPath : ∀ ch ∈ reference.text.takeWhile member ++ [':'.toUInt8], pathChar ch = true := by
    intro ch taken
    rcases List.mem_append.mp taken with inRun | isColon
    · exact inPath ch (members ch inRun)
    · rw [List.mem_singleton.mp isColon]
      decide
  have noSlash : ∀ ch ∈ reference.text.takeWhile member ++ [':'.toUInt8],
      decide (ch ≠ '/'.toUInt8) = true := by
    intro ch taken
    rcases List.mem_append.mp taken with inRun | isColon
    · refine decide_eq_true ?_
      intro isSlash
      subst isSlash
      exact absurd (members _ inRun) (by simp [slash])
    · rw [List.mem_singleton.mp isColon]
      decide
  have wholePath : reference.path = (reference.path ++ reference.tail).takeWhile pathChar :=
    (takeWhile_append_stops reference.pathChars
      (reference.stops_tail (by decide) (by decide))).symm
  refine reference.noScheme ?_
  rw [wholePath, split, List.takeWhile_append_of_pos areInPath,
    List.takeWhile_append_of_pos noSlash]
  simp

/-- A relative reference is split into the host that its first bytes spell and the
rest of its path. -/
theorem split_text :
    (UriParts.split reference.text).scheme = [] ∧ (UriParts.split reference.text).port = [] ∧
      (UriParts.split reference.text).host = reference.text.takeWhile hostChar ∧
      reference.path =
        reference.text.takeWhile hostChar ++ (UriParts.split reference.text).path := by
  have names : Stops (· == ':'.toUInt8) (reference.text.dropWhile nameChar) :=
    reference.stops_dropWhile (fun _ isName => pathChar_of_hostChar (hostChar_of_nameChar isName))
      (by decide)
  have hosts : Stops (· == ':'.toUInt8) (reference.text.dropWhile hostChar) :=
    reference.stops_dropWhile (fun _ => pathChar_of_hostChar) (by decide)
  have noScheme : ({ rest := reference.text } : UriParts).splitScheme = { rest := reference.text } :=
    if_neg fun taken => not_prefix_of_stops names taken.2
  have noUserinfo :
      ({ rest := reference.text } : UriParts).splitUserinfo = { rest := reference.text } :=
    if_neg fun taken => not_prefix_of_stops names taken.2.1
  have splitHost : ({ rest := reference.text } : UriParts).splitHost =
      { rest := reference.text.dropWhile hostChar, host := reference.text.takeWhile hostChar } := by
    by_cases hostless : reference.text.takeWhile hostChar = []
    · rw [UriParts.splitHost, if_neg (not_not.mpr hostless)]
      have whole := List.takeWhile_append_dropWhile (p := hostChar) (l := reference.text)
      rw [hostless, List.nil_append] at whole
      simp only [hostless, whole]
    · exact if_pos hostless
  have noPort : ({ rest := reference.text.dropWhile hostChar
                   host := reference.text.takeWhile hostChar } : UriParts).splitPort =
      { rest := reference.text.dropWhile hostChar, host := reference.text.takeWhile hostChar } :=
    if_neg fun taken => not_prefix_of_stops hosts taken.1
  have kept (parts : UriParts) :
      parts.splitQuery.splitFragment.scheme = parts.scheme ∧
        parts.splitQuery.splitFragment.port = parts.port ∧
        parts.splitQuery.splitFragment.path = parts.path := by
    unfold UriParts.splitFragment UriParts.splitQuery
    split <;> split <;> exact ⟨rfl, rfl, rfl⟩
  have wholePath : reference.text.takeWhile pathChar = reference.path :=
    takeWhile_append_stops reference.pathChars (reference.stops_tail (by decide) (by decide))
  have areInPath : ∀ ch ∈ reference.text.takeWhile hostChar, pathChar ch = true :=
    fun ch taken => pathChar_of_hostChar (List.all_eq_true.mp List.all_takeWhile ch taken)
  rw [UriParts.split, noScheme, noUserinfo, splitHost, noPort, (kept _).1, (kept _).2.1,
    (kept _).2.2, UriParts.splitFragment_host, UriParts.splitQuery_host]
  refine ⟨rfl, rfl, rfl, ?_⟩
  rw [← wholePath, UriParts.splitPath, ← List.takeWhile_append_of_pos areInPath,
    List.takeWhile_append_dropWhile]

theorem parse_text :
    Uri.parse reference.text = .ok (UriParts.split reference.text).uri := by
  have fits : (UriParts.split reference.text).PortFits := by
    rw [UriParts.PortFits, reference.split_text.2.1]
    decide
  rw [parse_eq, if_neg reference.not_brokenFragment, if_pos fits]

theorem takeWhile_host_eq_nil_iff :
    reference.text.takeWhile hostChar = [] ↔
      ∀ ch, reference.text.head? = some ch → hostChar ch = false := by
  constructor
  · intro hostless ch first
    cases shape : reference.text with
    | nil => simp [shape] at first
    | cons head rest =>
        rw [shape] at first hostless
        cases first
        by_contra isHost
        rw [Bool.not_eq_false] at isHost
        simp [isHost] at hostless
  · exact Stops.takeWhile

end RelativeReference

/-- A relative reference is fetched from the place of the page exactly when the page
was named by its host alone and the reference does not begin with a character
that a host can have: only an empty host is filled in, and neither the scheme
nor the port is passed on to the crawler. -/
theorem relative_reference_iff (start : Uri) {chunks : List Bytes} {crawler : HtmlCrawler}
    (fed : (HtmlCrawler.new start.host).callAll sAttributeMap chunks = .ok crawler)
    (reference : RelativeReference) :
    (∃ uri, downloadUri crawler.host reference.text = .ok uri ∧ uri.host = start.host ∧
      uri.scheme = start.scheme ∧ uri.port = start.port ∧ reference.path <:+ uri.path) ↔
    start.scheme = [] ∧ start.port = 0 ∧
      ∀ ch, reference.text.head? = some ch → hostChar ch = false := by
  have host : crawler.host = start.host := HtmlCrawler.callAll_host fed
  obtain ⟨scheme, port, captured, path⟩ := reference.split_text
  have noPort : (UriParts.split reference.text).uri.port = 0 := by
    rw [UriParts.uri, port]
    rfl
  rw [← reference.takeWhile_host_eq_nil_iff, downloadUri, reference.parse_text, host]
  generalize UriParts.split reference.text = parts at *
  have filled : (if parts.uri.host = [] then { parts.uri with host := start.host }
      else parts.uri).path = parts.path ∧
      (if parts.uri.host = [] then { parts.uri with host := start.host }
        else parts.uri).scheme = [] ∧
      (if parts.uri.host = [] then { parts.uri with host := start.host }
        else parts.uri).port = 0 := by
    split <;> exact ⟨rfl, scheme, noPort⟩
  simp only [Except.map, Except.ok.injEq, exists_eq_left', filled]
  constructor
  · intro kept
    obtain ⟨_, sameScheme, samePort, isSuffix⟩ := kept
    refine ⟨sameScheme.symm, samePort.symm, ?_⟩
    have shorter := isSuffix.length_le
    have lengths := congrArg List.length path
    rw [List.length_append] at lengths
    exact List.eq_nil_of_length_eq_zero (by omega)
  · intro conditions
    obtain ⟨noScheme, noStartPort, hostless⟩ := conditions
    have empty : parts.uri.host = [] := captured.trans hostless
    rw [hostless, List.nil_append] at path
    rw [if_pos empty, noScheme, noStartPort, path]
    exact ⟨rfl, rfl, rfl, List.suffix_rfl⟩

/-- `/img/x.png` -/
def absoluteReference : RelativeReference where
  path := bytes "/img/x.png"
  query := none
  fragment := none
  pathChars := List.all_eq_true.mp (by decide)
  noAuthority := by decide
  noScheme := by decide
  queryChars := by simp
  fragmentChars := by simp

/-- `img/x.png` -/
def pathReference : RelativeReference where
  path := bytes "img/x.png"
  query := none
  fragment := none
  pathChars := List.all_eq_true.mp (by decide)
  noAuthority := by decide
  noScheme := by decide
  queryChars := by simp
  fragmentChars := by simp

theorem relative_reference_iff_absolute :
    (∃ uri, downloadUri (bytes "host") absoluteReference.text = .ok uri ∧
      uri.host = bytes "host" ∧ uri.scheme = [] ∧ uri.port = 0 ∧
      absoluteReference.path <:+ uri.path) ↔
    ([] : Bytes) = [] ∧ (0 : UInt16) = 0 ∧
      ∀ ch, absoluteReference.text.head? = some ch → hostChar ch = false := by
  have fed : (HtmlCrawler.new (bytes "host")).callAll sAttributeMap [] =
      .ok (HtmlCrawler.new (bytes "host")) := rfl
  exact relative_reference_iff { host := bytes "host" } fed absoluteReference

/-- `img/x.png` on a page of `http://host` is fetched from the host `img`. -/
theorem path_reference_leaves_host :
    ¬ ∀ (start : Uri) (chunks : List Bytes) (crawler : HtmlCrawler)
      (reference : RelativeReference), start.host ≠ [] →
      (HtmlCrawler.new start.host).callAll sAttributeMap chunks = .ok crawler →
      ∃ uri, downloadUri crawler.host reference.text = .ok uri ∧ uri.host = start.host ∧
        uri.scheme = start.scheme ∧ uri.port = start.port ∧ reference.path <:+ uri.path := by
  intro stays
  obtain ⟨uri, downloaded, host, _⟩ :=
    stays { scheme := bytes "http", host := bytes "host" } [] _ pathReference (by decide) rfl
  have parsed : downloadUri (bytes "host") pathReference.text =
      .ok { host := bytes "img", path := bytes "/x.png" } := by decide
  have sameUri := downloaded.symm.trans parsed
  cases sameUri
  contradiction

end FastCrawl
