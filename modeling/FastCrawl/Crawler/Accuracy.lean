import Mathlib.Data.List.DropRight
import FastCrawl.Crawler.CurrentTag
import FastCrawl.Crawler.Downloads
import FastCrawl.Crawler.Tags

namespace FastCrawl

open Automata

/-! The places that calls of `process_uri` report, read off the content: each is
that of the quote that opened the value. -/

variable {attributes : AttributeMap}

/-- The part of a content behind its last newline. -/
def lastLine (content : Bytes) : Bytes := content.rtakeWhile fun ch => ch != '\n'.toUInt8

theorem locate_line (content : Bytes) :
    (locate content).line = 1 + content.count '\n'.toUInt8 := by
  induction content using List.reverseRecOn with
  | nil => rfl
  | append_singleton content ch ih =>
      rw [locate_append, Location.advance, List.count_append, List.count_singleton]
      by_cases newline : ch = '\n'.toUInt8
      · rw [if_pos newline, newline, beq_self_eq_true, if_pos rfl]
        exact congrArg Nat.succ ih
      · rw [if_neg newline, beq_eq_false_iff_ne.mpr newline, if_neg Bool.false_ne_true]
        exact ih

theorem locate_column (content : Bytes) :
    (locate content).column = (lastLine content).length := by
  induction content using List.reverseRecOn with
  | nil => rfl
  | append_singleton content ch ih =>
      rw [locate_append, Location.advance, lastLine, List.rtakeWhile_concat]
      by_cases newline : ch = '\n'.toUInt8
      · rw [if_pos newline, newline, bne_self_eq_false, if_neg Bool.false_ne_true]
        rfl
      · rw [if_neg newline, bne_iff_ne.mpr newline, if_pos rfl, List.length_append, ← lastLine,
          ← ih]
        rfl

theorem locate_quote (before : Bytes) {quote : UInt8} (isQuote : quoteMark quote = true) :
    (locate (before ++ [quote])).line = 1 + before.count '\n'.toUInt8 ∧
      (locate (before ++ [quote])).column = 1 + (lastLine before).length := by
  have sameLine : quote ≠ '\n'.toUInt8 := ne_of_class isQuote (by decide)
  rw [locate_append, Location.advance, if_neg sameLine, ← locate_line, ← locate_column]
  exact ⟨rfl, Nat.add_comm _ _⟩

namespace Segment

variable {π : Type} {tag : Registered attributes} {name : Bytes}

/-- A value has just been opened, or goes on. -/
theorem next_opened {segment : Segment attributes π} {ch : UInt8} {here : π} {opened : Opened π}
    (next : segment.next ch here = .attr tag name (some opened)) :
    (segment = .attr tag name none ∧ opened.quote = ch ∧ opened.place = here ∧
      opened.value = []) ∨
    ∃ before, segment = .attr tag name (some before) ∧ opened.quote = before.quote ∧
      opened.place = before.place ∧ opened.value = before.value ++ storedValue [ch] := by
  cases segment with
  | doc =>
      simp only [Segment.next] at next
      split at next <;> contradiction
  | elementName written =>
      have placed := congrArg place next
      simp only [Segment.next, apply_ite place, place_ofElement] at placed
      simp [place] at placed
  | tagBody other =>
      have placed := congrArg place next
      simp only [Segment.next, apply_ite place] at placed
      simp [place] at placed
  | skipped skipping =>
      simp only [Segment.next] at next
      split at next <;> contradiction
  | attr other written before =>
      cases before with
      | none =>
          simp only [Segment.next] at next
          split_ifs at next
          all_goals cases next
          exact .inl ⟨rfl, rfl, rfl, rfl⟩
      | some before =>
          simp only [Segment.next] at next
          split_ifs at next with greater equals closing
          all_goals cases next
          · refine .inr ⟨_, rfl, rfl, rfl, ?_⟩
            rw [equals]
            exact (List.append_nil _).symm
          · refine .inr ⟨_, rfl, rfl, rfl, ?_⟩
            have stored : storedValue [ch] = [ch] := by
              rw [storedValue_eq_self, List.mem_singleton]
              exact Ne.symm equals
            rw [stored]
            rfl

theorem report_value {opened : Option (Opened π)} {ch : UInt8} {report : Report π}
    (reported : (attr tag name opened).report ch = some report) :
    report.value = (opened.map Opened.value).getD [] := by
  have finished : finish tag name opened = some report := by
    simp only [Segment.report] at reported
    split_ifs at reported
    · exact reported
    · exact reported
  unfold finish at finished
  split at finished
  · cases finished
    rfl
  · contradiction

theorem opened_of_place {segment : Segment attributes π} {here : π}
    (placed : segment.place = some here) :
    ∃ tag name opened, segment = .attr tag name (some opened) ∧ opened.place = here := by
  cases segment with
  | attr tag name opened =>
      obtain ⟨found, rfl, same⟩ := Option.map_eq_some_iff.mp placed
      exact ⟨tag, name, found, rfl, same⟩
  | _ => contradiction

end Segment

def cursorAfter (attributes : AttributeMap) (content : Bytes) : Cursor attributes :=
  (segmenter attributes).run (Cursor.start attributes) content

theorem cursorAfter_append (content : Bytes) (ch : UInt8) :
    (cursorAfter attributes (content ++ [ch])).segment =
      (cursorAfter attributes content).segment.next ch (locate (content ++ [ch])) := by
  have follows : (cursorAfter attributes content).Follows content := Cursor.follows_run content
  rw [cursorAfter, Mealy.run_append, locate_append, ← follows.location]
  rfl

/-- A value is opened by the quote behind `before` and goes on through `between`. -/
structure Opened.Spans (opened : Opened Location) (tag : Registered attributes)
    (name before between : Bytes) : Prop where
  place : opened.place = locate (before ++ [opened.quote])
  value : opened.value = storedValue between
  unopened : (cursorAfter attributes before).segment = .attr tag name none
  goesOn : ∀ initial, initial <+: between → ∃ shown : Opened Location,
    (cursorAfter attributes (before ++ opened.quote :: initial)).segment =
      .attr tag name (some shown) ∧ shown.quote = opened.quote

theorem opened_spans {content name : Bytes} {tag : Registered attributes}
    {opened : Opened Location}
    (segment : (cursorAfter attributes content).segment = .attr tag name (some opened)) :
    ∃ before between, content = before ++ opened.quote :: between ∧
      opened.Spans tag name before between := by
  induction content using List.reverseRecOn generalizing opened with
  | nil => contradiction
  | append_singleton content ch ih =>
      have next := segment
      rw [cursorAfter_append] at next
      rcases Segment.next_opened next with ⟨earlier, quote, place, value⟩ |
        ⟨earlier, segmentEarlier, quote, place, value⟩
      · refine ⟨content, [], by rw [quote], ?_⟩
        refine ⟨by rw [place, quote], value, earlier, ?_⟩
        intro initial isPrefix
        rw [List.prefix_nil.mp isPrefix, quote]
        exact ⟨opened, segment, quote⟩
      · obtain ⟨before, between, same, spans⟩ := ih segmentEarlier
        refine ⟨before, between ++ [ch], by rw [same, quote, List.append_assoc]; rfl, ?_⟩
        refine ⟨?_, ?_, spans.unopened, ?_⟩
        · rw [place, quote, spans.place]
        · rw [value, spans.value, storedValue, storedValue, storedValue, List.filter_append]
        · intro initial isPrefix
          rw [quote]
          rcases List.prefix_concat_iff.mp isPrefix with rfl | shorter
          · refine ⟨opened, ?_, quote⟩
            rw [← segment, same, List.append_assoc]
            rfl
          · exact spans.goesOn initial shorter

section Crawls

variable {host content : Bytes} {crawler : HtmlCrawler}

theorem CrawlsTo.document_iff (crawls : CrawlsTo attributes host content crawler) :
    crawler.currentNode = .doc ↔ (outline attributes).run .doc content = .doc := by
  obtain ⟨cursor, tracks, outlined⟩ := crawls.tracksOutline
  rw [tracks.document_iff, outlined]

theorem cursorAfter_outline (content : Bytes) :
    (cursorAfter attributes content).segment.outline = (outline attributes).run .doc content :=
  segmenter_hom_outline.run (Cursor.start attributes) content

theorem CrawlsTo.quote {tag : Registered attributes} {name : Bytes}
    {opened : Option (Opened Location)} (crawls : CrawlsTo attributes host content crawler)
    (segment : (cursorAfter attributes content).segment = .attr tag name opened) :
    crawler.elementAttr.quote = (opened.map Opened.quote).getD 0 := by
  have shows := crawls.tracks.1
  rw [← cursorAfter, segment] at shows
  obtain ⟨_, ⟨hasValue, attr⟩, _⟩ := shows
  rw [attr]
  cases opened with
  | none => rfl
  | some opened => rfl

end Crawls

/-- A quote in a content, the bytes behind it and the byte that makes a call. -/
structure Quoted where
  before : Bytes
  quote : UInt8
  between : Bytes
  trigger : UInt8

namespace Quoted

/-- What is read of the content when the call is made. -/
def pending (quoted : Quoted) : Bytes := quoted.before ++ quoted.quote :: quoted.between

/-- The quote opens a value that is open until `trigger` makes `call`, the first
one after those in `earlier`. -/
structure Makes (attributes : AttributeMap) (host : Bytes) (quoted : Quoted)
    (earlier : List ProcessUriCall) (call : ProcessUriCall) : Prop where
  isQuote : quoteMark quoted.quote = true
  unopened : ∃ crawler, CrawlsTo attributes host quoted.before crawler ∧
    crawler.elementAttr.quote = 0
  opened : ∀ initial, initial <+: quoted.between →
    ∃ crawler, CrawlsTo attributes host (quoted.before ++ quoted.quote :: initial) crawler ∧
      crawler.elementAttr.quote = quoted.quote
  before : ∃ crawler, CrawlsTo attributes host quoted.pending crawler ∧
    crawler.downloads.calls = earlier
  after : ∃ crawler, CrawlsTo attributes host (quoted.pending ++ [quoted.trigger]) crawler ∧
    crawler.downloads.calls = earlier ++ [call]

/-- The call is placed at the quote, which stands in the tag that is still being
read, and its value is read from the bytes behind the quote. -/
structure Places (attributes : AttributeMap) (host : Bytes) (quoted : Quoted)
    (call : ProcessUriCall) : Prop where
  line : call.line.toNat = 1 + quoted.before.count '\n'.toUInt8
  column : call.column.toNat = 1 + (lastLine quoted.before).length
  inTag : ∃ start inner, quoted.before = start ++ '<'.toUInt8 :: inner ∧
    (∃ crawler, CrawlsTo attributes host start crawler ∧ crawler.currentNode = .doc) ∧
    ∀ initial, initial <+: inner ++ quoted.quote :: quoted.between →
      ∃ crawler, CrawlsTo attributes host (start ++ '<'.toUInt8 :: initial) crawler ∧
        crawler.currentNode ≠ .doc
  inOrder : call.uriStr.Sublist quoted.between

end Quoted

/-- The tag in which a value is opened goes on while the value is read. -/
theorem Opened.Spans.inTag {opened : Opened Location} {tag : Registered attributes}
    {name before between : Bytes} (spans : opened.Spans tag name before between) (host : Bytes) :
    ∃ start inner, before = start ++ '<'.toUInt8 :: inner ∧
      (∃ crawler, CrawlsTo attributes host start crawler ∧ crawler.currentNode = .doc) ∧
      ∀ initial, initial <+: inner ++ opened.quote :: between →
        ∃ crawler, CrawlsTo attributes host (start ++ '<'.toUInt8 :: initial) crawler ∧
          crawler.currentNode ≠ .doc := by
  have inside : (outline attributes).run .doc before ≠ .doc := by
    rw [← cursorAfter_outline, spans.unopened]
    exact Segment.inTag_attr tag name none
  obtain ⟨inner, current⟩ := currentTag_of_inTag inside
  obtain ⟨start, rfl, document, within⟩ := currentTag_spec current
  refine ⟨start, inner, rfl, ?_, ?_⟩
  · obtain ⟨crawler, crawls⟩ := crawlsTo_exists attributes host start
    exact ⟨crawler, crawls, crawls.document_iff.mpr document⟩
  · intro initial isPrefix
    obtain ⟨crawler, crawls⟩ := crawlsTo_exists attributes host (start ++ '<'.toUInt8 :: initial)
    refine ⟨crawler, crawls, crawls.document_iff.not.mpr ?_⟩
    rcases List.prefix_or_prefix_of_prefix isPrefix (List.prefix_append inner _) with
      shorter | longer
    · exact within initial shorter
    · obtain ⟨rest, rfl⟩ := longer
      rcases List.prefix_cons_iff.mp ((List.prefix_append_right_inj inner).mp isPrefix) with
        rfl | ⟨shown, rfl, shownPrefix⟩
      · rw [List.append_nil]
        exact within inner List.prefix_rfl
      · obtain ⟨opened', segment, _⟩ := spans.goesOn shown shownPrefix
        rw [List.append_assoc] at segment
        rw [← cursorAfter_outline, ← List.cons_append, segment]
        exact Segment.inTag_attr tag name _

/-- Places of calls in the order of the content. -/
def ProcessUriCall.Precedes (earlier later : ProcessUriCall) : Prop :=
  earlier.line < later.line ∨ earlier.line = later.line ∧ earlier.column < later.column

structure HtmlCrawler.PlacesAccurate (attributes : AttributeMap) (host content : Bytes)
    (crawler : HtmlCrawler) : Prop where
  placed : ∀ earlier call later, crawler.downloads.calls = earlier ++ call :: later →
    call.uriStr ≠ [] → ∃ (quoted : Quoted) (rest : Bytes),
      content = quoted.pending ++ quoted.trigger :: rest ∧
        quoted.Makes attributes host earlier call ∧ quoted.Places attributes host call
  increasing : (crawler.downloads.calls.filter fun call => call.uriStr ≠ []).Pairwise
    ProcessUriCall.Precedes

/-- A report with a value comes from a quote that is still open. -/
theorem report_quoted {content : Bytes} {ch : UInt8} {report : Report Location}
    (reported : (cursorAfter attributes content).segment.report ch = some report)
    (nonempty : report.value ≠ []) :
    ∃ (tag : Registered attributes) (name : Bytes) (opened : Opened Location)
        (before between : Bytes), content = before ++ opened.quote :: between ∧
      opened.Spans tag name before between ∧
      (cursorAfter attributes content).segment = .attr tag name (some opened) ∧
      report.place = some opened.place ∧ report.value = opened.value := by
  obtain ⟨samePlace, unplaced, _⟩ := Segment.report_place reported
  obtain ⟨here, placed⟩ := Option.ne_none_iff_exists'.mp (mt unplaced nonempty)
  obtain ⟨tag, name, opened, segment, same⟩ := Segment.opened_of_place (samePlace ▸ placed)
  obtain ⟨before, between, split, spans⟩ := opened_spans segment
  rw [segment] at reported
  refine ⟨tag, name, opened, before, between, split, spans, segment, ?_, ?_⟩
  · rw [placed, same]
  · exact Segment.report_value reported

section Spans

variable {opened : Opened Location} {tag : Registered attributes} {name before between : Bytes}
  {ch : UInt8} {report : Report Location}

theorem Opened.Spans.makes (spans : opened.Spans tag name before between)
    (reported : (cursorAfter attributes (before ++ opened.quote :: between)).segment.report ch =
      some report) (host : Bytes) :
    Quoted.Makes attributes host ⟨before, opened.quote, between, ch⟩
      ((reports attributes (before ++ opened.quote :: between)).map Report.call) report.call where
  isQuote := opened.isQuote
  unopened := by
    obtain ⟨crawler, crawls⟩ := crawlsTo_exists attributes host before
    exact ⟨crawler, crawls, crawls.quote spans.unopened⟩
  opened := by
    intro initial isPrefix
    obtain ⟨shown, segment, same⟩ := spans.goesOn initial isPrefix
    obtain ⟨crawler, crawls⟩ := crawlsTo_exists attributes host (before ++ opened.quote :: initial)
    exact ⟨crawler, crawls, (crawls.quote segment).trans same⟩
  before := by
    obtain ⟨crawler, crawls⟩ := crawlsTo_exists attributes host (before ++ opened.quote :: between)
    exact ⟨crawler, crawls, crawls.calls⟩
  after := by
    obtain ⟨crawler, crawls⟩ :=
      crawlsTo_exists attributes host (before ++ opened.quote :: between ++ [ch])
    have emitted : (segmenter attributes).emit
        (cursorAfter attributes (before ++ opened.quote :: between)) ch = some report := reported
    refine ⟨crawler, crawls, ?_⟩
    rw [crawls.calls, reports, Mealy.outputs_append, Mealy.outputs_cons, ← cursorAfter, emitted,
      List.map_append]
    rfl

theorem Opened.Spans.places (spans : opened.Spans tag name before between)
    (value : report.value = opened.value) (line : report.call.line.toNat = opened.place.line)
    (column : report.call.column.toNat = opened.place.column) (host : Bytes) :
    Quoted.Places attributes host ⟨before, opened.quote, between, ch⟩ report.call := by
  obtain ⟨quoteLine, quoteColumn⟩ := locate_quote before opened.isQuote
  refine ⟨?line, ?column, spans.inTag host, ?inOrder⟩
  case line => rw [line, spans.place, quoteLine]
  case column => rw [column, spans.place, quoteColumn]
  case inOrder =>
    have stored : report.call.uriStr = storedValue between := value.trans spans.value
    rw [stored]
    exact List.filter_sublist

end Spans

/-- The call of a report with a value, placed in the content it was read from. -/
theorem reports_quoted {content : Bytes} (short : content.length < 2 ^ 64)
    {before after : List (Report Location)} {report : Report Location}
    (split : reports attributes content = before ++ report :: after)
    (nonempty : report.value ≠ []) (host : Bytes) :
    ∃ (quoted : Quoted) (rest : Bytes), content = quoted.pending ++ quoted.trigger :: rest ∧
      quoted.Makes attributes host (before.map Report.call) report.call ∧
        quoted.Places attributes host report.call := by
  have member : report ∈ reports attributes content := by
    rw [split]
    exact List.mem_append_right before List.mem_cons_self
  obtain ⟨read, ch, rest, rfl, rfl, reported⟩ := Mealy.outputs_eq_append_cons split
  obtain ⟨tag, name, opened, start, between, rfl, spans, _, placed, value⟩ :=
    report_quoted reported nonempty
  obtain ⟨line, column, _⟩ := reports_place_exact short member placed
  exact ⟨⟨start, opened.quote, between, ch⟩, rest, rfl, spans.makes reported host,
    spans.places value line column host⟩

theorem reports_precede {content : Bytes} (short : content.length < 2 ^ 64)
    {first second : Report Location} (member : first ∈ reports attributes content)
    (member' : second ∈ reports attributes content) (nonempty : first.value ≠ [])
    (nonempty' : second.value ≠ [])
    (increase : ∀ place place', first.place = some place → second.place = some place' →
      place.key < place'.key) : first.call.Precedes second.call := by
  have placed {report : Report Location} (member : report ∈ reports attributes content)
      (nonempty : report.value ≠ []) : ∃ place, report.place = some place := by
    rcases reports_place member with ⟨_, empty⟩ | ⟨_, _, _, _, placed⟩
    · exact absurd empty nonempty
    · exact ⟨_, placed⟩
  obtain ⟨place, isPlace⟩ := placed member nonempty
  obtain ⟨place', isPlace'⟩ := placed member' nonempty'
  obtain ⟨line, column, _⟩ := reports_place_exact short member isPlace
  obtain ⟨line', column', _⟩ := reports_place_exact short member' isPlace'
  have less := increase place place' isPlace isPlace'
  rw [Location.key, Location.key, Prod.Lex.toLex_lt_toLex] at less
  unfold ProcessUriCall.Precedes
  rw [UInt64.lt_iff_toNat_lt, UInt64.lt_iff_toNat_lt, ← UInt64.toNat_inj, line, line', column,
    column']
  exact less

/-- Each call with a value is placed at the quote that opened the value, and the
places of such calls are those of the content in order. -/
theorem reported_places_accurate (attributes : AttributeMap) (host : Bytes) (chunks : List Bytes)
    (short : chunks.flatten.length < 2 ^ 64) :
    ∃ crawler, (HtmlCrawler.new host).callAll attributes chunks = .ok crawler ∧
      crawler.PlacesAccurate attributes host chunks.flatten := by
  obtain ⟨crawler, called, _⟩ := HtmlCrawler.callAll_tracks attributes host chunks
  have calls := CrawlsTo.calls ⟨chunks, rfl, called⟩
  refine ⟨crawler, called, ?placed, ?increasing⟩
  case placed =>
    intro earlier call later split nonempty
    rw [calls] at split
    obtain ⟨before, rest, reportsSplit, rfl, restCalls⟩ := List.map_eq_append_iff.mp split
    obtain ⟨report, after, rfl, rfl, _⟩ := List.map_eq_cons_iff.mp restCalls
    exact reports_quoted short reportsSplit nonempty host
  case increasing =>
    rw [calls, List.filter_map, List.pairwise_map, List.pairwise_filter]
    apply (reports_places_increase chunks.flatten).imp_of_mem
    intro first second member member' increase nonempty nonempty'
    exact reports_precede short member member' (of_decide_eq_true nonempty)
      (of_decide_eq_true nonempty') increase

theorem reported_places_accurate_two_lines :
    ∃ crawler, (HtmlCrawler.new (bytes "h")).callAll sAttributeMap
        [bytes "<a\n href='x", bytes "=y'><img src=\"z\">"] = .ok crawler ∧
      crawler.downloads.calls.map (fun call => (call.uriStr, call.line, call.column)) =
        [(bytes "xy", 2, 7), (bytes "z", 2, 22)] ∧
      crawler.PlacesAccurate sAttributeMap (bytes "h")
        [bytes "<a\n href='x", bytes "=y'><img src=\"z\">"].flatten := by
  obtain ⟨crawler, called, accurate⟩ := reported_places_accurate sAttributeMap (bytes "h")
    [bytes "<a\n href='x", bytes "=y'><img src=\"z\">"] (by decide)
  have calls : ((HtmlCrawler.new (bytes "h")).callAll sAttributeMap
      [bytes "<a\n href='x", bytes "=y'><img src=\"z\">"]).toOption.map (fun crawler =>
        crawler.downloads.calls.map fun call => (call.uriStr, call.line, call.column)) =
          some [(bytes "xy", 2, 7), (bytes "z", 2, 22)] := by
    rw [HtmlCrawler.callAll_eq_foldlM]
    decide +kernel
  rw [called] at calls
  exact ⟨crawler, called, Option.some.inj calls, accurate⟩

end FastCrawl
