import FastCrawl.Crawler.Chunks
import FastCrawl.Crawler.Segmenter

namespace FastCrawl

open Scanning Automata

/-! The crawler refines the segmenter: from the constructor on, its flags,
buffers and iterators are those of one segment, and it reports what the
segmenter reports. -/

variable {attributes : AttributeMap}

section Steps

variable {crawler : HtmlCrawler} (ch : UInt8)

theorem step_doc (node : crawler.currentNode = .doc) :
    crawler.step attributes ch = (HtmlDoc.crawlBody ch crawler).map Flow.state := by
  simp only [HtmlCrawler.step, Loops.step, crawlLoops, HtmlCrawler.currentLoop, node]
  rfl

theorem step_skipped (node : crawler.currentNode = .tag) (skipped : crawler.tag.skipped = true) :
    crawler.step attributes ch = (HtmlTag.crawlSkippedBody ch crawler).map Flow.state := by
  simp only [HtmlCrawler.step, Loops.step, crawlLoops, HtmlCrawler.currentLoop, node, skipped]
  rfl

theorem step_attrs (node : crawler.currentNode = .tag) (parsed : crawler.tag.skipped = false) :
    crawler.step attributes ch = (HtmlTag.crawlAttrsBody attributes ch crawler).map Flow.state := by
  simp only [HtmlCrawler.step, Loops.step, crawlLoops, HtmlCrawler.currentLoop, node, parsed]
  rfl

theorem step_elementAttr (node : crawler.currentNode = .elementAttr) :
    crawler.step attributes ch = (HtmlElementAttribute.crawlBody ch crawler).map Flow.state := by
  simp only [HtmlCrawler.step, Loops.step, crawlLoops, HtmlCrawler.currentLoop, node]
  rfl

end Steps

def Registered.shownTag (tag : Registered attributes) (close : Bool) (lastCh : UInt8) : HtmlTag where
  close := close
  nameDone := true
  lastCh := lastCh
  name := tag.element
  seekAttr := some (tag.element, tag.attributeName)

def Skipping.shownTag (skipping : Skipping) (close nameDone : Bool) (lastCh : UInt8)
    (name : Bytes) (seekAttr : Option (Bytes × Bytes)) : HtmlTag where
  close := close
  skipped := true
  nameDone := nameDone
  comment := skipping.comment
  commentBegin := skipping.commentBegin
  commentEnd := skipping.commentEnd
  lastCh := lastCh
  name := name
  seekAttr := seekAttr

def shownAttribute (hasValue : Bool) (name : Bytes) :
    Option (Opened Location) → HtmlElementAttribute
  | none => { hasValue, name }
  | some opened => {
      hasValue, name
      quote := opened.quote
      line := .ofNat opened.place.line
      column := .ofNat opened.place.column
      value := opened.value }

/-- The crawler's nodes are in the states that `segment` stands for.  Flags that
no later byte depends on are left open: `close` and `hasValue`, which are only
written, and `lastCh`, which matters in a skipped tag alone. -/
def HtmlCrawler.Shows (crawler : HtmlCrawler) : Segment attributes Location → Prop
  | .doc =>
      crawler.currentNode = .doc ∧ crawler.elementAttr = {} ∧ ∃ lastCh, crawler.tag = { lastCh }
  | .elementName name =>
      crawler.currentNode = .tag ∧ crawler.elementAttr = {} ∧
        ∃ close lastCh, crawler.tag = { close, lastCh, name }
  | .tagBody tag =>
      crawler.currentNode = .tag ∧ crawler.elementAttr = {} ∧
        ∃ close lastCh, crawler.tag = tag.shownTag close lastCh
  | .attr tag name opened =>
      crawler.currentNode = .elementAttr ∧
        (∃ hasValue, crawler.elementAttr = shownAttribute hasValue name opened) ∧
        ∃ close lastCh, crawler.tag = tag.shownTag close lastCh
  | .skipped skipping =>
      crawler.currentNode = .tag ∧ crawler.elementAttr = {} ∧
        ∃ close nameDone lastCh name seekAttr,
          crawler.tag = skipping.shownTag close nameDone lastCh name seekAttr ∧
            (lastCh = '-'.toUInt8 ↔ skipping.afterDash = true)

/-- The crawler's counters show a place, modulo their 64 bits. -/
def ContentPosition.Shows (position : ContentPosition) (location : Location) : Prop :=
  position.readCnt = .ofNat location.offset ∧ position.line = .ofNat location.line ∧
    position.column = .ofNat location.column

def Report.call (report : Report Location) : ProcessUriCall where
  elementName := report.elementName
  attributeName := report.attributeName
  uriStr := report.value
  line := .ofNat ((report.place.map Location.line).getD 0)
  column := .ofNat ((report.place.map Location.column).getD 0)

def Downloads.apply (downloads : Downloads) (report : Report Location) : Downloads :=
  downloads.processUri report.call

theorem ContentPosition.Shows.update {position : ContentPosition} {location : Location}
    (shows : position.Shows location) (ch : UInt8) :
    (position.update ch).Shows (location.advance ch) := by
  obtain ⟨readCnt, line, column⟩ := shows
  unfold ContentPosition.update Location.advance
  split
  · exact ⟨by rw [readCnt]; exact (UInt64.ofNat_add _ _).symm,
      by rw [line]; exact (UInt64.ofNat_add _ _).symm, rfl⟩
  · exact ⟨by rw [readCnt]; exact (UInt64.ofNat_add _ _).symm, line,
      by rw [column]; exact (UInt64.ofNat_add _ _).symm⟩

def Simulates (crawler : HtmlCrawler) (segment : Segment attributes Location) (ch : UInt8)
    (here : Location) : Prop :=
  ∃ after, crawler.step attributes ch = .ok after ∧ after.Shows (segment.next ch here) ∧
    after.position = crawler.position.update ch ∧
    after.downloads = (segment.report ch).toList.foldl Downloads.apply crawler.downloads

variable {crawler : HtmlCrawler} {ch : UInt8} {here : Location}

theorem simulates_doc (shows : crawler.Shows (.doc : Segment attributes Location)) :
    Simulates crawler (.doc : Segment attributes Location) ch here := by
  obtain ⟨node, attr, lastCh, tag⟩ := shows
  rw [Simulates, step_doc ch node]
  simp only [HtmlDoc.crawlBody, Segment.next]
  split
  · exact ⟨_, rfl, ⟨rfl, attr, false, lastCh, tag⟩, rfl, rfl⟩
  · exact ⟨_, rfl, ⟨node, attr, lastCh, tag⟩, rfl, rfl⟩

theorem registered_eq_none {name : Bytes} (nonempty : name ≠ []) :
    attributes.registered name nonempty = none ↔ attributes.find name = none := by
  unfold AttributeMap.registered
  split <;> simp [*]

theorem registered_eq_some {name : Bytes} {nonempty : name ≠ []}
    {tag : Registered attributes} (registered : attributes.registered name nonempty = some tag) :
    tag.element = name := by
  unfold AttributeMap.registered at registered
  split at registered
  · contradiction
  · cases registered
    rfl

theorem shows_ofElement {name : Bytes} {close : Bool} {lastCh : UInt8}
    {seekAttr : Option (Bytes × Bytes)} (node : crawler.currentNode = .tag)
    (attr : crawler.elementAttr = {}) (nonempty : name ≠ [])
    (sought : seekAttr = attributes.find name)
    (tag : crawler.tag = {
      close, lastCh, name, seekAttr, nameDone := true, skipped := decide (seekAttr = none) })
    (last : lastCh ≠ '-'.toUInt8) :
    crawler.Shows (Segment.ofElement attributes name) := by
  unfold Segment.ofElement
  rw [dif_neg nonempty]
  cases registered : attributes.registered name nonempty with
  | none =>
      have absent : seekAttr = none := sought.trans ((registered_eq_none nonempty).mp registered)
      subst absent
      exact ⟨node, attr, close, true, lastCh, name, none, tag, by simpa using last⟩
  | some entry =>
      have element := registered_eq_some registered
      have present : seekAttr = some (entry.element, entry.attributeName) := by
        rw [sought, ← element, entry.found]
      subst present
      subst element
      exact ⟨node, attr, close, lastCh, tag⟩

theorem simulates_elementName {name : Bytes}
    (shows : crawler.Shows (.elementName name : Segment attributes Location)) :
    Simulates crawler (.elementName name : Segment attributes Location) ch here := by
  obtain ⟨node, attr, close, lastCh, tag⟩ := shows
  rw [Simulates, step_attrs ch node (by rw [tag])]
  simp only [HtmlTag.crawlAttrsBody, HtmlCrawler.updatePosition, tag, Segment.next]
  by_cases greater : ch = '>'.toUInt8
  · simp only [if_pos greater]
    exact ⟨_, rfl, ⟨rfl, attr, ch, rfl⟩, rfl, rfl⟩
  simp only [if_neg greater]
  by_cases bang : ch = '!'.toUInt8
  · simp only [if_pos bang]
    exact ⟨_, rfl, ⟨node, attr, close, false, ch, name, none, rfl, by simp [bang, Char.toUInt8]⟩,
      rfl, rfl⟩
  simp only [if_neg bang]
  by_cases question : ch = '?'.toUInt8
  · simp only [if_pos question]
    exact ⟨_, rfl, ⟨node, attr, close, false, ch, name, none, rfl, by rw [question]; decide⟩,
      rfl, rfl⟩
  simp only [if_neg question]
  by_cases slash : ch = '/'.toUInt8
  · simp only [if_pos slash]
    exact ⟨_, rfl, ⟨node, attr, true, ch, rfl⟩, rfl, rfl⟩
  simp only [if_neg slash]
  by_cases blank : whitespace ch = true
  · have notDash : ch ≠ '-'.toUInt8 := ne_of_class blank (by decide)
    simp only [if_pos blank]
    cases name with
    | nil => exact ⟨_, rfl, ⟨node, attr, close, ch, rfl⟩, rfl, rfl⟩
    | cons first rest =>
        have nonempty : first :: rest ≠ [] := List.cons_ne_nil first rest
        simp only [List.isEmpty_cons, Bool.not_false, if_true]
        by_cases absent : attributes.find (first :: rest) = none
        · simp only [if_pos absent]
          exact ⟨_, rfl, shows_ofElement node attr nonempty rfl
            (by simp only [absent, decide_true]; rfl) notDash, rfl, rfl⟩
        · simp only [if_neg absent]
          exact ⟨_, rfl, shows_ofElement node attr nonempty rfl
            (by simp only [absent, decide_false]; rfl) notDash, rfl, rfl⟩
  simp only [if_neg blank]
  by_cases dash : ch = '-'.toUInt8
  · simp only [if_pos dash]
    cases name with
    | nil => exact ⟨_, rfl, ⟨node, attr, close, false, ch, [], none, rfl, by simp [dash]⟩, rfl, rfl⟩
    | cons first rest => exact ⟨_, rfl, ⟨node, attr, close, ch, rfl⟩, rfl, rfl⟩
  simp only [if_neg dash]
  by_cases token : tokenChar ch = true
  · simp only [if_pos token]
    exact ⟨_, rfl, ⟨node, attr, close, ch, rfl⟩, rfl, rfl⟩
  · simp only [if_neg token]
    exact ⟨_, rfl, ⟨node, attr, close, false, ch, name, none, rfl, by simpa using dash⟩, rfl, rfl⟩

theorem simulates_tagBody {registered : Registered attributes}
    (shows : crawler.Shows (.tagBody registered)) :
    Simulates crawler (.tagBody registered) ch here := by
  obtain ⟨node, attr, close, lastCh, tag⟩ := shows
  rw [Simulates, step_attrs ch node (by rw [tag]; rfl)]
  simp only [HtmlTag.crawlAttrsBody, HtmlCrawler.updatePosition, tag, Segment.next]
  by_cases greater : ch = '>'.toUInt8
  · simp only [if_pos greater]
    exact ⟨_, rfl, ⟨rfl, attr, ch, rfl⟩, rfl, rfl⟩
  simp only [if_neg greater]
  have notEmpty : registered.element.isEmpty = false := by
    simpa using registered.nonempty
  by_cases bang : ch = '!'.toUInt8
  · simp only [Registered.shownTag, notEmpty, bang, true_or, if_true]
    exact ⟨_, rfl, ⟨node, attr, close, true, _, registered.element, _, rfl, by decide⟩, rfl, rfl⟩
  by_cases question : ch = '?'.toUInt8
  · simp only [question, or_true, if_true]
    exact ⟨_, rfl, ⟨node, attr, close, true, _, registered.element, _, rfl, by decide⟩, rfl, rfl⟩
  simp only [bang, question, or_self, if_false]
  by_cases slash : ch = '/'.toUInt8
  · simp only [slash, true_or, if_true]
    exact ⟨_, rfl, ⟨node, attr, true, _, rfl⟩, rfl, rfl⟩
  by_cases blank : whitespace ch = true
  · simp only [if_neg slash, blank, or_true, if_true, Registered.shownTag, notEmpty,
      Bool.not_false, registered.found, reduceCtorEq, if_false]
    exact ⟨_, rfl, ⟨node, attr, close, ch, rfl⟩, rfl, rfl⟩
  simp only [slash, blank, Bool.false_eq_true, or_self, if_false]
  by_cases dash : ch = '-'.toUInt8
  · simp only [if_pos dash]
    exact ⟨_, rfl, ⟨node, attr, close, true, ch, registered.element, _, rfl, by simp [dash]⟩,
      rfl, rfl⟩
  simp only [if_neg dash]
  by_cases token : tokenChar ch = true
  · simp only [if_pos token]
    exact ⟨_, rfl, ⟨rfl, ⟨false, by rw [attr]; rfl⟩, close, ch, rfl⟩, rfl, rfl⟩
  · simp only [if_neg token]
    exact ⟨_, rfl, ⟨node, attr, close, true, ch, registered.element, _, rfl, by simpa using dash⟩,
      rfl, rfl⟩

def HtmlCrawler.receive (crawler : HtmlCrawler) (report : Option (Report Location)) :
    HtmlCrawler :=
  { crawler with downloads := report.toList.foldl Downloads.apply crawler.downloads }

theorem process_eq (crawler : HtmlCrawler) {tag : Registered attributes} {name : Bytes}
    {opened : Option (Opened Location)} {hasValue close : Bool} {lastCh : UInt8}
    (attr : crawler.elementAttr = shownAttribute hasValue name opened)
    (shown : crawler.tag = tag.shownTag close lastCh) :
    HtmlElementAttribute.process crawler =
      .ok (crawler.receive (Segment.finish tag name opened)) := by
  have seek : crawler.tag.seekAttr = some (tag.element, tag.attributeName) := by rw [shown]; rfl
  have element : crawler.tag.name = tag.element := by rw [shown]; rfl
  have attrName : crawler.elementAttr.name = name := by rw [attr]; cases opened <;> rfl
  simp only [HtmlElementAttribute.process, seek, attrName, element, Segment.finish]
  by_cases wanted : name = tag.attributeName
  · simp only [if_pos wanted]
    cases opened <;> rw [attr] <;> rfl
  · simp only [if_neg wanted]
    rfl

theorem simulates_attr_none {tag : Registered attributes} {name : Bytes}
    (shows : crawler.Shows (.attr tag name none))
    (position : (crawler.position.update ch).Shows here) :
    Simulates crawler (.attr tag name none) ch here := by
  obtain ⟨node, ⟨hasValue, attr⟩, close, lastCh, shown⟩ := shows
  have unquoted : crawler.elementAttr.quote = 0 := by rw [attr]; rfl
  have processed := process_eq (crawler.updatePosition ch) attr shown
  rw [HtmlCrawler.updatePosition] at processed
  rw [Simulates, step_elementAttr ch node]
  simp only [HtmlElementAttribute.crawlBody, HtmlCrawler.updatePosition, unquoted, Segment.next,
    Segment.report, Option.map_none, reduceCtorEq, if_false, if_true, ne_eq, not_true_eq_false]
  by_cases slash : ch = '/'.toUInt8
  · have notGreater : ch ≠ '>'.toUInt8 := by rw [slash]; decide
    simp only [if_pos slash, if_neg notGreater]
    exact ⟨_, rfl, ⟨rfl, rfl, true, lastCh, by rw [shown]; rfl⟩, rfl, rfl⟩
  simp only [if_neg slash]
  by_cases greater : ch = '>'.toUInt8
  · simp only [if_pos greater]
    rw [processed]
    exact ⟨_, rfl, ⟨rfl, rfl, 0, rfl⟩, rfl, rfl⟩
  simp only [if_neg greater]
  by_cases equals : ch = '='.toUInt8
  · have notQuote : ¬ quoteMark ch = true := by rw [equals]; decide
    simp only [equals, true_or, if_true]
    exact ⟨_, rfl, ⟨node, ⟨true, by rw [attr]; rfl⟩, close, lastCh, shown⟩, rfl, rfl⟩
  simp only [equals, if_false, false_or]
  by_cases quote : quoteMark ch = true
  · simp only [if_pos quote, dif_pos quote]
    refine ⟨_, rfl, ⟨node, ⟨hasValue, ?_⟩, close, lastCh, shown⟩, rfl, rfl⟩
    simp only [Flow.state, attr, position.2.1, position.2.2, shownAttribute]
  simp only [if_neg quote, dif_neg quote]
  by_cases blank : whitespace ch = true
  · simp only [if_pos blank]
    exact ⟨_, rfl, ⟨node, ⟨hasValue, attr⟩, close, lastCh, shown⟩, rfl, rfl⟩
  · simp only [if_neg blank]
    exact ⟨_, rfl, ⟨node, ⟨hasValue, by rw [attr]; rfl⟩, close, lastCh, shown⟩, rfl, rfl⟩

theorem Opened.quote_ne_zero {π : Type} (opened : Opened π) : opened.quote ≠ 0 := by
  intro zero
  have isQuote := opened.isQuote
  rw [zero] at isQuote
  contradiction

theorem simulates_attr_some {tag : Registered attributes} {name : Bytes}
    {opened : Opened Location} (shows : crawler.Shows (.attr tag name (some opened))) :
    Simulates crawler (.attr tag name (some opened)) ch here := by
  obtain ⟨node, ⟨hasValue, attr⟩, close, lastCh, shown⟩ := shows
  have quoted : crawler.elementAttr.quote = opened.quote := by rw [attr]; rfl
  have processed := process_eq (crawler.updatePosition ch) attr shown
  rw [HtmlCrawler.updatePosition] at processed
  have appended : { crawler.elementAttr with
      quote := opened.quote, value := crawler.elementAttr.value ++ [ch] } =
      shownAttribute hasValue name (some (opened.append ch)) := by rw [attr]; rfl
  rw [Simulates, step_elementAttr ch node]
  simp only [HtmlElementAttribute.crawlBody, HtmlCrawler.updatePosition, quoted,
    opened.quote_ne_zero, Segment.next, Segment.report, Option.map_some, Option.some.injEq,
    if_false, ne_eq, not_false_eq_true, if_true]
  by_cases slash : ch = '/'.toUInt8
  · have notGreater : ch ≠ '>'.toUInt8 := by rw [slash]; decide
    have notEquals : ch ≠ '='.toUInt8 := by rw [slash]; decide
    have notQuote : ¬ opened.quote = ch := by
      intro same
      have isQuote := opened.isQuote
      rw [same, slash] at isQuote
      contradiction
    simp only [if_pos slash, if_neg notGreater, if_neg notEquals, if_neg notQuote,
      if_neg (Ne.symm notQuote)]
    exact ⟨_, rfl, ⟨node, ⟨hasValue, appended⟩, close, lastCh, shown⟩, rfl, rfl⟩
  simp only [if_neg slash]
  by_cases greater : ch = '>'.toUInt8
  · simp only [if_pos greater]
    rw [processed]
    exact ⟨_, rfl, ⟨rfl, rfl, 0, rfl⟩, rfl, rfl⟩
  simp only [if_neg greater]
  by_cases equals : ch = '='.toUInt8
  · have notQuote : ¬ opened.quote = ch := by
      intro same
      have isQuote := opened.isQuote
      rw [same, equals] at isQuote
      contradiction
    simp only [if_pos equals, if_neg notQuote]
    exact ⟨_, rfl, ⟨node, ⟨true, by rw [attr]; rfl⟩, close, lastCh, shown⟩, rfl, rfl⟩
  simp only [if_neg equals]
  by_cases closing : opened.quote = ch
  · have isQuote : quoteMark ch = true := closing ▸ opened.isQuote
    simp only [if_pos isQuote, if_pos closing, if_pos closing.symm]
    rw [processed]
    exact ⟨_, rfl, ⟨rfl, rfl, close, lastCh, shown⟩, rfl, rfl⟩
  · simp only [if_neg closing, if_neg (Ne.symm closing), ite_self]
    exact ⟨_, rfl, ⟨node, ⟨hasValue, appended⟩, close, lastCh, shown⟩, rfl, rfl⟩

theorem simulates_skipped {skipping : Skipping}
    (shows : crawler.Shows (.skipped skipping : Segment attributes Location)) :
    Simulates crawler (.skipped skipping : Segment attributes Location) ch here := by
  obtain ⟨node, attr, close, nameDone, lastCh, name, seekAttr, tag, last⟩ := shows
  rw [Simulates, step_skipped ch node (by rw [tag]; rfl)]
  simp only [HtmlTag.crawlSkippedBody, HtmlCrawler.updatePosition, tag, Skipping.shownTag,
    Segment.next, Skipping.next]
  by_cases greater : ch = '>'.toUInt8
  · simp only [if_pos greater]
    split
    · exact ⟨_, rfl, ⟨rfl, attr, ch, rfl⟩, rfl, rfl⟩
    · exact ⟨_, rfl, ⟨node, attr, close, nameDone, ch, name, seekAttr, rfl,
        by simp [greater, Char.toUInt8]⟩, rfl, rfl⟩
  simp only [if_neg greater]
  by_cases dash : ch = '-'.toUInt8
  · have lastDash : ('-'.toUInt8 = lastCh) ↔ skipping.afterDash = true := eq_comm.trans last
    simp only [if_pos dash, lastDash]
    by_cases begins : skipping.commentBegin = true
    · simp only [if_pos begins]
      cases skipping.afterDash <;>
        exact ⟨_, rfl, ⟨node, attr, close, nameDone, ch, name, seekAttr, by simp; rfl,
          by simp [dash]⟩, rfl, rfl⟩
    · simp only [if_neg begins]
      by_cases comment : skipping.comment = true
      · simp only [if_pos comment]
        cases skipping.afterDash <;>
          exact ⟨_, rfl, ⟨node, attr, close, nameDone, ch, name, seekAttr, by simp; rfl,
            by simp [dash]⟩, rfl, rfl⟩
      · simp only [if_neg comment]
        exact ⟨_, rfl, ⟨node, attr, close, nameDone, ch, name, seekAttr, rfl, by simp [dash]⟩,
          rfl, rfl⟩
  · simp only [if_neg dash]
    exact ⟨_, rfl, ⟨node, attr, close, nameDone, ch, name, seekAttr, rfl, by simpa using dash⟩,
      rfl, rfl⟩

/-- One step of the crawler is one step of the segmenter. -/
theorem simulates {segment : Segment attributes Location} (shows : crawler.Shows segment)
    (position : (crawler.position.update ch).Shows here) : Simulates crawler segment ch here := by
  cases segment with
  | doc => exact simulates_doc shows
  | elementName name => exact simulates_elementName shows
  | tagBody tag => exact simulates_tagBody shows
  | attr tag name opened =>
      cases opened with
      | none => exact simulates_attr_none shows position
      | some opened => exact simulates_attr_some shows
  | skipped skipping => exact simulates_skipped shows

def HtmlCrawler.Tracks (crawler : HtmlCrawler) (cursor : Cursor attributes) : Prop :=
  crawler.Shows cursor.segment ∧ crawler.position.Shows cursor.location

theorem crawler_realizes_segmenter :
    (segmenter attributes).Realizes (HtmlCrawler.step attributes) HtmlCrawler.Tracks
      HtmlCrawler.downloads Downloads.apply := by
  intro before cursor ch tracks
  have position := tracks.2.update ch
  obtain ⟨after, stepped, shows, moved, downloads⟩ := simulates tracks.1 position
  exact ⟨after, stepped, ⟨shows, by rw [moved]; exact position⟩, downloads⟩

theorem new_tracks (host : Bytes) :
    (HtmlCrawler.new host).Tracks (Cursor.start attributes) :=
  ⟨⟨rfl, rfl, 0, rfl⟩, rfl, rfl, rfl⟩

def reports (attributes : AttributeMap) (content : Bytes) : List (Report Location) :=
  (segmenter attributes).outputs (Cursor.start attributes) content

/-- On any content, cut in any way, a fresh crawler ends normally, in the state
of the segmenter and with the reports of the segmenter processed in order. -/
theorem HtmlCrawler.callAll_tracks (attributes : AttributeMap) (host : Bytes) (chunks : List Bytes) :
    ∃ crawler, (HtmlCrawler.new host).callAll attributes chunks = .ok crawler ∧
      crawler.Tracks ((segmenter attributes).run (Cursor.start attributes) chunks.flatten) ∧
      crawler.downloads = (reports attributes chunks.flatten).foldl Downloads.apply {} := by
  rw [HtmlCrawler.callAll_eq_foldlM]
  exact crawler_realizes_segmenter.foldlM (new_tracks host) chunks.flatten

end FastCrawl
