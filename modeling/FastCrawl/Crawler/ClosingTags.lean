import Mathlib.Data.List.TakeWhile
import FastCrawl.Crawler.CurrentTag
import FastCrawl.Crawler.Tags

namespace FastCrawl

open Automata Scanning

/-! Closing tags.  The crawler notes in `close` that a tag is one and reads that
flag nowhere. -/

variable {attributes : AttributeMap}

/-- The first byte of a tag that is no whitespace. -/
def firstMark (text : Bytes) : Option UInt8 := (text.dropWhile whitespace).head?

/-- The content ends in a closing tag. -/
def InClosingTag (attributes : AttributeMap) (content : Bytes) : Prop :=
  (currentTag attributes content).bind firstMark = some '/'.toUInt8

instance (content : Bytes) : Decidable (InClosingTag attributes content) :=
  inferInstanceAs (Decidable (_ = _))

theorem firstMark_append {text : Bytes} {mark : UInt8} (first : firstMark text = some mark)
    (more : Bytes) : firstMark (text ++ more) = some mark := by
  unfold firstMark at *
  rw [List.dropWhile_append]
  split
  next blank =>
    rw [List.isEmpty_iff.mp blank] at first
    contradiction
  next => rw [List.head?_append, first, Option.some_or]

theorem firstMark_eq_none_iff {text : Bytes} :
    firstMark text = none ↔ ∀ ch ∈ text, whitespace ch = true := by
  rw [firstMark, List.head?_eq_none_iff, List.dropWhile_eq_nil_iff]

/-- The content ends in a tag whose first byte is known and is no slash. -/
def InOpeningTag (attributes : AttributeMap) (content : Bytes) : Prop :=
  ∃ mark, (currentTag attributes content).bind firstMark = some mark ∧ mark ≠ '/'.toUInt8

theorem InOpeningTag.not_closing {content : Bytes} (opening : InOpeningTag attributes content) :
    ¬InClosingTag attributes content := by
  intro closing
  obtain ⟨mark, marked, noSlash⟩ := opening
  apply noSlash
  rw [InClosingTag, marked] at closing
  exact Option.some.inj closing

/-- The first byte of a tag stays the first one. -/
theorem mark_append {content : Bytes} {ch mark : UInt8}
    (marked : (currentTag attributes content).bind firstMark = some mark)
    (inside : (outline attributes).run .doc (content ++ [ch]) ≠ .doc) :
    (currentTag attributes (content ++ [ch])).bind firstMark = some mark := by
  obtain ⟨text, current, first⟩ := Option.bind_eq_some_iff.mp marked
  rw [currentTag_next current inside, Option.bind_some]
  exact firstMark_append first [ch]

theorem InOpeningTag.append {content : Bytes} {ch : UInt8}
    (opening : InOpeningTag attributes content)
    (inside : (outline attributes).run .doc (content ++ [ch]) ≠ .doc) :
    InOpeningTag attributes (content ++ [ch]) := by
  obtain ⟨mark, marked, noSlash⟩ := opening
  exact ⟨mark, mark_append marked inside, noSlash⟩

/-- Before the first byte that is no whitespace an element has no name. -/
theorem firstMark_of_name {text name : Bytes}
    (named : (outline attributes).run (.elementName []) text = .elementName name)
    (nonempty : name ≠ []) : firstMark text ≠ none := by
  intro blank
  rw [firstMark_eq_none_iff] at blank
  have unnamed : (outline attributes).run (.elementName []) text = .elementName [] := by
    clear named
    induction text with
    | nil => rfl
    | cons ch rest ih =>
        have isBlank := blank ch List.mem_cons_self
        have next : (outline attributes).next (.elementName []) ch = .elementName [] :=
          Segment.next_elementName_blank isBlank [] ()
        rw [Mealy.run_cons, next]
        exact ih fun ch member => blank ch (List.mem_cons_of_mem _ member)
  rw [unnamed] at named
  cases named
  exact nonempty rfl

/-- The element that is crawled for links is the same, or there is none. -/
def HtmlTag.KeepsSeeking (before after : HtmlTag) : Prop :=
  after.seekAttr = none ∨ after.seekAttr = before.seekAttr ∧ after.name = before.name

section Bodies

variable {crawler : HtmlCrawler} {ch : UInt8} {flow : Flow HtmlCrawler}

theorem docBody_seekAttr (read : HtmlDoc.crawlBody ch crawler = .ok flow) :
    crawler.tag.KeepsSeeking flow.state.tag := by
  simp only [HtmlDoc.crawlBody] at read
  split at read
  · cases read
    exact .inr ⟨rfl, rfl⟩
  · cases read
    exact .inr ⟨rfl, rfl⟩

theorem skippedBody_seekAttr (read : HtmlTag.crawlSkippedBody ch crawler = .ok flow) :
    crawler.tag.KeepsSeeking flow.state.tag := by
  cases read
  unfold HtmlTag.KeepsSeeking
  split_ifs
  all_goals first
    | exact .inr ⟨rfl, rfl⟩
    | exact .inl rfl

theorem process_tag {after : HtmlCrawler}
    (processed : HtmlElementAttribute.process crawler = .ok after) : after.tag = crawler.tag := by
  unfold HtmlElementAttribute.process at processed
  split at processed
  · contradiction
  · split at processed
    · cases processed
      rfl
    · cases processed
      rfl

theorem attributeBody_seekAttr (read : HtmlElementAttribute.crawlBody ch crawler = .ok flow) :
    crawler.tag.KeepsSeeking flow.state.tag := by
  simp only [HtmlElementAttribute.crawlBody, Except.map] at read
  by_cases greater : ch = '>'.toUInt8
  · have notSlash : ch ≠ '/'.toUInt8 := by rw [greater]; decide
    simp only [if_neg notSlash, if_pos greater] at read
    split at read
    · contradiction
    · cases read
      exact .inl rfl
  · simp only [if_neg greater] at read
    repeat' split at read
    case h_2 after processed =>
      cases read
      have same := process_tag processed
      exact .inr ⟨congrArg HtmlTag.seekAttr same, congrArg HtmlTag.name same⟩
    all_goals cases read
    all_goals exact .inr ⟨rfl, rfl⟩

theorem attrsBody_seekAttr (read : HtmlTag.crawlAttrsBody attributes ch crawler = .ok flow)
    (unnamed : crawler.tag.nameDone = false → crawler.tag.seekAttr = none) :
    crawler.tag.KeepsSeeking flow.state.tag ∨
      whitespace ch = true ∧ crawler.tag.name ≠ [] ∧ flow.state.tag.name = crawler.tag.name ∧
        flow.state.tag.seekAttr = attributes.find crawler.tag.name := by
  have sameTag : crawler.tag = (crawler.updatePosition ch).tag := rfl
  simp only [HtmlTag.crawlAttrsBody] at read
  rw [sameTag] at unnamed ⊢
  generalize crawler.updatePosition ch = moved at read unnamed
  by_cases greater : ch = '>'.toUInt8
  · simp only [if_pos greater] at read
    cases read
    exact .inl (.inl rfl)
  simp only [if_neg greater] at read
  by_cases bang : ch = '!'.toUInt8
  · simp only [if_pos bang] at read
    cases read
    exact .inl (.inr ⟨rfl, rfl⟩)
  simp only [if_neg bang] at read
  by_cases question : ch = '?'.toUInt8
  · simp only [if_pos question] at read
    cases read
    exact .inl (.inr ⟨rfl, rfl⟩)
  simp only [if_neg question] at read
  by_cases slash : ch = '/'.toUInt8
  · simp only [if_pos slash] at read
    cases read
    exact .inl (.inr ⟨rfl, rfl⟩)
  simp only [if_neg slash] at read
  by_cases blank : whitespace ch = true
  · simp only [if_pos blank] at read
    by_cases named : (!moved.tag.name.isEmpty) = true
    · have nonempty : moved.tag.name ≠ [] := by simpa using named
      simp only [if_pos named] at read
      by_cases absent : attributes.find moved.tag.name = none
      · simp only [if_pos absent] at read
        cases read
        exact .inr ⟨blank, nonempty, rfl, rfl⟩
      · simp only [if_neg absent] at read
        cases read
        exact .inr ⟨blank, nonempty, rfl, rfl⟩
    · simp only [if_neg named] at read
      cases read
      exact .inl (.inr ⟨rfl, rfl⟩)
  simp only [if_neg blank] at read
  by_cases dash : ch = '-'.toUInt8
  · simp only [if_pos dash] at read
    by_cases growing : (!moved.tag.nameDone && !moved.tag.name.isEmpty) = true
    · simp only [if_pos growing] at read
      rw [Bool.and_eq_true, Bool.not_eq_true'] at growing
      cases read
      exact .inl (.inl (unnamed growing.1))
    · simp only [if_neg growing] at read
      cases read
      exact .inl (.inr ⟨rfl, rfl⟩)
  simp only [if_neg dash] at read
  by_cases token : tokenChar ch = true
  · simp only [if_pos token] at read
    by_cases growing : (!moved.tag.nameDone) = true
    · simp only [if_pos growing] at read
      rw [Bool.not_eq_true'] at growing
      cases read
      exact .inl (.inl (unnamed growing))
    · simp only [if_neg growing] at read
      cases read
      exact .inl (.inr ⟨rfl, rfl⟩)
  · simp only [if_neg token] at read
    cases read
    exact .inl (.inr ⟨rfl, rfl⟩)

end Bodies

theorem flow_of_map {body : Except AssertionFailure (Flow HtmlCrawler)} {next : HtmlCrawler}
    (stepped : body.map Flow.state = .ok next) : ∃ flow, body = .ok flow ∧ flow.state = next := by
  cases body with
  | error failure => contradiction
  | ok flow => exact ⟨flow, rfl, Except.ok.inj stepped⟩

/-- An attribute comes to be sought only when the name of its element is complete. -/
theorem step_seekAttr {crawler next : HtmlCrawler} {ch : UInt8}
    {segment : Segment attributes Location} (shows : crawler.Shows segment)
    (stepped : crawler.step attributes ch = .ok next) :
    crawler.tag.KeepsSeeking next.tag ∨
      ∃ name, segment = .elementName name ∧ name ≠ [] ∧ whitespace ch = true ∧
        next.tag.name = name ∧ next.tag.seekAttr = attributes.find name := by
  cases segment with
  | doc =>
      rw [step_doc ch shows.1] at stepped
      obtain ⟨flow, read, rfl⟩ := flow_of_map stepped
      exact .inl (docBody_seekAttr read)
  | elementName name =>
      obtain ⟨node, _, close, lastCh, tag⟩ := shows
      rw [step_attrs ch node (by rw [tag])] at stepped
      obtain ⟨flow, read, rfl⟩ := flow_of_map stepped
      have unsought : crawler.tag.seekAttr = none := by rw [tag]
      have named : crawler.tag.name = name := by rw [tag]
      rcases attrsBody_seekAttr read fun _ => unsought with keeps | ⟨blank, nonempty, same, sought⟩
      · exact .inl keeps
      · rw [named] at nonempty same sought
        exact .inr ⟨name, rfl, nonempty, blank, same, sought⟩
  | tagBody tag =>
      obtain ⟨node, _, close, lastCh, shown⟩ := shows
      rw [step_attrs ch node (by rw [shown]; rfl)] at stepped
      obtain ⟨flow, read, rfl⟩ := flow_of_map stepped
      have done : crawler.tag.nameDone = true := by rw [shown]; rfl
      have named : crawler.tag.name = tag.element := by rw [shown]; rfl
      have sought : crawler.tag.seekAttr = attributes.find crawler.tag.name := by
        rw [named, tag.found, shown]
        rfl
      rcases attrsBody_seekAttr read fun growing => absurd (growing.symm.trans done) (by decide)
        with keeps | ⟨_, _, same, again⟩
      · exact .inl keeps
      · exact .inl (.inr ⟨again.trans sought.symm, same⟩)
  | attr tag name opened =>
      rw [step_elementAttr ch shows.1] at stepped
      obtain ⟨flow, read, rfl⟩ := flow_of_map stepped
      exact .inl (attributeBody_seekAttr read)
  | skipped skipping =>
      obtain ⟨node, _, close, nameDone, lastCh, name, seekAttr, shown, _⟩ := shows
      rw [step_skipped ch node (by rw [shown]; rfl)] at stepped
      obtain ⟨flow, read, rfl⟩ := flow_of_map stepped
      exact .inl (skippedBody_seekAttr read)

/-- The white space `ch` completes the name of a registered element in a closing tag. -/
def NamesClosing (attributes : AttributeMap) (content : Bytes) (ch : UInt8) : Prop :=
  InClosingTag attributes content ∧ whitespace ch = true ∧
    ∃ tag : Registered attributes, (outline attributes).run .doc content = .elementName tag.element

/-- A sought attribute belongs to the element of a tag that is no closing tag. -/
def SeeksInOpeningTag (attributes : AttributeMap) (content : Bytes) (crawler : HtmlCrawler) :
    Prop :=
  crawler.tag.seekAttr ≠ none →
    ¬InClosingTag attributes content ∧
      attributes.find crawler.tag.name = crawler.tag.seekAttr

/-- Outside a tag no attribute is sought. -/
theorem CrawlsTo.inTag {host content : Bytes} {crawler : HtmlCrawler}
    (crawls : CrawlsTo attributes host content crawler) (seeks : crawler.tag.seekAttr ≠ none) :
    (outline attributes).run .doc content ≠ .doc := by
  obtain ⟨cursor, tracks, outlined⟩ := crawls.tracksOutline
  intro document
  have shows := tracks.1
  rw [Segment.outline_eq_doc.mp (outlined.trans document)] at shows
  obtain ⟨_, _, lastCh, tag⟩ := shows
  rw [tag] at seeks
  exact seeks rfl

/-- The tag of a named element is an opening or a closing tag. -/
theorem inOpeningTag_of_name {content name : Bytes}
    (run : (outline attributes).run .doc content = .elementName name) (nonempty : name ≠ [])
    (opening : ¬InClosingTag attributes content) : InOpeningTag attributes content := by
  have inside : (outline attributes).run .doc content ≠ .doc := by
    rw [run]
    exact Segment.inTag_elementName name
  obtain ⟨text, current⟩ := currentTag_of_inTag inside
  have marked := firstMark_of_name ((currentTag_run current).symm.trans run) nonempty
  obtain ⟨mark, first⟩ := Option.ne_none_iff_exists'.mp marked
  refine ⟨mark, by rw [current, Option.bind_some, first], ?_⟩
  intro slash
  apply opening
  rw [InClosingTag, current, Option.bind_some, first, slash]

/-- What `seek_attr` promises holds on as long as no closing tag is named. -/
theorem CrawlsTo.seeks {host content : Bytes} {crawler : HtmlCrawler}
    (crawls : CrawlsTo attributes host content crawler)
    (unnamed : ∀ before ch, before ++ [ch] <+: content → ¬NamesClosing attributes before ch)
    (seeks : crawler.tag.seekAttr ≠ none) :
    InOpeningTag attributes content ∧
      attributes.find crawler.tag.name = crawler.tag.seekAttr := by
  induction content using List.reverseRecOn generalizing crawler with
  | nil => exact absurd rfl (crawls.inTag seeks)
  | append_singleton content ch ih =>
      have inside := crawls.inTag seeks
      obtain ⟨before, crawlsBefore, stepped⟩ := crawls.step
      obtain ⟨cursor, tracks, outlined⟩ := crawlsBefore.tracksOutline
      rcases step_seekAttr tracks.1 stepped with
        keeps | ⟨name, segment, nonempty, blank, same, sought⟩
      · rcases keeps with lost | ⟨sameSeek, sameName⟩
        · exact absurd lost seeks
        · have unnamedBefore : ∀ earlier ch, earlier ++ [ch] <+: content →
              ¬NamesClosing attributes earlier ch := by
            intro earlier ch isPrefix
            exact unnamed earlier ch (isPrefix.trans (List.prefix_append content [_]))
          rw [sameSeek] at seeks
          obtain ⟨opening, found⟩ := ih crawlsBefore unnamedBefore seeks
          rw [sameSeek, sameName]
          exact ⟨opening.append inside, found⟩
      · have run : (outline attributes).run .doc content = .elementName name := by
          rw [← outlined, segment]
          rfl
        have opening : ¬InClosingTag attributes content := by
          intro closing
          rw [sought] at seeks
          cases registered : attributes.registered name nonempty with
          | none => exact seeks ((registered_eq_none nonempty).mp registered)
          | some tag =>
              apply unnamed content ch List.prefix_rfl
              refine ⟨closing, blank, tag, ?_⟩
              rw [run, registered_eq_some registered]
        rw [same, sought]
        exact ⟨(inOpeningTag_of_name run nonempty opening).append inside, rfl⟩

theorem CrawlsTo.silent {host content : Bytes} {ch : UInt8} {crawler next : HtmlCrawler}
    (crawls : CrawlsTo attributes host content crawler)
    (crawlsNext : CrawlsTo attributes host (content ++ [ch]) next)
    (unsought : crawler.tag.seekAttr = none) :
    next.downloads.calls = crawler.downloads.calls := by
  obtain ⟨same, crawlsSame, stepped⟩ := crawlsNext.step
  rw [← crawls.unique crawlsSame] at stepped
  obtain ⟨cursor, tracks, _⟩ := crawls.tracksOutline
  obtain ⟨after, steppedAfter, _, downloads⟩ := crawler_realizes_segmenter ch tracks
  rw [stepped] at steppedAfter
  cases steppedAfter
  have unreported : (segmenter attributes).emit cursor ch = none := by
    have shows := tracks.1
    simp only [segmenter]
    cases segment : cursor.segment with
    | attr tag name opened =>
        rw [segment] at shows
        obtain ⟨_, _, close, lastCh, shown⟩ := shows
        rw [shown] at unsought
        contradiction
    | _ => rfl
  rw [downloads, unreported]
  rfl

/-- The calls of `process_uri` and the sought attribute, after each part of the content. -/
structure OnlyOpeningTags (attributes : AttributeMap) (host content : Bytes) : Prop where
  calls : ∀ before ch crawler next, before ++ [ch] <+: content →
    InClosingTag attributes before → CrawlsTo attributes host before crawler →
      CrawlsTo attributes host (before ++ [ch]) next →
        next.downloads.calls = crawler.downloads.calls
  seekAttr : ∀ before crawler, before <+: content → CrawlsTo attributes host before crawler →
    SeeksInOpeningTag attributes before crawler

/-- After the name of a closing tag of a registered element its attribute is sought. -/
theorem NamesClosing.seeks {host content : Bytes} {ch : UInt8} {next : HtmlCrawler}
    (names : NamesClosing attributes content ch)
    (crawls : CrawlsTo attributes host (content ++ [ch]) next) :
    ¬SeeksInOpeningTag attributes (content ++ [ch]) next := by
  obtain ⟨closing, blank, tag, run⟩ := names
  have runNext : (outline attributes).run .doc (content ++ [ch]) = .tagBody tag := by
    rw [Mealy.run_append, run]
    exact (Segment.next_elementName_blank blank tag.element ()).trans (ofElement_self tag)
  obtain ⟨cursor, tracks, outlined⟩ := crawls.tracksOutline
  have shows := tracks.1
  rw [Segment.outline_eq_tagBody.mp (outlined.trans runNext)] at shows
  obtain ⟨_, _, close, lastCh, shown⟩ := shows
  intro seeks
  have sought : next.tag.seekAttr ≠ none := by
    rw [shown]
    exact Option.some_ne_none _
  apply (seeks sought).1
  apply mark_append closing
  rw [runNext]
  exact Segment.inTag_tagBody tag

/-- Only opening tags are crawled for links just when no closing tag of a registered
element has anything behind its name. -/
theorem only_opening_tags_iff (attributes : AttributeMap) (host content : Bytes) :
    OnlyOpeningTags attributes host content ↔
      ∀ before ch, before ++ [ch] <+: content → ¬NamesClosing attributes before ch := by
  constructor
  · intro only before ch isPrefix names
    obtain ⟨next, crawls⟩ := crawlsTo_exists attributes host (before ++ [ch])
    exact names.seeks crawls (only.seekAttr _ next isPrefix crawls)
  · intro unnamed
    have opening (before : Bytes) (crawler : HtmlCrawler) (isPrefix : before <+: content)
        (crawls : CrawlsTo attributes host before crawler) :
        SeeksInOpeningTag attributes before crawler := by
      intro seeks
      obtain ⟨opening, found⟩ := crawls.seeks
        (fun earlier ch earlierPrefix => unnamed earlier ch (earlierPrefix.trans isPrefix)) seeks
      exact ⟨opening.not_closing, found⟩
    refine ⟨?_, opening⟩
    intro before ch crawler next isPrefix closing crawls crawlsNext
    apply crawls.silent crawlsNext
    by_contra seeks
    have within := (List.prefix_append before [ch]).trans isPrefix
    exact (opening before crawler within crawls seeks).1 closing

/-- The link of `</a href='x'>` is crawled. -/
theorem closing_tag_crawled :
    ¬OnlyOpeningTags sAttributeMap (bytes "h") (bytes "</a href='x'>") := by
  intro only
  obtain ⟨crawler, crawls⟩ := crawlsTo_exists sAttributeMap (bytes "h") (bytes "</a href='x")
  obtain ⟨next, crawlsNext⟩ := crawlsTo_exists sAttributeMap (bytes "h") (bytes "</a href='x'")
  have same := only.calls (bytes "</a href='x") '\''.toUInt8 crawler next ⟨bytes ">", rfl⟩
    (by decide) crawls crawlsNext
  rw [crawls.calls, crawlsNext.calls] at same
  contradiction

end FastCrawl
