import FastCrawl.Crawler.Automaton

namespace FastCrawl

open Automata

/-! What a crawler at document level does with a tag, read off the segmenter
without places. -/

variable {attributes : AttributeMap} {π : Type}

def Report.triple (report : Report π) : Bytes × Bytes × Bytes :=
  (report.elementName, report.attributeName, report.value)

def HtmlCrawler.triples (crawler : HtmlCrawler) : List (Bytes × Bytes × Bytes) :=
  crawler.downloads.calls.map fun call => (call.elementName, call.attributeName, call.uriStr)

def Segment.outline (segment : Segment attributes π) : Segment attributes Unit :=
  segment.map fun _ => ()

@[simp] theorem Segment.outline_eq_doc {segment : Segment attributes π} :
    segment.outline = .doc ↔ segment = .doc := by
  cases segment <;> simp [Segment.outline]

@[simp] theorem Segment.outline_eq_tagBody {segment : Segment attributes π}
    {tag : Registered attributes} : segment.outline = .tagBody tag ↔ segment = .tagBody tag := by
  cases segment <;> simp [Segment.outline]

theorem HtmlCrawler.Tracks.document_iff {crawler : HtmlCrawler} {cursor : Cursor attributes}
    (tracks : crawler.Tracks cursor) :
    crawler.currentNode = .doc ↔ cursor.segment.outline = .doc := by
  have shows := tracks.1
  rw [Segment.outline_eq_doc]
  cases segment : cursor.segment with
  | doc =>
      rw [segment] at shows
      simp [shows.1]
  | _ =>
      rw [segment] at shows
      simp [shows.1]

theorem HtmlCrawler.Tracks.call {crawler : HtmlCrawler} {cursor : Cursor attributes}
    (tracks : crawler.Tracks cursor) (data : Bytes) :
    ∃ after, crawler.call attributes data = .ok after ∧
      (after.currentNode = .doc ↔ (outline attributes).run cursor.segment.outline data = .doc) ∧
      after.triples = crawler.triples ++
        ((outline attributes).outputs cursor.segment.outline data).map Report.triple := by
  obtain ⟨after, folded, afterTracks, downloads⟩ :=
    crawler_realizes_segmenter.foldlM tracks data
  refine ⟨after, by rw [HtmlCrawler.call_eq_foldlM, folded], ?_, ?_⟩
  · rw [afterTracks.document_iff]
    exact iff_of_eq (congrArg (· = Segment.doc) (segmenter_hom_outline.run cursor data))
  · have outputs := segmenter_hom_outline.outputs cursor data
    simp only [Segment.outline, ← outputs, HtmlCrawler.triples, downloads,
      Downloads.foldl_apply_calls, List.map_append, List.map_map]
    rfl

/-- What the crawler has made of a content, in whichever chunks. -/
def CrawlsTo (attributes : AttributeMap) (host content : Bytes) (crawler : HtmlCrawler) : Prop :=
  ∃ chunks : List Bytes, chunks.flatten = content ∧
    (HtmlCrawler.new host).callAll attributes chunks = .ok crawler

theorem crawlsTo_iff {host content : Bytes} {crawler : HtmlCrawler} :
    CrawlsTo attributes host content crawler ↔
      content.foldlM (HtmlCrawler.step attributes) (HtmlCrawler.new host) = .ok crawler := by
  constructor
  · intro crawls
    obtain ⟨chunks, rfl, called⟩ := crawls
    rwa [← HtmlCrawler.callAll_eq_foldlM]
  · intro folded
    refine ⟨[content], by simp, ?_⟩
    rw [HtmlCrawler.callAll_eq_foldlM]
    simpa using folded

theorem CrawlsTo.tracks {host content : Bytes} {crawler : HtmlCrawler}
    (crawls : CrawlsTo attributes host content crawler) :
    crawler.Tracks ((segmenter attributes).run (Cursor.start attributes) content) := by
  obtain ⟨chunks, rfl, called⟩ := crawls
  obtain ⟨same, calledSame, tracks, _⟩ := HtmlCrawler.callAll_tracks attributes host chunks
  rw [called] at calledSame
  cases calledSame
  exact tracks

theorem CrawlsTo.step {host content : Bytes} {ch : UInt8} {next : HtmlCrawler}
    (crawls : CrawlsTo attributes host (content ++ [ch]) next) :
    ∃ crawler, CrawlsTo attributes host content crawler ∧
      crawler.step attributes ch = .ok next := by
  rw [crawlsTo_iff, List.foldlM_append] at crawls
  cases read : content.foldlM (HtmlCrawler.step attributes) (HtmlCrawler.new host) with
  | error failure =>
      rw [read] at crawls
      contradiction
  | ok crawler =>
      rw [read] at crawls
      refine ⟨crawler, crawlsTo_iff.mpr read, ?_⟩
      calc crawler.step attributes ch
          = [ch].foldlM (HtmlCrawler.step attributes) crawler := (bind_pure _).symm
        _ = .ok next := crawls

theorem CrawlsTo.calls {host content : Bytes} {crawler : HtmlCrawler}
    (crawls : CrawlsTo attributes host content crawler) :
    crawler.downloads.calls = (reports attributes content).map Report.call := by
  obtain ⟨chunks, rfl, called⟩ := crawls
  obtain ⟨same, calledSame, _, downloads⟩ := HtmlCrawler.callAll_tracks attributes host chunks
  rw [called] at calledSame
  cases calledSame
  rw [downloads, Downloads.foldl_apply_calls, List.nil_append]

theorem CrawlsTo.tracksOutline {host content : Bytes} {crawler : HtmlCrawler}
    (crawls : CrawlsTo attributes host content crawler) :
    ∃ cursor : Cursor attributes, crawler.Tracks cursor ∧
      cursor.segment.outline = (outline attributes).run .doc content :=
  ⟨_, crawls.tracks, segmenter_hom_outline.run (Cursor.start attributes) content⟩

theorem CrawlsTo.unique {host content : Bytes} {crawler other : HtmlCrawler}
    (crawls : CrawlsTo attributes host content crawler)
    (crawls' : CrawlsTo attributes host content other) : crawler = other :=
  Except.ok.inj ((crawlsTo_iff.mp crawls).symm.trans (crawlsTo_iff.mp crawls'))

theorem crawlsTo_exists (attributes : AttributeMap) (host content : Bytes) :
    ∃ crawler, CrawlsTo attributes host content crawler := by
  obtain ⟨crawler, called, _⟩ := HtmlCrawler.callAll_tracks attributes host [content]
  exact ⟨crawler, [content], by simp, called⟩

def HtmlCrawler.Reachable (attributes : AttributeMap) (crawler : HtmlCrawler) : Prop :=
  ∃ host chunks, (HtmlCrawler.new host).callAll attributes chunks = .ok crawler

theorem HtmlCrawler.Reachable.tracks {crawler : HtmlCrawler}
    (reachable : crawler.Reachable attributes) :
    ∃ cursor : Cursor attributes, crawler.Tracks cursor := by
  obtain ⟨host, chunks, called⟩ := reachable
  obtain ⟨same, calledSame, tracks, _⟩ :=
    HtmlCrawler.callAll_tracks attributes host chunks
  rw [called] at calledSame
  cases calledSame
  exact ⟨_, tracks⟩

theorem HtmlCrawler.Reachable.call_of_document {crawler : HtmlCrawler}
    (reachable : crawler.Reachable attributes) (document : crawler.currentNode = .doc)
    (data : Bytes) :
    ∃ after, crawler.call attributes data = .ok after ∧
      (after.currentNode = .doc ↔ (outline attributes).run .doc data = .doc) ∧
      after.triples =
        crawler.triples ++ ((outline attributes).outputs .doc data).map Report.triple := by
  obtain ⟨cursor, tracks⟩ := reachable.tracks
  have fed := tracks.call data
  rwa [tracks.document_iff.mp document] at fed

theorem HtmlCrawler.new_reachable (attributes : AttributeMap) (host : Bytes) :
    (HtmlCrawler.new host).Reachable attributes := ⟨host, [], rfl⟩

/-- Feeding `tag` to `before` makes the calls of `process_uri` in `found`, ends at
document level and is not there after any shorter nonempty part of `tag`. -/
def FeedsTag (attributes : AttributeMap) (before : HtmlCrawler) (tag : Bytes)
    (found : List (Bytes × Bytes × Bytes)) : Prop :=
  (∃ after, before.call attributes tag = .ok after ∧ after.triples = before.triples ++ found ∧
    after.currentNode = .doc) ∧
  ∀ initial, initial <+: tag → initial ≠ [] → initial ≠ tag →
    ∃ middle, before.call attributes initial = .ok middle ∧ middle.currentNode ≠ .doc

namespace Segment

def InTag (segment : Segment attributes π) : Prop := segment ≠ .doc

@[simp] theorem inTag_elementName (name : Bytes) :
    (elementName name : Segment attributes π).InTag := by simp [InTag]

@[simp] theorem inTag_tagBody (tag : Registered attributes) :
    (tagBody tag : Segment attributes π).InTag := by simp [InTag]

@[simp] theorem inTag_attr (tag : Registered attributes) (name : Bytes)
    (opened : Option (Opened π)) : (attr tag name opened).InTag := by simp [InTag]

@[simp] theorem inTag_skipped (skipping : Skipping) :
    (skipped skipping : Segment attributes π).InTag := by simp [InTag]

end Segment

theorem Segment.next_elementName_blank {ch : UInt8} (blank : whitespace ch = true) (name : Bytes)
    (here : π) : (elementName name : Segment attributes π).next ch here =
      ofElement attributes name := by
  have ne (other : UInt8) (notBlank : whitespace other = false) : ch ≠ other :=
    ne_of_class blank notBlank
  simp only [next, if_neg (ne '>'.toUInt8 (by decide)), if_neg (ne '!'.toUInt8 (by decide)),
    if_neg (ne '?'.toUInt8 (by decide)), if_neg (ne '/'.toUInt8 (by decide)), if_pos blank]

theorem outline_run_opening (attributes : AttributeMap) (rest : Bytes) :
    (outline attributes).run .doc ('<'.toUInt8 :: rest) =
      (outline attributes).run (.elementName []) rest := rfl

theorem outline_outputs_opening (attributes : AttributeMap) (rest : Bytes) :
    (outline attributes).outputs .doc ('<'.toUInt8 :: rest) =
      (outline attributes).outputs (.elementName []) rest := rfl

theorem HtmlCrawler.Reachable.feedsTag_iff {before : HtmlCrawler}
    (reachable : before.Reachable attributes) (document : before.currentNode = .doc)
    (tag : Bytes) (found : List (Bytes × Bytes × Bytes)) :
    FeedsTag attributes before tag found ↔
      ((outline attributes).outputs .doc tag).map Report.triple = found ∧
      (outline attributes).run .doc tag = .doc ∧
      ∀ initial, initial <+: tag → initial ≠ [] → initial ≠ tag →
        ((outline attributes).run .doc initial).InTag := by
  have early : ∀ initial : Bytes,
      (∃ middle, before.call attributes initial = .ok middle ∧ middle.currentNode ≠ .doc) ↔
        ((outline attributes).run .doc initial).InTag := by
    intro initial
    obtain ⟨middle, called, ended, _⟩ := reachable.call_of_document document initial
    rw [called]
    simp [Segment.InTag, ended]
  obtain ⟨after, called, ended, triples⟩ := reachable.call_of_document document tag
  simp only [FeedsTag, early, called, Except.ok.injEq]
  constructor
  · intro fed
    obtain ⟨⟨_, rfl, sameTriples, node⟩, inside⟩ := fed
    rw [triples] at sameTriples
    exact ⟨List.append_cancel_left sameTriples, ended.mp node, inside⟩
  · intro fed
    obtain ⟨rfl, run, inside⟩ := fed
    exact ⟨⟨after, rfl, triples, ended.mpr run⟩, inside⟩

/-- A walk that stays inside a tag from `<` to its last byte feeds that tag. -/
theorem HtmlCrawler.Reachable.feedsTag {before : HtmlCrawler}
    (reachable : before.Reachable attributes) (document : before.currentNode = .doc)
    {body : Bytes} {last : Segment attributes Unit} {found : List (Report Unit)}
    (walk : (outline attributes).Walk Segment.InTag (.elementName []) body last found)
    (ends : last.next '>'.toUInt8 () = .doc) (silent : last.report '>'.toUInt8 = none) :
    FeedsTag attributes before ('<'.toUInt8 :: body ++ ['>'.toUInt8])
      (found.map Report.triple) := by
  have closing : (outline attributes).next last '>'.toUInt8 = .doc := ends
  have silentEnd : (outline attributes).emit last '>'.toUInt8 = none := silent
  rw [reachable.feedsTag_iff document, List.cons_append]
  refine ⟨?_, ?_, ?_⟩
  · rw [outline_outputs_opening, Mealy.outputs_append, walk.outputs, walk.run]
    simp [silentEnd]
  · rw [outline_run_opening, Mealy.run_append, walk.run]
    exact closing
  · intro initial isPrefix nonempty shorter
    rcases List.prefix_cons_iff.mp isPrefix with rfl | ⟨inner, rfl, innerPrefix⟩
    · contradiction
    · rcases List.prefix_concat_iff.mp innerPrefix with whole | within
      · exact absurd (congrArg _ whole) shorter
      · exact walk.inside inner within

end FastCrawl
