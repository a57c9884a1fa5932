import FastCrawl.Crawler.Downloads
import FastCrawl.Crawler.Markup

namespace FastCrawl

open Automata

/-! Whole pages: what the crawler makes of one, in whatever chunks it comes. -/

variable {attributes : AttributeMap}

theorem WrittenAttribute.greater_not_mem (listed : WrittenAttribute) :
    '>'.toUInt8 ∉ listed.written := by
  have notBlanks : '>'.toUInt8 ∉ listed.blanks := by
    intro member
    exact absurd (listed.areBlanks _ member) (by decide)
  have notName : '>'.toUInt8 ∉ listed.first :: listed.others := by
    intro member
    exact absurd (listed.areBytes _ member) (by decide)
  have notValue : '>'.toUInt8 ∉ (listed.value.map WrittenValue.written).getD [] := by
    cases listed.value with
    | none => exact List.not_mem_nil
    | some value =>
        have notQuote : '>'.toUInt8 ≠ value.quote := (ne_of_class value.isQuote (by decide)).symm
        have notEquals : '>'.toUInt8 ≠ '='.toUInt8 := by decide
        simp only [Option.map_some, Option.getD_some, WrittenValue.written, List.mem_append,
          List.mem_cons, List.not_mem_nil, notQuote, notEquals, value.noGreater, or_self,
          not_false_eq_true]
  rw [written, List.mem_append, List.mem_append, not_or, not_or]
  exact ⟨⟨notBlanks, notName⟩, notValue⟩

/-- The attributes of an element that is not registered are skipped. -/
theorem walk_unregistered_attributes {name : Bytes} (nonempty : name ≠ [])
    (unregistered : attributes.find name = none) (list : List WrittenAttribute) :
    ∃ last, (outline attributes).Walk Segment.InTag (.elementName name)
      (list.flatMap WrittenAttribute.written) last [] ∧ Endable last := by
  cases list with
  | nil => exact ⟨_, .nil (Segment.inTag_elementName name), .elementName name⟩
  | cons listed rest =>
      have noGreater : '>'.toUInt8 ∉ (listed :: rest).flatMap WrittenAttribute.written := by
        rw [List.mem_flatMap]
        rintro ⟨other, _, member⟩
        exact other.greater_not_mem member
      obtain ⟨ch, blanks, split⟩ := List.exists_cons_of_ne_nil listed.blanksNonempty
      have isBlank : whitespace ch = true := listed.areBlanks ch (by simp [split])
      have skipped : (outline attributes).next (.elementName name) ch = .skipped {} := by
        calc (outline attributes).next (.elementName name) ch
            = Segment.ofElement attributes name := Segment.next_elementName_blank isBlank name ()
          _ = .skipped {} := by
            rw [Segment.ofElement, dif_neg nonempty, (registered_eq_none nonempty).mpr unregistered]
      obtain ⟨text, written⟩ : ∃ text,
          (listed :: rest).flatMap WrittenAttribute.written = ch :: text := by
        rw [List.flatMap_cons, WrittenAttribute.written, split]
        exact ⟨_, rfl⟩
      rw [written, List.mem_cons, not_or] at noGreater
      obtain ⟨dash, walk⟩ := walk_skipped attributes noGreater.2 false
      refine ⟨_, ?_, .skipped dash⟩
      rw [written]
      refine .cons (Segment.inTag_elementName name) rfl ?_
      rw [skipped]
      exact walk

/-- Whichever element it is of, a tag reports its links. -/
theorem OpeningTag.walk {tag : OpeningTag} (plain : tag.Plain attributes) :
    ∃ last reported, (outline attributes).Walk Segment.InTag (.elementName [])
        (tag.element.written ++ tag.body) last reported ∧ Endable last ∧
      reported.map Report.triple = tag.links attributes := by
  have nonempty := tag.element.name_ne_nil
  have attributesWalk : ∃ last reported, (outline attributes).Walk Segment.InTag
        (.elementName tag.element.name) (tag.list.flatMap WrittenAttribute.written) last reported ∧
      Endable last ∧ reported.map Report.triple = tag.links attributes := by
    unfold links
    cases found : attributes.find tag.element.name with
    | none =>
        obtain ⟨last, walk, endable⟩ := walk_unregistered_attributes nonempty found tag.list
        exact ⟨last, [], walk, endable, rfl⟩
    | some entry =>
        obtain ⟨apart, noEquals⟩ := plain entry found
        obtain ⟨element, attributeName⟩ := entry
        obtain rfl : element = tag.element.name := AttributeMap.find_element found
        let registered : Registered attributes :=
          { element := tag.element.name, attributeName, nonempty, found }
        have collects : Segment.Collects registered [] (.elementName tag.element.name) :=
          .element
        exact walk_attributes collects apart noEquals
  obtain ⟨middle, reported, walk, endable, links⟩ := attributesWalk
  obtain ⟨last, ending, lastEndable⟩ := endable.walk_ending tag.ending
  have whole := (tag.element.walk attributes).append (walk.append ending)
  rw [List.append_nil] at whole
  exact ⟨last, reported, whole, lastEndable, links⟩

section Feeds

variable {before : HtmlCrawler} (reachable : before.Reachable attributes)
  (document : before.currentNode = .doc)
include reachable document

theorem OpeningTag.feedsTag {tag : OpeningTag} (plain : tag.Plain attributes) :
    FeedsTag attributes before tag.written (tag.links attributes) := by
  obtain ⟨last, reported, walk, endable, links⟩ := OpeningTag.walk plain
  rw [← links]
  exact reachable.feedsTag document walk endable.ends endable.silent

theorem feedsTag_closing (element : WrittenName) (ending : TagEnding) :
    FeedsTag attributes before (Markup.closing element ending).written [] := by
  have slash : (outline attributes).Walk Segment.InTag (.elementName []) ['/'.toUInt8]
      (.elementName []) [] := .single (Segment.inTag_elementName _) (Segment.inTag_elementName _)
    rfl rfl
  have named : Endable (.elementName element.name : Segment attributes Unit) := .elementName _
  obtain ⟨last, walk, endable⟩ := named.walk_ending ending
  exact reachable.feedsTag document
    (slash.append ((element.walk attributes).append walk)) endable.ends endable.silent

theorem feedsTag_instruction {body : Bytes} (noGreater : '>'.toUInt8 ∉ body) :
    FeedsTag attributes before (Markup.instruction body).written [] := by
  have mark : (outline attributes).Walk Segment.InTag (.elementName []) ['?'.toUInt8]
      (.skipped {}) [] := .single (Segment.inTag_elementName _) (Segment.inTag_skipped _) rfl rfl
  obtain ⟨dash, walk⟩ := walk_skipped attributes noGreater false
  exact reachable.feedsTag document (mark.append walk) rfl rfl

theorem feedsTag_declaration {body : Bytes} (opened : ∃ ch ∈ body.head?, commentMark ch = false)
    (noGreater : '>'.toUInt8 ∉ body) :
    FeedsTag attributes before (Markup.declaration body).written [] := by
  obtain ⟨ch, first, noMark⟩ := opened
  obtain ⟨rest, rfl⟩ := List.head?_eq_some_iff.mp first
  rw [commentMark_eq_false] at noMark
  rw [List.mem_cons, not_or] at noGreater
  have mark : (outline attributes).Walk Segment.InTag (.elementName []) ['!'.toUInt8]
      (.skipped { commentBegin := true }) [] :=
    .single (Segment.inTag_elementName _) (Segment.inTag_skipped _) rfl rfl
  have clears : (outline attributes).next (.skipped { commentBegin := true }) ch = .skipped {} := by
    simp only [outline, Segment.next, Skipping.next, if_neg noMark.1, if_neg noMark.2]
  have clear : (outline attributes).Walk Segment.InTag (.skipped { commentBegin := true }) [ch]
      (.skipped {}) [] := .single (Segment.inTag_skipped _) (Segment.inTag_skipped _) clears rfl
  obtain ⟨dash, walk⟩ := walk_skipped attributes noGreater.2 false
  exact reachable.feedsTag document (mark.append (clear.append walk)) rfl rfl

end Feeds

theorem crawls_text {content : Bytes} (noTag : '<'.toUInt8 ∉ content) :
    (outline attributes).run .doc content = .doc ∧
      (outline attributes).outputs .doc content = [] := by
  induction content with
  | nil => exact ⟨rfl, rfl⟩
  | cons ch rest ih =>
      rw [List.mem_cons, not_or] at noTag
      have next : (outline attributes).next .doc ch = .doc := if_neg (Ne.symm noTag.1)
      rw [Mealy.run_cons, Mealy.outputs_cons, next]
      exact ih noTag.2

theorem Markup.crawls {part : Markup} (plain : part.Plain attributes) :
    (outline attributes).run .doc part.written = .doc ∧
      ((outline attributes).outputs .doc part.written).map Report.triple =
        part.links attributes := by
  have reachable := HtmlCrawler.new_reachable attributes []
  have ofTag {found : List (Bytes × Bytes × Bytes)}
      (fed : FeedsTag attributes (.new []) part.written found) :
      (outline attributes).run .doc part.written = .doc ∧
        ((outline attributes).outputs .doc part.written).map Report.triple = found := by
    obtain ⟨outputs, run, _⟩ := (reachable.feedsTag_iff rfl _ _).mp fed
    exact ⟨run, outputs⟩
  cases part with
  | text content =>
      obtain ⟨run, outputs⟩ := crawls_text plain
      exact ⟨run, congrArg (List.map Report.triple) outputs⟩
  | comment body => exact ofTag (feedsTag_commentTag reachable rfl plain.1 plain.2)
  | declaration body => exact ofTag (feedsTag_declaration reachable rfl plain.1 plain.2)
  | instruction body => exact ofTag (feedsTag_instruction reachable rfl plain)
  | opening tag => exact ofTag (OpeningTag.feedsTag reachable rfl plain)
  | closing element ending => exact ofTag (feedsTag_closing reachable rfl element ending)

/-- A page, from its first part to its last. -/
abbrev Page := List Markup

namespace Page

def written (page : Page) : Bytes := page.flatMap Markup.written

def links (attributes : AttributeMap) (page : Page) : List (Bytes × Bytes × Bytes) :=
  page.flatMap (Markup.links attributes)

def Plain (attributes : AttributeMap) (page : Page) : Prop := ∀ part ∈ page, part.Plain attributes

theorem crawls {page : Page} (plain : page.Plain attributes) :
    (outline attributes).run .doc page.written = .doc ∧
      ((outline attributes).outputs .doc page.written).map Report.triple =
        page.links attributes := by
  induction page with
  | nil => exact ⟨rfl, rfl⟩
  | cons part rest ih =>
      obtain ⟨plainPart, plainRest⟩ := List.forall_mem_cons.mp plain
      obtain ⟨run, outputs⟩ := Markup.crawls plainPart
      obtain ⟨runRest, outputsRest⟩ := ih plainRest
      rw [written, List.flatMap_cons, Mealy.run_append, Mealy.outputs_append, run, List.map_append,
        outputs]
      exact ⟨runRest, congrArg _ outputsRest⟩

end Page

instance : DecidablePred Downloadable := fun _ => inferInstanceAs (Decidable (_ ≠ _))

/-- The URIs that are downloaded, of those that are called for: no local fragment
references, and each of the others once, in the order of their first calls. -/
def wantedUris (called : List Bytes) : List Bytes :=
  (called.filter fun uri => decide (Downloadable uri)).eraseDups

theorem mem_wantedUris {called : List Bytes} {uri : Bytes} :
    uri ∈ wantedUris called ↔ uri ∈ called ∧ Downloadable uri := by
  rw [wantedUris, List.mem_eraseDups, List.mem_filter, decide_eq_true_iff]

/-- More calls only add URIs. -/
theorem wantedUris_append_part (called more : List Bytes) :
    wantedUris called <+: wantedUris (called ++ more) := by
  rw [wantedUris, wantedUris, List.filter_append, List.eraseDups_append]
  exact List.prefix_append _ _

theorem wantedUris_concat (called : List Bytes) (uri : Bytes) :
    wantedUris (called ++ [uri]) =
      if Downloadable uri ∧ uri ∉ wantedUris called then wantedUris called ++ [uri]
      else wantedUris called := by
  simp only [mem_wantedUris]
  by_cases wanted : Downloadable uri
  · have kept : [uri].filter (fun uri => decide (Downloadable uri)) = [uri] := by simp [wanted]
    unfold wantedUris
    rw [List.filter_append, kept, List.eraseDups_append]
    by_cases known : uri ∈ called
    · simp [List.removeAll, wanted, known]
    · have alone : [uri].eraseDups = [uri] := rfl
      simp [List.removeAll, wanted, known, alone]
  · have dropped : [uri].filter (fun uri => decide (Downloadable uri)) = [] := by simp [wanted]
    unfold wantedUris
    rw [List.filter_append, dropped, List.append_nil, if_neg fun added => wanted added.1]

/-- The keys of the records are the URIs that have been called for. -/
def Downloads.KeysWanted (downloads : Downloads) : Prop :=
  downloads.uriRecords.keys = wantedUris (downloads.calls.map ProcessUriCall.uriStr)

theorem Downloads.KeysWanted.processUri {downloads : Downloads} (kept : downloads.KeysWanted)
    (call : ProcessUriCall) : (downloads.processUri call).KeysWanted := by
  unfold KeysWanted at *
  rw [Downloads.processUri_calls, List.map_append, List.map_singleton, wantedUris_concat, ← kept]
  by_cases localRef : call.uriStr.head? = some '#'.toUInt8
  · have unwanted : ¬Downloadable call.uriStr := not_not_intro localRef
    rw [if_neg fun added => unwanted added.1]
    simp only [Downloads.processUri, if_pos localRef]
  · have wanted : Downloadable call.uriStr := localRef
    by_cases known : call.uriStr ∈ downloads.uriRecords.keys
    · obtain ⟨node, emplaced⟩ := UriRecords.emplace_of_mem known {}
      rw [if_neg fun added => added.2 known]
      simp only [Downloads.processUri, if_neg localRef, emplaced]
    · rw [if_pos ⟨wanted, known⟩]
      simp only [Downloads.processUri, if_neg localRef, UriRecords.emplace_of_not_mem known]
      exact UriRecords.keys_append _ _ _

theorem Downloads.KeysWanted.foldl_apply {downloads : Downloads} (kept : downloads.KeysWanted)
    (found : List (Report Location)) : (found.foldl Downloads.apply downloads).KeysWanted := by
  induction found generalizing downloads with
  | nil => exact kept
  | cons report rest ih => exact ih (kept.processUri report.call)

theorem Downloads.empty_keysWanted : ({} : Downloads).KeysWanted := rfl

theorem HtmlCrawler.Reachable.downloads_eq {crawler : HtmlCrawler}
    (reachable : crawler.Reachable attributes) :
    ∃ found : List (Report Location),
      crawler.downloads = found.foldl Downloads.apply {} := by
  obtain ⟨host, chunks, called⟩ := reachable
  obtain ⟨same, calledSame, _, downloads⟩ := HtmlCrawler.callAll_tracks attributes host chunks
  rw [called] at calledSame
  cases calledSame
  exact ⟨_, downloads⟩

/-- The URIs of the jobs of a crawler. -/
theorem HtmlCrawler.Reachable.jobs_wanted {crawler : HtmlCrawler}
    (reachable : crawler.Reachable attributes) :
    crawler.downloads.jobs.map DownloadJob.uriStr =
      wantedUris (crawler.triples.map fun triple => triple.2.2) := by
  obtain ⟨found, downloads⟩ := reachable.downloads_eq
  have wellFormed : crawler.downloads.WellFormed :=
    downloads ▸ Downloads.empty_wellFormed.foldl_apply found
  have kept : crawler.downloads.KeysWanted :=
    downloads ▸ Downloads.empty_keysWanted.foldl_apply found
  rw [← wellFormed.keys, kept, HtmlCrawler.triples, List.map_map]
  rfl

def Page.uris (attributes : AttributeMap) (page : Page) : List Bytes :=
  wantedUris ((page.links attributes).map fun link => link.2.2)

def anchorName : WrittenName where
  first := 'A'.toUInt8
  others := []
  isFirst := by decide
  areOthers := List.forall_mem_nil _

theorem quoteMark_apostrophe : quoteMark '\''.toUInt8 = true := rfl

/-- `hREF='/x?y'` after two spaces -/
def hrefWritten : WrittenAttribute where
  blanks := bytes "  "
  first := 'h'.toUInt8
  others := bytes "REF"
  value := some ⟨'\''.toUInt8, bytes "/x?y", quoteMark_apostrophe, by decide, by decide⟩
  blanksNonempty := by decide
  areBlanks := List.all_eq_true.mp (by decide)
  isFirst := by decide
  lowerFirst := by decide
  areOthers := List.all_eq_true.mp (by decide)

def noEnding : TagEnding := ⟨[], false, List.forall_mem_nil _⟩

/-- `<!DOCTYPE html><A  hREF='/x?y'>home</A><!-- <a href='z'> -->` -/
def homePage : Page :=
  [.declaration (bytes "DOCTYPE html"), .opening ⟨anchorName, [hrefWritten], noEnding⟩,
    .text (bytes "home"), .closing anchorName noEnding, .comment (bytes " <a href='z'> ")]

theorem homePage_plain : homePage.Plain sAttributeMap := by
  have declaration : (Markup.declaration (bytes "DOCTYPE html")).Plain sAttributeMap :=
    ⟨⟨_, rfl, by decide⟩, by decide⟩
  have comment : (Markup.comment (bytes " <a href='z'> ")).Plain sAttributeMap := by
    refine ⟨by decide, ?_⟩
    rintro ⟨before, after, same, dashes⟩
    have inside : bytes "--" <:+: commentText (bytes " <a href='z'> ") :=
      dashes.trans ⟨[], _, same.symm⟩
    exact absurd inside (by decide)
  have opening : OpeningTag.Plain sAttributeMap ⟨anchorName, [hrefWritten], noEnding⟩ := by
    intro entry found
    obtain rfl : (bytes "a", bytes "href") = entry := Option.some.inj found
    have named : ([] : Bytes) ≠ bytes "href" := by decide
    refine ⟨⟨fun _ => Iff.rfl, named⟩, ?_⟩
    intro listed member _ value isValue
    obtain rfl := List.mem_singleton.mp member
    obtain rfl := Option.some.inj isValue
    decide
  have text : (Markup.text (bytes "home")).Plain sAttributeMap := by
    change '<'.toUInt8 ∉ bytes "home"
    decide
  exact List.forall_mem_cons.mpr ⟨declaration, List.forall_mem_cons.mpr ⟨opening,
    List.forall_mem_cons.mpr ⟨text, List.forall_mem_cons.mpr ⟨trivial,
      List.forall_mem_singleton.mpr comment⟩⟩⟩⟩

end FastCrawl
