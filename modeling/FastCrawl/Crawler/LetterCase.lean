import FastCrawl.Crawler.Tags

namespace FastCrawl

open Automata

/-! Tags written in letters of any case. -/

variable {attributes : AttributeMap}

theorem isLetters_of_map {written lower : Bytes} (isLower : ∀ ch ∈ lower, lowerLetter ch = true)
    (same : written.map toLower = lower) : ∀ ch ∈ written, letter ch = true := by
  intro ch member
  rw [← same] at isLower
  exact isLower (toLower ch) (List.mem_map_of_mem member)

theorem collectedName_eq_iff {written lower : Bytes} (same : written.map toLower = lower) :
    collectedName written = lower ↔ written.head? = lower.head? := by
  subst same
  cases written with
  | nil => simp [collectedName]
  | cons first rest => simp [collectedName]

def Location.along (location : Location) (count : Nat) : Location :=
  { location with offset := location.offset + count, column := location.column + count }

theorem Location.foldl_advance_sameLine {content : Bytes} (sameLine : '\n'.toUInt8 ∉ content)
    (location : Location) :
    content.foldl Location.advance location = location.along content.length := by
  induction content generalizing location with
  | nil => rfl
  | cons ch rest ih =>
      have notBreak : ch ≠ '\n'.toUInt8 := by rintro rfl; simp at sameLine
      rw [List.foldl_cons, ih fun member => sameLine (by simp [member]), advance, if_neg notBreak]
      simp only [along, List.length_cons, Nat.add_assoc, Nat.add_comm 1]

/-- While no value is open, the outline and the length of a line say where the
segmenter is. -/
theorem segmenter_run_attr {cursor : Cursor attributes} {content : Bytes}
    {tag : Registered attributes} {name : Bytes}
    (collected : (outline attributes).run cursor.segment.outline content = .attr tag name none) :
    (segmenter attributes).run cursor content =
      ⟨.attr tag name none, content.foldl Location.advance cursor.location⟩ := by
  have forgotten := segmenter_hom_outline.run cursor content
  have location := segmenter_run_location content cursor
  generalize (segmenter attributes).run cursor content = reached at forgotten location
  obtain ⟨segment, place⟩ := reached
  simp only [Segment.outline] at collected
  simp only [collected] at forgotten
  simp only at location
  rw [location]
  cases segment with
  | attr otherTag otherName opened =>
      cases opened with
      | none =>
          cases forgotten
          rfl
      | some opened => simp at forgotten
  | _ => simp at forgotten

theorem HtmlCrawler.Tracks.call_same_downloads {crawler : HtmlCrawler}
    {cursor : Cursor attributes} (tracks : crawler.Tracks cursor) {first second : Bytes}
    (same : (segmenter attributes).outputs cursor first =
      (segmenter attributes).outputs cursor second) :
    ∃ one two, crawler.call attributes first = .ok one ∧
      crawler.call attributes second = .ok two ∧ one.downloads = two.downloads := by
  obtain ⟨one, foldedOne, _, downloadsOne⟩ := crawler_realizes_segmenter.foldlM tracks first
  obtain ⟨two, foldedTwo, _, downloadsTwo⟩ := crawler_realizes_segmenter.foldlM tracks second
  refine ⟨one, two, ?_, ?_, ?_⟩
  · rw [HtmlCrawler.call_eq_foldlM, foldedOne]
  · rw [HtmlCrawler.call_eq_foldlM, foldedTwo]
  · rw [downloadsOne, downloadsTwo, same]

section Written

variable {tag : Registered attributes} (plain : tag.Plain) {element attributeName : Bytes}
  (sameElement : element.map toLower = tag.element)
  (sameAttribute : attributeName.map toLower = tag.attributeName)
include plain sameElement sameAttribute

theorem walk_written :
    (outline attributes).Walk Segment.InTag (.elementName [])
      (element ++ [' '.toUInt8] ++ attributeName)
      (.attr tag (collectedName attributeName) none) [] := by
  have named := walk_elementName (isLetters_of_map plain.element sameElement) attributes []
  have nonempty : attributeName ≠ [] := by
    intro empty
    subst empty
    exact plain.nonempty sameAttribute.symm
  have sought := walk_tagBodyName (isLetters_of_map plain.attributeName sameAttribute) nonempty tag
  rw [sameElement] at named
  exact (named.append (walk_elementBlank tag)).append sought

variable {quote : UInt8} (isQuote : quoteMark quote = true) {value : Bytes}
  (noQuote : quote ∉ value) (noGreater : '>'.toUInt8 ∉ value)

include isQuote noQuote noGreater in
theorem outputs_written :
    (outline attributes).outputs .doc (quotedTag element attributeName quote value) =
      (Segment.finish tag (collectedName attributeName)
        (some ⟨quote, isQuote, (), storedValue value⟩)).toList := by
  have walk := (walk_written plain sameElement sameAttribute).append
    (walk_quotedValue isQuote noQuote noGreater tag (collectedName attributeName))
  have silentEnd : (outline attributes).emit (.tagBody tag) '>'.toUInt8 = none := rfl
  have sameTag : quotedTag element attributeName quote value =
      '<'.toUInt8 :: (element ++ [' '.toUInt8] ++ attributeName ++
        (['='.toUInt8, quote] ++ value ++ [quote])) ++ ['>'.toUInt8] := by
    simp only [quotedTag, List.append_assoc]
  rw [sameTag, List.cons_append, outline_outputs_opening, Mealy.outputs_append, walk.outputs,
    walk.run, Mealy.outputs_cons, silentEnd]
  simp

theorem segmenter_run_written {cursor : Cursor attributes} (document : cursor.segment = .doc) :
    (segmenter attributes).run cursor
        ('<'.toUInt8 :: (element ++ [' '.toUInt8] ++ attributeName)) =
      ⟨.attr tag (collectedName attributeName) none,
        cursor.location.along (tag.element.length + tag.attributeName.length + 2)⟩ := by
  have collected := (walk_written plain sameElement sameAttribute).run
  have sameLine : '\n'.toUInt8 ∉ '<'.toUInt8 :: (element ++ [' '.toUInt8] ++ attributeName) := by
    intro member
    rcases List.mem_cons.mp member with opening | member
    · contradiction
    · rcases List.mem_append.mp member with member | inAttribute
      · rcases List.mem_append.mp member with inElement | blank
        · exact ne_of_class (isLetters_of_map plain.element sameElement _ inElement)
            (by decide) rfl
        · contradiction
      · exact ne_of_class (isLetters_of_map plain.attributeName sameAttribute _ inAttribute)
          (by decide) rfl
  have whole : (outline attributes).run cursor.segment.outline
      ('<'.toUInt8 :: (element ++ [' '.toUInt8] ++ attributeName)) =
        .attr tag (collectedName attributeName) none := by
    rw [document]
    exact collected
  have lengths : ('<'.toUInt8 :: (element ++ [' '.toUInt8] ++ attributeName)).length =
      tag.element.length + tag.attributeName.length + 2 := by
    rw [← sameElement, ← sameAttribute]
    simp only [List.length_cons, List.length_append, List.length_map, List.length_nil]
    omega
  rw [segmenter_run_attr whole, Location.foldl_advance_sameLine sameLine, lengths]

theorem segmenter_outputs_written {cursor : Cursor attributes}
    (document : cursor.segment = .doc) (quote : UInt8) (value : Bytes) :
    (segmenter attributes).outputs cursor (quotedTag element attributeName quote value) =
      (segmenter attributes).outputs
        ⟨.attr tag (collectedName attributeName) none,
          cursor.location.along (tag.element.length + tag.attributeName.length + 2)⟩
        (['='.toUInt8, quote] ++ value ++ [quote, '>'.toUInt8]) := by
  have opening : (outline attributes).outputs cursor.segment.outline
      ('<'.toUInt8 :: (element ++ [' '.toUInt8] ++ attributeName)) = [] := by
    rw [document]
    exact (walk_written plain sameElement sameAttribute).outputs
  have silent : (segmenter attributes).outputs cursor
      ('<'.toUInt8 :: (element ++ [' '.toUInt8] ++ attributeName)) = [] := by
    have forgotten := segmenter_hom_outline.outputs cursor
      ('<'.toUInt8 :: (element ++ [' '.toUInt8] ++ attributeName))
    exact List.map_eq_nil_iff.mp (forgotten.trans opening)
  have split : quotedTag element attributeName quote value =
      ('<'.toUInt8 :: (element ++ [' '.toUInt8] ++ attributeName)) ++
        (['='.toUInt8, quote] ++ value ++ [quote, '>'.toUInt8]) := by
    simp only [quotedTag, List.cons_append, List.append_assoc, List.nil_append]
  rw [split, Mealy.outputs_append, silent,
    segmenter_run_written plain sameElement sameAttribute document, List.nil_append]

end Written

/-- A tag written in letters of any case makes the calls of the tag in lower-case
letters exactly when the first letter of its attribute is in lower case: every
other letter of the two names is lowered when it is collected. -/
theorem letter_case_iff {before : HtmlCrawler} (reachable : before.Reachable sAttributeMap)
    (document : before.currentNode = .doc) {element attributeName : Bytes}
    (registered : (element, attributeName) ∈ sAttributeMap)
    {writtenElement writtenAttribute : Bytes}
    (sameElement : writtenElement.map toLower = element)
    (sameAttribute : writtenAttribute.map toLower = attributeName) {quote : UInt8}
    (isQuote : quoteMark quote = true) {value : Bytes} (noQuote : quote ∉ value)
    (noGreater : '>'.toUInt8 ∉ value) (noEquals : '='.toUInt8 ∉ value) :
    (∃ after lower,
      before.call sAttributeMap (quotedTag writtenElement writtenAttribute quote value) =
        .ok after ∧
      before.call sAttributeMap (quotedTag element attributeName quote value) = .ok lower ∧
      after.downloads.calls = lower.downloads.calls ∧
      lower.triples = before.triples ++ [(element, attributeName, value)]) ↔
    writtenAttribute.head? = attributeName.head? := by
  obtain ⟨tag, plain, rfl, rfl⟩ := sAttributeMap_registered registered
  have lowerElement := map_toLower_lowerLetters plain.element
  have lowerAttribute := map_toLower_lowerLetters plain.attributeName
  have stored := storedValue_eq_self.mpr noEquals
  rw [← collectedName_eq_iff sameAttribute]
  constructor
  · intro same
    obtain ⟨after, lower, calledAfter, _, sameCalls, lowerTriples⟩ := same
    obtain ⟨same, calledSame, _, triples⟩ := reachable.call_of_document document
      (quotedTag writtenElement writtenAttribute quote value)
    rw [calledAfter] at calledSame
    cases calledSame
    have sameTriples : after.triples = lower.triples := by
      rw [HtmlCrawler.triples, sameCalls, HtmlCrawler.triples]
    rw [outputs_written plain sameElement sameAttribute isQuote noQuote noGreater] at triples
    by_contra different
    have unreported : Segment.finish tag (collectedName writtenAttribute)
        (some ⟨quote, isQuote, (), storedValue value⟩) = none := if_neg different
    rw [unreported, sameTriples, lowerTriples] at triples
    simp at triples
  · intro sameName
    obtain ⟨cursor, tracks⟩ := reachable.tracks
    have atDocument : cursor.segment = .doc :=
      Segment.outline_eq_doc.mp (tracks.document_iff.mp document)
    have sameOutputs : (segmenter sAttributeMap).outputs cursor
        (quotedTag writtenElement writtenAttribute quote value) =
          (segmenter sAttributeMap).outputs cursor
            (quotedTag tag.element tag.attributeName quote value) := by
      rw [segmenter_outputs_written plain sameElement sameAttribute atDocument,
        segmenter_outputs_written plain lowerElement lowerAttribute atDocument, sameName,
        collectedName_lowerLetters plain.attributeName]
    obtain ⟨after, lower, calledAfter, calledLower, sameDownloads⟩ :=
      tracks.call_same_downloads sameOutputs
    obtain ⟨⟨same, calledSame, triples, _⟩, _⟩ :=
      feedsTag_quotedTag plain isQuote noQuote noGreater reachable document
    rw [calledLower] at calledSame
    cases calledSame
    rw [stored] at triples
    exact ⟨after, lower, calledAfter, calledLower, by rw [sameDownloads], triples⟩

theorem letter_case_iff_anchor :
    (∃ after lower,
      (HtmlCrawler.new (bytes "host")).call sAttributeMap
        (quotedTag (bytes "A") (bytes "hREF") '"'.toUInt8 (bytes "x")) = .ok after ∧
      (HtmlCrawler.new (bytes "host")).call sAttributeMap
        (quotedTag (bytes "a") (bytes "href") '"'.toUInt8 (bytes "x")) = .ok lower ∧
      after.downloads.calls = lower.downloads.calls ∧
      lower.triples =
        (HtmlCrawler.new (bytes "host")).triples ++ [(bytes "a", bytes "href", bytes "x")]) ↔
    (bytes "hREF").head? = (bytes "href").head? :=
  letter_case_iff (HtmlCrawler.new_reachable _ _) rfl (by decide) rfl rfl (by decide) (by decide)
    (by decide) (by decide)

/-- `<a HREF="x">` makes no call: the name collected is `Href`. -/
theorem upper_case_attribute_missed :
    ¬ ∀ (before : HtmlCrawler) (element attributeName writtenElement writtenAttribute : Bytes)
      (quote : UInt8) (value : Bytes), before.Reachable sAttributeMap →
      before.currentNode = .doc → (element, attributeName) ∈ sAttributeMap →
      writtenElement.map toLower = element → writtenAttribute.map toLower = attributeName →
      quoteMark quote = true → quote ∉ value → '>'.toUInt8 ∉ value → '='.toUInt8 ∉ value →
      ∃ after lower,
        before.call sAttributeMap (quotedTag writtenElement writtenAttribute quote value) =
          .ok after ∧
        before.call sAttributeMap (quotedTag element attributeName quote value) = .ok lower ∧
        after.downloads.calls = lower.downloads.calls ∧
        lower.triples = before.triples ++ [(element, attributeName, value)] := by
  intro insensitive
  obtain ⟨after, lower, calledAfter, calledLower, sameCalls, _⟩ :=
    insensitive (HtmlCrawler.new (bytes "host")) (bytes "a") (bytes "href") (bytes "a")
      (bytes "HREF") '"'.toUInt8 (bytes "x") (HtmlCrawler.new_reachable _ _) rfl (by decide) rfl
      rfl (by decide) (by decide) (by decide) (by decide)
  rw [HtmlCrawler.call_eq_foldlM] at calledAfter calledLower
  cases calledAfter
  cases calledLower
  contradiction

end FastCrawl
