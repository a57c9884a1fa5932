import FastCrawl.Crawler.Outline

namespace FastCrawl

open Automata

variable {attributes : AttributeMap}

def lowerLetter (ch : UInt8) : Bool := 'a'.toUInt8 ≤ ch && ch ≤ 'z'.toUInt8

theorem toLower_lowerLetter {ch : UInt8} (lower : lowerLetter ch = true) : toLower ch = ch := by
  simp only [lowerLetter, Bool.and_eq_true, decide_eq_true_eq] at lower
  have notUpper : ¬ ('A'.toUInt8 ≤ ch ∧ ch ≤ 'Z'.toUInt8) := by
    intro isUpper
    obtain ⟨_, upper⟩ := isUpper
    exact absurd (UInt8.le_trans lower.1 upper) (by decide)
  rw [toLower, if_neg notUpper]

theorem map_toLower_lowerLetters {letters : Bytes}
    (lower : ∀ ch ∈ letters, lowerLetter ch = true) : letters.map toLower = letters := by
  induction letters with
  | nil => rfl
  | cons ch rest ih =>
      rw [List.map_cons, toLower_lowerLetter (lower ch (by simp)),
        ih fun ch member => lower ch (by simp [member])]

/-- A letter of either case. -/
def letter (ch : UInt8) : Bool := lowerLetter (toLower ch)

theorem lowerLetter_letter {ch : UInt8} (lower : lowerLetter ch = true) : letter ch = true := by
  rw [letter, toLower_lowerLetter lower, lower]

/-- A token character that may begin the name of an element. -/
def nameByte (ch : UInt8) : Bool := tokenChar ch && ch != '-'.toUInt8

section NameBytes

variable {ch : UInt8} (isName : nameByte ch = true)
include isName

theorem nameByte_not_whitespace : whitespace ch = false := by
  simp only [whitespace, Bool.or_eq_false_iff, decide_eq_false_iff_not]
  exact ⟨⟨⟨ne_of_class isName (by decide), ne_of_class isName (by decide)⟩,
    ne_of_class isName (by decide)⟩, ne_of_class isName (by decide)⟩

theorem next_elementName_nameByte (name : Bytes) :
    (Segment.elementName name : Segment attributes Unit).next ch () =
      .elementName (name ++ [toLower ch]) := by
  have ne (other : UInt8) (notName : nameByte other = false) : ch ≠ other :=
    ne_of_class isName notName
  have token : tokenChar ch = true := (Bool.and_eq_true_iff.mp isName).1
  simp only [Segment.next, if_neg (ne '>'.toUInt8 (by decide)),
    if_neg (ne '!'.toUInt8 (by decide)), if_neg (ne '?'.toUInt8 (by decide)),
    if_neg (ne '/'.toUInt8 (by decide)), nameByte_not_whitespace isName,
    if_neg (ne '-'.toUInt8 (by decide)), token, Bool.false_eq_true, if_false, if_true]

end NameBytes

theorem walk_elementName_nameBytes {text : Bytes} (isName : ∀ ch ∈ text, nameByte ch = true)
    (attributes : AttributeMap) (name : Bytes) :
    (outline attributes).Walk Segment.InTag (.elementName name) text
      (.elementName (name ++ text.map toLower)) [] := by
  induction text generalizing name with
  | nil => simpa using Mealy.Walk.nil (Segment.inTag_elementName _)
  | cons ch rest ih =>
      refine .cons (Segment.inTag_elementName _) rfl ?_
      have tail := ih (fun ch member => isName ch (by simp [member])) (name ++ [toLower ch])
      rw [List.append_assoc] at tail
      rw [← next_elementName_nameByte (isName ch (by simp))] at tail
      exact tail

section Letters

variable {ch : UInt8} (isLetter : letter ch = true)
include isLetter

theorem letter_not_quoteMark : quoteMark ch = false := by
  simp only [quoteMark, Bool.or_eq_false_iff, decide_eq_false_iff_not]
  exact ⟨ne_of_class isLetter (by decide), ne_of_class isLetter (by decide)⟩

theorem letter_tokenChar : tokenChar ch = true := by
  unfold tokenChar
  by_cases upper : 'A'.toUInt8 ≤ ch ∧ ch ≤ 'Z'.toUInt8
  · rw [if_pos upper, ite_self]
  · have lower : 'a'.toUInt8 ≤ ch ∧ ch ≤ 'z'.toUInt8 := by
      rw [letter, toLower, if_neg upper] at isLetter
      simpa only [lowerLetter, Bool.and_eq_true, decide_eq_true_eq] using isLetter
    rw [if_pos lower]

theorem letter_nameByte : nameByte ch = true := by
  have notDash : ch ≠ '-'.toUInt8 := ne_of_class isLetter (by decide)
  rw [nameByte, letter_tokenChar isLetter, Bool.true_and, bne_iff_ne]
  exact notDash

theorem letter_not_whitespace : whitespace ch = false :=
  nameByte_not_whitespace (letter_nameByte isLetter)

theorem next_tagBody_letter (tag : Registered attributes) :
    (Segment.tagBody tag : Segment attributes Unit).next ch () = .attr tag [ch] none := by
  have ne (other : UInt8) (notLetter : letter other = false) : ch ≠ other :=
    ne_of_class isLetter notLetter
  simp only [Segment.next, ne '>'.toUInt8 (by decide),
    ne '!'.toUInt8 (by decide), ne '?'.toUInt8 (by decide),
    ne '/'.toUInt8 (by decide), letter_not_whitespace isLetter,
    ne '-'.toUInt8 (by decide), letter_tokenChar isLetter,
    Bool.false_eq_true, or_self, if_false, if_true]

theorem next_attr_letter (tag : Registered attributes) (name : Bytes) :
    (Segment.attr tag name none : Segment attributes Unit).next ch () =
      .attr tag (name ++ [toLower ch]) none := by
  have ne (other : UInt8) (notLetter : letter other = false) : ch ≠ other :=
    ne_of_class isLetter notLetter
  simp only [Segment.next, ne '>'.toUInt8 (by decide),
    ne '/'.toUInt8 (by decide), ne '='.toUInt8 (by decide),
    letter_not_quoteMark isLetter, letter_not_whitespace isLetter,
    Bool.false_eq_true, or_self, if_false, dif_neg not_false]

theorem report_attr_letter (tag : Registered attributes) (name : Bytes) :
    (Segment.attr tag name none : Segment attributes Unit).report ch = none := by
  have notGreater : ch ≠ '>'.toUInt8 := ne_of_class isLetter (by decide)
  simp only [Segment.report, if_neg notGreater,
    Option.map_none, reduceCtorEq, if_false]

end Letters

/-- The name collected of an attribute: only `html_element_attribute::crawl` calls
`tolower`, and `html_tag::descend` has taken the first letter before. -/
def collectedName (letters : Bytes) : Bytes := letters.take 1 ++ (letters.drop 1).map toLower

theorem collectedName_lowerLetters {letters : Bytes}
    (lower : ∀ ch ∈ letters, lowerLetter ch = true) : collectedName letters = letters := by
  have lowered : (letters.drop 1).map toLower = letters.drop 1 :=
    map_toLower_lowerLetters fun ch member => lower ch (List.mem_of_mem_drop member)
  rw [collectedName, lowered, List.take_append_drop]

section Names

variable {letters : Bytes} (isLetters : ∀ ch ∈ letters, letter ch = true)
include isLetters

theorem walk_elementName (attributes : AttributeMap) (name : Bytes) :
    (outline attributes).Walk Segment.InTag (.elementName name) letters
      (.elementName (name ++ letters.map toLower)) [] :=
  walk_elementName_nameBytes (fun ch member => letter_nameByte (isLetters ch member)) attributes
    name

theorem walk_attrName (tag : Registered attributes) (name : Bytes) :
    (outline attributes).Walk Segment.InTag (.attr tag name none) letters
      (.attr tag (name ++ letters.map toLower) none) [] := by
  induction letters generalizing name with
  | nil => simpa using Mealy.Walk.nil (Segment.inTag_attr _ _ _)
  | cons ch rest ih =>
      have isLetter := isLetters ch (by simp)
      refine .cons (Segment.inTag_attr _ _ _) (report_attr_letter isLetter tag name) ?_
      have tail := ih (fun ch member => isLetters ch (by simp [member])) (name ++ [toLower ch])
      rw [List.append_assoc] at tail
      rw [← next_attr_letter isLetter] at tail
      exact tail

theorem walk_tagBodyName (nonempty : letters ≠ []) (tag : Registered attributes) :
    (outline attributes).Walk Segment.InTag (.tagBody tag) letters
      (.attr tag (collectedName letters) none) [] := by
  cases letters with
  | nil => exact absurd rfl nonempty
  | cons first rest =>
      refine .cons (Segment.inTag_tagBody _) rfl ?_
      have next : (outline attributes).next (.tagBody tag) first = .attr tag [first] none :=
        next_tagBody_letter (isLetters first (by simp)) tag
      rw [next]
      exact walk_attrName (fun ch member => isLetters ch (by simp [member])) tag [first]

end Names

/-- The bytes of a quoted value that reach `uri_str`: `=` is taken for the
assignment of the value wherever it stands. -/
def storedValue (value : Bytes) : Bytes := value.filter fun ch => ch ≠ '='.toUInt8

theorem storedValue_eq_self {value : Bytes} : storedValue value = value ↔ '='.toUInt8 ∉ value := by
  rw [storedValue, List.filter_eq_self]
  constructor
  · intro kept member
    simpa using kept _ member
  · intro absent ch member
    simp only [decide_eq_true_eq]
    rintro rfl
    exact absent member

theorem walk_value {value : Bytes} (tag : Registered attributes) (name : Bytes)
    (opened : Opened Unit) (noQuote : opened.quote ∉ value) (noGreater : '>'.toUInt8 ∉ value) :
    (outline attributes).Walk Segment.InTag (.attr tag name (some opened)) value
      (.attr tag name (some { opened with value := opened.value ++ storedValue value })) [] := by
  induction value generalizing opened with
  | nil => simpa [storedValue] using Mealy.Walk.nil (Segment.inTag_attr _ _ _)
  | cons ch rest ih =>
      have notGreater : ch ≠ '>'.toUInt8 := by rintro rfl; simp at noGreater
      have notQuote : ch ≠ opened.quote := by rintro rfl; simp at noQuote
      have restGreater : '>'.toUInt8 ∉ rest := fun member => noGreater (by simp [member])
      refine .cons (Segment.inTag_attr _ _ _) ?_ ?_
      · simp [outline, Segment.report, notGreater, Ne.symm notQuote]
      · by_cases equals : ch = '='.toUInt8
        · have next : (outline attributes).next (.attr tag name (some opened)) ch =
              .attr tag name (some opened) := by
            simp only [outline, Segment.next, if_neg notGreater, if_pos equals]
          have stored : storedValue (ch :: rest) = storedValue rest := by
            simp [storedValue, equals]
          rw [next, stored]
          exact ih opened (fun member => noQuote (by simp [member])) restGreater
        · have next : (outline attributes).next (.attr tag name (some opened)) ch =
              .attr tag name (some (opened.append ch)) := by
            simp only [outline, Segment.next, if_neg notGreater, if_neg equals, if_neg notQuote]
          have stored : storedValue (ch :: rest) = ch :: storedValue rest := by
            simp [storedValue, equals]
          have tail := ih (opened.append ch)
            (fun member => noQuote (List.mem_cons_of_mem ch member)) restGreater
          rw [next, stored]
          simpa [Opened.append] using tail

/-- `'<' e ' ' a '=' q v q '>'` -/
def quotedTag (element attributeName : Bytes) (quote : UInt8) (value : Bytes) : Bytes :=
  '<'.toUInt8 ::
    (element ++ [' '.toUInt8] ++ attributeName ++ ['='.toUInt8, quote] ++ value ++ [quote]) ++
    ['>'.toUInt8]

/-- A registered element and attribute whose names are words of lower-case
letters, as all those of `s_attribute_map` are. -/
structure Registered.Plain (tag : Registered attributes) : Prop where
  element : ∀ ch ∈ tag.element, lowerLetter ch = true
  attributeName : ∀ ch ∈ tag.attributeName, lowerLetter ch = true
  nonempty : tag.attributeName ≠ []

theorem registered_self (tag : Registered attributes) :
    attributes.registered tag.element tag.nonempty = some tag := by
  cases registered : attributes.registered tag.element tag.nonempty with
  | none =>
      have absent := (registered_eq_none tag.nonempty).mp registered
      rw [tag.found] at absent
      contradiction
  | some other =>
      have sameElement := registered_eq_some registered
      have found := other.found
      rw [sameElement, tag.found] at found
      cases other
      cases tag
      simp_all

theorem ofElement_self {π : Type} (tag : Registered attributes) :
    (Segment.ofElement attributes tag.element : Segment attributes π) = .tagBody tag := by
  rw [Segment.ofElement, dif_neg tag.nonempty, registered_self]

theorem walk_elementBlank (tag : Registered attributes) :
    (outline attributes).Walk Segment.InTag (.elementName tag.element) [' '.toUInt8]
      (.tagBody tag) [] := by
  have next : (outline attributes).next (.elementName tag.element) ' '.toUInt8 =
      .tagBody tag := ofElement_self tag
  exact .single (Segment.inTag_elementName _) (Segment.inTag_tagBody _) next rfl

section Quoted

variable {quote : UInt8} (isQuote : quoteMark quote = true)
include isQuote

theorem walk_opening (tag : Registered attributes) (name : Bytes) :
    (outline attributes).Walk Segment.InTag (.attr tag name none) ['='.toUInt8, quote]
      (.attr tag name (some ⟨quote, isQuote, (), []⟩)) [] := by
  have notSlash : quote ≠ '/'.toUInt8 := ne_of_class isQuote (by decide)
  have notGreater : quote ≠ '>'.toUInt8 := ne_of_class isQuote (by decide)
  have assigned : (outline attributes).next (.attr tag name none) '='.toUInt8 =
      .attr tag name none := rfl
  have opened : (outline attributes).next (.attr tag name none) quote =
      .attr tag name (some ⟨quote, isQuote, (), []⟩) := by
    simp only [outline, Segment.next, if_neg notSlash, if_neg notGreater, dif_pos isQuote]
  have silent : (outline attributes).emit (.attr tag name none) quote = none := by
    simp [outline, Segment.report, notGreater]
  refine .cons (Segment.inTag_attr _ _ _) rfl ?_
  rw [assigned]
  exact .single (Segment.inTag_attr _ _ _) (Segment.inTag_attr _ _ _) opened silent

/-- A quoted value without its own quote and without `>` is passed on when it is
closed, to whatever the name that has been collected is. -/
theorem walk_quotedValue {value : Bytes} (noQuote : quote ∉ value) (noGreater : '>'.toUInt8 ∉ value)
    (tag : Registered attributes) (name : Bytes) :
    (outline attributes).Walk Segment.InTag (.attr tag name none)
      (['='.toUInt8, quote] ++ value ++ [quote]) (.tagBody tag)
      (Segment.finish tag name (some ⟨quote, isQuote, (), storedValue value⟩)).toList := by
  have notGreater : quote ≠ '>'.toUInt8 := ne_of_class isQuote (by decide)
  have notEquals : quote ≠ '='.toUInt8 := ne_of_class isQuote (by decide)
  let closed : Opened Unit := ⟨quote, isQuote, (), storedValue value⟩
  have collected := (walk_opening isQuote tag name).append
    (walk_value tag name ⟨quote, isQuote, (), []⟩ noQuote noGreater)
  have closes : (outline attributes).next (.attr tag name (some closed)) quote =
      .tagBody tag := by
    simp only [outline, Segment.next, closed, if_neg notGreater, if_neg notEquals, if_true]
  have reported : (outline attributes).emit (.attr tag name (some closed)) quote =
      Segment.finish tag name (some closed) := by
    simp [outline, Segment.report, closed]
  have closing := Mealy.Walk.single (Segment.inTag_attr _ _ _) (Segment.inTag_tagBody tag) closes
    reported
  exact collected.append closing

end Quoted

section QuotedTag

variable {tag : Registered attributes} (plain : tag.Plain) {quote : UInt8}
  (isQuote : quoteMark quote = true)
include plain

theorem walk_toAttribute :
    (outline attributes).Walk Segment.InTag (.elementName [])
      (tag.element ++ [' '.toUInt8] ++ tag.attributeName)
      (.attr tag tag.attributeName none) [] := by
  have named := walk_elementName (fun ch member => lowerLetter_letter (plain.element ch member))
    attributes []
  have sought := walk_tagBodyName
    (fun ch member => lowerLetter_letter (plain.attributeName ch member)) plain.nonempty tag
  rw [map_toLower_lowerLetters plain.element] at named
  rw [collectedName_lowerLetters plain.attributeName] at sought
  exact (named.append (walk_elementBlank tag)).append sought

include isQuote in
theorem feedsTag_quotedTag {value : Bytes} (noQuote : quote ∉ value)
    (noGreater : '>'.toUInt8 ∉ value) {before : HtmlCrawler}
    (reachable : before.Reachable attributes) (document : before.currentNode = .doc) :
    FeedsTag attributes before (quotedTag tag.element tag.attributeName quote value)
      [(tag.element, tag.attributeName, storedValue value)] := by
  have walk := (walk_toAttribute plain).append
    (walk_quotedValue isQuote noQuote noGreater tag tag.attributeName)
  have reported : Segment.finish tag tag.attributeName
      (some ⟨quote, isQuote, (), storedValue value⟩) =
        some ⟨tag.element, tag.attributeName, storedValue value, some ()⟩ := by
    simp [Segment.finish]
  have sameTag : quotedTag tag.element tag.attributeName quote value =
      '<'.toUInt8 :: (tag.element ++ [' '.toUInt8] ++ tag.attributeName ++
        (['='.toUInt8, quote] ++ value ++ [quote])) ++ ['>'.toUInt8] := by
    simp only [quotedTag, List.append_assoc]
  rw [reported] at walk
  rw [sameTag]
  exact reachable.feedsTag document walk rfl rfl

include isQuote in
theorem run_quotedTag_greater {value : Bytes} (noQuote : quote ∉ value)
    (noGreater : '>'.toUInt8 ∉ value) :
    (outline attributes).run .doc
      ('<'.toUInt8 :: (tag.element ++ [' '.toUInt8] ++ tag.attributeName ++
        ['='.toUInt8, quote] ++ value) ++ ['>'.toUInt8]) = .doc := by
  have collected := ((walk_toAttribute plain).append
    (walk_opening isQuote tag tag.attributeName)).append
      (walk_value tag tag.attributeName ⟨quote, isQuote, (), []⟩ noQuote noGreater)
  rw [List.cons_append, outline_run_opening, Mealy.run_append, collected.run]
  rfl

include isQuote in
theorem feedsTag_quotedTag_iff {value : Bytes} (noQuote : quote ∉ value) {before : HtmlCrawler}
    (reachable : before.Reachable attributes) (document : before.currentNode = .doc) :
    FeedsTag attributes before (quotedTag tag.element tag.attributeName quote value)
        [(tag.element, tag.attributeName, value)] ↔
      '>'.toUInt8 ∉ value ∧ '='.toUInt8 ∉ value := by
  constructor
  · intro fed
    have noGreater : '>'.toUInt8 ∉ value := by
      intro member
      obtain ⟨shown, hidden, split, noEarlier⟩ := List.eq_append_cons_of_mem member
      have shownQuote : quote ∉ shown := fun inside => noQuote (by simp [split, inside])
      have early := run_quotedTag_greater plain isQuote shownQuote noEarlier
      refine ((reachable.feedsTag_iff document _ _).mp fed).2.2 _ ⟨hidden ++ [quote, '>'.toUInt8], ?_⟩
        (by simp) ?_ early
      · simp [quotedTag, split]
      · intro whole
        have sameLength := congrArg List.length whole
        simp [quotedTag, split] at sameLength
    have stored := feedsTag_quotedTag plain isQuote noQuote noGreater reachable document
    rw [reachable.feedsTag_iff document] at fed stored
    have sameValue := fed.1.symm.trans stored.1
    simp only [List.cons.injEq, Prod.mk.injEq, true_and, and_true] at sameValue
    exact ⟨noGreater, storedValue_eq_self.mp sameValue.symm⟩
  · intro conditions
    obtain ⟨noGreater, noEquals⟩ := conditions
    have stored := feedsTag_quotedTag plain isQuote noQuote noGreater reachable document
    rwa [storedValue_eq_self.mpr noEquals] at stored

end QuotedTag

theorem sAttributeMap_plain : ∀ entry ∈ sAttributeMap,
    entry.1 ≠ [] ∧ sAttributeMap.find entry.1 = some entry ∧ entry.2 ≠ [] ∧
      entry.1.all lowerLetter = true ∧ entry.2.all lowerLetter = true := by
  decide

theorem sAttributeMap_registered {element attributeName : Bytes}
    (registered : (element, attributeName) ∈ sAttributeMap) :
    ∃ tag : Registered sAttributeMap, tag.Plain ∧
      tag.element = element ∧ tag.attributeName = attributeName := by
  obtain ⟨nonempty, found, attributeNonempty, lowerElement, lowerAttribute⟩ :=
    sAttributeMap_plain _ registered
  exact ⟨⟨element, attributeName, nonempty, found⟩,
    ⟨List.all_eq_true.mp lowerElement, List.all_eq_true.mp lowerAttribute, attributeNonempty⟩,
    rfl, rfl⟩

/-- The quoted value of a registered attribute is reported verbatim, by one call
and with the tag ending at its own `>`, exactly when it contains neither `>` nor
`=`: of the bytes that mean something outside quotes, these two are not checked
against being inside. -/
theorem verbatim_value_iff {before : HtmlCrawler} (reachable : before.Reachable sAttributeMap)
    (document : before.currentNode = .doc) {element attributeName : Bytes}
    (registered : (element, attributeName) ∈ sAttributeMap) {quote : UInt8}
    (isQuote : quoteMark quote = true) {value : Bytes} (noQuote : quote ∉ value) :
    FeedsTag sAttributeMap before (quotedTag element attributeName quote value)
        [(element, attributeName, value)] ↔
      '>'.toUInt8 ∉ value ∧ '='.toUInt8 ∉ value := by
  obtain ⟨tag, plain, rfl, rfl⟩ := sAttributeMap_registered registered
  exact feedsTag_quotedTag_iff plain isQuote noQuote reachable document

theorem verbatim_value_iff_path :
    FeedsTag sAttributeMap (HtmlCrawler.new (bytes "host"))
        (quotedTag (bytes "a") (bytes "href") '"'.toUInt8 (bytes "/path"))
        [(bytes "a", bytes "href", bytes "/path")] ↔
      '>'.toUInt8 ∉ bytes "/path" ∧ '='.toUInt8 ∉ bytes "/path" :=
  verbatim_value_iff (HtmlCrawler.new_reachable _ _) rfl (by decide) (by decide) (by decide)

/-- `<a href="/find?q=1">` reports `/find?q1`. -/
theorem value_with_equals_not_verbatim :
    ¬ ∀ (before : HtmlCrawler) (element attributeName value : Bytes) (quote : UInt8),
      before.Reachable sAttributeMap → before.currentNode = .doc →
      (element, attributeName) ∈ sAttributeMap → quoteMark quote = true → quote ∉ value →
      FeedsTag sAttributeMap before (quotedTag element attributeName quote value)
        [(element, attributeName, value)] := by
  intro verbatim
  have fed := verbatim (HtmlCrawler.new (bytes "host")) (bytes "a") (bytes "href")
    (bytes "/find?q=1") '"'.toUInt8 (HtmlCrawler.new_reachable _ _) rfl (by decide) (by decide)
    (by decide)
  obtain ⟨tag, plain, element, attributeName⟩ :=
    sAttributeMap_registered (show (bytes "a", bytes "href") ∈ sAttributeMap by decide)
  rw [← element, ← attributeName] at fed
  have free := (feedsTag_quotedTag_iff plain (by decide) (by decide)
    (HtmlCrawler.new_reachable _ _) rfl).mp fed
  exact absurd free.2 (by decide)

/-- Nothing that the tags of a document leave behind at document level changes
what a following document reports. -/
theorem no_state_leak (host : Bytes) (first second : List Bytes) {before alone : HtmlCrawler}
    (ran : (HtmlCrawler.new host).callAll sAttributeMap first = .ok before)
    (document : before.currentNode = .doc)
    (fresh : (HtmlCrawler.new host).callAll sAttributeMap second = .ok alone) :
    ∃ after, (HtmlCrawler.new host).callAll sAttributeMap (first ++ second) = .ok after ∧
      after.triples = before.triples ++ alone.triples := by
  have reached : before.Reachable sAttributeMap := ⟨host, first, ran⟩
  obtain ⟨after, called, _, afterTriples⟩ :=
    reached.call_of_document document second.flatten
  obtain ⟨same, calledSame, _, aloneTriples⟩ :=
    (HtmlCrawler.new_reachable sAttributeMap host).call_of_document rfl second.flatten
  rw [HtmlCrawler.callAll_eq_foldlM, ← HtmlCrawler.call_eq_foldlM, calledSame] at fresh
  cases fresh
  refine ⟨after, ?_, ?_⟩
  · rw [HtmlCrawler.callAll, List.foldlM_append]
    rw [HtmlCrawler.callAll] at ran
    rw [ran]
    change before.callAll sAttributeMap second = .ok after
    rw [HtmlCrawler.callAll_eq_foldlM, ← HtmlCrawler.call_eq_foldlM, called]
  · rw [afterTriples, aloneTriples]
    rfl

theorem no_state_leak_anchor :
    ∃ before alone after : HtmlCrawler, before.currentNode = .doc ∧
      alone.triples = [(bytes "a", bytes "href", bytes "x")] ∧
      (HtmlCrawler.new (bytes "host")).callAll sAttributeMap
        ([bytes "<b c='d'>"] ++ [bytes "<a hr", bytes "ef='x'>"]) = .ok after ∧
      after.triples = before.triples ++ alone.triples := by
  obtain ⟨before, ran, document⟩ : ∃ before, (HtmlCrawler.new (bytes "host")).callAll
      sAttributeMap [bytes "<b c='d'>"] = .ok before ∧ before.currentNode = .doc :=
    ⟨_, (HtmlCrawler.callAll_eq_foldlM ..).trans rfl, rfl⟩
  obtain ⟨alone, fresh, triples⟩ : ∃ alone, (HtmlCrawler.new (bytes "host")).callAll
      sAttributeMap [bytes "<a hr", bytes "ef='x'>"] = .ok alone ∧
        alone.triples = [(bytes "a", bytes "href", bytes "x")] :=
    ⟨_, (HtmlCrawler.callAll_eq_foldlM ..).trans rfl, rfl⟩
  obtain ⟨after, called, joined⟩ := no_state_leak (bytes "host") _ _ ran document fresh
  exact ⟨before, alone, after, document, triples, called, joined⟩

end FastCrawl
