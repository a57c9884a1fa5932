import FastCrawl.Crawler.Tags

namespace FastCrawl

open Automata

/-! Tags of elements that are not registered.  They are not parsed: the first `>`
ends them, quoted or not. -/

variable {attributes : AttributeMap}

def letterOrDigit (ch : UInt8) : Bool :=
  letter ch || ('0'.toUInt8 ≤ ch && ch ≤ '9'.toUInt8)

theorem letterOrDigit_nameByte {ch : UInt8} (isName : letterOrDigit ch = true) :
    nameByte ch = true := by
  rw [letterOrDigit, Bool.or_eq_true] at isName
  cases isName with
  | inl isLetter => exact letter_nameByte isLetter
  | inr isDigit =>
      have notDash : ch ≠ '-'.toUInt8 := by
        intro dash
        rw [dash] at isDigit
        contradiction
      simp only [Bool.and_eq_true, decide_eq_true_eq] at isDigit
      simp only [nameByte, tokenChar, if_pos isDigit, ite_self, Bool.true_and, bne_iff_ne]
      exact notDash

/-- An attribute `n=q v q` after a space. -/
structure SkippedAttribute where
  name : Bytes
  quote : UInt8
  value : Bytes
  nameNonempty : name ≠ []
  areLetters : ∀ ch ∈ name, lowerLetter ch = true
  isQuote : quoteMark quote = true
  noQuote : quote ∉ value

def SkippedAttribute.written (listed : SkippedAttribute) : Bytes :=
  ' '.toUInt8 :: (listed.name ++ ['='.toUInt8, listed.quote] ++ listed.value ++ [listed.quote])

/-- `'<' e`, the attributes, `'>'` -/
def skippedTag (element : Bytes) (list : List SkippedAttribute) : Bytes :=
  '<'.toUInt8 :: (element ++ list.flatMap SkippedAttribute.written) ++ ['>'.toUInt8]

theorem SkippedAttribute.greater_mem_written (listed : SkippedAttribute) :
    '>'.toUInt8 ∈ listed.written ↔ '>'.toUInt8 ∈ listed.value := by
  have notName : '>'.toUInt8 ∉ listed.name := by
    intro member
    exact absurd (listed.areLetters _ member) (by decide)
  have notQuote : '>'.toUInt8 ≠ listed.quote := (ne_of_class listed.isQuote (by decide)).symm
  have notSpace : '>'.toUInt8 ≠ ' '.toUInt8 := by decide
  have notEquals : '>'.toUInt8 ≠ '='.toUInt8 := by decide
  simp only [written, List.mem_cons, List.mem_append, List.not_mem_nil, notName, notQuote,
    notSpace, notEquals, false_or, or_false]

/-- Outside a comment a skipped tag only waits for its `>`. -/
theorem walk_skipped (attributes : AttributeMap) {text : Bytes} (noGreater : '>'.toUInt8 ∉ text)
    (afterDash : Bool) :
    ∃ dash, (outline attributes).Walk Segment.InTag (.skipped { afterDash }) text
      (.skipped { afterDash := dash }) [] := by
  induction text generalizing afterDash with
  | nil => exact ⟨afterDash, .nil (Segment.inTag_skipped _)⟩
  | cons ch rest ih =>
      rw [List.mem_cons, not_or] at noGreater
      obtain ⟨dash, tail⟩ := ih noGreater.2 (decide (ch = '-'.toUInt8))
      have next : (outline attributes).next (.skipped { afterDash }) ch =
          .skipped { afterDash := decide (ch = '-'.toUInt8) } := by
        simp only [outline, Segment.next, Skipping.next, if_neg (Ne.symm noGreater.1)]
        by_cases isDash : ch = '-'.toUInt8
        · simp only [isDash, Bool.false_eq_true, if_true, if_false, decide_true]
        · simp only [isDash, if_false, decide_false]
      refine ⟨dash, .cons (Segment.inTag_skipped _) rfl ?_⟩
      rw [next]
      exact tail

section Unregistered

variable {element : Bytes} (nonempty : element ≠ [])
  (isName : ∀ ch ∈ element, letterOrDigit ch = true)
  (unregistered : attributes.find (element.map toLower) = none)
include nonempty isName unregistered

theorem walk_unregistered {text : Bytes} (noGreater : '>'.toUInt8 ∉ text) :
    ∃ dash, (outline attributes).Walk Segment.InTag (.elementName [])
      (element ++ ' '.toUInt8 :: text) (.skipped { afterDash := dash }) [] := by
  have named := walk_elementName_nameBytes
    (fun ch member => letterOrDigit_nameByte (isName ch member)) attributes []
  rw [List.nil_append] at named
  have blank : whitespace ' '.toUInt8 = true := by decide
  have notEmpty : element.map toLower ≠ [] := List.map_eq_nil_iff.not.mpr nonempty
  have skipped : (outline attributes).next (.elementName (element.map toLower)) ' '.toUInt8 =
      .skipped {} := by
    calc (outline attributes).next (.elementName (element.map toLower)) ' '.toUInt8
        = Segment.ofElement attributes (element.map toLower) :=
          Segment.next_elementName_blank blank _ ()
      _ = .skipped {} := by
          rw [Segment.ofElement, dif_neg notEmpty, (registered_eq_none notEmpty).mpr unregistered]
  obtain ⟨dash, tail⟩ := walk_skipped attributes noGreater false
  refine ⟨dash, named.append (.cons (Segment.inTag_elementName _) rfl ?_)⟩
  rw [skipped]
  exact tail

/-- The tag is left at its first `>`. -/
theorem run_unregistered {text : Bytes} (noGreater : '>'.toUInt8 ∉ text) :
    (outline attributes).run .doc
      ('<'.toUInt8 :: (element ++ ' '.toUInt8 :: text) ++ ['>'.toUInt8]) = .doc := by
  obtain ⟨dash, walk⟩ := walk_unregistered nonempty isName unregistered noGreater
  rw [List.cons_append, outline_run_opening, Mealy.run_append, walk.run]
  rfl

theorem feedsTag_unregistered_iff {before : HtmlCrawler} (reachable : before.Reachable attributes)
    (document : before.currentNode = .doc) (text : Bytes) :
    FeedsTag attributes before
        ('<'.toUInt8 :: (element ++ ' '.toUInt8 :: text) ++ ['>'.toUInt8]) [] ↔
      '>'.toUInt8 ∉ text := by
  constructor
  · intro fed greater
    obtain ⟨shown, hidden, rfl, noGreater⟩ := List.eq_append_cons_of_mem greater
    have ended := run_unregistered nonempty isName unregistered noGreater
    have isPrefix : '<'.toUInt8 :: (element ++ ' '.toUInt8 :: shown) ++ ['>'.toUInt8] <+:
        '<'.toUInt8 :: (element ++ ' '.toUInt8 :: (shown ++ '>'.toUInt8 :: hidden)) ++
          ['>'.toUInt8] := ⟨hidden ++ ['>'.toUInt8], by simp⟩
    have inside := ((reachable.feedsTag_iff document _ _).mp fed).2.2 _ isPrefix
      (List.cons_ne_nil _ _)
    apply inside ?_ ended
    intro same
    have lengths := congrArg List.length same
    simp only [List.length_append, List.length_cons, List.length_nil] at lengths
    omega
  · intro noGreater
    obtain ⟨dash, walk⟩ := walk_unregistered nonempty isName unregistered noGreater
    exact reachable.feedsTag document walk rfl rfl

end Unregistered

/-- A tag of an element that is not registered is left at its last byte, with no
call of `process_uri`, just when no value in it has a `>`. -/
theorem skipped_tag_iff {before : HtmlCrawler} (reachable : before.Reachable sAttributeMap)
    (document : before.currentNode = .doc) {element : Bytes} (nonempty : element ≠ [])
    (isName : ∀ ch ∈ element, letterOrDigit ch = true)
    (unregistered : sAttributeMap.find (element.map toLower) = none)
    {list : List SkippedAttribute} (listed : list ≠ []) :
    FeedsTag sAttributeMap before (skippedTag element list) [] ↔
      ∀ listed ∈ list, '>'.toUInt8 ∉ listed.value := by
  obtain ⟨first, rest, rfl⟩ := List.exists_cons_of_ne_nil listed
  have spaced : ∃ text, (first :: rest).flatMap SkippedAttribute.written = ' '.toUInt8 :: text :=
    ⟨_, rfl⟩
  obtain ⟨text, written⟩ := spaced
  have notSpace : '>'.toUInt8 ≠ ' '.toUInt8 := by decide
  have greater : '>'.toUInt8 ∈ text ↔ ∃ listed ∈ first :: rest, '>'.toUInt8 ∈ listed.value := by
    calc '>'.toUInt8 ∈ text
        ↔ '>'.toUInt8 ∈ ' '.toUInt8 :: text := by
          rw [List.mem_cons, or_iff_right notSpace]
      _ ↔ ∃ listed ∈ first :: rest, '>'.toUInt8 ∈ listed.written := by
          rw [← written, List.mem_flatMap]
      _ ↔ ∃ listed ∈ first :: rest, '>'.toUInt8 ∈ listed.value := by
          simp only [SkippedAttribute.greater_mem_written]
  have ends := feedsTag_unregistered_iff nonempty isName unregistered reachable document text
  rw [skippedTag, written, ends, greater]
  simp only [not_exists, not_and]

def titleSkipped : SkippedAttribute where
  name := bytes "title"
  quote := '\''.toUInt8
  value := bytes "<a href=\"x\" --"
  nameNonempty := by decide
  areLetters := List.all_eq_true.mp (by decide)
  isQuote := by decide
  noQuote := by decide

theorem skipped_tag_iff_heading :
    FeedsTag sAttributeMap (HtmlCrawler.new (bytes "h"))
        (skippedTag (bytes "H1") [titleSkipped]) [] ↔
      ∀ listed ∈ [titleSkipped], '>'.toUInt8 ∉ listed.value :=
  skipped_tag_iff (HtmlCrawler.new_reachable _ _) rfl (by decide)
    (List.all_eq_true.mp (by decide)) rfl (by decide)

def markupSkipped : SkippedAttribute where
  name := bytes "t"
  quote := '\''.toUInt8
  value := bytes "><a href=\"x\">"
  nameNonempty := by decide
  areLetters := List.all_eq_true.mp (by decide)
  isQuote := by decide
  noQuote := by decide

/-- The link that the value in `<b t='><a href="x">'>` spells is crawled. -/
theorem quoted_markup_crawled :
    ¬FeedsTag sAttributeMap (HtmlCrawler.new (bytes "h"))
      (skippedTag (bytes "b") [markupSkipped]) [] := by
  intro fed
  obtain ⟨⟨after, called, silent, _⟩, _⟩ := fed
  obtain ⟨same, calledSame, _, triples⟩ :=
    (HtmlCrawler.new_reachable sAttributeMap (bytes "h")).call_of_document rfl
      (skippedTag (bytes "b") [markupSkipped])
  rw [called] at calledSame
  cases calledSame
  have phantom : ((outline sAttributeMap).outputs .doc
      (skippedTag (bytes "b") [markupSkipped])).map Report.triple =
      [(bytes "a", bytes "href", bytes "x")] := by decide
  rw [silent, phantom] at triples
  contradiction

end FastCrawl
