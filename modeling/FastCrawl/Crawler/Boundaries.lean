import FastCrawl.Crawler.Outline

namespace FastCrawl

open Automata

/-! Where tags and comments begin and end does not depend on which elements are
registered: the segmenter runs over a machine that knows no attributes. -/

variable {attributes : AttributeMap} {π : Type}

/-- What decides where the current tag ends.  In `ending` the next `>` ends it. -/
inductive Boundary where
  | doc
  | elementName (name : Bytes)
  | ending
  | skipped (skipping : Skipping)
deriving DecidableEq

def Skipping.boundary (skipping : Skipping) : Boundary :=
  if skipping.comment || skipping.commentBegin then .skipped skipping else .ending

def Boundary.next : Boundary → UInt8 → Boundary
  | .doc, ch => if ch = '<'.toUInt8 then .elementName [] else .doc
  | .elementName name, ch =>
      if ch = '>'.toUInt8 then .doc
      else if ch = '!'.toUInt8 then Skipping.boundary { commentBegin := name.isEmpty }
      else if ch = '?'.toUInt8 then .ending
      else if ch = '/'.toUInt8 then .elementName name
      else if whitespace ch then if name = [] then .elementName [] else .ending
      else if ch = '-'.toUInt8 then
        if name.isEmpty then .ending else .elementName (name ++ [toLower ch])
      else if tokenChar ch then .elementName (name ++ [toLower ch])
      else .ending
  | .ending, ch => if ch = '>'.toUInt8 then .doc else .ending
  | .skipped skipping, ch =>
      match skipping.next ch with
      | none => .doc
      | some skipping => skipping.boundary

/-- Parsing the attributes of a tag and skipping them end it at the same `>`. -/
def Segment.boundary : Segment attributes π → Boundary
  | .doc => .doc
  | .elementName name => .elementName name
  | .tagBody _ => .ending
  | .attr _ _ _ => .ending
  | .skipped skipping => skipping.boundary

namespace Segment

@[simp] theorem boundary_doc : (doc : Segment attributes π).boundary = .doc := rfl

@[simp] theorem boundary_elementName (name : Bytes) :
    (elementName name : Segment attributes π).boundary = .elementName name := rfl

@[simp] theorem boundary_tagBody (tag : Registered attributes) :
    (tagBody tag : Segment attributes π).boundary = .ending := rfl

@[simp] theorem boundary_attr (tag : Registered attributes) (name : Bytes)
    (opened : Option (Opened π)) : (attr tag name opened).boundary = .ending := rfl

@[simp] theorem boundary_skipped (skipping : Skipping) :
    (skipped skipping : Segment attributes π).boundary = skipping.boundary := rfl

theorem boundary_eq_doc {segment : Segment attributes π} :
    segment.boundary = .doc ↔ segment = .doc := by
  cases segment with
  | skipped skipping =>
      simp only [boundary_skipped, Skipping.boundary, reduceCtorEq, iff_false]
      split <;> simp
  | _ => simp

@[simp] theorem boundary_ofElement (name : Bytes) :
    (ofElement attributes name : Segment attributes π).boundary =
      if name = [] then .elementName [] else .ending := by
  unfold ofElement
  by_cases empty : name = []
  · simp only [dif_pos empty, if_pos empty, boundary_elementName]
  · simp only [dif_neg empty, if_neg empty]
    cases attributes.registered name empty <;> rfl

end Segment

/-- In a tag that is no comment only `>` matters. -/
theorem Skipping.boundary_next (skipping : Skipping) (ch : UInt8) :
    (match skipping.next ch with
      | none => Boundary.doc
      | some skipping => skipping.boundary) = skipping.boundary.next ch := by
  cases comment : skipping.comment || skipping.commentBegin with
  | true => simp only [Skipping.boundary, comment, if_true, Boundary.next]
  | false =>
      obtain ⟨noComment, noBegin⟩ := Bool.or_eq_false_iff.mp comment
      have ends : skipping.boundary = .ending := by
        simp [Skipping.boundary, noComment, noBegin]
      rw [ends]
      by_cases greater : ch = '>'.toUInt8
      · simp [Boundary.next, Skipping.next, greater, noComment]
      · by_cases dash : ch = '-'.toUInt8
        · have notGreater : '-'.toUInt8 ≠ '>'.toUInt8 := by decide
          simp [Boundary.next, Skipping.next, Skipping.boundary, dash, notGreater, noComment, noBegin]
        · simp [Boundary.next, Skipping.next, Skipping.boundary, greater, dash, noComment]

theorem Segment.boundary_next (segment : Segment attributes π) (ch : UInt8) (here : π) :
    (segment.next ch here).boundary = segment.boundary.next ch := by
  cases segment with
  | doc => simp only [next, Boundary.next, apply_ite Segment.boundary, boundary_doc,
      boundary_elementName]
  | elementName name =>
      simp only [next, Boundary.next, apply_ite Segment.boundary, boundary_doc,
        boundary_elementName, boundary_ofElement, boundary_skipped]
      rfl
  | tagBody tag =>
      by_cases greater : ch = '>'.toUInt8
      · simp only [next, boundary_tagBody, Boundary.next, if_pos greater, boundary_doc]
      · simp only [next, boundary_tagBody, Boundary.next, if_neg greater,
          apply_ite Segment.boundary, boundary_attr, boundary_skipped]
        simp [Skipping.boundary]
  | attr tag name opened =>
      by_cases greater : ch = '>'.toUInt8
      · have notSlash : '>'.toUInt8 ≠ '/'.toUInt8 := by decide
        cases opened <;> simp [next, Boundary.next, greater, notSlash]
      · cases opened with
        | none =>
            simp only [next, boundary_attr, boundary_tagBody, Boundary.next, if_neg greater,
              apply_ite Segment.boundary, apply_dite Segment.boundary, ite_self, dite_eq_ite]
        | some opened =>
            simp only [next, boundary_attr, boundary_tagBody, Boundary.next, if_neg greater,
              apply_ite Segment.boundary, ite_self]
  | skipped skipping =>
      rw [boundary_skipped, ← Skipping.boundary_next, next]
      cases skipping.next ch <;> rfl

/-- After any data the segmenters of any two maps are at the same boundary. -/
theorem outline_run_boundary (segment : Segment attributes Unit) (data : Bytes) :
    ((outline attributes).run segment data).boundary =
      data.foldl Boundary.next segment.boundary := by
  induction data generalizing segment with
  | nil => rfl
  | cons ch rest ih =>
      have stepped := Segment.boundary_next segment ch ()
      rw [Mealy.run_cons, List.foldl_cons, ← stepped]
      exact ih _

theorem HtmlCrawler.call_new_document (attributes : AttributeMap) (host data : Bytes) :
    ∃ after, (HtmlCrawler.new host).call attributes data = .ok after ∧
      (after.currentNode = .doc ↔ data.foldl Boundary.next .doc = .doc) := by
  obtain ⟨after, called, ended, _⟩ :=
    (HtmlCrawler.new_reachable attributes host).call_of_document rfl data
  have boundary := outline_run_boundary (.doc : Segment attributes Unit) data
  refine ⟨after, called, ended.trans ?_⟩
  rw [← Segment.boundary_eq_doc, boundary]
  rfl

/-- Whatever the registered elements are, a crawler is at document level after the
same parts of a content: skipping a tag and parsing its attributes agree on
where tags and comments begin and end. -/
theorem skipping_keeps_boundaries (first second : AttributeMap) (host content : Bytes)
    (count : Nat) :
    ∃ one two, (HtmlCrawler.new host).call first (content.take count) = .ok one ∧
      (HtmlCrawler.new host).call second (content.take count) = .ok two ∧
      (one.currentNode = .doc ↔ two.currentNode = .doc) := by
  obtain ⟨one, calledOne, oneEnds⟩ :=
    HtmlCrawler.call_new_document first host (content.take count)
  obtain ⟨two, calledTwo, twoEnds⟩ :=
    HtmlCrawler.call_new_document second host (content.take count)
  exact ⟨one, two, calledOne, calledTwo, oneEnds.trans twoEnds.symm⟩

end FastCrawl
