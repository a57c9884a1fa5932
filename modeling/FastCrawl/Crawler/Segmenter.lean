import FastCrawl.Library.Mealy
import FastCrawl.Crawler.Crawl

namespace FastCrawl

open Automata

/-! What the crawler computes, without its flags: a document is cut into text,
tags, attributes and skipped tags, and each attribute that is registered for its
element is reported.  A state holds only what a later byte can depend on, so
the combinations of flags that the crawler never enters do not exist here.
`π` is what is remembered of the place where a value was opened. -/

structure Registered (attributes : AttributeMap) where
  element : Bytes
  attributeName : Bytes
  nonempty : element ≠ []
  found : attributes.find element = some (element, attributeName)
deriving DecidableEq

/-- An attribute value whose opening quote has been read. -/
structure Opened (π : Type) where
  quote : UInt8
  isQuote : quoteMark quote = true
  place : π
  value : Bytes
deriving DecidableEq

/-- What `crawl_skipped` reads to find the end of a tag. -/
structure Skipping where
  commentBegin : Bool := false
  comment : Bool := false
  commentEnd : Bool := false
  afterDash : Bool := false
deriving DecidableEq

inductive Segment (attributes : AttributeMap) (π : Type) where
  | doc
  | elementName (name : Bytes)
  | tagBody (tag : Registered attributes)
  | attr (tag : Registered attributes) (name : Bytes) (opened : Option (Opened π))
  | skipped (skipping : Skipping)
deriving DecidableEq

/-- A reported attribute.  A value that was never quoted has no place. -/
structure Report (π : Type) where
  elementName : Bytes
  attributeName : Bytes
  value : Bytes
  place : Option π
deriving DecidableEq

variable {attributes : AttributeMap} {π π' : Type}

def AttributeMap.registered (attributes : AttributeMap) (name : Bytes) (nonempty : name ≠ []) :
    Option (Registered attributes) :=
  match found : attributes.find name with
  | none => none
  | some entry =>
      have sameEntry : attributes.find name = some (name, entry.2) := by
        rw [found, ← AttributeMap.find_element found]
      some ⟨name, entry.2, nonempty, sameEntry⟩

namespace Opened

def append (opened : Opened π) (ch : UInt8) : Opened π :=
  { opened with value := opened.value ++ [ch] }

def map (f : π → π') (opened : Opened π) : Opened π' :=
  { opened with place := f opened.place }

end Opened

/-- The name of the element is complete: the tag is parsed or skipped. -/
def Segment.ofElement (attributes : AttributeMap) (name : Bytes) : Segment attributes π :=
  if empty : name = [] then .elementName []
  else
    match attributes.registered name empty with
    | some tag => .tagBody tag
    | none => .skipped {}

/-- One byte in a skipped tag; `none` is the end of the tag. -/
def Skipping.next (skipping : Skipping) (ch : UInt8) : Option Skipping :=
  if ch = '>'.toUInt8 then
    if !skipping.comment || skipping.commentEnd then none
    else some { skipping with afterDash := false }
  else if ch = '-'.toUInt8 then
    if skipping.commentBegin then
      some { skipping with comment := skipping.comment || skipping.afterDash, afterDash := true }
    else if skipping.comment then
      some { skipping with
        commentEnd := skipping.commentEnd || skipping.afterDash, afterDash := true }
    else some { skipping with afterDash := true }
  else some { skipping with commentBegin := false, afterDash := false }

namespace Segment

/-- One byte; `here` is the place of that byte. -/
def next (segment : Segment attributes π) (ch : UInt8) (here : π) : Segment attributes π :=
  match segment with
  | .doc => if ch = '<'.toUInt8 then .elementName [] else .doc
  | .elementName name =>
      if ch = '>'.toUInt8 then .doc
      else if ch = '!'.toUInt8 then .skipped { commentBegin := name.isEmpty }
      else if ch = '?'.toUInt8 then .skipped {}
      else if ch = '/'.toUInt8 then .elementName name
      else if whitespace ch then Segment.ofElement attributes name
      else if ch = '-'.toUInt8 then
        if name.isEmpty then .skipped { afterDash := true }
        else .elementName (name ++ [toLower ch])
      else if tokenChar ch then .elementName (name ++ [toLower ch])
      else .skipped {}
  | .tagBody tag =>
      if ch = '>'.toUInt8 then .doc
      else if ch = '!'.toUInt8 ∨ ch = '?'.toUInt8 then .skipped {}
      else if ch = '/'.toUInt8 ∨ whitespace ch = true then .tagBody tag
      else if ch = '-'.toUInt8 then .skipped { afterDash := true }
      else if tokenChar ch then .attr tag [ch] none
      else .skipped {}
  | .attr tag name none =>
      if ch = '/'.toUInt8 then .tagBody tag
      else if ch = '>'.toUInt8 then .doc
      else if quote : quoteMark ch = true then .attr tag name (some ⟨ch, quote, here, []⟩)
      else if ch = '='.toUInt8 ∨ whitespace ch = true then .attr tag name none
      else .attr tag (name ++ [toLower ch]) none
  | .attr tag name (some opened) =>
      if ch = '>'.toUInt8 then .doc
      else if ch = '='.toUInt8 then .attr tag name (some opened)
      else if ch = opened.quote then .tagBody tag
      else .attr tag name (some (opened.append ch))
  | .skipped skipping =>
      match skipping.next ch with
      | none => .doc
      | some skipping => .skipped skipping

def finish (tag : Registered attributes) (name : Bytes) (opened : Option (Opened π)) :
    Option (Report π) :=
  if name = tag.attributeName then
    some {
      elementName := tag.element
      attributeName := name
      value := (opened.map Opened.value).getD []
      place := opened.map Opened.place }
  else none

def report (segment : Segment attributes π) (ch : UInt8) : Option (Report π) :=
  match segment with
  | .attr tag name opened =>
      if ch = '>'.toUInt8 then finish tag name opened
      else if opened.map Opened.quote = some ch then finish tag name opened
      else none
  | _ => none

end Segment

/-- A place in the content: how many bytes have been read up to it, and its line
and column.  The numbers are unbounded. -/
structure Location where
  offset : Nat
  line : Nat
  column : Nat
deriving DecidableEq

def Location.start : Location := { offset := 0, line := 1, column := 0 }

def Location.advance (location : Location) (ch : UInt8) : Location :=
  if ch = '\n'.toUInt8 then
    { offset := location.offset + 1, line := location.line + 1, column := 0 }
  else
    { location with offset := location.offset + 1, column := location.column + 1 }

structure Cursor (attributes : AttributeMap) where
  segment : Segment attributes Location
  location : Location

def segmenter (attributes : AttributeMap) :
    Mealy (Cursor attributes) UInt8 (Report Location) where
  next cursor ch :=
    let here := cursor.location.advance ch
    ⟨cursor.segment.next ch here, here⟩
  emit cursor ch := cursor.segment.report ch

def outline (attributes : AttributeMap) :
    Mealy (Segment attributes Unit) UInt8 (Report Unit) where
  next segment ch := segment.next ch ()
  emit segment ch := segment.report ch

def Cursor.start (attributes : AttributeMap) : Cursor attributes := ⟨.doc, .start⟩

namespace Segment

def map (f : π → π') : Segment attributes π → Segment attributes π'
  | .doc => .doc
  | .elementName name => .elementName name
  | .tagBody tag => .tagBody tag
  | .attr tag name opened => .attr tag name (opened.map (Opened.map f))
  | .skipped skipping => .skipped skipping

@[simp] theorem map_doc (f : π → π') : (doc : Segment attributes π).map f = doc := rfl

@[simp] theorem map_elementName (f : π → π') (name : Bytes) :
    (elementName name : Segment attributes π).map f = elementName name := rfl

@[simp] theorem map_tagBody (f : π → π') (tag : Registered attributes) :
    (tagBody tag : Segment attributes π).map f = tagBody tag := rfl

@[simp] theorem map_attr (f : π → π') (tag : Registered attributes) (name : Bytes)
    (opened : Option (Opened π)) :
    (attr tag name opened).map f = attr tag name (opened.map (Opened.map f)) := rfl

@[simp] theorem map_skipped (f : π → π') (skipping : Skipping) :
    (skipped skipping : Segment attributes π).map f = skipped skipping := rfl

@[simp] theorem map_ofElement (f : π → π') (name : Bytes) :
    (ofElement attributes name).map f = ofElement attributes name := by
  unfold ofElement
  split
  · rfl
  · split <;> rfl

theorem map_next (f : π → π') (segment : Segment attributes π) (ch : UInt8) (here : π) :
    (segment.next ch here).map f = (segment.map f).next ch (f here) := by
  cases segment with
  | doc => simp only [map_doc, next, apply_ite (map f), map_elementName]
  | elementName name =>
      simp only [map_elementName, next, apply_ite (map f), map_doc, map_skipped, map_ofElement]
  | tagBody tag =>
      simp only [map_tagBody, next, apply_ite (map f), map_doc, map_skipped, map_attr,
        Option.map_none]
  | attr tag name opened =>
      cases opened with
      | none =>
          simp only [map_attr, Option.map_none, next, apply_ite (map f), apply_dite (map f),
            map_doc, map_tagBody, Option.map_some]
          rfl
      | some opened =>
          simp only [map_attr, Option.map_some, next, apply_ite (map f), map_doc, map_tagBody]
          rfl
  | skipped skipping =>
      simp only [map_skipped, next]
      cases skipping.next ch <;> rfl

end Segment

def Report.map (f : π → π') (report : Report π) : Report π' :=
  { report with place := report.place.map f }

theorem Segment.map_report (f : π → π') (segment : Segment attributes π) (ch : UInt8) :
    (segment.report ch).map (Report.map f) = (segment.map f).report ch := by
  cases segment with
  | attr tag name opened =>
      have sameFinish : (finish tag name opened).map (Report.map f) =
          finish tag name (opened.map (Opened.map f)) := by
        cases opened <;> simp only [finish, apply_ite (Option.map (Report.map f))] <;> rfl
      have sameQuote : (opened.map (Opened.map f)).map Opened.quote = opened.map Opened.quote := by
        cases opened <;> rfl
      simp only [map_attr, report, apply_ite (Option.map (Report.map f)), sameFinish, sameQuote,
        Option.map_none]
  | _ => rfl

/-- Forgetting places commutes with running the segmenter. -/
theorem segmenter_hom_outline :
    (segmenter attributes).Hom (outline attributes)
      (fun cursor => cursor.segment.map fun _ => ()) (Report.map fun _ => ()) where
  next _ _ := Segment.map_next ..
  emit _ _ := Segment.map_report ..

end FastCrawl
