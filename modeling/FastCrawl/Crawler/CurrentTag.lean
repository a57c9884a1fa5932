import FastCrawl.Crawler.Outline

namespace FastCrawl

open Automata

/-! The text of the tag in which a content ends. -/

variable {attributes : AttributeMap}

/-- The segmenter without places, and what has been read of the tag behind its `<`. -/
structure TagCursor (attributes : AttributeMap) where
  segment : Segment attributes Unit := .doc
  text : Option Bytes := none

def TagCursor.next (cursor : TagCursor attributes) (ch : UInt8) : TagCursor attributes :=
  let segment := cursor.segment.next ch ()
  { segment
    text :=
      if segment = .doc then none
      else some ((cursor.text.map fun text => text ++ [ch]).getD []) }

def TagCursor.read (attributes : AttributeMap) (content : Bytes) : TagCursor attributes :=
  content.foldl TagCursor.next {}

def currentTag (attributes : AttributeMap) (content : Bytes) : Option Bytes :=
  (TagCursor.read attributes content).text

theorem TagCursor.read_append (content : Bytes) (ch : UInt8) :
    TagCursor.read attributes (content ++ [ch]) = (TagCursor.read attributes content).next ch := by
  simp only [read, List.foldl_append, List.foldl_cons, List.foldl_nil]

theorem TagCursor.read_segment (content : Bytes) :
    (TagCursor.read attributes content).segment = (outline attributes).run .doc content := by
  induction content using List.reverseRecOn with
  | nil => rfl
  | append_singleton content ch ih =>
      rw [TagCursor.read_append, Mealy.run_append, ← ih]
      rfl

theorem currentTag_append (content : Bytes) (ch : UInt8) :
    currentTag attributes (content ++ [ch]) =
      if (outline attributes).run .doc (content ++ [ch]) = .doc then none
      else some (((currentTag attributes content).map fun text => text ++ [ch]).getD []) := by
  rw [currentTag, ← TagCursor.read_segment, TagCursor.read_append]
  rfl

theorem currentTag_eq_none_iff {content : Bytes} :
    currentTag attributes content = none ↔ (outline attributes).run .doc content = .doc := by
  induction content using List.reverseRecOn with
  | nil => exact iff_of_true rfl rfl
  | append_singleton content ch ih =>
      rw [currentTag_append]
      split
      next ended => exact iff_of_true rfl ended
      next inside => exact iff_of_false (Option.some_ne_none _) inside

theorem Segment.next_doc_inTag {ch : UInt8}
    (inside : (Segment.doc : Segment attributes Unit).next ch () ≠ .doc) : ch = '<'.toUInt8 := by
  by_contra other
  exact inside (if_neg other)

/-- The tag begins with a `<` at document level and is left nowhere. -/
theorem currentTag_spec {content text : Bytes}
    (current : currentTag attributes content = some text) :
    ∃ before, content = before ++ '<'.toUInt8 :: text ∧
      (outline attributes).run .doc before = .doc ∧
      ∀ initial, initial <+: text →
        ((outline attributes).run .doc (before ++ '<'.toUInt8 :: initial)).InTag := by
  induction content using List.reverseRecOn generalizing text with
  | nil => contradiction
  | append_singleton content ch ih =>
      rw [currentTag_append] at current
      split at current
      next => contradiction
      next inside =>
        cases Option.some.inj current
        cases earlier : currentTag attributes content with
        | none =>
            have document := currentTag_eq_none_iff.mp earlier
            have opening : ch = '<'.toUInt8 := by
              rw [Mealy.run_append, document] at inside
              exact Segment.next_doc_inTag inside
            refine ⟨content, by rw [opening]; rfl, document, ?_⟩
            intro initial isPrefix
            rw [List.prefix_nil.mp isPrefix, ← opening]
            exact inside
        | some text =>
            obtain ⟨before, rfl, document, within⟩ := ih earlier
            refine ⟨before, by simp, document, ?_⟩
            intro initial isPrefix
            rcases List.prefix_concat_iff.mp isPrefix with rfl | shorter
            · rw [List.append_assoc, List.cons_append] at inside
              exact inside
            · exact within initial shorter

theorem currentTag_run {content text : Bytes}
    (current : currentTag attributes content = some text) :
    (outline attributes).run .doc content = (outline attributes).run (.elementName []) text := by
  obtain ⟨before, rfl, document, _⟩ := currentTag_spec current
  rw [Mealy.run_append, document, outline_run_opening]

theorem currentTag_of_inTag {content : Bytes}
    (inside : (outline attributes).run .doc content ≠ .doc) :
    ∃ text, currentTag attributes content = some text :=
  Option.ne_none_iff_exists'.mp (mt currentTag_eq_none_iff.mp inside)

/-- A tag goes on with each byte that does not end it. -/
theorem currentTag_next {content text : Bytes} {ch : UInt8}
    (current : currentTag attributes content = some text)
    (inside : (outline attributes).run .doc (content ++ [ch]) ≠ .doc) :
    currentTag attributes (content ++ [ch]) = some (text ++ [ch]) := by
  rw [currentTag_append, if_neg inside, current]
  rfl

end FastCrawl
