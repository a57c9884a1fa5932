import Mathlib.Data.Prod.Lex
import FastCrawl.Crawler.Automaton

namespace FastCrawl

open Automata

/-! Where the quotes that open reported values stand in the content. -/

variable {attributes : AttributeMap} {π : Type}

/-- Places in reading order. -/
def Location.key (location : Location) : ℕ ×ₗ ℕ := toLex (location.line, location.column)

theorem Location.key_lt_advance (location : Location) (ch : UInt8) :
    location.key < (location.advance ch).key := by
  unfold Location.key Location.advance
  split <;> simp [Prod.Lex.toLex_lt_toLex]

/-- The place of the last byte of `content`. -/
def locate (content : Bytes) : Location := content.foldl Location.advance .start

theorem locate_append (content : Bytes) (ch : UInt8) :
    locate (content ++ [ch]) = (locate content).advance ch := by
  simp [locate]

theorem locate_bounds (content : Bytes) :
    1 ≤ (locate content).line ∧ (locate content).line ≤ content.length + 1 ∧
      (locate content).column ≤ content.length := by
  induction content using List.reverseRecOn with
  | nil => simp [locate, Location.start]
  | append_singleton content ch ih =>
      rw [locate_append]
      unfold Location.advance
      split <;> simp only [List.length_append, List.length_singleton] <;> omega

theorem locate_append_bounds (content : Bytes) {ch : UInt8} (sameLine : ch ≠ '\n'.toUInt8) :
    1 ≤ (locate (content ++ [ch])).line ∧
      (locate (content ++ [ch])).line ≤ (content ++ [ch]).length ∧
      1 ≤ (locate (content ++ [ch])).column ∧
      (locate (content ++ [ch])).column ≤ (content ++ [ch]).length := by
  have bounds := locate_bounds content
  rw [locate_append, Location.advance, if_neg sameLine]
  simp only [List.length_append, List.length_singleton]
  omega

namespace Segment

def place : Segment attributes π → Option π
  | .attr _ _ opened => opened.map Opened.place
  | _ => none

@[simp] theorem place_ofElement (name : Bytes) :
    (ofElement attributes name : Segment attributes π).place = none := by
  unfold ofElement
  split
  · rfl
  · split <;> rfl

theorem place_next {segment : Segment attributes π} {ch : UInt8} {here place : π}
    (placed : (segment.next ch here).place = some place) :
    segment.place = some place ∨ place = here ∧ quoteMark ch = true := by
  cases segment with
  | doc =>
      simp only [next] at placed
      split at placed <;> contradiction
  | elementName name =>
      simp only [next, apply_ite Segment.place, place_ofElement] at placed
      simp [Segment.place] at placed
  | tagBody tag =>
      simp only [next, apply_ite Segment.place] at placed
      simp [Segment.place] at placed
  | attr tag name opened =>
      cases opened with
      | none =>
          simp only [next] at placed
          split_ifs at placed with _ _ quote
          all_goals simp only [Segment.place, Option.map_some, Option.map_none,
            Option.some.injEq, reduceCtorEq] at placed
          exact .inr ⟨placed.symm, quote⟩
      | some opened =>
          simp only [next] at placed
          split_ifs at placed
          all_goals simp only [Segment.place, Option.map_some, reduceCtorEq] at placed
          · exact .inl placed
          · exact .inl placed
  | skipped skipping =>
      simp only [next] at placed
      split at placed <;> contradiction

theorem report_place {segment : Segment attributes π} {ch : UInt8} {report : Report π}
    (reported : segment.report ch = some report) :
    report.place = segment.place ∧ (report.place = none → report.value = []) ∧
      ∀ here, (segment.next ch here).place = none := by
  cases segment with
  | attr tag name opened =>
      have finished : (finish tag name opened = some report) ∧
          ∀ here, ((attr tag name opened).next ch here).place = none := by
        simp only [Segment.report] at reported
        split_ifs at reported with ends closes
        · have noSlash : '>'.toUInt8 ≠ '/'.toUInt8 := by decide
          exact ⟨reported, fun here => by
            cases opened <;> simp [next, ends, noSlash, Segment.place]⟩
        · refine ⟨reported, fun here => ?_⟩
          obtain ⟨opened, rfl, rfl⟩ := Option.map_eq_some_iff.mp closes
          have noAssign : opened.quote ≠ '='.toUInt8 := by
            intro assign
            have quote := opened.isQuote
            rw [assign] at quote
            contradiction
          simp [next, ends, noAssign, Segment.place]
      obtain ⟨finished, after⟩ := finished
      unfold finish at finished
      split at finished
      · cases finished
        exact ⟨rfl, fun unplaced => by cases opened <;> simp_all, after⟩
      · contradiction
  | _ => contradiction

end Segment

/-- The last byte read is at the cursor, and the value that is being read was
opened by a quote that has been read. -/
structure Cursor.Follows (content : Bytes) (cursor : Cursor attributes) : Prop where
  location : cursor.location = locate content
  quoted : ∀ place, cursor.segment.place = some place →
    ∃ before quote, before ++ [quote] <+: content ∧ quoteMark quote = true ∧
      place = locate (before ++ [quote])

theorem Cursor.follows_run (content : Bytes) :
    ((segmenter attributes).run (Cursor.start attributes) content).Follows content := by
  refine Mealy.run_invariant Cursor.Follows ?_ ⟨rfl, by simp [start, Segment.place]⟩ _
  intro read cursor ch follows
  have here : cursor.location.advance ch = locate (read ++ [ch]) := by
    rw [locate_append, follows.location]
  refine ⟨here, fun place placed => ?_⟩
  rcases Segment.place_next placed with kept | ⟨rfl, quote⟩
  · obtain ⟨before, quote, isPrefix, isQuote, placeEq⟩ := follows.quoted place kept
    exact ⟨before, quote, isPrefix.trans (List.prefix_append _ _), isQuote, placeEq⟩
  · exact ⟨read, ch, List.prefix_refl _, quote, here⟩

/-- A report has no place and no value, or the place of a quote in the content. -/
theorem reports_place {content : Bytes} {report : Report Location}
    (member : report ∈ reports attributes content) :
    report.place = none ∧ report.value = [] ∨
      ∃ before quote, before ++ [quote] <+: content ∧ quoteMark quote = true ∧
        report.place = some (locate (before ++ [quote])) := by
  obtain ⟨read, ch, rest, rfl, reported⟩ := Mealy.mem_outputs.mp member
  obtain ⟨samePlace, unplaced, _⟩ := Segment.report_place reported
  cases placed : report.place with
  | none => exact .inl ⟨rfl, unplaced placed⟩
  | some place =>
      obtain ⟨before, quote, isPrefix, isQuote, placeEq⟩ :=
        (Cursor.follows_run read).quoted place (samePlace ▸ placed)
      exact .inr ⟨before, quote, isPrefix.trans (List.prefix_append _ _), isQuote, by rw [placeEq]⟩

/-- Quotes of successive reports stand in reading order. -/
theorem reports_places_increase (content : Bytes) :
    (reports attributes content).Pairwise fun earlier later =>
      ∀ first second, earlier.place = some first → later.place = some second →
        first.key < second.key := by
  refine Mealy.outputs_pairwise
    (fun cursor => ∀ place, cursor.segment.place = some place →
      place.key ≤ cursor.location.key)
    (fun earlier cursor => ∀ first, earlier.place = some first →
      first.key ≤ cursor.location.key ∧
        ∀ second, cursor.segment.place = some second → first.key < second.key)
    ?next ?remember ?keep ?relate ?start content
  case next =>
    intro cursor ch holds place placed
    rcases Segment.place_next placed with kept | ⟨rfl, _⟩
    · exact (holds place kept).trans (Location.key_lt_advance _ ch).le
    · exact le_rfl
  case remember =>
    intro cursor ch report holds reported first placed
    obtain ⟨samePlace, _, closed⟩ := Segment.report_place reported
    refine ⟨(holds first (samePlace ▸ placed)).trans (Location.key_lt_advance _ ch).le, ?_⟩
    intro second opened
    exact absurd ((closed _).symm.trans opened) (by simp)
  case keep =>
    intro earlier cursor ch _ remembered first placed
    obtain ⟨before, beforeOpened⟩ := remembered first placed
    refine ⟨before.trans (Location.key_lt_advance _ ch).le, fun second opened => ?_⟩
    rcases Segment.place_next opened with kept | ⟨rfl, _⟩
    · exact beforeOpened second kept
    · exact before.trans_lt (Location.key_lt_advance _ ch)
  case relate =>
    intro earlier cursor ch report _ remembered reported first second placed placedLater
    obtain ⟨samePlace, _, _⟩ := Segment.report_place reported
    exact (remembered first placed).2 second (samePlace ▸ placedLater)
  case start => simp [Cursor.start, Segment.place]

end FastCrawl
