import Mathlib.Data.List.Infix
import Mathlib.Data.List.TakeWhile
import FastCrawl.Crawler.Outline

namespace FastCrawl

open Automata

/-! Where a comment ends.  `comment_begin` is cleared by the first byte that is
neither `-` nor `>`, and `comment_end` is set by any `--` after it and never
cleared while the comment lasts. -/

variable {attributes : AttributeMap}

def commentMark (ch : UInt8) : Bool := ch = '-'.toUInt8 || ch = '>'.toUInt8

theorem commentMark_eq_false {ch : UInt8} :
    commentMark ch = false ↔ ch ≠ '-'.toUInt8 ∧ ch ≠ '>'.toUInt8 := by
  simp only [commentMark, Bool.or_eq_false_iff, decide_eq_false_iff_not, ne_eq]

theorem commentMark_eq_true {ch : UInt8} :
    commentMark ch = true ↔ ch = '-'.toUInt8 ∨ ch = '>'.toUInt8 := by
  simp only [commentMark, Bool.or_eq_true, decide_eq_true_eq]

/-- The part of a comment in which `comment_begin` is cleared. -/
def commentText (body : Bytes) : Bytes := body.dropWhile commentMark

/-- A `>` somewhere after `--`. -/
def EndsEarly (text : Bytes) : Prop :=
  ∃ before after, text = before ++ '>'.toUInt8 :: after ∧ bytes "--" <:+: before

theorem EndsEarly.append {text : Bytes} (early : EndsEarly text) (rest : Bytes) :
    EndsEarly (text ++ rest) := by
  obtain ⟨before, after, rfl, dashes⟩ := early
  exact ⟨before, after ++ rest, by simp, dashes⟩

/-- The first `>` that ends the comment. -/
theorem EndsEarly.first {text : Bytes} (early : EndsEarly text) :
    ∃ before after, text = before ++ '>'.toUInt8 :: after ∧ bytes "--" <:+: before ∧
      ¬EndsEarly before := by
  obtain ⟨before, after, same, dashes⟩ := early
  induction length : before.length using Nat.strongRecOn generalizing before after with
  | ind size ih =>
      by_cases earlier : EndsEarly before
      · obtain ⟨shorter, middle, sameBefore, dashesShorter⟩ := earlier
        have smaller : shorter.length < size := by
          rw [← length, sameBefore, List.length_append, List.length_cons]
          omega
        exact ih _ smaller shorter (middle ++ '>'.toUInt8 :: after)
          (by rw [same, sameBefore]; simp) dashesShorter rfl
      · exact ⟨before, after, same, dashes, earlier⟩

theorem endsEarly_concat {text : Bytes} {ch : UInt8} :
    EndsEarly (text ++ [ch]) ↔
      EndsEarly text ∨ ch = '>'.toUInt8 ∧ bytes "--" <:+: text := by
  constructor
  · intro early
    obtain ⟨before, after, same, dashes⟩ := early
    rcases List.eq_nil_or_concat after with rfl | ⟨shorter, last, rfl⟩
    · obtain ⟨rfl, sameLast⟩ := List.append_inj' same rfl
      exact .inr ⟨(List.cons.inj sameLast).1, dashes⟩
    · have split : text ++ [ch] = (before ++ '>'.toUInt8 :: shorter) ++ [last] := by
        rw [same]
        simp
      exact .inl ⟨before, shorter, (List.append_inj' split rfl).1, dashes⟩
  · intro ends
    rcases ends with early | ⟨rfl, dashes⟩
    · exact early.append [ch]
    · exact ⟨text, [], rfl, dashes⟩

theorem endsEarly_cons {ch : UInt8} {text : Bytes} (noMark : commentMark ch = false) :
    EndsEarly (ch :: text) ↔ EndsEarly text := by
  rw [commentMark_eq_false] at noMark
  constructor
  · intro early
    obtain ⟨before, after, same, dashes⟩ := early
    cases before with
    | nil => exact absurd (List.cons.inj same).1 noMark.2
    | cons head before =>
        obtain ⟨rfl, rfl⟩ := List.cons.inj same
        refine ⟨before, after, rfl, ?_⟩
        rcases List.infix_cons_iff.mp dashes with isPrefix | inside
        · exact absurd (List.cons_prefix_cons.mp isPrefix).1.symm noMark.1
        · exact inside
  · intro early
    obtain ⟨before, after, rfl, dashes⟩ := early
    exact ⟨ch :: before, after, rfl, List.infix_cons dashes⟩

theorem dashes_concat {text : Bytes} {ch : UInt8} :
    bytes "--" <:+: text ++ [ch] ↔
      bytes "--" <:+: text ∨ ch = '-'.toUInt8 ∧ bytes "-" <:+ text := by
  have suffix : bytes "--" <:+ text ++ [ch] ↔ ch = '-'.toUInt8 ∧ bytes "-" <:+ text := by
    have split : bytes "--" = bytes "-" ++ ['-'.toUInt8] := rfl
    rw [split, List.suffix_concat_iff]
    constructor
    · intro suffixed
      rcases suffixed with nothing | ⟨shorter, same, isSuffix⟩
      · simp at nothing
      · obtain ⟨rfl, sameLast⟩ := List.append_inj' same rfl
        exact ⟨(List.cons.inj sameLast).1.symm, isSuffix⟩
    · intro dashes
      obtain ⟨rfl, isSuffix⟩ := dashes
      exact .inr ⟨_, rfl, isSuffix⟩
  rw [List.infix_concat_iff, suffix, or_comm]

/-- The state of `crawl_skipped` after some text of a comment. -/
def commentAfter (text : Bytes) : Skipping where
  comment := true
  commentEnd := decide (bytes "--" <:+: text)
  afterDash := decide (bytes "-" <:+ text)

theorem commentAfter_next {text : Bytes} {ch : UInt8}
    (goesOn : ¬(ch = '>'.toUInt8 ∧ bytes "--" <:+: text)) :
    (commentAfter text).next ch = some (commentAfter (text ++ [ch])) := by
  have afterDash : bytes "-" <:+ text ++ [ch] ↔ ch = '-'.toUInt8 := by
    have split : bytes "-" = [] ++ ['-'.toUInt8] := rfl
    rw [split, List.suffix_concat_iff]
    constructor
    · intro suffixed
      rcases suffixed with nothing | ⟨shorter, same, _⟩
      · contradiction
      · exact (List.cons.inj (List.append_inj' same rfl).2).1.symm
    · intro dash
      subst dash
      exact .inr ⟨[], rfl, List.nil_suffix⟩
  simp only [commentAfter, Skipping.next, afterDash, dashes_concat, Bool.not_true, Bool.false_or,
    decide_eq_true_eq, Bool.false_eq_true, if_false, if_true]
  have notDash : '>'.toUInt8 ≠ '-'.toUInt8 := by decide
  by_cases greater : ch = '>'.toUInt8
  · have noDashes : ¬bytes "--" <:+: text := fun dashes => goesOn ⟨greater, dashes⟩
    simp [greater, notDash, noDashes]
  · by_cases dash : ch = '-'.toUInt8
    · simp [dash, notDash.symm]
    · simp [greater, dash]

theorem walk_commentText {text : Bytes} (late : ¬EndsEarly text) :
    (outline attributes).Walk Segment.InTag (.skipped (commentAfter [])) text
      (.skipped (commentAfter text)) [] := by
  induction text using List.reverseRecOn with
  | nil => exact .nil (Segment.inTag_skipped _)
  | append_singleton text ch ih =>
      rw [endsEarly_concat, not_or] at late
      have next : (outline attributes).next (.skipped (commentAfter text)) ch =
          .skipped (commentAfter (text ++ [ch])) := by
        simp only [outline, Segment.next, commentAfter_next late.2]
      exact (ih late.1).append
        (.single (Segment.inTag_skipped _) (Segment.inTag_skipped _) next rfl)

theorem outline_run_endsEarly (attributes : AttributeMap) {text : Bytes} (early : EndsEarly text) :
    ∃ shown rest, text = shown ++ rest ∧
      (outline attributes).run (.skipped (commentAfter [])) shown = .doc := by
  obtain ⟨before, after, rfl, dashes, late⟩ := early.first
  refine ⟨before ++ ['>'.toUInt8], after, by simp, ?_⟩
  have ends : (outline attributes).next (.skipped (commentAfter before)) '>'.toUInt8 = .doc := by
    simp [outline, Segment.next, Skipping.next, commentAfter, dashes]
  rw [Mealy.run_append, (walk_commentText late).run]
  exact ends

/-- `comment_begin` is set, and with it no `>` ends the comment. -/
def commentBegun (afterDash : Bool) : Skipping where
  commentBegin := true
  comment := true
  afterDash := afterDash

theorem walk_commentMarks (attributes : AttributeMap) {marks : Bytes}
    (isMarks : ∀ ch ∈ marks, commentMark ch = true) (afterDash : Bool) : ∃ afterDash',
      (outline attributes).Walk Segment.InTag (.skipped (commentBegun afterDash)) marks
        (.skipped (commentBegun afterDash')) [] := by
  induction marks generalizing afterDash with
  | nil => exact ⟨afterDash, .nil (Segment.inTag_skipped _)⟩
  | cons ch rest ih =>
      have mark := commentMark_eq_true.mp (isMarks ch (by simp))
      obtain ⟨middle, next⟩ : ∃ middle, (outline attributes).next
          (.skipped (commentBegun afterDash)) ch = .skipped (commentBegun middle) := by
        rcases mark with rfl | rfl
        · exact ⟨true, rfl⟩
        · exact ⟨false, rfl⟩
      obtain ⟨last, walk⟩ := ih (fun ch member => isMarks ch (by simp [member])) middle
      exact ⟨last, .cons (Segment.inTag_skipped _) rfl (next ▸ walk)⟩

theorem walk_commentOpening :
    (outline attributes).Walk Segment.InTag (.elementName []) (bytes "!--")
      (.skipped (commentBegun true)) [] := by
  have marked : (outline attributes).next (.elementName []) '!'.toUInt8 =
      .skipped { commentBegin := true } := rfl
  have dash : (outline attributes).next (.skipped { commentBegin := true }) '-'.toUInt8 =
      .skipped { commentBegin := true, afterDash := true } := rfl
  have begun : (outline attributes).next
      (.skipped { commentBegin := true, afterDash := true }) '-'.toUInt8 =
        .skipped (commentBegun true) := rfl
  have first := Mealy.Walk.single (Segment.inTag_elementName _) (Segment.inTag_skipped _) marked rfl
  have second := Mealy.Walk.single (Segment.inTag_skipped _) (Segment.inTag_skipped _) dash rfl
  have third := Mealy.Walk.single (Segment.inTag_skipped _) (Segment.inTag_skipped _) begun rfl
  exact (first.append second).append third

theorem next_commentBegun {ch : UInt8} (noMark : commentMark ch = false) (afterDash : Bool) :
    (outline attributes).next (.skipped (commentBegun afterDash)) ch =
      .skipped (commentAfter []) := by
  rw [commentMark_eq_false] at noMark
  simp only [outline, Segment.next, Skipping.next, if_neg noMark.1, if_neg noMark.2]
  rfl

/-- `'<!--' b '-->'` -/
def commentTag (body : Bytes) : Bytes := bytes "<!--" ++ body ++ bytes "-->"

theorem commentTag_eq (body : Bytes) :
    commentTag body =
      '<'.toUInt8 :: (bytes "!--" ++ (body ++ bytes "--")) ++ ['>'.toUInt8] := by
  have opening : bytes "<!--" = '<'.toUInt8 :: bytes "!--" := rfl
  have closing : bytes "-->" = bytes "--" ++ ['>'.toUInt8] := rfl
  rw [commentTag, opening, closing]
  simp only [List.cons_append, List.append_assoc]

theorem isMarks_of_commentText_eq_nil {body : Bytes} (unopened : commentText body = []) :
    ∀ ch ∈ body, commentMark ch = true :=
  List.dropWhile_eq_nil_iff.mp unopened

theorem commentText_split {body : Bytes} (opened : commentText body ≠ []) :
    ∃ marks ch text, body = marks ++ ch :: text ∧ commentText body = ch :: text ∧
      (∀ ch ∈ marks, commentMark ch = true) ∧ commentMark ch = false := by
  obtain ⟨ch, text, split⟩ := List.exists_cons_of_ne_nil opened
  have noMark : commentMark ch = false := by
    have notHead := List.head_dropWhile_not commentMark opened
    simpa only [← commentText.eq_1, split, List.head_cons] using notHead
  refine ⟨body.takeWhile commentMark, ch, text, ?_, split, ?_, noMark⟩
  · rw [← split, commentText, List.takeWhile_append_dropWhile]
  · exact fun ch member => List.mem_takeWhile_imp member

theorem endsEarly_dashes {text : Bytes} : EndsEarly (text ++ bytes "--") ↔ EndsEarly text := by
  have split : text ++ bytes "--" = text ++ ['-'.toUInt8] ++ ['-'.toUInt8] := by
    rw [List.append_assoc]
    rfl
  have notGreater : '-'.toUInt8 ≠ '>'.toUInt8 := by decide
  rw [split, endsEarly_concat, endsEarly_concat]
  simp only [notGreater, false_and, or_false]

/-- The comment has begun, and the rest is text. -/
theorem walk_commentBegun (attributes : AttributeMap) {marks : Bytes}
    (isMarks : ∀ ch ∈ marks, commentMark ch = true) {ch : UInt8} (noMark : commentMark ch = false) :
    (outline attributes).Walk Segment.InTag (.elementName []) (bytes "!--" ++ marks ++ [ch])
      (.skipped (commentAfter [])) [] := by
  obtain ⟨afterDash, inMarks⟩ := walk_commentMarks attributes isMarks true
  have clears : (outline attributes).Walk Segment.InTag (.skipped (commentBegun afterDash)) [ch]
      (.skipped (commentAfter [])) [] := .single
    (Segment.inTag_skipped _) (Segment.inTag_skipped _)
    (next_commentBegun noMark afterDash) rfl
  exact (walk_commentOpening.append inMarks).append clears

theorem feedsTag_commentTag {before : HtmlCrawler} (reachable : before.Reachable attributes)
    (document : before.currentNode = .doc) {body : Bytes} (opened : commentText body ≠ [])
    (late : ¬EndsEarly (commentText body)) :
    FeedsTag attributes before (commentTag body) [] := by
  obtain ⟨marks, ch, text, rfl, split, isMarks, noMark⟩ := commentText_split opened
  rw [split, endsEarly_cons noMark, ← endsEarly_dashes] at late
  have walk := (walk_commentBegun attributes isMarks noMark).append
    (walk_commentText late)
  have dashes : bytes "--" <:+: text ++ bytes "--" := List.infix_append' text (bytes "--") []
  have ends : (Segment.skipped (commentAfter (text ++ bytes "--")) :
      Segment attributes Unit).next '>'.toUInt8 () = .doc := by
    simp [Segment.next, Skipping.next, commentAfter, dashes]
  have fed := reachable.feedsTag document walk ends rfl
  have sameTag : commentTag (marks ++ ch :: text) =
      '<'.toUInt8 :: (bytes "!--" ++ marks ++ [ch] ++ (text ++ bytes "--")) ++ ['>'.toUInt8] := by
    rw [commentTag_eq]
    simp only [List.append_assoc, List.cons_append, List.nil_append]
  rw [sameTag]
  exact fed

theorem run_commentTag_unopened {body : Bytes} (unopened : commentText body = []) :
    ((outline attributes).run .doc (commentTag body)).InTag := by
  have isMarks : ∀ ch ∈ body ++ bytes "-->", commentMark ch = true := by
    intro ch member
    rcases List.mem_append.mp member with inBody | inEnd
    · exact isMarks_of_commentText_eq_nil unopened ch inBody
    · exact List.all_eq_true.mp (show (bytes "-->").all commentMark = true by decide) ch inEnd
  obtain ⟨afterDash, walk⟩ := walk_commentMarks attributes isMarks true
  have begun := walk_commentOpening.append walk
  have sameTag : commentTag body = '<'.toUInt8 :: (bytes "!--" ++ (body ++ bytes "-->")) := by
    rw [commentTag, List.append_assoc]
    rfl
  rw [sameTag, outline_run_opening]
  exact begun.inside _ List.prefix_rfl

theorem run_commentTag_early (attributes : AttributeMap) {body : Bytes}
    (opened : commentText body ≠ []) (early : EndsEarly (commentText body)) :
    ∃ initial, initial <+: commentTag body ∧ initial ≠ [] ∧ initial ≠ commentTag body ∧
      (outline attributes).run .doc initial = .doc := by
  obtain ⟨marks, ch, text, rfl, split, isMarks, noMark⟩ := commentText_split opened
  rw [split, endsEarly_cons noMark] at early
  obtain ⟨shown, rest, rfl, ended⟩ := outline_run_endsEarly attributes early
  have begun := (walk_commentBegun attributes isMarks noMark).run
  have sameTag : commentTag (marks ++ ch :: (shown ++ rest)) =
      '<'.toUInt8 :: (bytes "!--" ++ marks ++ [ch] ++ shown) ++ (rest ++ bytes "-->") := by
    have split : bytes "<!--" = '<'.toUInt8 :: bytes "!--" := rfl
    rw [commentTag, split]
    simp only [List.append_assoc, List.cons_append, List.nil_append]
  refine ⟨'<'.toUInt8 :: (bytes "!--" ++ marks ++ [ch] ++ shown), ?_, by simp, ?_, ?_⟩
  · rw [sameTag]
    exact List.prefix_append _ _
  · intro whole
    have sameLength := congrArg List.length (whole.trans sameTag)
    have ending : (bytes "-->").length = 3 := rfl
    rw [List.length_append, List.length_append, ending] at sameLength
    omega
  · rw [outline_run_opening, Mealy.run_append, begun]
    exact ended

/-- A comment ends at its `-->` exactly when it has a byte other than `-` and `>`,
which clears `comment_begin`, and no `>` comes after a `--` behind that byte. -/
theorem comment_ends_iff {before : HtmlCrawler} (reachable : before.Reachable attributes)
    (document : before.currentNode = .doc) (body : Bytes) :
    FeedsTag attributes before (commentTag body) [] ↔
      commentText body ≠ [] ∧ ¬EndsEarly (commentText body) := by
  constructor
  · intro fed
    rw [reachable.feedsTag_iff document] at fed
    obtain ⟨_, ended, inside⟩ := fed
    have opened : commentText body ≠ [] :=
      fun unopened => run_commentTag_unopened unopened ended
    refine ⟨opened, fun early => ?_⟩
    obtain ⟨initial, isPrefix, nonempty, shorter, atDocument⟩ :=
      run_commentTag_early attributes opened early
    exact inside initial isPrefix nonempty shorter atDocument
  · intro conditions
    obtain ⟨opened, late⟩ := conditions
    exact feedsTag_commentTag reachable document opened late

theorem comment_ends_iff_link :
    FeedsTag sAttributeMap (HtmlCrawler.new (bytes "host"))
        (commentTag (bytes "<a href='x'>")) [] ↔
      commentText (bytes "<a href='x'>") ≠ [] ∧
        ¬EndsEarly (commentText (bytes "<a href='x'>")) :=
  comment_ends_iff (HtmlCrawler.new_reachable _ _) rfl _

/-- `<!---->` does not end. -/
theorem empty_comment_does_not_end :
    ¬ ∀ (before : HtmlCrawler) (body : Bytes), before.Reachable sAttributeMap →
      before.currentNode = .doc → ¬bytes "-->" <:+: body → ¬bytes ">" <+: body →
      ¬bytes "->" <+: body → FeedsTag sAttributeMap before (commentTag body) [] := by
  intro ends
  have reachable := HtmlCrawler.new_reachable sAttributeMap (bytes "host")
  have fed := ends _ [] reachable rfl (by decide) (by decide) (by decide)
  rw [reachable.feedsTag_iff rfl] at fed
  exact run_commentTag_unopened rfl fed.2.1

end FastCrawl
