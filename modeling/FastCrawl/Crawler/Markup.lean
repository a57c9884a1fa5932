import FastCrawl.Crawler.AttributeLists
import FastCrawl.Crawler.Comments
import FastCrawl.Crawler.SkippedTags

namespace FastCrawl

open Automata

/-! The markup of a page as it is written, and what the segmenter makes of each part. -/

variable {attributes : AttributeMap}

/-- A byte that goes on with the name of an attribute. -/
def attributeByte (ch : UInt8) : Bool :=
  !(ch = '/'.toUInt8 || ch = '>'.toUInt8 || ch = '='.toUInt8 || quoteMark ch || whitespace ch)

/-- The text may have any bytes but the quote around it and `>`. -/
structure WrittenValue where
  quote : UInt8
  text : Bytes
  isQuote : quoteMark quote = true
  noQuote : quote ∉ text
  noGreater : '>'.toUInt8 ∉ text

/-- A name may have capitals behind its first byte only: one that begins with a capital
is not found. -/
structure WrittenAttribute where
  blanks : Bytes
  first : UInt8
  others : Bytes
  value : Option WrittenValue
  blanksNonempty : blanks ≠ []
  areBlanks : ∀ ch ∈ blanks, whitespace ch = true
  isFirst : nameByte first = true
  lowerFirst : toLower first = first
  areOthers : ∀ ch ∈ others, attributeByte ch = true

/-- The name of an element. -/
structure WrittenName where
  first : UInt8
  others : Bytes
  isFirst : nameByte first = true
  areOthers : ∀ ch ∈ others, tokenChar ch = true

/-- What is written between the attributes of a tag and its `>`. -/
structure TagEnding where
  blanks : Bytes
  slash : Bool
  areBlanks : ∀ ch ∈ blanks, whitespace ch = true

structure OpeningTag where
  element : WrittenName
  list : List WrittenAttribute
  ending : TagEnding

inductive Markup where
  | text (content : Bytes)
  | comment (body : Bytes)
  | declaration (body : Bytes)
  | instruction (body : Bytes)
  | opening (tag : OpeningTag)
  | closing (element : WrittenName) (ending : TagEnding)

def WrittenValue.written (value : WrittenValue) : Bytes :=
  ['='.toUInt8, value.quote] ++ value.text ++ [value.quote]

namespace WrittenAttribute

def written (listed : WrittenAttribute) : Bytes :=
  listed.blanks ++ listed.first :: listed.others ++
    (listed.value.map WrittenValue.written).getD []

/-- Names are the same in capitals. -/
def name (listed : WrittenAttribute) : Bytes := (listed.first :: listed.others).map toLower

/-- The link of an attribute, where the wanted one is `entry.2`. -/
def link? (entry : Bytes × Bytes) (listed : WrittenAttribute) : Option (Bytes × Bytes × Bytes) :=
  if listed.name = entry.2 then listed.value.map fun value => (entry.1, entry.2, value.text)
  else none

/-- The names that have been collected and not yet used after an attribute. -/
def pendingAfter (pending : Bytes) (listed : WrittenAttribute) : Bytes :=
  match listed.value with
  | none => pending ++ listed.name
  | some _ => []

end WrittenAttribute

def WrittenName.written (element : WrittenName) : Bytes := element.first :: element.others

def WrittenName.name (element : WrittenName) : Bytes := element.written.map toLower

def TagEnding.written (ending : TagEnding) : Bytes :=
  ending.blanks ++ if ending.slash then ['/'.toUInt8] else []

namespace OpeningTag

/-- The attributes and what follows them. -/
def body (tag : OpeningTag) : Bytes :=
  tag.list.flatMap WrittenAttribute.written ++ tag.ending.written

def written (tag : OpeningTag) : Bytes :=
  '<'.toUInt8 :: (tag.element.written ++ tag.body) ++ ['>'.toUInt8]

def links (attributes : AttributeMap) (tag : OpeningTag) : List (Bytes × Bytes × Bytes) :=
  match attributes.find tag.element.name with
  | none => []
  | some entry => tag.list.filterMap (WrittenAttribute.link? entry)

end OpeningTag

namespace Markup

def written : Markup → Bytes
  | text content => content
  | comment body => commentTag body
  | declaration body => '<'.toUInt8 :: ('!'.toUInt8 :: body) ++ ['>'.toUInt8]
  | instruction body => '<'.toUInt8 :: ('?'.toUInt8 :: body) ++ ['>'.toUInt8]
  | opening tag => tag.written
  | closing element ending =>
      '<'.toUInt8 :: ('/'.toUInt8 :: (element.written ++ ending.written)) ++ ['>'.toUInt8]

/-- The links of the markup: the values of the registered attributes. -/
def links (attributes : AttributeMap) : Markup → List (Bytes × Bytes × Bytes)
  | opening tag => tag.links attributes
  | _ => []

end Markup

/-- No bare names join an attribute with a value into or out of the wanted name, and
those at the end do not spell it. -/
def NamesDistinct (wanted : Bytes) : Bytes → List WrittenAttribute → Prop
  | pending, [] => pending ≠ wanted
  | pending, listed :: rest =>
      (listed.value.isSome → (pending ++ listed.name = wanted ↔ listed.name = wanted)) ∧
        NamesDistinct wanted (listed.pendingAfter pending) rest

/-- In the tag of a registered element, names are distinct, and no link has a `=`. -/
def OpeningTag.Plain (attributes : AttributeMap) (tag : OpeningTag) : Prop :=
  ∀ entry, attributes.find tag.element.name = some entry →
    NamesDistinct entry.2 [] tag.list ∧
      ∀ listed ∈ tag.list, listed.name = entry.2 →
        ∀ value ∈ listed.value, '='.toUInt8 ∉ value.text

/-- Markup that the crawler reads as it is meant: a comment has other bytes than `!` and
`-`, and no `>` somewhere behind `--`; a declaration does not begin as a comment does. -/
def Markup.Plain (attributes : AttributeMap) : Markup → Prop
  | text content => '<'.toUInt8 ∉ content
  | comment body => commentText body ≠ [] ∧ ¬EndsEarly (commentText body)
  | declaration body => (∃ ch ∈ body.head?, commentMark ch = false) ∧ '>'.toUInt8 ∉ body
  | instruction body => '>'.toUInt8 ∉ body
  | opening tag => tag.Plain attributes
  | closing _ _ => True

section Bytes

variable {ch : UInt8}

theorem nameByte_attributeByte (isName : nameByte ch = true) : attributeByte ch = true := by
  have ne (other : UInt8) (notName : nameByte other = false) : ch ≠ other :=
    ne_of_class isName notName
  have notQuote : quoteMark ch = false := by
    simp only [quoteMark, Bool.or_eq_false_iff, decide_eq_false_iff_not]
    exact ⟨ne _ (by decide), ne _ (by decide)⟩
  simp only [attributeByte, ne '/'.toUInt8 (by decide), ne '>'.toUInt8 (by decide),
    ne '='.toUInt8 (by decide), notQuote, nameByte_not_whitespace isName, decide_false,
    Bool.or_false, Bool.not_false]

theorem next_tagBody_nameByte (isName : nameByte ch = true) (tag : Registered attributes) :
    (outline attributes).next (.tagBody tag) ch = .attr tag [ch] none := by
  have ne (other : UInt8) (notName : nameByte other = false) : ch ≠ other :=
    ne_of_class isName notName
  have token : tokenChar ch = true := (Bool.and_eq_true_iff.mp isName).1
  simp only [outline, Segment.next, ne '>'.toUInt8 (by decide), ne '!'.toUInt8 (by decide),
    ne '?'.toUInt8 (by decide), ne '/'.toUInt8 (by decide), nameByte_not_whitespace isName,
    ne '-'.toUInt8 (by decide), token, Bool.false_eq_true, or_self, if_false, if_true]

section Attribute

variable (isByte : attributeByte ch = true) (tag : Registered attributes) (name : Bytes)
include isByte

theorem next_attr_attributeByte :
    (outline attributes).next (.attr tag name none) ch = .attr tag (name ++ [toLower ch]) none := by
  have ne (other : UInt8) (special : attributeByte other = false) : ch ≠ other :=
    ne_of_class isByte special
  have notQuote : quoteMark ch = false := by
    by_contra isQuote
    simp [attributeByte, isQuote] at isByte
  have notBlank : whitespace ch = false := by
    by_contra blank
    simp [attributeByte, blank] at isByte
  simp only [outline, Segment.next, if_neg (ne '/'.toUInt8 (by decide)),
    if_neg (ne '>'.toUInt8 (by decide)), notQuote, ne '='.toUInt8 (by decide), notBlank,
    Bool.false_eq_true, or_self, if_false, dif_neg not_false]

theorem emit_attr_attributeByte : (outline attributes).emit (.attr tag name none) ch = none := by
  have notGreater : ch ≠ '>'.toUInt8 := ne_of_class isByte (by decide)
  simp only [outline, Segment.report, if_neg notGreater, Option.map_none, reduceCtorEq, if_false]

end Attribute

theorem next_elementName_tokenChar (token : tokenChar ch = true) {name : Bytes}
    (nonempty : name ≠ []) :
    (outline attributes).next (.elementName name) ch = .elementName (name ++ [toLower ch]) := by
  by_cases dash : ch = '-'.toUInt8
  · subst dash
    cases name with
    | nil => exact absurd rfl nonempty
    | cons head tail => rfl
  · have isName : nameByte ch = true := by
      rw [nameByte, token, Bool.true_and, bne_iff_ne]
      exact dash
    exact next_elementName_nameByte isName name

end Bytes

theorem walk_tokenChars (attributes : AttributeMap) {text : Bytes}
    (areTokens : ∀ ch ∈ text, tokenChar ch = true) {name : Bytes} (nonempty : name ≠ []) :
    (outline attributes).Walk Segment.InTag (.elementName name) text
      (.elementName (name ++ text.map toLower)) [] := by
  induction text generalizing name with
  | nil => simpa using Mealy.Walk.nil (Segment.inTag_elementName _)
  | cons ch rest ih =>
      obtain ⟨token, areRest⟩ := List.forall_mem_cons.mp areTokens
      have tail := ih areRest (List.append_ne_nil_of_left_ne_nil nonempty [toLower ch])
      rw [List.append_assoc] at tail
      refine .cons (Segment.inTag_elementName _) rfl ?_
      rw [next_elementName_tokenChar token nonempty]
      exact tail

theorem WrittenName.name_ne_nil (element : WrittenName) : element.name ≠ [] :=
  List.cons_ne_nil _ _

theorem WrittenName.walk (element : WrittenName) (attributes : AttributeMap) :
    (outline attributes).Walk Segment.InTag (.elementName []) element.written
      (.elementName element.name) [] := by
  have first : (outline attributes).next (.elementName []) element.first =
      .elementName [toLower element.first] := next_elementName_nameByte element.isFirst []
  refine .cons (Segment.inTag_elementName _) rfl ?_
  rw [first]
  exact walk_tokenChars attributes element.areOthers (List.cons_ne_nil _ _)

/-- A `>` ends the tag here, and no attribute with it. -/
inductive Endable : Segment attributes Unit → Prop
  | elementName (name : Bytes) : Endable (.elementName name)
  | tagBody (tag : Registered attributes) : Endable (.tagBody tag)
  | attr (tag : Registered attributes) {name : Bytes} (unwanted : name ≠ tag.attributeName) :
      Endable (.attr tag name none)
  | skipped (afterDash : Bool) : Endable (.skipped { afterDash })

namespace Endable

variable {segment : Segment attributes Unit} (endable : Endable segment)
include endable

theorem inTag : segment.InTag := by
  cases endable with
  | elementName name => exact Segment.inTag_elementName name
  | tagBody tag => exact Segment.inTag_tagBody tag
  | attr tag unwanted => exact Segment.inTag_attr tag _ none
  | skipped afterDash => exact Segment.inTag_skipped _

theorem ends : segment.next '>'.toUInt8 () = .doc := by
  cases endable with
  | elementName name => rfl
  | tagBody tag => rfl
  | attr tag unwanted => rfl
  | skipped afterDash => rfl

theorem silent : segment.report '>'.toUInt8 = none := by
  cases endable with
  | elementName name => rfl
  | tagBody tag => rfl
  | attr tag unwanted => exact if_neg unwanted
  | skipped afterDash => rfl

theorem slash : Endable ((outline attributes).next segment '/'.toUInt8) ∧
    (outline attributes).emit segment '/'.toUInt8 = none := by
  cases endable with
  | elementName name => exact ⟨.elementName name, rfl⟩
  | tagBody tag => exact ⟨.tagBody tag, rfl⟩
  | attr tag unwanted => exact ⟨.tagBody tag, rfl⟩
  | skipped afterDash => exact ⟨.skipped false, rfl⟩

theorem blank {ch : UInt8} (isBlank : whitespace ch = true) :
    Endable ((outline attributes).next segment ch) ∧
      (outline attributes).emit segment ch = none := by
  have ne (other : UInt8) (notBlank : whitespace other = false) : ch ≠ other :=
    ne_of_class isBlank notBlank
  cases endable with
  | elementName name =>
      refine ⟨?_, rfl⟩
      rw [show (outline attributes).next (.elementName name) ch = .ofElement attributes name from
        Segment.next_elementName_blank isBlank name ()]
      unfold Segment.ofElement
      split
      next => exact .elementName []
      next nonempty =>
        cases attributes.registered name nonempty with
        | none => exact .skipped false
        | some tag => exact .tagBody tag
  | tagBody tag =>
      have same : (outline attributes).next (.collecting tag []) ch = .collecting tag [] :=
        next_blank_collecting isBlank []
      rw [Segment.collecting_nil] at same
      rw [same]
      exact ⟨.tagBody tag, rfl⟩
  | @attr tag name unwanted =>
      have notQuote : quoteMark ch = false := by
        simp only [quoteMark, Bool.or_eq_false_iff, decide_eq_false_iff_not]
        exact ⟨ne _ (by decide), ne _ (by decide)⟩
      have same : (outline attributes).next (.attr tag name none) ch = .attr tag name none := by
        simp only [outline, Segment.next, ne '>'.toUInt8 (by decide), ne '/'.toUInt8 (by decide),
          notQuote, isBlank, or_true, if_false, if_true, Bool.false_eq_true, dif_neg not_false]
      rw [same]
      refine ⟨.attr tag unwanted, ?_⟩
      simp only [outline, Segment.report, if_neg (ne '>'.toUInt8 (by decide)), Option.map_none,
        reduceCtorEq, if_false]
  | skipped afterDash =>
      have same : (outline attributes).next (.skipped { afterDash }) ch =
          .skipped { afterDash := false } := by
        simp only [outline, Segment.next, Skipping.next, if_neg (ne '>'.toUInt8 (by decide)),
          if_neg (ne '-'.toUInt8 (by decide))]
      rw [same]
      exact ⟨.skipped false, rfl⟩

theorem walk_blanks {blanks : Bytes} (areBlanks : ∀ ch ∈ blanks, whitespace ch = true) :
    ∃ last, (outline attributes).Walk Segment.InTag segment blanks last [] ∧ Endable last := by
  induction blanks generalizing segment with
  | nil => exact ⟨segment, .nil endable.inTag, endable⟩
  | cons ch rest ih =>
      obtain ⟨isBlank, areRest⟩ := List.forall_mem_cons.mp areBlanks
      obtain ⟨next, silent⟩ := endable.blank isBlank
      obtain ⟨last, walk, ended⟩ := ih next areRest
      exact ⟨last, .cons endable.inTag silent walk, ended⟩

theorem walk_ending (ending : TagEnding) :
    ∃ last, (outline attributes).Walk Segment.InTag segment ending.written last [] ∧
      Endable last := by
  obtain ⟨middle, walk, middleEndable⟩ := endable.walk_blanks ending.areBlanks
  unfold TagEnding.written
  cases ending.slash with
  | false => exact ⟨middle, by simpa using walk, middleEndable⟩
  | true =>
      obtain ⟨next, silent⟩ := middleEndable.slash
      exact ⟨_, walk.append (.single middleEndable.inTag next.inTag rfl silent), next⟩

end Endable

theorem walk_attributeBytes (tag : Registered attributes) {text : Bytes}
    (areBytes : ∀ ch ∈ text, attributeByte ch = true) (name : Bytes) :
    (outline attributes).Walk Segment.InTag (.attr tag name none) text
      (.attr tag (name ++ text.map toLower) none) [] := by
  induction text generalizing name with
  | nil => simpa using Mealy.Walk.nil (Segment.inTag_attr _ _ _)
  | cons ch rest ih =>
      obtain ⟨isByte, areRest⟩ := List.forall_mem_cons.mp areBytes
      have tail := ih areRest (name ++ [toLower ch])
      rw [List.append_assoc] at tail
      refine .cons (Segment.inTag_attr _ _ _) (emit_attr_attributeByte isByte tag name) ?_
      rw [next_attr_attributeByte isByte]
      exact tail

namespace WrittenAttribute

variable (tag : Registered attributes) (pending : Bytes) (listed : WrittenAttribute)

theorem name_ne_nil : listed.name ≠ [] := List.cons_ne_nil _ _

theorem areBytes : ∀ ch ∈ listed.first :: listed.others, attributeByte ch = true :=
  List.forall_mem_cons.mpr ⟨nameByte_attributeByte listed.isFirst, listed.areOthers⟩

theorem walk_name :
    (outline attributes).Walk Segment.InTag (.collecting tag pending)
      (listed.first :: listed.others) (.attr tag (pending ++ listed.name) none) [] := by
  by_cases empty : pending = []
  · have others := walk_attributeBytes tag listed.areOthers [listed.first]
    have sameName : [listed.first] ++ listed.others.map toLower = [] ++ listed.name := by
      rw [name, List.map_cons, listed.lowerFirst]
      rfl
    rw [empty, Segment.collecting_nil, ← sameName]
    refine .cons (Segment.inTag_tagBody tag) rfl ?_
    rw [next_tagBody_nameByte listed.isFirst]
    exact others
  · rw [Segment.collecting_of_ne_nil empty]
    exact walk_attributeBytes tag listed.areBytes pending

/-- What is reported while an attribute is fed. -/
def reported : List (Report Unit) :=
  match listed.value with
  | none => []
  | some value =>
      (Segment.finish tag (pending ++ listed.name)
        (some ⟨value.quote, value.isQuote, (), storedValue value.text⟩)).toList

theorem walk {segment : Segment attributes Unit} (collects : segment.Collects tag pending) :
    (outline attributes).Walk Segment.InTag segment listed.written
      (.collecting tag (listed.pendingAfter pending)) (listed.reported tag pending) := by
  have named := (walk_blanks collects listed.blanksNonempty listed.areBlanks).append
    (listed.walk_name tag pending)
  have joined : pending ++ listed.name ≠ [] := by simp [listed.name_ne_nil]
  unfold written pendingAfter reported
  cases listed.value with
  | none =>
      rw [Option.map_none, Option.getD_none, List.append_nil]
      simp only [Segment.collecting_of_ne_nil joined]
      exact named
  | some value =>
      exact named.append
        (walk_quotedValue value.isQuote value.noQuote value.noGreater tag (pending ++ listed.name))

variable {tag pending listed}

theorem reported_eq_link?
    (apart : listed.value.isSome →
      (pending ++ listed.name = tag.attributeName ↔ listed.name = tag.attributeName))
    (noEquals : listed.name = tag.attributeName → ∀ value ∈ listed.value,
      '='.toUInt8 ∉ value.text) :
    (listed.reported tag pending).map Report.triple =
      (listed.link? (tag.element, tag.attributeName)).toList := by
  unfold reported link?
  cases value : listed.value with
  | none => simp
  | some value =>
      rw [value] at apart
      by_cases wanted : listed.name = tag.attributeName
      · have stored := storedValue_eq_self.mpr (noEquals wanted _ value)
        have joined := (apart rfl).mpr wanted
        simp only [Segment.finish, if_pos joined, if_pos wanted]
        simp [joined, stored, Report.triple]
      · have joined := mt (apart rfl).mp wanted
        simp [Segment.finish, wanted, joined]

end WrittenAttribute

/-- In front of an attribute that cannot join the wanted name, the tag may end. -/
theorem Segment.Collects.endable {tag : Registered attributes} {pending : Bytes}
    {segment : Segment attributes Unit} (collects : segment.Collects tag pending)
    (unwanted : pending ≠ tag.attributeName) : Endable segment := by
  cases collects with
  | element => exact .elementName tag.element
  | names =>
      unfold Segment.collecting
      split
      · exact .tagBody tag
      · exact .attr tag unwanted

/-- Attributes with distinct names report their links, and no others. -/
theorem walk_attributes {tag : Registered attributes} {pending : Bytes}
    {segment : Segment attributes Unit} (collects : segment.Collects tag pending)
    {list : List WrittenAttribute} (apart : NamesDistinct tag.attributeName pending list)
    (noEquals : ∀ listed ∈ list, listed.name = tag.attributeName →
      ∀ value ∈ listed.value, '='.toUInt8 ∉ value.text) :
    ∃ last reported, (outline attributes).Walk Segment.InTag segment
        (list.flatMap WrittenAttribute.written) last reported ∧ Endable last ∧
      reported.map Report.triple =
        list.filterMap (WrittenAttribute.link? (tag.element, tag.attributeName)) := by
  induction list generalizing pending segment with
  | nil => exact ⟨segment, [], .nil collects.inTag, collects.endable apart, rfl⟩
  | cons listed rest ih =>
      obtain ⟨own, apartRest⟩ := apart
      obtain ⟨noEqualsOwn, noEqualsRest⟩ := List.forall_mem_cons.mp noEquals
      obtain ⟨last, reported, walk, endable, links⟩ := ih (.names _) apartRest noEqualsRest
      have first := WrittenAttribute.reported_eq_link? own noEqualsOwn
      refine ⟨last, _, (listed.walk tag pending collects).append walk, endable, ?_⟩
      rw [List.map_append, first, links, List.filterMap_cons]
      cases listed.link? (tag.element, tag.attributeName) <;> rfl

end FastCrawl
