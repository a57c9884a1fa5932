import FastCrawl.Crawler.Tags

namespace FastCrawl

open Automata

/-! Tags with lists of attributes.  Whitespace does not end the name of an
attribute, so names run together until a value or the end of the tag. -/

variable {attributes : AttributeMap}

structure QuotedValue where
  quote : UInt8
  text : Bytes
  isQuote : quoteMark quote = true
  noQuote : quote ∉ text
  noGreater : '>'.toUInt8 ∉ text
  noEquals : '='.toUInt8 ∉ text

structure ListedAttribute where
  blanks : Bytes
  name : Bytes
  value : Option QuotedValue
  blanksNonempty : blanks ≠ []
  areBlanks : ∀ ch ∈ blanks, whitespace ch = true
  nameNonempty : name ≠ []
  areLetters : ∀ ch ∈ name, lowerLetter ch = true

def QuotedValue.written (value : QuotedValue) : Bytes :=
  ['='.toUInt8, value.quote] ++ value.text ++ [value.quote]

namespace ListedAttribute

def written (listed : ListedAttribute) : Bytes :=
  listed.blanks ++ listed.name ++ (listed.value.map QuotedValue.written).getD []

/-- The call that a list asks for. -/
def call? (tag : Registered attributes) (listed : ListedAttribute) :
    Option (Bytes × Bytes × Bytes) :=
  if listed.name = tag.attributeName then
    listed.value.map fun value => (tag.element, tag.attributeName, value.text)
  else none

/-- The names that have been collected and not yet used after an attribute. -/
def pendingAfter (pending : Bytes) (listed : ListedAttribute) : Bytes :=
  match listed.value with
  | none => pending ++ listed.name
  | some _ => []

end ListedAttribute

def writtenList (list : List ListedAttribute) : Bytes := list.flatMap ListedAttribute.written

/-- `'<' e`, the attributes, `'>'` -/
def listTag (element : Bytes) (list : List ListedAttribute) : Bytes :=
  '<'.toUInt8 :: (element ++ writtenList list) ++ ['>'.toUInt8]

/-- A name with a value is the wanted one exactly if it is with the bare names
before it joined to it, and the bare names at the end do not spell the wanted one. -/
def NamesApart (wanted : Bytes) : Bytes → List ListedAttribute → Prop
  | pending, [] => pending ≠ wanted
  | pending, listed :: rest =>
      (listed.value.isSome → (pending ++ listed.name = wanted ↔ listed.name = wanted)) ∧
        NamesApart wanted (listed.pendingAfter pending) rest

/-- Feeding the tag makes the call of each attribute that asks for one, while
the attribute is fed, and no other call. -/
def FeedsList (before : HtmlCrawler) (tag : Registered attributes)
    (list : List ListedAttribute) : Prop :=
  (∃ after, before.call attributes (listTag tag.element list) = .ok after ∧
    after.triples = before.triples ++ list.filterMap (ListedAttribute.call? tag)) ∧
  ∀ shown, shown <+: list →
    ∃ middle, before.call attributes ('<'.toUInt8 :: (tag.element ++ writtenList shown)) =
        .ok middle ∧
      middle.triples = before.triples ++ shown.filterMap (ListedAttribute.call? tag)

/-- In front of an attribute, with some names collected. -/
def Segment.collecting (tag : Registered attributes) (pending : Bytes) :
    Segment attributes Unit :=
  if pending = [] then .tagBody tag else .attr tag pending none

inductive Segment.Collects (tag : Registered attributes) : Bytes → Segment attributes Unit → Prop
  | element : Collects tag [] (.elementName tag.element)
  | names (pending : Bytes) : Collects tag pending (.collecting tag pending)

@[simp] theorem Segment.collecting_nil (tag : Registered attributes) :
    Segment.collecting tag [] = .tagBody tag := rfl

theorem Segment.collecting_of_ne_nil {pending : Bytes} (nonempty : pending ≠ [])
    (tag : Registered attributes) : Segment.collecting tag pending = .attr tag pending none :=
  if_neg nonempty

theorem Segment.inTag_collecting (tag : Registered attributes) (pending : Bytes) :
    (Segment.collecting tag pending).InTag := by
  unfold Segment.collecting
  split <;> simp

theorem Segment.Collects.inTag {tag : Registered attributes} {pending : Bytes}
    {segment : Segment attributes Unit} (collects : segment.Collects tag pending) :
    segment.InTag := by
  cases collects with
  | element => exact Segment.inTag_elementName tag.element
  | names => exact Segment.inTag_collecting tag pending

section Blanks

variable {ch : UInt8} (blank : whitespace ch = true) {tag : Registered attributes}
include blank

theorem next_blank_element :
    (outline attributes).next (.elementName tag.element) ch = .tagBody tag :=
  (Segment.next_elementName_blank blank tag.element ()).trans (ofElement_self tag)

theorem next_blank_collecting (pending : Bytes) :
    (outline attributes).next (.collecting tag pending) ch = .collecting tag pending := by
  have ne (other : UInt8) (notBlank : whitespace other = false) : ch ≠ other :=
    ne_of_class blank notBlank
  unfold Segment.collecting
  split
  · simp only [outline, Segment.next, ne '>'.toUInt8 (by decide), ne '!'.toUInt8 (by decide),
      ne '?'.toUInt8 (by decide), blank, or_true, or_self, if_false, if_true]
  · have notQuote : quoteMark ch = false := by
      simp only [quoteMark, Bool.or_eq_false_iff, decide_eq_false_iff_not]
      exact ⟨ne _ (by decide), ne _ (by decide)⟩
    simp only [outline, Segment.next, ne '>'.toUInt8 (by decide), ne '/'.toUInt8 (by decide),
      notQuote, blank, or_true, if_false, if_true, Bool.false_eq_true, dif_neg not_false]

theorem emit_blank_collects {pending : Bytes} {segment : Segment attributes Unit}
    (collects : segment.Collects tag pending) : (outline attributes).emit segment ch = none := by
  have notGreater : ch ≠ '>'.toUInt8 := ne_of_class blank (by decide)
  cases collects with
  | element => rfl
  | names =>
      unfold Segment.collecting
      split
      · rfl
      · simp only [outline, Segment.report, if_neg notGreater, Option.map_none, reduceCtorEq,
          if_false]

theorem walk_blank {pending : Bytes} {segment : Segment attributes Unit}
    (collects : segment.Collects tag pending) :
    (outline attributes).Walk Segment.InTag segment [ch] (.collecting tag pending) [] := by
  have next : (outline attributes).next segment ch = .collecting tag pending := by
    cases collects with
    | element => exact next_blank_element blank
    | names => exact next_blank_collecting blank pending
  exact .single collects.inTag (Segment.inTag_collecting tag pending) next
    (emit_blank_collects blank collects)

end Blanks

theorem walk_blanks {tag : Registered attributes} {pending : Bytes}
    {segment : Segment attributes Unit} (collects : segment.Collects tag pending)
    {blanks : Bytes} (nonempty : blanks ≠ []) (areBlanks : ∀ ch ∈ blanks, whitespace ch = true) :
    (outline attributes).Walk Segment.InTag segment blanks (.collecting tag pending) [] := by
  induction blanks generalizing segment with
  | nil => exact absurd rfl nonempty
  | cons ch rest ih =>
      have first := walk_blank (areBlanks ch (by simp)) collects
      cases rest with
      | nil => exact first
      | cons next rest =>
          have tail := ih (.names pending) (by simp) fun ch member => areBlanks ch (by simp [member])
          exact first.append tail

theorem walk_name (tag : Registered attributes) (pending : Bytes) {name : Bytes}
    (nonempty : name ≠ []) (areLetters : ∀ ch ∈ name, lowerLetter ch = true) :
    (outline attributes).Walk Segment.InTag (.collecting tag pending) name
      (.attr tag (pending ++ name) none) [] := by
  have isLetters : ∀ ch ∈ name, letter ch = true :=
    fun ch member => lowerLetter_letter (areLetters ch member)
  by_cases empty : pending = []
  · have walk := walk_tagBodyName isLetters nonempty tag
    rw [collectedName_lowerLetters areLetters] at walk
    rw [empty]
    exact walk
  · have walk := walk_attrName isLetters tag pending
    rw [map_toLower_lowerLetters areLetters] at walk
    rw [Segment.collecting_of_ne_nil empty]
    exact walk

namespace ListedAttribute

variable (tag : Registered attributes) (pending : Bytes) (listed : ListedAttribute)

/-- What is reported while an attribute is fed. -/
def reported : List (Report Unit) :=
  match listed.value with
  | none => []
  | some value =>
      (Segment.finish tag (pending ++ listed.name)
        (some ⟨value.quote, value.isQuote, (), storedValue value.text⟩)).toList

theorem walk {segment : Segment attributes Unit} (collects : segment.Collects tag pending) :
    (outline attributes).Walk Segment.InTag segment listed.written
      (.collecting tag (listed.pendingAfter pending)) (listed.reported tag pending) := by
  have named := (walk_blanks collects listed.blanksNonempty listed.areBlanks).append
    (walk_name tag pending listed.nameNonempty listed.areLetters)
  have joined : pending ++ listed.name ≠ [] := by simp [listed.nameNonempty]
  unfold written pendingAfter reported
  cases listed.value with
  | none =>
      rw [Option.map_none, Option.getD_none, List.append_nil]
      simp only [Segment.collecting_of_ne_nil joined]
      exact named
  | some value =>
      exact named.append
        (walk_quotedValue value.isQuote value.noQuote value.noGreater tag (pending ++ listed.name))

theorem reported_eq_call? :
    (listed.reported tag pending).map Report.triple = (listed.call? tag).toList ↔
      (listed.value.isSome →
        (pending ++ listed.name = tag.attributeName ↔ listed.name = tag.attributeName)) := by
  unfold reported call?
  cases listed.value with
  | none => simp
  | some value =>
      have stored := storedValue_eq_self.mpr value.noEquals
      by_cases wanted : listed.name = tag.attributeName
      · simp [Segment.finish, wanted, stored, Report.triple]
      · by_cases joined : pending ++ listed.name = tag.attributeName
        · simp [Segment.finish, wanted, joined]
        · simp [Segment.finish, wanted, joined]

theorem outputs_written {segment : Segment attributes Unit}
    (collects : segment.Collects tag pending) (more : Bytes) :
    ((outline attributes).outputs segment (listed.written ++ more)).map Report.triple =
      (listed.reported tag pending).map Report.triple ++
        ((outline attributes).outputs (.collecting tag (listed.pendingAfter pending)) more).map
          Report.triple := by
  have walk := listed.walk tag pending collects
  rw [Mealy.outputs_append, walk.outputs, walk.run, List.map_append]

end ListedAttribute

theorem outputs_listEnd {tag : Registered attributes} (nonempty : tag.attributeName ≠ [])
    {pending : Bytes} {segment : Segment attributes Unit}
    (collects : segment.Collects tag pending) :
    (outline attributes).outputs segment ['>'.toUInt8] = [] ↔ pending ≠ tag.attributeName := by
  rw [Mealy.outputs_cons, Mealy.outputs_nil, List.append_nil, Option.toList_eq_nil_iff]
  cases collects with
  | element => exact iff_of_true rfl nonempty.symm
  | names =>
      unfold Segment.collecting
      split
      next empty => exact iff_of_true rfl (empty ▸ nonempty.symm)
      next collected =>
        simp only [outline, Segment.report, if_true, Segment.finish, ite_eq_right_iff,
          reduceCtorEq, imp_false]

/-- From any place in front of a list, its attributes make the calls that they
ask for exactly when their names stay apart. -/
theorem outputs_writtenList_iff {tag : Registered attributes}
    (nonempty : tag.attributeName ≠ []) {pending : Bytes} {segment : Segment attributes Unit}
    (collects : segment.Collects tag pending) (list : List ListedAttribute) :
    (((outline attributes).outputs segment (writtenList list ++ ['>'.toUInt8])).map Report.triple =
        list.filterMap (ListedAttribute.call? tag) ∧
      ∀ shown, shown <+: list →
        ((outline attributes).outputs segment (writtenList shown)).map Report.triple =
          shown.filterMap (ListedAttribute.call? tag)) ↔
      NamesApart tag.attributeName pending list := by
  induction list generalizing pending segment with
  | nil =>
      simp only [NamesApart, ← outputs_listEnd nonempty collects, writtenList, List.flatMap_nil,
        List.nil_append, List.filterMap_nil, List.map_eq_nil_iff, List.prefix_nil, forall_eq,
        Mealy.outputs_nil, and_true]
  | cons listed rest ih =>
      rw [NamesApart, ← listed.reported_eq_call? tag pending, ← ih (.names _)]
      have split (list : List ListedAttribute) (more : Bytes) :
          ((outline attributes).outputs segment (writtenList (listed :: list) ++ more)).map
            Report.triple = (listed.reported tag pending).map Report.triple ++
              ((outline attributes).outputs (.collecting tag (listed.pendingAfter pending))
                (writtenList list ++ more)).map Report.triple := by
        rw [writtenList, List.flatMap_cons, List.append_assoc]
        exact listed.outputs_written tag pending collects _
      have asked (list : List ListedAttribute) :
          (listed :: list).filterMap (ListedAttribute.call? tag) =
            (listed.call? tag).toList ++ list.filterMap (ListedAttribute.call? tag) := by
        cases called : listed.call? tag <;> simp [called]
      have unended (list : List ListedAttribute) :
          writtenList list = writtenList list ++ [] := (List.append_nil _).symm
      constructor
      · intro made
        obtain ⟨whole, parts⟩ := made
        have own : (listed.reported tag pending).map Report.triple = (listed.call? tag).toList := by
          have first := parts [listed] (by simp)
          rw [unended, split, asked] at first
          simpa [writtenList] using first
        refine ⟨own, ?_, fun shown isPrefix => ?_⟩
        · rw [split, asked, own] at whole
          exact List.append_cancel_left whole
        · have longer := parts (listed :: shown) (List.cons_prefix_cons.mpr ⟨rfl, isPrefix⟩)
          rw [unended, split, asked, own, ← unended] at longer
          exact List.append_cancel_left longer
      · intro made
        obtain ⟨own, whole, parts⟩ := made
        refine ⟨by rw [split, asked, own, whole], fun shown isPrefix => ?_⟩
        rcases List.prefix_cons_iff.mp isPrefix with rfl | ⟨shorter, rfl, shorterPrefix⟩
        · rfl
        · rw [unended, split, asked, own, ← unended, parts shorter shorterPrefix]

theorem HtmlCrawler.Reachable.feedsList_iff {before : HtmlCrawler}
    (reachable : before.Reachable attributes) (document : before.currentNode = .doc)
    {tag : Registered attributes} (plain : tag.Plain) (list : List ListedAttribute) :
    FeedsList before tag list ↔ NamesApart tag.attributeName [] list := by
  have opened (more : Bytes) :
      (outline attributes).outputs .doc ('<'.toUInt8 :: (tag.element ++ more)) =
        (outline attributes).outputs (.elementName tag.element) more := by
    have named := walk_elementName
      (fun ch member => lowerLetter_letter (plain.element ch member)) attributes []
    rw [map_toLower_lowerLetters plain.element] at named
    rw [outline_outputs_opening, Mealy.outputs_append, named.outputs, named.run]
    rfl
  have fed (more : Bytes) (found : List (Bytes × Bytes × Bytes)) :
      (∃ after, before.call attributes ('<'.toUInt8 :: (tag.element ++ more)) = .ok after ∧
        after.triples = before.triples ++ found) ↔
      ((outline attributes).outputs (.elementName tag.element) more).map Report.triple = found := by
    obtain ⟨after, called, _, triples⟩ := reachable.call_of_document document
      ('<'.toUInt8 :: (tag.element ++ more))
    rw [opened] at triples
    simp only [called, Except.ok.injEq, exists_eq_left', triples, List.append_cancel_left_eq]
  have sameTag : listTag tag.element list =
      '<'.toUInt8 :: (tag.element ++ (writtenList list ++ ['>'.toUInt8])) := by
    rw [listTag, List.cons_append, List.append_assoc]
  simp only [FeedsList, sameTag, fed]
  exact outputs_writtenList_iff plain.nonempty .element list

/-- The attributes of a list make the calls that they ask for exactly when no bare
name joins an attribute with a value into or out of the wanted name, and the
bare names at the end do not spell it. -/
theorem attribute_list_iff {before : HtmlCrawler} (reachable : before.Reachable sAttributeMap)
    (document : before.currentNode = .doc) {tag : Registered sAttributeMap}
    (list : List ListedAttribute) :
    FeedsList before tag list ↔ NamesApart tag.attributeName [] list := by
  have member : (tag.element, tag.attributeName) ∈ sAttributeMap :=
    AttributeMap.mem_of_find tag.found
  obtain ⟨same, plain, sameElement, sameAttribute⟩ := sAttributeMap_registered member
  have sameTag : same = tag := by
    cases same
    cases tag
    cases sameElement
    cases sameAttribute
    rfl
  subst sameTag
  exact reachable.feedsList_iff document plain list

/-- `href="x"` after a space -/
def hrefListed : ListedAttribute where
  blanks := bytes " "
  name := bytes "href"
  value := some ⟨'"'.toUInt8, bytes "x", by decide, by decide, by decide, by decide⟩
  blanksNonempty := by decide
  areBlanks := List.all_eq_true.mp (by decide)
  nameNonempty := by decide
  areLetters := List.all_eq_true.mp (by decide)

/-- `foo` after a space -/
def fooListed : ListedAttribute where
  blanks := bytes " "
  name := bytes "foo"
  value := none
  blanksNonempty := by decide
  areBlanks := List.all_eq_true.mp (by decide)
  nameNonempty := by decide
  areLetters := List.all_eq_true.mp (by decide)

def anchorTag : Registered sAttributeMap where
  element := bytes "a"
  attributeName := bytes "href"
  nonempty := by decide
  found := rfl

theorem attribute_list_iff_anchor :
    FeedsList (HtmlCrawler.new (bytes "host")) anchorTag [hrefListed, fooListed] ↔
      NamesApart (bytes "href") [] [hrefListed, fooListed] :=
  attribute_list_iff (HtmlCrawler.new_reachable _ _) rfl _

/-- `<a foo href="x">` makes no call. -/
theorem bare_attribute_hides_link :
    ¬ ∀ (before : HtmlCrawler) (tag : Registered sAttributeMap) (list : List ListedAttribute),
      before.Reachable sAttributeMap → before.currentNode = .doc →
      FeedsList before tag list := by
  intro feeds
  have fed := feeds (HtmlCrawler.new (bytes "host")) anchorTag [fooListed, hrefListed]
    (HtmlCrawler.new_reachable _ _) rfl
  obtain ⟨after, called, triples⟩ := fed.1
  rw [HtmlCrawler.call_eq_foldlM] at called
  cases called
  contradiction

end FastCrawl
