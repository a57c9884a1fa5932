import FastCrawl.Crawler.Refinement

namespace FastCrawl

open Automata

variable {attributes : AttributeMap}

theorem Segment.report_registered {π : Type} {segment : Segment attributes π} {ch : UInt8}
    {report : Report π} (reported : segment.report ch = some report) :
    attributes.find report.elementName = some (report.elementName, report.attributeName) := by
  have finished : ∀ {tag : Registered attributes} {name : Bytes} {opened : Option (Opened π)},
      finish tag name opened = some report →
        attributes.find report.elementName = some (report.elementName, report.attributeName) := by
    intro tag name opened finished
    unfold finish at finished
    split at finished
    · rename_i wanted
      cases finished
      rw [tag.found, wanted]
    · contradiction
  cases segment with
  | attr tag name opened =>
      simp only [Segment.report] at reported
      split_ifs at reported
      · exact finished reported
      · exact finished reported
  | _ => contradiction

theorem reports_registered (content : Bytes) :
    ∀ report ∈ reports attributes content,
      attributes.find report.elementName = some (report.elementName, report.attributeName) :=
  Mealy.outputs_invariant (fun _ => True) (fun _ _ _ => trivial)
    (fun _ _ _ _ emitted => Segment.report_registered emitted) trivial content

theorem Downloads.processUri_calls (downloads : Downloads) (call : ProcessUriCall) :
    (downloads.processUri call).calls = downloads.calls ++ [call] := by
  simp only [Downloads.processUri]
  split
  · rfl
  · split <;> rfl

theorem Downloads.foldl_apply_calls (downloads : Downloads) (found : List (Report Location)) :
    (found.foldl Downloads.apply downloads).calls = downloads.calls ++ found.map Report.call := by
  induction found generalizing downloads with
  | nil => simp
  | cons report rest ih =>
      rw [List.foldl_cons, ih, Downloads.apply, Downloads.processUri_calls, List.append_assoc]
      rfl

/-- What every byte of every chunk keeps of the three nodes and of the calls. -/
structure AutomatonInvariant (attributes : AttributeMap) (crawler : HtmlCrawler) : Prop where
  inAttribute : crawler.currentNode = .elementAttr →
    crawler.tag.nameDone = true ∧ crawler.tag.skipped = false ∧
      ∃ entry ∈ attributes, entry.1 = crawler.tag.name ∧
        crawler.tag.seekAttr = some entry ∧ attributes.find crawler.tag.name = some entry
  outsideAttribute : crawler.currentNode ≠ .elementAttr →
    crawler.elementAttr.name = [] ∧ crawler.elementAttr.value = [] ∧
      crawler.elementAttr.quote = 0 ∧ crawler.elementAttr.hasValue = false ∧
      crawler.elementAttr.line = 0 ∧ crawler.elementAttr.column = 0
  inDocument : crawler.currentNode = .doc →
    crawler.tag.close = false ∧ crawler.tag.skipped = false ∧ crawler.tag.nameDone = false ∧
      crawler.tag.comment = false ∧ crawler.tag.commentBegin = false ∧
      crawler.tag.commentEnd = false ∧ crawler.tag.name = [] ∧ crawler.tag.seekAttr = none
  calls : ∀ call ∈ crawler.downloads.calls, (call.elementName, call.attributeName) ∈ attributes

theorem AttributeMap.mem_of_find {name : Bytes} {entry : Bytes × Bytes}
    (found : attributes.find name = some entry) : entry ∈ attributes :=
  List.mem_of_find?_eq_some found

theorem HtmlCrawler.Shows.automatonInvariant {crawler : HtmlCrawler}
    {segment : Segment attributes Location} (shows : crawler.Shows segment)
    (calls : ∀ call ∈ crawler.downloads.calls,
      (call.elementName, call.attributeName) ∈ attributes) :
    AutomatonInvariant attributes crawler := by
  cases segment with
  | doc =>
      obtain ⟨node, attr, lastCh, tag⟩ := shows
      exact ⟨by simp [node], by simp [attr], by simp [tag], calls⟩
  | elementName name =>
      obtain ⟨node, attr, close, lastCh, tag⟩ := shows
      exact ⟨by simp [node], by simp [attr], by simp [node], calls⟩
  | tagBody registered =>
      obtain ⟨node, attr, close, lastCh, tag⟩ := shows
      exact ⟨by simp [node], by simp [attr], by simp [node], calls⟩
  | attr registered name opened =>
      obtain ⟨node, _, close, lastCh, tag⟩ := shows
      refine ⟨fun _ => ?_, by simp [node], by simp [node], calls⟩
      rw [tag]
      exact ⟨rfl, rfl, _, AttributeMap.mem_of_find registered.found, rfl, rfl, registered.found⟩
  | skipped skipping =>
      obtain ⟨node, attr, _⟩ := shows
      exact ⟨by simp [node], by simp [attr], by simp [node], calls⟩

/-- In every state reached by any sequence of chunks the automaton invariant
holds; in particular no assertion of `process` has failed on the way. -/
theorem automaton_invariant (attributes : AttributeMap) (host : Bytes) (chunks : List Bytes) :
    ∃ crawler, (HtmlCrawler.new host).callAll attributes chunks = .ok crawler ∧
      AutomatonInvariant attributes crawler := by
  obtain ⟨crawler, called, ⟨shows, _⟩, downloads⟩ :=
    HtmlCrawler.callAll_tracks attributes host chunks
  refine ⟨crawler, called, shows.automatonInvariant ?_⟩
  intro call member
  rw [downloads, Downloads.foldl_apply_calls] at member
  obtain ⟨report, reported, rfl⟩ := List.mem_map.mp (by simpa using member)
  exact AttributeMap.mem_of_find (reports_registered chunks.flatten report reported)

theorem segmenter_run_location (content : Bytes) (cursor : Cursor attributes) :
    ((segmenter attributes).run cursor content).location =
      content.foldl Location.advance cursor.location := by
  induction content generalizing cursor with
  | nil => rfl
  | cons ch rest ih => exact ih _

theorem Location.foldl_advance_offset (content : Bytes) (location : Location) :
    (content.foldl Location.advance location).offset = location.offset + content.length := by
  induction content generalizing location with
  | nil => rfl
  | cons ch rest ih =>
      rw [List.foldl_cons, ih, List.length_cons]
      unfold Location.advance
      split <;> simp only [] <;> omega

/-- Feeding a document in chunks ends, reads every byte once and in order, and
leaves the crawler that feeding it at once leaves, calls of `process_uri`
included: the nested loops are a left fold of one step for each byte. -/
theorem chunk_independence (attributes : AttributeMap) (host : Bytes) (chunks : List Bytes) :
    ∃ crawler, (HtmlCrawler.new host).callAll attributes chunks = .ok crawler ∧
      (HtmlCrawler.new host).call attributes chunks.flatten = .ok crawler ∧
      chunks.flatten.foldlM (HtmlCrawler.step attributes) (HtmlCrawler.new host) = .ok crawler ∧
      crawler.position.readCnt.toNat = chunks.flatten.length % 2 ^ 64 := by
  obtain ⟨crawler, called, ⟨_, readCnt, _⟩, _⟩ :=
    HtmlCrawler.callAll_tracks attributes host chunks
  have folded := called
  rw [HtmlCrawler.callAll_eq_foldlM] at folded
  refine ⟨crawler, called, by rw [HtmlCrawler.call_eq_foldlM, folded], folded, ?_⟩
  rw [readCnt, segmenter_run_location, Location.foldl_advance_offset, UInt64.toNat_ofNat']
  simp [Cursor.start, Location.start]

end FastCrawl
