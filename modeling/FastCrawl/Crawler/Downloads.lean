import Mathlib.Data.List.Nodup
import Mathlib.Data.List.Pairwise
import FastCrawl.Library.Decimal
import FastCrawl.Crawler.Positions

namespace FastCrawl

/-! The download jobs a crawler submits: one for each URI, each with a record
and an output file of its own. -/

variable {attributes : AttributeMap}

def downloadFilename (line column : UInt64) : Bytes :=
  bytes "./" ++ (Decimal.pad 8 '0'.toUInt8 (Decimal.print line.toNat) ++ '_'.toUInt8 ::
    Decimal.pad 8 '0'.toUInt8 (Decimal.print column.toNat))

def DownloadJob.filename (job : DownloadJob) : Bytes := downloadFilename job.line job.column

theorem downloadFilename_inj {line column line' column' : UInt64}
    (same : downloadFilename line column = downloadFilename line' column') :
    line = line' ∧ column = column' := by
  obtain ⟨sameLine, sameColumn⟩ :=
    Decimal.pad_print_joined_inj (by decide) (List.append_cancel_left same)
  exact ⟨UInt64.toNat_inj.mp sameLine, UInt64.toNat_inj.mp sameColumn⟩

def UriRecords.keys (records : UriRecords) : List Bytes := records.map Prod.fst

theorem UriRecords.keys_append (records : UriRecords) (uri : Bytes) (record : UriRecord) :
    UriRecords.keys (records ++ [(uri, record)]) = records.keys ++ [uri] := by
  simp [keys]

theorem UriRecords.emplace_of_mem {records : UriRecords} {uri : Bytes} (known : uri ∈ records.keys)
    (record : UriRecord) : ∃ node, records.emplace uri record = (records, node, false) := by
  obtain ⟨entry, member, same⟩ := List.mem_map.mp known
  cases found : records.findIdx? (fun entry => entry.1 == uri) with
  | none => exact absurd (List.findIdx?_eq_none_iff.mp found entry member) (by simp [same])
  | some node => exact ⟨node, by simp [emplace, found]⟩

theorem UriRecords.emplace_of_not_mem {records : UriRecords} {uri : Bytes}
    (unknown : uri ∉ records.keys) (record : UriRecord) :
    records.emplace uri record = (records ++ [(uri, record)], records.length, true) := by
  have absent : records.findIdx? (fun entry => entry.1 == uri) = none := by
    rw [List.findIdx?_eq_none_iff]
    intro entry member
    rw [beq_eq_false_iff_ne]
    rintro rfl
    exact unknown (List.mem_map_of_mem member)
  simp [emplace, absent]

def Downloadable (uri : Bytes) : Prop := uri.head? ≠ some '#'.toUInt8

def DownloadJob.FirstCall (job : DownloadJob) (calls : List ProcessUriCall) : Prop :=
  ∃ call, calls.find? (fun call => call.uriStr == job.uriStr) = some call ∧
    job.line = call.line ∧ job.column = call.column

structure Downloads.WellFormed (downloads : Downloads) : Prop where
  keys : downloads.uriRecords.keys = downloads.jobs.map DownloadJob.uriStr
  distinct : downloads.uriRecords.keys.Nodup
  called : ∀ uri, uri ∈ downloads.uriRecords.keys ↔
    Downloadable uri ∧ ∃ call ∈ downloads.calls, call.uriStr = uri
  records : downloads.jobs.map DownloadJob.record = List.range downloads.jobs.length
  first : ∀ job ∈ downloads.jobs, job.FirstCall downloads.calls

theorem DownloadJob.FirstCall.append {job : DownloadJob} {calls : List ProcessUriCall}
    (first : job.FirstCall calls) (call : ProcessUriCall) : job.FirstCall (calls ++ [call]) := by
  obtain ⟨found, isFirst, same⟩ := first
  exact ⟨found, by rw [List.find?_append, isFirst]; rfl, same⟩

theorem Downloads.WellFormed.processUri {downloads : Downloads}
    (wellFormed : downloads.WellFormed) (call : ProcessUriCall) :
    (downloads.processUri call).WellFormed := by
  have moreCalls : ∀ uri, (∃ earlier ∈ downloads.calls ++ [call], earlier.uriStr = uri) ↔
      (∃ earlier ∈ downloads.calls, earlier.uriStr = uri) ∨ call.uriStr = uri := by
    simp [or_and_right, exists_or]
  -- A call that adds no record changes only the list of calls.
  have unchanged (skip : ¬Downloadable call.uriStr ∨ call.uriStr ∈ downloads.uriRecords.keys) :
      Downloads.WellFormed { downloads with calls := downloads.calls ++ [call] } := by
    refine { wellFormed with called := fun uri => ?_, first := ?_ }
    · rw [moreCalls, and_or_left, ← wellFormed.called]
      refine ⟨.inl, Or.rec id ?_⟩
      intro found
      obtain ⟨wanted, rfl⟩ := found
      exact skip.elim (absurd wanted) id
    · exact fun job member => (wellFormed.first job member).append call
  by_cases localRef : call.uriStr.head? = some '#'.toUInt8
  · simp only [Downloads.processUri, localRef, if_true]
    exact unchanged (.inl (not_not_intro localRef))
  by_cases known : call.uriStr ∈ downloads.uriRecords.keys
  · obtain ⟨node, emplaced⟩ := UriRecords.emplace_of_mem known {}
    simp only [Downloads.processUri, localRef, if_false, emplaced]
    exact unchanged (.inr known)
  · simp only [Downloads.processUri, localRef, if_false, UriRecords.emplace_of_not_mem known]
    have sameLength : downloads.uriRecords.length = downloads.jobs.length := by
      simpa [UriRecords.keys] using congrArg List.length wellFormed.keys
    refine ⟨?keys, ?distinct, fun uri => ?called, ?records, fun job member => ?first⟩
    case keys => simp [UriRecords.keys_append, wellFormed.keys]
    case distinct =>
      rw [UriRecords.keys_append, List.nodup_append]
      exact ⟨wellFormed.distinct, List.nodup_singleton _, by
        rintro uri member _ same rfl
        exact known (List.mem_singleton.mp same ▸ member)⟩
    case called =>
      rw [UriRecords.keys_append, List.mem_append, List.mem_singleton, moreCalls, and_or_left,
        wellFormed.called]
      refine or_congr_right ⟨?_, fun new => new.2.symm⟩
      rintro rfl
      exact ⟨localRef, rfl⟩
    case records =>
      simp [wellFormed.records, List.range_succ, sameLength]
    case first =>
      rcases List.mem_append.mp member with old | new
      · exact (wellFormed.first job old).append call
      · obtain rfl := List.mem_singleton.mp new
        have unseen : downloads.calls.find? (fun earlier => earlier.uriStr == call.uriStr) =
            none := by
          rw [List.find?_eq_none]
          intro earlier member same
          exact known ((wellFormed.called _).mpr ⟨localRef, earlier, member, eq_of_beq same⟩)
        exact ⟨call, by simp [unseen], rfl, rfl⟩

theorem Downloads.WellFormed.foldl_apply {downloads : Downloads}
    (wellFormed : downloads.WellFormed) (found : List (Report Location)) :
    (found.foldl Downloads.apply downloads).WellFormed := by
  induction found generalizing downloads with
  | nil => exact wellFormed
  | cons report rest ih => exact ih (wellFormed.processUri report.call)

theorem Downloads.empty_wellFormed : ({} : Downloads).WellFormed :=
  ⟨rfl, .nil, by simp [UriRecords.keys], rfl, by simp⟩

theorem reports_places_distinct {content : Bytes} {first second : Report Location}
    (member : first ∈ reports attributes content) (member' : second ∈ reports attributes content)
    (different : first ≠ second) {place place' : Location} (placed : first.place = some place)
    (placed' : second.place = some place') : place.key ≠ place'.key := by
  have apart : (reports attributes content).Pairwise fun earlier later =>
      ∀ first second, earlier.place = some first → later.place = some second →
        first.key ≠ second.key :=
    (reports_places_increase content).imp fun increase first second placed placed' =>
      (increase first second placed placed').ne
  have symmetric : Std.Symm fun earlier later : Report Location =>
      ∀ first second, earlier.place = some first → later.place = some second →
        first.key ≠ second.key :=
    ⟨fun _ _ apart first second placed placed' => (apart second first placed' placed).symm⟩
  exact apart.forall member member' different place place' placed placed'

/-- In a content of less than 2^64 bytes the numbers of a place do not wrap. -/
theorem reports_place_exact {content : Bytes} (short : content.length < 2 ^ 64)
    {report : Report Location} (member : report ∈ reports attributes content) {place : Location}
    (placed : report.place = some place) :
    report.call.line.toNat = place.line ∧ report.call.column.toNat = place.column ∧
      1 ≤ place.line := by
  rcases reports_place member with ⟨unplaced, _⟩ | ⟨before, quote, isPrefix, isQuote, at_quote⟩
  · rw [placed] at unplaced
    contradiction
  · have noNewline : quote ≠ '\n'.toUInt8 := ne_of_class isQuote (by decide)
    have bounds := locate_append_bounds before noNewline
    have within := isPrefix.length_le
    obtain rfl : place = locate (before ++ [quote]) := Option.some.inj (placed.symm.trans at_quote)
    simp only [Report.call, placed, Option.map_some, Option.getD_some, UInt64.toNat_ofNat']
    exact ⟨Nat.mod_eq_of_lt (by omega), Nat.mod_eq_of_lt (by omega), bounds.1⟩

theorem reports_filenames_differ {content : Bytes} (short : content.length < 2 ^ 64)
    {first second : Report Location} (member : first ∈ reports attributes content)
    (member' : second ∈ reports attributes content) (different : first.value ≠ second.value) :
    downloadFilename first.call.line first.call.column ≠
      downloadFilename second.call.line second.call.column := by
  intro sameName
  obtain ⟨sameLine, sameColumn⟩ := downloadFilename_inj sameName
  cases placed : first.place with
  | none =>
      have zero : first.call.line = 0 := by simp [Report.call, placed]
      cases placed' : second.place with
      | none =>
          have empty := (reports_place member).resolve_right (by simp [placed])
          have empty' := (reports_place member').resolve_right (by simp [placed'])
          exact different (empty.2.trans empty'.2.symm)
      | some place =>
          have exactly := reports_place_exact short member' placed'
          rw [← sameLine, zero] at exactly
          exact absurd exactly.1 (by simp; omega)
  | some place =>
      have exactly := reports_place_exact short member placed
      cases placed' : second.place with
      | none =>
          have zero : second.call.line = 0 := by simp [Report.call, placed']
          rw [sameLine, zero] at exactly
          exact absurd exactly.1 (by simp; omega)
      | some place' =>
          have exactly' := reports_place_exact short member' placed'
          refine reports_places_distinct member member' (fun same => different (same ▸ rfl))
            placed placed' ?_
          rw [Location.key, Location.key, ← exactly.1, ← exactly.2.1, ← exactly'.1, ← exactly'.2.1,
            sameLine, sameColumn]

theorem DownloadJob.FirstCall.report {job : DownloadJob} {content : Bytes}
    (first : job.FirstCall ((reports attributes content).map Report.call)) :
    ∃ report ∈ reports attributes content, report.value = job.uriStr ∧
      job.filename = downloadFilename report.call.line report.call.column := by
  obtain ⟨call, found, sameLine, sameColumn⟩ := first
  obtain ⟨report, member, rfl⟩ := List.mem_map.mp (List.mem_of_find?_eq_some found)
  have sameUri : report.call.uriStr = job.uriStr := by simpa using List.find?_some found
  exact ⟨report, member, sameUri, by rw [filename, sameLine, sameColumn]⟩

/-- Every URI reported that is no local fragment reference is a key of the records
and is downloaded by one job, submitted at its first report.  No two jobs have
the same URI, the same record or the same output file. -/
structure HtmlCrawler.DownloadsDistinct (crawler : HtmlCrawler) : Prop where
  called : ∀ uri, uri ∈ crawler.downloads.uriRecords.keys ↔
    Downloadable uri ∧ ∃ call ∈ crawler.downloads.calls, call.uriStr = uri
  jobs : crawler.downloads.jobs.map DownloadJob.uriStr = crawler.downloads.uriRecords.keys
  first : ∀ job ∈ crawler.downloads.jobs, job.FirstCall crawler.downloads.calls
  record : ∀ job ∈ crawler.downloads.jobs,
    (crawler.downloads.uriRecords[job.record]?).map Prod.fst = some job.uriStr
  apart : crawler.downloads.jobs.Pairwise fun first second =>
    first.uriStr ≠ second.uriStr ∧ first.record ≠ second.record ∧
      first.filename ≠ second.filename

theorem downloads_distinct (attributes : AttributeMap) (host : Bytes) (chunks : List Bytes)
    (short : chunks.flatten.length < 2 ^ 64) :
    ∃ crawler, (HtmlCrawler.new host).callAll attributes chunks = .ok crawler ∧
      crawler.DownloadsDistinct := by
  obtain ⟨crawler, called, _, downloads⟩ :=
    HtmlCrawler.callAll_tracks attributes host chunks
  have wellFormed : crawler.downloads.WellFormed :=
    downloads ▸ Downloads.empty_wellFormed.foldl_apply _
  have calls : crawler.downloads.calls =
      (reports attributes chunks.flatten).map Report.call := by
    rw [downloads, Downloads.foldl_apply_calls, List.nil_append]
  refine ⟨crawler, called, wellFormed.called, wellFormed.keys.symm, wellFormed.first,
    ?record, ?apart⟩
  case record =>
    intro job member
    obtain ⟨place, found⟩ := List.mem_iff_getElem?.mp member
    have key : crawler.downloads.uriRecords.keys[place]? = some job.uriStr := by
      rw [wellFormed.keys, List.getElem?_map, found]
      rfl
    have record : (List.range crawler.downloads.jobs.length)[place]? = some job.record := by
      rw [← wellFormed.records, List.getElem?_map, found]
      rfl
    obtain ⟨_, samePlace⟩ := List.getElem?_eq_some_iff.mp record
    rw [List.getElem_range] at samePlace
    rwa [← samePlace, ← List.getElem?_map]
  case apart =>
    have distinctUris := wellFormed.keys ▸ wellFormed.distinct
    have distinctRecords : (crawler.downloads.jobs.map DownloadJob.record).Nodup :=
      wellFormed.records ▸ List.nodup_range
    refine ((List.pairwise_map.mp distinctUris).and
      (List.pairwise_map.mp distinctRecords)).imp_of_mem fun member member' different =>
        ⟨different.1, different.2, ?_⟩
    obtain ⟨report, reported, sameUri, sameName⟩ := (calls ▸ wellFormed.first _ member).report
    obtain ⟨report', reported', sameUri', sameName'⟩ := (calls ▸ wellFormed.first _ member').report
    rw [sameName, sameName']
    exact reports_filenames_differ short reported reported'
      (by rw [sameUri, sameUri']; exact different.1)

theorem downloads_distinct_two_images :
    ∃ crawler, (HtmlCrawler.new (bytes "h")).callAll sAttributeMap
        [bytes "<img src='x.p", bytes "ng'><img src=\"x.png\"><img src='y'>"] = .ok crawler ∧
      crawler.downloads.calls.map ProcessUriCall.uriStr =
        [bytes "x.png", bytes "x.png", bytes "y"] ∧
      crawler.downloads.jobs.map DownloadJob.uriStr = [bytes "x.png", bytes "y"] ∧
      crawler.DownloadsDistinct := by
  obtain ⟨crawler, called, distinct⟩ := downloads_distinct sAttributeMap (bytes "h")
    [bytes "<img src='x.p", bytes "ng'><img src=\"x.png\"><img src='y'>"] (by decide)
  have made : ((HtmlCrawler.new (bytes "h")).callAll sAttributeMap
      [bytes "<img src='x.p", bytes "ng'><img src=\"x.png\"><img src='y'>"]).toOption.map
        (fun crawler => (crawler.downloads.calls.map ProcessUriCall.uriStr,
          crawler.downloads.jobs.map DownloadJob.uriStr)) =
            some ([bytes "x.png", bytes "x.png", bytes "y"], [bytes "x.png", bytes "y"]) := by
    rw [HtmlCrawler.callAll_eq_foldlM]
    decide +kernel
  rw [called] at made
  obtain ⟨calls, jobs⟩ := Prod.mk.inj (Option.some.inj made)
  exact ⟨crawler, called, calls, jobs, distinct⟩

end FastCrawl
