import FastCrawl.Crawler.Downloads
import FastCrawl.Crawler.References

namespace FastCrawl

open Scanning

/-! The crawl does not depend on what the download threads write into the records. -/

variable (attributes : AttributeMap)

/-- The same nodes at the same position, with other downloads. -/
def HtmlCrawler.mapDownloads (f : Downloads → Downloads) (crawler : HtmlCrawler) : HtmlCrawler :=
  { crawler with downloads := f crawler.downloads }

section MapDownloads

variable {f : Downloads → Downloads} (crawler : HtmlCrawler) (ch : UInt8)

theorem docBody_mapDownloads : HtmlDoc.crawlBody ch (crawler.mapDownloads f) =
    (HtmlDoc.crawlBody ch crawler).map (Flow.map (HtmlCrawler.mapDownloads f)) := by
  simp only [HtmlDoc.crawlBody, apply_ite (Except.map _)]
  rfl

theorem skippedBody_mapDownloads : HtmlTag.crawlSkippedBody ch (crawler.mapDownloads f) =
    (HtmlTag.crawlSkippedBody ch crawler).map (Flow.map (HtmlCrawler.mapDownloads f)) := by
  simp only [HtmlTag.crawlSkippedBody, Except.map, apply_ite (Flow.map _),
    apply_ite (Flow.atEndOfScope _)]
  rfl

theorem attrsBody_mapDownloads : HtmlTag.crawlAttrsBody attributes ch (crawler.mapDownloads f) =
    (HtmlTag.crawlAttrsBody attributes ch crawler).map (Flow.map (HtmlCrawler.mapDownloads f)) := by
  simp only [HtmlTag.crawlAttrsBody, Except.map, apply_ite (Flow.map _),
    apply_ite (Flow.atEndOfScope _)]
  rfl

/-- What a map of downloads must not disturb. -/
def CommutesWithUris (f : Downloads → Downloads) : Prop :=
  ∀ downloads call, f (Downloads.processUri downloads call) = (f downloads).processUri call

theorem process_mapDownloads (commutes : CommutesWithUris f) :
    HtmlElementAttribute.process (crawler.mapDownloads f) =
      (HtmlElementAttribute.process crawler).map (HtmlCrawler.mapDownloads f) := by
  have sameSeek : (crawler.mapDownloads f).tag.seekAttr = crawler.tag.seekAttr := rfl
  cases seek : crawler.tag.seekAttr with
  | none => simp only [HtmlElementAttribute.process, sameSeek, seek, Except.map]
  | some entry =>
      simp only [HtmlElementAttribute.process, sameSeek, seek, apply_ite (Except.map _)]
      have submitted : ∀ elementName attributeName uriStr line column,
          (crawler.mapDownloads f).processUri elementName attributeName uriStr line column =
            (crawler.processUri elementName attributeName uriStr line column).mapDownloads f := by
        intro elementName attributeName uriStr line column
        simp only [HtmlCrawler.mapDownloads, HtmlCrawler.processUri, commutes _ _]
      simp only [submitted]
      rfl

theorem attributeBody_mapDownloads (commutes : CommutesWithUris f) :
    HtmlElementAttribute.crawlBody ch (crawler.mapDownloads f) =
      (HtmlElementAttribute.crawlBody ch crawler).map (Flow.map (HtmlCrawler.mapDownloads f)) := by
  have processed := process_mapDownloads (crawler.updatePosition ch) commutes
  have moved : (crawler.mapDownloads f).updatePosition ch =
      (crawler.updatePosition ch).mapDownloads f := rfl
  simp only [HtmlElementAttribute.crawlBody, moved, processed, apply_ite (Except.map _)]
  cases HtmlElementAttribute.process (crawler.updatePosition ch) <;> rfl

theorem HtmlCrawler.step_mapDownloads (commutes : CommutesWithUris f) :
    (crawler.mapDownloads f).step attributes ch =
      (crawler.step attributes ch).map (HtmlCrawler.mapDownloads f) := by
  apply (crawlLoops attributes).step_map
  · intro crawler
    rfl
  · intro loop ch crawler
    cases loop with
    | doc => exact docBody_mapDownloads crawler ch
    | tagSkipped => exact skippedBody_mapDownloads crawler ch
    | tagAttrs => exact attrsBody_mapDownloads attributes crawler ch
    | elementAttr => exact attributeBody_mapDownloads crawler ch commutes

end MapDownloads

variable {attributes} {crawler after : HtmlCrawler} {ch : UInt8}

/-- The downloads as they would be if no thread had written a record. -/
def Downloads.unwritten (downloads : Downloads) : Downloads :=
  { downloads with uriRecords := downloads.uriRecords.map fun entry => (entry.1, {}) }

def HtmlCrawler.unwritten (crawler : HtmlCrawler) : HtmlCrawler :=
  { crawler with downloads := crawler.downloads.unwritten }

theorem unwritten_commutes : CommutesWithUris Downloads.unwritten := by
  intro downloads call
  have sameNode : (downloads.uriRecords.map fun entry => (entry.1, ({} : UriRecord))).findIdx?
      (fun entry => entry.1 == call.uriStr) =
        downloads.uriRecords.findIdx? fun entry => entry.1 == call.uriStr := by
    rw [List.findIdx?_map]
    rfl
  simp only [Downloads.processUri, Downloads.unwritten, UriRecords.emplace, sameNode]
  by_cases localRef : call.uriStr.head? = some '#'.toUInt8
  · simp only [if_pos localRef]
  · simp only [if_neg localRef]
    cases downloads.uriRecords.findIdx? fun entry => entry.1 == call.uriStr with
    | some node => rfl
    | none => simp

/-- The crawl goes on as if no thread had written a record. -/
theorem HtmlCrawler.step_unwritten (stepped : crawler.step attributes ch = .ok after) :
    crawler.unwritten.step attributes ch = .ok after.unwritten := by
  have same := crawler.step_mapDownloads attributes ch unwritten_commutes
  rw [stepped] at same
  exact same

/-- A URI adds nothing, or a record with its defaults and the job for it. -/
theorem Downloads.processUri_cases (downloads : Downloads) (call : ProcessUriCall) :
    ((downloads.processUri call).uriRecords = downloads.uriRecords ∧
        (downloads.processUri call).jobs = downloads.jobs) ∨
      ∃ job : DownloadJob, job.record = downloads.uriRecords.length ∧
        (downloads.processUri call).uriRecords = downloads.uriRecords ++ [(job.uriStr, ({} : UriRecord))] ∧
        (downloads.processUri call).jobs = downloads.jobs ++ [job] := by
  by_cases localRef : call.uriStr.head? = some '#'.toUInt8
  · left
    simp only [processUri, if_pos localRef, and_self]
  · simp only [processUri, if_neg localRef, UriRecords.emplace]
    cases downloads.uriRecords.findIdx? fun entry => entry.1 == call.uriStr with
    | some node => exact .inl ⟨rfl, rfl⟩
    | none => exact .inr ⟨_, rfl, rfl, rfl⟩

end FastCrawl
