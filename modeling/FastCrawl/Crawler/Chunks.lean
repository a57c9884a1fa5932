import FastCrawl.Crawler.Crawl

namespace FastCrawl

open Scanning

variable (attributes : AttributeMap)

inductive CrawlLoop where
  | doc
  | tagSkipped
  | tagAttrs
  | elementAttr
deriving DecidableEq

/-- The loop that runs next: the virtual call of `crawl` and the dispatch in
`html_tag::crawl`. -/
def HtmlCrawler.currentLoop (crawler : HtmlCrawler) : CrawlLoop :=
  match crawler.currentNode with
  | .doc => .doc
  | .tag => if crawler.tag.skipped then .tagSkipped else .tagAttrs
  | .elementAttr => .elementAttr

def CrawlLoop.body : CrawlLoop → LoopBody
  | .doc => HtmlDoc.crawlBody
  | .tagSkipped => HtmlTag.crawlSkippedBody
  | .tagAttrs => HtmlTag.crawlAttrsBody attributes
  | .elementAttr => HtmlElementAttribute.crawlBody

def SameLoop (before after : HtmlCrawler) : Prop :=
  after.currentNode = before.currentNode ∧ after.tag.skipped = before.tag.skipped

theorem SameLoop.currentLoop_eq {before after : HtmlCrawler} (same : SameLoop before after) :
    after.currentLoop = before.currentLoop := by
  unfold HtmlCrawler.currentLoop
  rw [same.1, same.2]

theorem docBody_next {ch : UInt8} {before after : HtmlCrawler}
    (continued : HtmlDoc.crawlBody ch before = .ok (.next after)) : SameLoop before after := by
  simp only [HtmlDoc.crawlBody] at continued
  split at continued <;> cases continued
  exact ⟨rfl, rfl⟩

theorem skippedBody_next {ch : UInt8} {before after : HtmlCrawler}
    (continued : HtmlTag.crawlSkippedBody ch before = .ok (.next after)) :
    SameLoop before after := by
  simp only [HtmlTag.crawlSkippedBody] at continued
  repeat' split at continued
  all_goals cases continued
  all_goals exact ⟨rfl, rfl⟩

theorem attrsBody_next {ch : UInt8} {before after : HtmlCrawler}
    (continued : HtmlTag.crawlAttrsBody attributes ch before = .ok (.next after)) :
    SameLoop before after := by
  simp only [HtmlTag.crawlAttrsBody] at continued
  repeat' split at continued
  all_goals cases continued
  all_goals exact ⟨rfl, rfl⟩

theorem attributeBody_next {ch : UInt8} {before after : HtmlCrawler}
    (continued : HtmlElementAttribute.crawlBody ch before = .ok (.next after)) :
    SameLoop before after := by
  simp only [HtmlElementAttribute.crawlBody, Except.map] at continued
  repeat' split at continued
  all_goals cases continued
  all_goals exact ⟨rfl, rfl⟩

def crawlLoops : Loops CrawlLoop HtmlCrawler UInt8 AssertionFailure where
  select := HtmlCrawler.currentLoop
  body := CrawlLoop.body attributes
  stays := by
    intro before after ch continued
    apply SameLoop.currentLoop_eq
    cases selected : before.currentLoop with
    | doc => rw [selected] at continued; exact docBody_next continued
    | tagSkipped => rw [selected] at continued; exact skippedBody_next continued
    | tagAttrs => rw [selected] at continued; exact attrsBody_next attributes continued
    | elementAttr => rw [selected] at continued; exact attributeBody_next continued

/-- One byte of content: the body of the current loop. -/
def HtmlCrawler.step (crawler : HtmlCrawler) (ch : UInt8) :
    Except AssertionFailure HtmlCrawler :=
  (crawlLoops attributes).step crawler ch

theorem HtmlNode.crawl_eq (data : Bytes) (crawler : HtmlCrawler) (offset : Nat) :
    HtmlNode.crawl attributes data crawler offset =
      (crawlLoops attributes).crawl data crawler offset := by
  simp only [HtmlNode.crawl, HtmlTag.crawl, HtmlDoc.crawl, HtmlTag.crawlSkipped,
    HtmlTag.crawlAttrs, HtmlElementAttribute.crawl, Loops.crawl, crawlLoops,
    HtmlCrawler.currentLoop]
  cases crawler.currentNode with
  | doc => rfl
  | tag => cases crawler.tag.skipped <;> rfl
  | elementAttr => rfl

theorem HtmlCrawler.call_eq_drive :
    HtmlCrawler.call attributes = fun crawler data =>
      drive (crawlLoops attributes).crawl (crawlLoops attributes).crawl_progress data crawler 0 := by
  have sameCrawl : HtmlNode.crawl attributes = (crawlLoops attributes).crawl := by
    funext data crawler offset
    exact HtmlNode.crawl_eq attributes data crawler offset
  funext crawler data
  simp only [HtmlCrawler.call, sameCrawl]

theorem HtmlCrawler.call_eq_foldlM (crawler : HtmlCrawler) (data : Bytes) :
    crawler.call attributes data = data.foldlM (HtmlCrawler.step attributes) crawler := by
  rw [HtmlCrawler.call_eq_drive]
  exact (crawlLoops attributes).drive_eq_foldlM data crawler 0

/-- Where the content is cut into chunks cannot be observed. -/
theorem HtmlCrawler.callAll_eq_foldlM (crawler : HtmlCrawler) (chunks : List Bytes) :
    crawler.callAll attributes chunks =
      chunks.flatten.foldlM (HtmlCrawler.step attributes) crawler := by
  rw [HtmlCrawler.callAll, HtmlCrawler.call_eq_drive]
  exact (crawlLoops attributes).foldlM_drive_eq_foldlM chunks crawler

end FastCrawl
