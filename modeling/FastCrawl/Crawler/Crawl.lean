import FastCrawl.Library.Scanner
import FastCrawl.Crawler.State

namespace FastCrawl

open Scanning

/-! The four loops of the crawler, one body each, and the functions that run
them.  `attributes` stands for `s_attribute_map`. -/

variable (attributes : AttributeMap)

def tokenChar (ch : UInt8) : Bool :=
  if 'a'.toUInt8 ≤ ch ∧ ch ≤ 'z'.toUInt8 then true
  else if 'A'.toUInt8 ≤ ch ∧ ch ≤ 'Z'.toUInt8 then true
  else if '0'.toUInt8 ≤ ch ∧ ch ≤ '9'.toUInt8 then true
  else if '-'.toUInt8 = ch ∨ ':'.toUInt8 = ch then true
  else false

def whitespace (ch : UInt8) : Bool :=
  ch = ' '.toUInt8 || ch = '\r'.toUInt8 || ch = '\n'.toUInt8 || ch = '\t'.toUInt8

def quoteMark (ch : UInt8) : Bool := ch = '\''.toUInt8 || ch = '"'.toUInt8

abbrev LoopBody := UInt8 → HtmlCrawler → Except AssertionFailure (Flow HtmlCrawler)

/-- A loop of the source: the chunk, the crawler and the offset it works on. -/
abbrev CrawlFunction := Bytes → HtmlCrawler → Nat → Except AssertionFailure (HtmlCrawler × Nat)

/-- `run_at_eos([ch, this]() { last_ch = ch; })` -/
def HtmlTag.setLastCh (ch : UInt8) (crawler : HtmlCrawler) : HtmlCrawler :=
  { crawler with tag.lastCh := ch }

def HtmlDoc.crawlBody : LoopBody := fun ch crawler =>
  let crawler := crawler.updatePosition ch
  if ch = '<'.toUInt8 then .ok (.leave (HtmlDoc.descend crawler))
  else .ok (.next crawler)

def HtmlTag.crawlSkippedBody : LoopBody := fun ch crawler =>
  let crawler := crawler.updatePosition ch
  .ok <| Flow.atEndOfScope (HtmlTag.setLastCh ch) <|
    -- End of tag
    if ch = '>'.toUInt8 then
      if !crawler.tag.comment || crawler.tag.commentEnd then .leave (HtmlTag.ascend crawler)
      else .next crawler
    else if ch = '-'.toUInt8 then
      if crawler.tag.commentBegin then
        if '-'.toUInt8 = crawler.tag.lastCh then .next { crawler with tag.comment := true }
        else .next crawler
      else if crawler.tag.comment then
        if '-'.toUInt8 = crawler.tag.lastCh then .next { crawler with tag.commentEnd := true }
        else .next crawler
      else .next crawler
    else .next { crawler with tag.commentBegin := false }

def HtmlTag.crawlAttrsBody : LoopBody := fun ch crawler =>
  let crawler := crawler.updatePosition ch
  .ok <| Flow.atEndOfScope (HtmlTag.setLastCh ch) <|
    -- Element ends
    if ch = '>'.toUInt8 then .leave (HtmlTag.ascend crawler)
    -- Comment or metadata (or syntax error)
    else if ch = '!'.toUInt8 then
      .leave { crawler with
        tag.commentBegin := crawler.tag.name.isEmpty
        tag.skipped := true }
    else if ch = '?'.toUInt8 then .leave { crawler with tag.skipped := true }
    -- Closed
    else if ch = '/'.toUInt8 then .next { crawler with tag.close := true }
    else if whitespace ch then
      if !crawler.tag.name.isEmpty then
        let crawler := { crawler with
          tag.nameDone := true
          tag.seekAttr := attributes.find crawler.tag.name }
        -- Got element name, check if it's interesting
        if crawler.tag.seekAttr = none then .leave { crawler with tag.skipped := true }
        else .next crawler
      else .next crawler
    -- Dash might be part of the name
    else if ch = '-'.toUInt8 then
      if !crawler.tag.nameDone && !crawler.tag.name.isEmpty then
        .next { crawler with tag.name := crawler.tag.name ++ [toLower ch] }
      else .leave { crawler with tag.skipped := true }
    -- Name or attribute definition
    else if tokenChar ch then
      if !crawler.tag.nameDone then
        .next { crawler with tag.name := crawler.tag.name ++ [toLower ch] }
      else .leave (HtmlTag.descend ch crawler)
    else .leave { crawler with tag.skipped := true }

def HtmlElementAttribute.crawlBody : LoopBody := fun ch crawler =>
  let crawler := crawler.updatePosition ch
  if ch = '/'.toUInt8 then
    if crawler.elementAttr.quote = 0 then
      .ok (.leave (HtmlElementAttribute.ascend { crawler with tag.close := true }))
    else .ok (.next { crawler with elementAttr.value := crawler.elementAttr.value ++ [ch] })
  -- Element ends
  else if ch = '>'.toUInt8 then
    (HtmlElementAttribute.process crawler).map fun crawler =>
      .leave (HtmlTag.ascend (HtmlElementAttribute.ascend crawler))
  -- Value assignment
  else if ch = '='.toUInt8 then .ok (.next { crawler with elementAttr.hasValue := true })
  -- Value begin/end
  else if quoteMark ch then
    if crawler.elementAttr.quote = 0 then
      .ok (.next { crawler with
        elementAttr.quote := ch
        elementAttr.line := crawler.position.line
        elementAttr.column := crawler.position.column })
    else if crawler.elementAttr.quote = ch then
      (HtmlElementAttribute.process crawler).map fun crawler =>
        .leave (HtmlElementAttribute.ascend crawler)
    else .ok (.next { crawler with elementAttr.value := crawler.elementAttr.value ++ [ch] })
  else if whitespace ch then
    if crawler.elementAttr.quote ≠ 0 then
      .ok (.next { crawler with elementAttr.value := crawler.elementAttr.value ++ [ch] })
    else .ok (.next crawler)
  -- Accumulate name or value
  else if crawler.elementAttr.quote ≠ 0 then
    .ok (.next { crawler with elementAttr.value := crawler.elementAttr.value ++ [ch] })
  else
    .ok (.next { crawler with elementAttr.name := crawler.elementAttr.name ++ [toLower ch] })

def HtmlDoc.crawl : CrawlFunction := scan HtmlDoc.crawlBody

def HtmlTag.crawlSkipped : CrawlFunction := scan HtmlTag.crawlSkippedBody

def HtmlTag.crawlAttrs : CrawlFunction := scan (HtmlTag.crawlAttrsBody attributes)

def HtmlTag.crawl : CrawlFunction := fun data crawler offset =>
  if crawler.tag.skipped then HtmlTag.crawlSkipped data crawler offset
  else HtmlTag.crawlAttrs attributes data crawler offset

def HtmlElementAttribute.crawl : CrawlFunction := scan HtmlElementAttribute.crawlBody

def HtmlNode.crawl : CrawlFunction := fun data crawler offset =>
  match crawler.currentNode with
  | .doc => HtmlDoc.crawl data crawler offset
  | .tag => HtmlTag.crawl attributes data crawler offset
  | .elementAttr => HtmlElementAttribute.crawl data crawler offset

theorem HtmlNode.crawl_progress {data : Bytes} {crawler after : HtmlCrawler}
    {offset reached : Nat} (inside : offset < data.length)
    (crawled : HtmlNode.crawl attributes data crawler offset = .ok (after, reached)) :
    offset < reached := by
  unfold HtmlNode.crawl at crawled
  split at crawled
  · exact scan_progress inside crawled
  · unfold HtmlTag.crawl at crawled
    split at crawled <;> exact scan_progress inside crawled
  · exact scan_progress inside crawled

/-- `html_crawler::operator()`: process one data chunk. -/
def HtmlCrawler.call (crawler : HtmlCrawler) (data : Bytes) :
    Except AssertionFailure HtmlCrawler :=
  drive (HtmlNode.crawl attributes) (HtmlNode.crawl_progress attributes) data crawler 0

def HtmlCrawler.callAll (crawler : HtmlCrawler) (chunks : List Bytes) :
    Except AssertionFailure HtmlCrawler :=
  chunks.foldlM (HtmlCrawler.call attributes) crawler

end FastCrawl
