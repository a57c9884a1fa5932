import FastCrawl.Bytes

namespace FastCrawl

structure UriRecord where
  filename : Bytes := []
  adler32 : UInt32 := 0
  size : UInt64 := 0
  success : Bool := false
deriving Repr, DecidableEq

/-- Map of URI to content download record.  The nodes of an `unordered_map`
stay where they are, so a node is named by its place in the insertion order. -/
abbrev UriRecords := List (Bytes × UriRecord)

def UriRecords.emplace (records : UriRecords) (uri : Bytes) (record : UriRecord) :
    UriRecords × Nat × Bool :=
  match records.findIdx? (fun entry => entry.1 == uri) with
  | some node => (records, node, false)
  | none => (records ++ [(uri, record)], records.length, true)

abbrev AttributeMap := List (Bytes × Bytes)

/-- An iterator into the map is an entry of it, or `none` for `end()`. -/
def AttributeMap.find (attributes : AttributeMap) (name : Bytes) : Option (Bytes × Bytes) :=
  List.find? (fun entry => entry.1 == name) attributes

def AttributeMap.emplace (attributes : AttributeMap) (elementName attributeName : Bytes) :
    AttributeMap :=
  match attributes.find elementName with
  | some _ => attributes
  | none => attributes ++ [(elementName, attributeName)]

def sAttributeMap : AttributeMap :=
  let attributes := AttributeMap.emplace [] (bytes "a") (bytes "href")
  let attributes := attributes.emplace (bytes "img") (bytes "src")
  let attributes := attributes.emplace (bytes "script") (bytes "src")
  attributes.emplace (bytes "iframe") (bytes "src")

theorem AttributeMap.find_element {attributes : AttributeMap} {name : Bytes}
    {entry : Bytes × Bytes} (found : attributes.find name = some entry) : entry.1 = name := by
  simpa using List.find?_some found

inductive HtmlNode where
  | doc
  | tag
  | elementAttr
deriving Repr, DecidableEq

structure HtmlTag where
  close : Bool := false
  skipped : Bool := false
  nameDone : Bool := false
  comment : Bool := false
  commentBegin : Bool := false
  commentEnd : Bool := false
  lastCh : UInt8 := 0
  name : Bytes := []
  seekAttr : Option (Bytes × Bytes) := none
deriving Repr, DecidableEq

structure HtmlElementAttribute where
  hasValue : Bool := false
  name : Bytes := []
  quote : UInt8 := 0
  line : UInt64 := 0
  column : UInt64 := 0
  value : Bytes := []
deriving Repr, DecidableEq

structure ContentPosition where
  readCnt : UInt64 := 0
  line : UInt64 := 1
  column : UInt64 := 0
deriving Repr, DecidableEq

structure ProcessUriCall where
  elementName : Bytes
  attributeName : Bytes
  uriStr : Bytes
  line : UInt64
  column : UInt64
deriving Repr, DecidableEq

/-- What `process_uri` binds for the thread pool: the arguments of `download`,
with the target record named by its node in `m_uri_records`. -/
structure DownloadJob where
  uriStr : Bytes
  line : UInt64
  column : UInt64
  record : Nat
deriving Repr, DecidableEq

/-- `m_uri_records`, the jobs handed to `m_download_tp.run` (oldest first), and
the calls of `process_uri` so far, which the program itself does not keep. -/
structure Downloads where
  uriRecords : UriRecords := []
  jobs : List DownloadJob := []
  calls : List ProcessUriCall := []
deriving Repr, DecidableEq

structure HtmlCrawler where
  host : Bytes
  position : ContentPosition := {}
  tag : HtmlTag := {}
  elementAttr : HtmlElementAttribute := {}
  currentNode : HtmlNode := .doc
  downloads : Downloads := {}
deriving Repr, DecidableEq

def HtmlCrawler.new (host : Bytes) : HtmlCrawler := { host }

def Downloads.processUri (downloads : Downloads) (call : ProcessUriCall) : Downloads :=
  let downloads := { downloads with calls := downloads.calls ++ [call] }
  if call.uriStr.head? = some '#'.toUInt8 then downloads
  else
    match downloads.uriRecords.emplace call.uriStr {} with
    | (_, _, false) => downloads
    | (records, node, true) =>
        { downloads with
          uriRecords := records
          jobs := downloads.jobs ++ [{
            uriStr := call.uriStr, line := call.line, column := call.column, record := node }] }

def ContentPosition.update (position : ContentPosition) (ch : UInt8) : ContentPosition :=
  if ch = '\n'.toUInt8 then
    { readCnt := position.readCnt + 1, line := position.line + 1, column := 0 }
  else
    { position with readCnt := position.readCnt + 1, column := position.column + 1 }

namespace HtmlCrawler

def updatePosition (crawler : HtmlCrawler) (ch : UInt8) : HtmlCrawler :=
  { crawler with position := crawler.position.update ch }

def processUri (crawler : HtmlCrawler) (elementName attributeName uriStr : Bytes)
    (line column : UInt64) : HtmlCrawler :=
  { crawler with
    downloads := crawler.downloads.processUri
      { elementName, attributeName, uriStr, line, column } }

end HtmlCrawler

def HtmlDoc.descend (crawler : HtmlCrawler) : HtmlCrawler :=
  { crawler with currentNode := .tag }

def HtmlTag.ascend (crawler : HtmlCrawler) : HtmlCrawler :=
  { crawler with
    tag := {
      close := false, skipped := false, nameDone := false, comment := false,
      commentBegin := false, commentEnd := false, lastCh := 0, seekAttr := none, name := [] }
    currentNode := .doc }

def HtmlTag.descend (ch : UInt8) (crawler : HtmlCrawler) : HtmlCrawler :=
  { crawler with
    elementAttr.name := crawler.elementAttr.name ++ [ch]
    currentNode := .elementAttr }

def HtmlElementAttribute.ascend (crawler : HtmlCrawler) : HtmlCrawler :=
  { crawler with
    elementAttr := {
      hasValue := false, quote := 0, line := 0, column := 0, name := [], value := [] }
    currentNode := .tag }

def HtmlElementAttribute.process (crawler : HtmlCrawler) :
    Except AssertionFailure HtmlCrawler :=
  match crawler.tag.seekAttr with
  | none => .error .seekAttrIsEnd
  | some entry =>
      if crawler.elementAttr.name = entry.2 then
        .ok (crawler.processUri crawler.tag.name crawler.elementAttr.name
          crawler.elementAttr.value crawler.elementAttr.line crawler.elementAttr.column)
      else .ok crawler

end FastCrawl
