import FastCrawl.Crawler.Report
import FastCrawl.Program.Waiting

namespace FastCrawl

/-! The report of the program: what it says of the index page and of the downloads. -/

variable {environment : Environment} {host : Bytes} {tlimit : UInt64}
  {files : Bytes → Option Bytes}

theorem download_filename {zlib : ZlibAdler32} {perform : Download → Transfer}
    {crawler : HtmlCrawler} {uriStr : Bytes} {line column : UInt64}
    {initialisation : Initialisation zlib} {record after : UriRecord}
    (downloaded : crawler.download zlib perform uriStr line column initialisation record =
      .ok after) : after.filename = downloadFilename line column := by
  simp only [HtmlCrawler.download] at downloaded
  cases parsed : downloadUri crawler.host uriStr with
  | error failure =>
      rw [parsed] at downloaded
      contradiction
  | ok uri =>
      simp only [parsed] at downloaded
      cases ran : Download.run perform
          { mUri := uri, mFilename := downloadFilename line column } initialisation.dproc with
      | error reason =>
          rw [ran] at downloaded
          contradiction
      | ok result =>
          rw [ran] at downloaded
          cases downloaded
          exact Lifetimes.Scope.write_frame Temporary.destroy_filename initialisation.scope _

theorem space_not_mem_downloadFilename (line column : UInt64) :
    ' '.toUInt8 ∉ downloadFilename line column := by
  have number : ∀ number : Nat,
      ' '.toUInt8 ∉ Decimal.pad 8 '0'.toUInt8 (Decimal.print number) := by
    intro number member
    have isDigit := Decimal.isDigit_of_mem_pad_print member
    contradiction
  rw [downloadFilename, List.mem_append, List.mem_append, List.mem_cons]
  intro member
  rcases member with dot | first | mark | second
  · contradiction
  · exact number _ first
  · contradiction
  · exact number _ second

namespace Session

variable {session : Session}

/-- What the lines of a report say, the map being iterated in the order `order`. -/
structure ReportsEach (environment : Environment) (session : Session) (order : UriRecords) :
    Prop where
  distinct : (order.map Prod.fst).Nodup
  found : ∀ uri, uri ∈ order.map Prod.fst ↔
    Downloadable uri ∧ ∃ report ∈ reports sAttributeMap session.content, report.value = uri
  lines : ∀ entry ∈ order, ∀ entry' ∈ order,
    reportLine entry = reportLine entry' → entry = entry'
  record : ∀ entry ∈ order, entry.2 = {} ∨ ∃ job ∈ session.jobs, job.uriStr = entry.1 ∧
    session.crawler.download environment.zlib environment.perform job.uriStr job.line
      job.column environment.initialisation {} = .ok entry.2

theorem Crawls.keys_eq (crawls : session.Crawls host) :
    session.crawler.downloads.uriRecords.map Prod.fst =
      session.jobs.map DownloadJob.uriStr := by
  have keys := crawls.wellFormed.keys
  simp only [UriRecords.keys, Downloads.unwritten, List.map_map, Function.comp_def] at keys
  exact keys

/-- Whatever the interleaving and the order of the map, the report has one line for each
URI that the index page refers to and that is no local fragment reference.  Each line
can be told from the others, and has the defaults of a record or what the download
of the URI has made of them. -/
theorem report_each (reachable : session.Reachable environment host tlimit files)
    (reporting : session.main = .reporting) {order : UriRecords}
    (iterated : order.Perm session.crawler.downloads.uriRecords) :
    session.ReportsEach environment order := by
  have isolated := reachable.isolated
  have wellFormed := isolated.crawls.wellFormed
  have keys := isolated.crawls.keys_eq
  have sameKeys : (order.map Prod.fst).Perm (session.jobs.map DownloadJob.uriStr) :=
    keys ▸ iterated.map Prod.fst
  have distinct : (order.map Prod.fst).Nodup :=
    sameKeys.nodup_iff.mpr (wellFormed.keys ▸ wellFormed.distinct)
  have record : ∀ entry ∈ order, entry.2 = {} ∨ ∃ job ∈ session.jobs, job.uriStr = entry.1 ∧
      session.crawler.download environment.zlib environment.perform job.uriStr job.line
        job.column environment.initialisation {} = .ok entry.2 := by
    intro entry member
    obtain ⟨ticket, found⟩ := List.mem_iff_getElem?.mp (iterated.mem_iff.mp member)
    have inRange : ticket < session.jobs.length := by
      rw [← isolated.crawls.uriRecords_length]
      exact (List.getElem?_eq_some_iff.mp found).1
    have isJob := List.getElem?_eq_getElem inRange
    have sameRecord := isolated.crawls.record_eq isJob
    have downloaded := isolated.downloaded reporting
    rcases Nat.lt_or_ge ticket session.pool.dequeued.length with taken | left
    · obtain ⟨record, stored, made⟩ := downloaded.done ticket _ taken isJob
      rw [sameRecord, found] at stored
      cases stored
      exact .inr ⟨_, List.getElem_mem inRange, rfl, made⟩
    · have stored := downloaded.untouched ticket _ left isJob
      rw [sameRecord, found] at stored
      cases stored
      exact .inl rfl
  refine ⟨distinct, ?found, ?lines, record⟩
  case found =>
    intro uri
    have called := wellFormed.called uri
    rw [isolated.crawls.calls_eq, wellFormed.keys] at called
    rw [sameKeys.mem_iff]
    refine called.trans (and_congr_right' ?_)
    simp [Report.call]
  case lines =>
    intro entry member entry' member' same
    have noSpace : ∀ entry ∈ order, ' '.toUInt8 ∉ entry.2.filename := by
      intro entry member
      rcases record entry member with default | ⟨job, _, _, made⟩
      · rw [default]
        exact List.not_mem_nil
      · rw [download_filename made]
        exact space_not_mem_downloadFilename job.line job.column
    obtain ⟨sameUri, _⟩ :=
      alike_of_reportLine (noSpace entry member) (noSpace entry' member') same
    exact List.inj_on_of_nodup_map distinct member member' sameUri

end Session

theorem report_each_unstarted : ∃ session : Session,
    session.crawler.downloads.uriRecords = [(bytes "x", {}), (bytes "y", {})] ∧
      session.ReportsEach brokenEnvironment session.crawler.downloads.uriRecords.reverse := by
  let job : DownloadJob := { uriStr := bytes "x", line := 1, column := 9, record := 0 }
  let job' : DownloadJob := { uriStr := bytes "y", line := 1, column := 21, record := 1 }
  have observed : ((sessionTransition brokenEnvironment).run (.new (bytes "h") 1 fun _ => none)
      (.chunk {} :: (bytes "<a href='x'").map SessionAction.read ++
        [.pool (.push 0 job none), .pool (.grow 0 0 0 0)] ++
        (bytes "><a href='y'").map SessionAction.read ++
        [.pool (.push 0 job' none), .pool (.grow 0 1 0 0), .pool (.callShutdown 0),
          .pool (.signalShutdown 0 [0, 1]), .pool (.enterLoop 0),
          .pool (.joinThreads 0 [0, 1])])).map
      (fun session => (session.crawler.downloads.uriRecords, session.main)) =
        some ([(bytes "x", {}), (bytes "y", {})], .reporting) := by
    decide +kernel
  obtain ⟨session, ran, same⟩ := Option.map_eq_some_iff.mp observed
  obtain ⟨records, reporting⟩ := Prod.mk.inj same
  have reachable : session.Reachable brokenEnvironment (bytes "h") 1 fun _ => none :=
    Transition.Reachable.run (.start rfl) ran
  have each := Session.report_each reachable reporting (List.reverse_perm _)
  exact ⟨session, records, each⟩

end FastCrawl
