import FastCrawl.Program.Session
import FastCrawl.ThreadPool.Conservation

namespace FastCrawl

/-! The main thread.  It crawls as if there were no download threads, and has handed
to the pool all jobs that the crawl has made, but one that it is about to. -/

variable {environment : Environment} {host : Bytes} {tlimit : UInt64}
  {files : Bytes → Option Bytes}

/-- What a crawl of some content, with no other threads, says of the crawler. -/
theorem HtmlCrawler.tracks_of_crawled {content : Bytes} {crawler : HtmlCrawler}
    (crawled : content.foldlM (HtmlCrawler.step sAttributeMap) (.new host) = .ok crawler) :
    crawler.Tracks ((segmenter sAttributeMap).run (Cursor.start sAttributeMap) content) ∧
      crawler.downloads = (reports sAttributeMap content).foldl Downloads.apply {} := by
  obtain ⟨reached, called, tracks, downloads⟩ :=
    HtmlCrawler.callAll_tracks sAttributeMap host [content]
  rw [HtmlCrawler.callAll_eq_foldlM, List.flatten_singleton, crawled] at called
  rw [List.flatten_singleton] at tracks downloads
  rw [Except.ok.inj called]
  exact ⟨tracks, downloads⟩

namespace Session

variable {before session : Session}

/-- The jobs in the order in which the crawl has found them. -/
def jobs (session : Session) : List DownloadJob := session.crawler.downloads.jobs

def Submitted (session : Session) : Prop :=
  match session.main with
  | .submitting job =>
      session.pool.pool.shutdown = false ∧ session.pool.accepted ++ [job] = session.jobs
  | .waiting =>
      session.pool.accepted = session.jobs ∧
        ((∃ due, session.pool.clients 0 = .shutdownCalled due ∧
            session.pool.pool.shutdown = false) ∨
          ∃ due, session.pool.clients 0 = .joining due ∧ session.pool.pool.shutdown = true)
  | .reporting =>
      session.pool.accepted = session.jobs ∧ ∀ pc ∈ session.pool.pool.threadList, pc = .exited
  | .fetching | .crawling | .growing | .threw =>
      session.pool.pool.shutdown = false ∧ session.pool.accepted = session.jobs

theorem Submitted.of_inDownload (submitted : session.Submitted)
    (inDownload : session.main.InDownload) :
    session.pool.pool.shutdown = false ∧ session.pool.accepted = session.jobs := by
  rcases inDownload with main | main
  · rwa [Submitted, main] at submitted
  · rwa [Submitted, main] at submitted

theorem Submitted.accepted_part (submitted : session.Submitted) :
    session.pool.accepted <+: session.jobs := by
  simp only [Submitted] at submitted
  split at submitted
  · exact ⟨_, submitted.2⟩
  · exact submitted.1 ▸ List.prefix_rfl
  · exact submitted.1 ▸ List.prefix_rfl
  · exact submitted.2 ▸ List.prefix_rfl
  · exact submitted.2 ▸ List.prefix_rfl
  · exact submitted.2 ▸ List.prefix_rfl
  · exact submitted.2 ▸ List.prefix_rfl

/-- A step of a pooled thread is a step of one that has not left its loop. -/
theorem not_exited_of_ofThread {system : PoolSystem DownloadJob} {action : PoolAction DownloadJob}
    (thread : action.OfThread) (enabled : system.Enabled action) :
    ∃ pc ∈ system.pool.threadList, pc ≠ .exited := by
  cases action with
  | enterLoop worker => exact ⟨_, List.mem_of_getElem? enabled, by simp⟩
  | invoke worker ticket job => exact ⟨_, List.mem_of_getElem? enabled, by simp⟩
  | complete worker ticket job => exact ⟨_, List.mem_of_getElem? enabled, by simp⟩
  | relock worker ticket job => exact ⟨_, List.mem_of_getElem? enabled, by simp⟩
  | wakeSpuriously worker => exact ⟨_, List.mem_of_getElem? enabled, by simp⟩
  | _ => exact thread.elim

theorem Submitted.ofThread (submitted : before.Submitted) {action : PoolAction DownloadJob}
    (thread : action.OfThread) (enabled : before.pool.Enabled action)
    (crawler : session.crawler = before.crawler) (main : session.main = before.main)
    (pool : session.pool = before.pool.effect action) : session.Submitted := by
  have same := before.pool.effect_sameCallers thread
  have sameJobs : session.jobs = before.jobs := congrArg (·.downloads.jobs) crawler
  simp only [Submitted, main, sameJobs, pool, same.accepted, same.shutdown, same.clients] at *
  cases stands : before.main with
  | reporting =>
      rw [stands] at submitted
      obtain ⟨pc, member, running⟩ := not_exited_of_ofThread thread enabled
      exact absurd (submitted.2 pc member) running
  | _ => rwa [stands] at submitted

theorem Submitted.pool (submitted : before.Submitted) {action : PoolAction DownloadJob}
    (takes : before.Takes environment action) (enabled : before.pool.Enabled action) :
    (before.effect environment (.pool action)).Submitted := by
  have ofThread (thread : action.OfThread) (main : before.mainAfter action = before.main) :
      (before.effect environment (.pool action)).Submitted :=
    submitted.ofThread thread enabled rfl main rfl
  cases action with
  | push client job notified =>
      obtain ⟨_, main⟩ := takes
      rw [Submitted, main] at submitted
      have up : (before.pool.push client job notified).pool.shutdown =
          before.pool.pool.shutdown := by
        cases notified <;> rfl
      exact ⟨up.trans submitted.1, submitted.2⟩
  | reject client job =>
      obtain ⟨_, main⟩ := takes
      rw [Submitted, main] at submitted
      exact absurd (submitted.1.symm.trans enabled.2) (by simp)
  | grow client ticket tbusy created =>
      obtain ⟨_, main⟩ := takes
      rw [Submitted, main] at submitted
      simp only [Submitted, effect, mainAfter]
      by_cases started : created = (before.pool.pool.growCount tbusy).toNat
      · rw [if_pos started]
        exact submitted
      · rw [if_neg started]
        exact submitted
  | startThread tcnt created => exact takes.elim
  | setSize threadCnt created => exact takes.elim
  | callShutdown client =>
      obtain ⟨rfl, inDownload⟩ := takes
      obtain ⟨up, accepted⟩ := submitted.of_inDownload inDownload
      refine ⟨accepted, .inl ⟨before.pool.returned, ?_, up⟩⟩
      simp [effect, PoolSystem.effect, PoolSystem.setClient]
  | signalShutdown client due =>
      obtain ⟨rfl, main⟩ := takes
      rw [Submitted, main] at submitted
      obtain ⟨accepted, ⟨_, _, up⟩ | ⟨_, joining, _⟩⟩ := submitted
      · simp only [Submitted, effect, mainAfter, up, PoolSystem.effect,
          PoolSystem.signalShutdown_up up, Bool.false_eq_true, if_false]
        exact ⟨accepted, .inr ⟨due, by simp [PoolSystem.setClient], trivial⟩⟩
      · have called : before.pool.clients 0 = .shutdownCalled due := enabled
        rw [joining] at called
        contradiction
  | joinThreads client due =>
      obtain ⟨rfl, main⟩ := takes
      rw [Submitted, main] at submitted
      exact ⟨submitted.1, enabled.2⟩
  | enterLoop worker => exact ofThread trivial rfl
  | invoke worker ticket job => exact ofThread trivial rfl
  | complete worker ticket job => exact ofThread trivial rfl
  | relock worker ticket job => exact ofThread trivial rfl
  | wakeSpuriously worker => exact ofThread trivial rfl

/-- What the main thread has crawled and submitted. -/
structure Crawls (host : Bytes) (session : Session) : Prop where
  sameHost : session.crawler.host = host
  crawled : session.content.foldlM (HtmlCrawler.step sAttributeMap) (.new host) =
    .ok session.crawler.unwritten
  submitted : session.Submitted

namespace Crawls

theorem new : (Session.new host tlimit files).Crawls host := ⟨rfl, rfl, rfl, rfl⟩

theorem wellFormed (crawls : before.Crawls host) :
    before.crawler.downloads.unwritten.WellFormed := by
  obtain ⟨_, downloads⟩ := HtmlCrawler.tracks_of_crawled crawls.crawled
  change before.crawler.unwritten.downloads.WellFormed
  rw [downloads]
  exact Downloads.empty_wellFormed.foldl_apply _

theorem calls_eq (crawls : before.Crawls host) : before.crawler.downloads.unwritten.calls =
    (reports sAttributeMap before.content).map Report.call := by
  obtain ⟨_, downloads⟩ := HtmlCrawler.tracks_of_crawled crawls.crawled
  change before.crawler.unwritten.downloads.calls = _
  rw [downloads, Downloads.foldl_apply_calls, List.nil_append]

theorem record_eq (crawls : before.Crawls host) {ticket : Nat} {job : DownloadJob}
    (found : before.jobs[ticket]? = some job) : job.record = ticket := by
  have records : before.jobs.map DownloadJob.record = List.range before.jobs.length :=
    crawls.wellFormed.records
  have record : (before.jobs.map DownloadJob.record)[ticket]? = some job.record := by
    rw [List.getElem?_map, found]
    rfl
  rw [records] at record
  obtain ⟨_, samePlace⟩ := List.getElem?_eq_some_iff.mp record
  rw [← samePlace, List.getElem_range]

theorem uriRecords_length (crawls : before.Crawls host) :
    before.crawler.downloads.uriRecords.length = before.jobs.length := by
  have keys := congrArg List.length crawls.wellFormed.keys
  simpa [Downloads.unwritten, UriRecords.keys, jobs] using keys

/-- A byte is crawled without a failure, and adds a record and its job at the most. -/
theorem read_spec (crawls : before.Crawls host) (ch : UInt8) :
    ∃ crawler made, before.crawler.step sAttributeMap ch = .ok crawler ∧
      made.length ≤ 1 ∧ crawler.downloads.jobs = before.jobs ++ made ∧
      crawler.downloads.uriRecords = before.crawler.downloads.uriRecords ++
        made.map (fun job => (job.uriStr, ({} : UriRecord))) ∧
      before.read ch =
        { before with crawler, content := before.content ++ [ch], main := .afterByte made } := by
  obtain ⟨tracks, _⟩ := HtmlCrawler.tracks_of_crawled crawls.crawled
  have tracks : before.crawler.Tracks ((segmenter sAttributeMap).run
      (Cursor.start sAttributeMap) before.content) := tracks
  obtain ⟨crawler, stepped, _, downloads⟩ := crawler_realizes_segmenter ch tracks
  have made : ∃ made : List DownloadJob, made.length ≤ 1 ∧
      crawler.downloads.jobs = before.jobs ++ made ∧
      crawler.downloads.uriRecords = before.crawler.downloads.uriRecords ++
        made.map (fun job => (job.uriStr, ({} : UriRecord))) := by
    rw [downloads]
    cases (segmenter sAttributeMap).emit
        ((segmenter sAttributeMap).run (Cursor.start sAttributeMap) before.content) ch with
    | none => exact ⟨[], by simp, (List.append_nil _).symm, (List.append_nil _).symm⟩
    | some report =>
        change ∃ made : List DownloadJob, made.length ≤ 1 ∧
          (before.crawler.downloads.processUri report.call).jobs = _ ∧
          (before.crawler.downloads.processUri report.call).uriRecords = _
        rcases before.crawler.downloads.processUri_cases report.call with same | added
        · rw [same.1, same.2]
          exact ⟨[], by simp, (List.append_nil _).symm, (List.append_nil _).symm⟩
        · obtain ⟨job, _, records, jobs⟩ := added
          rw [records, jobs]
          exact ⟨[job], by simp, rfl, rfl⟩
  obtain ⟨made, atMostOne, jobs, records⟩ := made
  refine ⟨crawler, made, stepped, atMostOne, jobs, records, ?_⟩
  have fresh : crawler.downloads.jobs.drop before.crawler.downloads.jobs.length = made := by
    rw [jobs]
    exact List.drop_left
  simp only [read, stepped, fresh]

theorem chunk (crawls : before.Crawls host) (inDownload : before.main.InDownload)
    (udata : CurlUserdata) : (before.chunk udata).Crawls host :=
  ⟨crawls.sameHost, crawls.crawled, crawls.submitted.of_inDownload inDownload⟩

theorem read (crawls : before.Crawls host) (crawling : before.main = .crawling) (ch : UInt8) :
    (before.read ch).Crawls host := by
  obtain ⟨crawler, made, stepped, atMostOne, jobs, _, same⟩ := crawls.read_spec ch
  have submitted := crawls.submitted
  rw [Submitted, crawling] at submitted
  have sameHost : crawler.host = host := (HtmlCrawler.step_host stepped).trans crawls.sameHost
  have crawled : (before.content ++ [ch]).foldlM (HtmlCrawler.step sAttributeMap) (.new host) =
      .ok crawler.unwritten := by
    rw [List.foldlM_append, crawls.crawled]
    change [ch].foldlM (HtmlCrawler.step sAttributeMap) before.crawler.unwritten = _
    rw [List.foldlM_cons, HtmlCrawler.step_unwritten stepped]
    rfl
  rw [same]
  refine ⟨sameHost, crawled, ?_⟩
  match made, atMostOne with
  | [], _ => exact ⟨submitted.1, submitted.2.trans (jobs.trans (List.append_nil _)).symm⟩
  | [job], _ => exact ⟨submitted.1, (congrArg (· ++ [job]) submitted.2).trans jobs.symm⟩

end Crawls

end Session

end FastCrawl
