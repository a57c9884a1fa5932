import FastCrawl.Crawler.Documents
import FastCrawl.Program.Ending
import FastCrawl.Program.Reporting

namespace FastCrawl

open Automata

/-! The program on a page whose markup it reads as it is meant. -/

variable {environment : Environment} {host : Bytes} {tlimit : UInt64}
  {files : Bytes → Option Bytes}

namespace Session

variable {session : Session}

/-- The links that a crawl has called for are those that the outline reports. -/
theorem Crawls.triples_eq (crawls : session.Crawls host) :
    session.crawler.triples =
      ((outline sAttributeMap).outputs .doc session.content).map Report.triple := by
  obtain ⟨after, called, _, triples⟩ :=
    (HtmlCrawler.new_reachable sAttributeMap host).call_of_document rfl session.content
  rw [HtmlCrawler.call_eq_foldlM, crawls.crawled] at called
  cases called
  exact triples

theorem Crawls.jobs_eq (crawls : session.Crawls host) :
    session.jobs.map DownloadJob.uriStr =
      wantedUris (session.crawler.triples.map fun triple => triple.2.2) := by
  have reachable : session.crawler.unwritten.Reachable sAttributeMap := by
    refine ⟨host, [session.content], ?_⟩
    rw [HtmlCrawler.callAll_eq_foldlM, List.flatten_singleton]
    exact crawls.crawled
  exact reachable.jobs_wanted

/-- The jobs for a page that has been read as a whole. -/
theorem Crawls.page_jobs (crawls : session.Crawls host) {page : Page}
    (plain : page.Plain sAttributeMap) (whole : session.content = page.written) :
    session.jobs.map DownloadJob.uriStr = page.uris sAttributeMap := by
  obtain ⟨_, outputs⟩ := Page.crawls plain
  rw [crawls.jobs_eq, crawls.triples_eq, whole, outputs, Page.uris]

end Session

end FastCrawl
