import FastCrawl.Program.Submission
import FastCrawl.ThreadPool.Shutdown

namespace FastCrawl

/-! The records.  Download threads write them without a lock, and each record is at any
time what its own download has made of it so far. -/

variable {environment : Environment} {host : Bytes} {tlimit : UInt64}
  {files : Bytes → Option Bytes}

section Pool

variable {Job : Type} {system : PoolSystem Job} {action : PoolAction Job} {ticket : Nat}

theorem PoolSystem.invoked_mono (invoked : ticket ∈ system.invoked) (action : PoolAction Job) :
    ticket ∈ (system.effect action).invoked := by
  cases action with
  | signalShutdown client due =>
      simp only [effect, signalShutdown]
      split <;> exact invoked
  | enterLoop worker =>
      obtain ⟨_, _, after, _⟩ := system.enterLoop_frame worker
      exact (congrArg PoolSystem.invoked after).symm ▸ invoked
  | invoke worker ticket' job => exact List.mem_append_left _ invoked
  | relock worker ticket' job =>
      obtain ⟨_, _, after, _⟩ := (system.endJob worker).executeQueued_frame worker
      exact (congrArg PoolSystem.invoked after).symm ▸ invoked
  | _ => exact invoked

theorem PoolSystem.completed_cases (completed : ticket ∈ (system.effect action).completed) :
    ticket ∈ system.completed ∨ ∃ worker job, action = .complete worker ticket job := by
  cases action with
  | signalShutdown client due =>
      simp only [effect, signalShutdown] at completed
      split at completed <;> exact .inl completed
  | enterLoop worker =>
      obtain ⟨_, _, after, _⟩ := system.enterLoop_frame worker
      exact .inl (congrArg PoolSystem.completed after ▸ completed)
  | complete worker ticket' job =>
      rcases List.mem_append.mp completed with earlier | this
      · exact .inl earlier
      · rw [List.mem_singleton.mp this]
        exact .inr ⟨worker, job, rfl⟩
  | relock worker ticket' job =>
      obtain ⟨_, _, after, _⟩ := (system.endJob worker).executeQueued_frame worker
      exact .inl (congrArg PoolSystem.completed after ▸ completed)
  | _ => exact .inl completed

end Pool

/-- What is written into a record is not seen in the crawler without the writes. -/
theorem HtmlCrawler.unwritten_modify (crawler : HtmlCrawler) (node : Nat)
    (f : UriRecord → UriRecord) :
    ({ crawler with
        downloads.uriRecords := crawler.downloads.uriRecords.modify node
          fun entry => (entry.1, f entry.2) } : HtmlCrawler).unwritten = crawler.unwritten := by
  have sameRecords : (crawler.downloads.uriRecords.modify node
      fun entry => (entry.1, f entry.2)).map (fun entry => (entry.1, ({} : UriRecord))) =
        crawler.downloads.uriRecords.map fun entry => (entry.1, {}) := by
    apply List.ext_getElem?
    intro place
    rw [List.getElem?_map, List.getElem?_modify, List.getElem?_map]
    cases crawler.downloads.uriRecords[place]? with
    | none => simp
    | some entry => by_cases same : node = place <;> simp [same]
  simp only [unwritten, Downloads.unwritten, sameRecords]

namespace Session

theorem work_eq (session : Session) {ticket : Nat} {job : DownloadJob} {step : DownloadStep}
    (next : (session.steps environment job).get? (session.progress ticket) = some step) :
    session.work environment ticket job = session.advance ticket job step := by
  rw [work, next]

/-- What a download has made of its record so far. -/
def written (environment : Environment) (session : Session) (ticket : Nat) (job : DownloadJob) :
    UriRecord :=
  ((session.steps environment job).take (session.progress ticket)).foldl DownloadStep.onRecord {}

structure Isolated (environment : Environment) (host : Bytes) (session : Session) : Prop where
  crawls : session.Crawls host
  conserved : JobConservation session.pool
  unstarted : ∀ ticket, ticket ∉ session.pool.invoked → session.progress ticket = 0
  finished : ∀ ticket job, session.jobs[ticket]? = some job → ticket ∈ session.pool.completed →
    (session.steps environment job).TerminatedAt (session.progress ticket) ∧
      ∀ step ∈ (session.steps environment job).take (session.progress ticket), step.failure = none
  sound : session.failure = none → ∀ ticket job, session.jobs[ticket]? = some job →
    ∀ step ∈ (session.steps environment job).take (session.progress ticket), step.failure = none
  record : ∀ ticket job, session.jobs[ticket]? = some job →
    session.crawler.downloads.uriRecords[ticket]? =
      some (job.uriStr, session.written environment ticket job)

namespace Isolated

variable {before : Session}

theorem job_of_at (isolated : before.Isolated environment host) {worker ticket : Nat}
    {stage : JobStage} {job : DownloadJob}
    (found : before.pool.At worker (.busy stage ticket job)) : before.jobs[ticket]? = some job := by
  have taken := isolated.conserved.held _ _ _ _ found
  have accepted : before.pool.accepted[ticket]? = some job := by
    obtain ⟨inRange, _⟩ := List.getElem?_eq_some_iff.mp taken
    rw [isolated.conserved.order, List.getElem?_append_left (by simpa using inRange),
      List.getElem?_map, taken]
    rfl
  obtain ⟨later, split⟩ := isolated.crawls.submitted.accepted_part
  rw [← split]
  exact (List.getElem?_append_left (List.getElem?_eq_some_iff.mp accepted).1).trans accepted

theorem dequeued_le (isolated : before.Isolated environment host) :
    before.pool.dequeued.length ≤ before.jobs.length := by
  have order := congrArg List.length isolated.conserved.order
  have submitted := isolated.crawls.submitted.accepted_part.length_le
  simp only [List.length_append, List.length_map] at order
  omega

/-- The numbers of jobs that are still to be made are not in use. -/
theorem unstarted_new (isolated : before.Isolated environment host) {ticket : Nat}
    (new : before.jobs.length ≤ ticket) : before.progress ticket = 0 := by
  apply isolated.unstarted
  intro invoked
  have taken := isolated.conserved.invokedTaken _ invoked
  have bound := isolated.dequeued_le
  omega

theorem new : (Session.new host tlimit files).Isolated environment host where
  crawls := .new
  conserved := .new 20 tlimit
  unstarted _ _ := rfl
  finished _ _ found := by simp [Session.new, jobs, HtmlCrawler.new] at found
  sound _ _ _ found := by simp [Session.new, jobs, HtmlCrawler.new] at found
  record _ _ found := by simp [Session.new, jobs, HtmlCrawler.new] at found

theorem chunk (isolated : before.Isolated environment host)
    (inDownload : before.main.InDownload) (running : before.failure = none)
    (udata : CurlUserdata) : (before.chunk udata).Isolated environment host where
  crawls := isolated.crawls.chunk inDownload udata
  conserved := isolated.conserved
  unstarted := isolated.unstarted
  finished := isolated.finished
  sound _ := isolated.sound running
  record := isolated.record

theorem read (isolated : before.Isolated environment host) (crawling : before.main = .crawling)
    (ch : UInt8) : (before.read ch).Isolated environment host := by
  have crawls := isolated.crawls.read crawling ch
  obtain ⟨crawler, made, stepped, _, jobs, records, same⟩ := isolated.crawls.read_spec ch
  have sameHost : crawler.host = before.crawler.host := HtmlCrawler.step_host stepped
  have sameSteps : ∀ job, downloadSteps environment crawler.host job.uriStr job.line job.column =
      before.steps environment job := fun job => by rw [sameHost, steps]
  -- A job is an old one, or has a number that is not in use.
  have placed : ∀ ticket job, (before.jobs ++ made)[ticket]? = some job →
      before.jobs[ticket]? = some job ∨
        before.jobs.length ≤ ticket ∧ made[ticket - before.jobs.length]? = some job := by
    intro ticket job found
    rw [List.getElem?_append] at found
    split at found
    · exact .inl found
    · exact .inr ⟨by omega, found⟩
  rw [same] at crawls ⊢
  refine ⟨crawls, isolated.conserved, isolated.unstarted, ?finished, ?sound, ?record⟩
  case finished =>
    intro ticket job found completed
    simp only [Session.jobs, steps, sameSteps, jobs] at found ⊢
    rcases placed ticket job found with old | ⟨new, _⟩
    · exact isolated.finished ticket job old completed
    · have taken := isolated.conserved.completedTaken ticket completed
      have bound := isolated.dequeued_le
      omega
  case sound =>
    intro running ticket job found
    simp only [Session.jobs, steps, sameSteps, jobs] at found ⊢
    rcases placed ticket job found with old | ⟨new, _⟩
    · exact isolated.sound running ticket job old
    · rw [isolated.unstarted_new new, Stream'.Seq.take_zero]
      exact fun _ member => absurd member List.not_mem_nil
  case record =>
    intro ticket job found
    have sameLength := isolated.crawls.uriRecords_length
    simp only [Session.jobs, written, steps, sameSteps, jobs, records] at found ⊢
    rcases placed ticket job found with old | ⟨new, isMade⟩
    · have inRange := (List.getElem?_eq_some_iff.mp old).1
      rw [List.getElem?_append_left (by omega)]
      exact isolated.record ticket job old
    · rw [List.getElem?_append_right (by omega), sameLength, List.getElem?_map, isMade,
        isolated.unstarted_new new]
      rfl

theorem work (isolated : before.Isolated environment host) {worker ticket : Nat}
    {job : DownloadJob} (enabled : before.Enabled environment (.work worker ticket job)) :
    (before.work environment ticket job).Isolated environment host := by
  obtain ⟨running, at_job, more⟩ := enabled
  have at_job : before.pool.At worker (.busy .running ticket job) := at_job
  have isJob := isolated.job_of_at at_job
  have taken := isolated.conserved.held _ _ _ _ at_job
  have sameRecord : job.record = ticket := isolated.crawls.record_eq isJob
  obtain ⟨step, next⟩ := Option.ne_none_iff_exists'.mp more
  have further := Stream'.Seq.take_add_one_of_get? next
  have invoked : ticket ∈ before.pool.invoked := by
    have once := isolated.conserved.invokedOnce _ _ _ taken fun at_taken => by
      cases at_job.unique at_taken
    exact List.count_pos_iff.mp (by omega)
  have notCompleted : ticket ∉ before.pool.completed := fun completed =>
    ((isolated.conserved.completed _ _ _ taken).mp completed).2 at_job
  rw [before.work_eq next]
  refine ⟨⟨isolated.crawls.sameHost, ?crawled, isolated.crawls.submitted⟩, isolated.conserved,
    ?unstarted, ?finished, ?sound, ?record⟩
  case crawled =>
    refine isolated.crawls.crawled.trans (congrArg Except.ok ?_)
    exact (before.crawler.unwritten_modify job.record (step.onRecord ·)).symm
  case unstarted =>
    intro other notInvoked
    have different : other ≠ ticket := fun same => notInvoked (same ▸ invoked)
    exact (Function.update_of_ne different ..).trans (isolated.unstarted other notInvoked)
  case finished =>
    intro other job' found completed
    have different : other ≠ ticket := fun same => notCompleted (same ▸ completed)
    have kept : (before.advance ticket job step).progress other = before.progress other :=
      Function.update_of_ne different ..
    rw [kept]
    exact isolated.finished other job' found completed
  case sound =>
    intro stillRunning other job' found
    change ∀ made ∈ (before.steps environment job').take
      (Function.update before.progress ticket (before.progress ticket + 1) other),
        made.failure = none
    by_cases same : other = ticket
    · subst same
      cases isJob.symm.trans found
      rw [Function.update_self, further]
      intro made member
      rcases List.mem_append.mp member with earlier | this
      · exact isolated.sound running other job isJob made earlier
      · rw [List.mem_singleton.mp this]
        exact stillRunning
    · rw [Function.update_of_ne same]
      exact isolated.sound running other job' found
  case record =>
    intro other job' found
    change (before.crawler.downloads.uriRecords.modify job.record _)[other]? =
      some (job'.uriStr, ((before.steps environment job').take
        (Function.update before.progress ticket (before.progress ticket + 1) other)).foldl
          DownloadStep.onRecord {})
    by_cases same : other = ticket
    · subst same
      cases isJob.symm.trans found
      rw [sameRecord, List.getElem?_modify_eq, isolated.record other job found,
        Function.update_self, further, List.foldl_append]
      rfl
    · rw [sameRecord, List.getElem?_modify_ne _ _ (Ne.symm same),
        isolated.record other job' found, Function.update_of_ne same]
      rfl

theorem pool (isolated : before.Isolated environment host) {action : PoolAction DownloadJob}
    (running : before.failure = none) (takes : before.Takes environment action)
    (enabled : before.pool.Enabled action) :
    (before.effect environment (.pool action)).Isolated environment host where
  crawls := ⟨isolated.crawls.sameHost, isolated.crawls.crawled,
    isolated.crawls.submitted.pool takes enabled⟩
  conserved := isolated.conserved.effect enabled
  unstarted := by
    intro ticket notInvoked
    apply isolated.unstarted
    intro invoked
    exact notInvoked (PoolSystem.invoked_mono invoked action)
  finished := by
    intro ticket job found completed
    rcases PoolSystem.completed_cases completed with earlier | ⟨worker, job', rfl⟩
    · exact isolated.finished ticket job found earlier
    · have at_job : before.pool.At worker (.busy .running ticket job') := enabled
      have isJob := isolated.job_of_at at_job
      cases found.symm.trans isJob
      exact ⟨takes, isolated.sound running ticket job isJob⟩
  sound := isolated.sound
  record := isolated.record

theorem effect (isolated : before.Isolated environment host) {action : SessionAction}
    (enabled : before.Enabled environment action) :
    (before.effect environment action).Isolated environment host := by
  cases action with
  | chunk udata => exact isolated.chunk enabled.2 enabled.1 udata
  | read ch => exact isolated.read enabled.2 ch
  | work worker ticket job => exact isolated.work enabled
  | pool action => exact isolated.pool enabled.1 enabled.2.1 enabled.2.2

end Isolated

variable {session : Session}

theorem Reachable.isolated (reachable : session.Reachable environment host tlimit files) :
    session.Isolated environment host := by
  refine Transition.Reachable.invariant (fun session starts => ?_) (fun session action isolated
    enabled => isolated.effect enabled) reachable
  rw [starts]
  exact .new

theorem Isolated.unwritten_of_notInvoked (isolated : session.Isolated environment host)
    {ticket : Nat} (notInvoked : ticket ∉ session.pool.invoked) (job : DownloadJob) :
    session.written environment ticket job = {} := by
  rw [written, isolated.unstarted ticket notInvoked]
  rfl

theorem Isolated.written_of_completed (isolated : session.Isolated environment host)
    {ticket : Nat} {job : DownloadJob} (found : session.jobs[ticket]? = some job)
    (completed : ticket ∈ session.pool.completed) :
    session.crawler.download environment.zlib environment.perform job.uriStr job.line job.column
        environment.initialisation {} = .ok (session.written environment ticket job) := by
  obtain ⟨ended, sound⟩ := isolated.finished ticket job found completed
  exact downloadSteps_onRecord session.crawler {} ended sound

/-- What other threads see of the crawl and of the downloads. -/
structure DownloadsIsolated (environment : Environment) (host : Bytes) (session : Session) :
    Prop where
  crawl : ∀ chunks : List Bytes, chunks.flatten = session.content →
    (HtmlCrawler.new host).callAll sAttributeMap chunks = .ok session.crawler.unwritten
  record : ∀ ticket job, session.jobs[ticket]? = some job →
    ∃ record, session.crawler.downloads.uriRecords[job.record]? = some (job.uriStr, record) ∧
      record = session.written environment ticket job ∧
      (ticket ∉ session.pool.invoked → record = {}) ∧
      (ticket ∈ session.pool.completed →
        session.crawler.download environment.zlib environment.perform job.uriStr job.line
          job.column environment.initialisation {} = .ok record)
  apart : ∀ worker worker' stage stage' ticket ticket' job job', worker ≠ worker' →
    session.pool.At worker (.busy stage ticket job) →
    session.pool.At worker' (.busy stage' ticket' job') → job.record ≠ job'.record

/-- In every interleaving the crawl is that of the content alone, and the record of each
URI is what its own download has made of it: its defaults until the download is
invoked, and after that what a download with no others beside it makes.  No two
threads ever have jobs with the same record. -/
theorem downloads_isolated (reachable : session.Reachable environment host tlimit files) :
    session.DownloadsIsolated environment host := by
  have isolated := reachable.isolated
  refine ⟨?crawl, ?record, ?apart⟩
  case crawl =>
    intro chunks content
    rw [HtmlCrawler.callAll_eq_foldlM, content]
    exact isolated.crawls.crawled
  case record =>
    intro ticket job found
    refine ⟨_, ?_, rfl, ?_, isolated.written_of_completed found⟩
    · rw [isolated.crawls.record_eq found]
      exact isolated.record ticket job found
    · exact fun notInvoked => isolated.unwritten_of_notInvoked notInvoked job
  case apart =>
    intro worker worker' stage stage' ticket ticket' job job' different at_job at_job'
    rw [isolated.crawls.record_eq (isolated.job_of_at at_job),
      isolated.crawls.record_eq (isolated.job_of_at at_job')]
    rintro rfl
    have taken := isolated.conserved.held _ _ _ _ at_job
    have taken' := isolated.conserved.held _ _ _ _ at_job'
    cases taken.symm.trans taken'
    exact different rfl

end Session

/-- A transfer that succeeds, and of which the last byte is lost when the file is closed. -/
def brokenFetch : Fetch where
  handle := true
  file := true
  event index := [some { data := bytes "Wiki" }, none,
    some { data := bytes "pedia", flushed := 5 }][index]?.join
  ends := some 3
  result := true
  flushed := 3
  bounded := by decide
  stops := by decide
  reported := by decide

def brokenEnvironment : Environment where
  zlib := standardAdler32
  initialisation := .dataProcessor standardAdler32 1
  fetch _ := brokenFetch

theorem brokenEnvironment_transfersEnd : brokenEnvironment.TransfersEnd :=
  fun _ => Option.some_ne_none 3

theorem brokenEnvironment_userdataIntact : brokenEnvironment.UserdataIntact := by
  intro dl chunk called
  have chunks : (brokenEnvironment.perform dl).chunks =
      [{ data := bytes "Wiki" }, { data := bytes "pedia", flushed := 5 }] := by
    rfl
  rw [chunks] at called
  rcases List.mem_cons.mp called with rfl | called
  · rfl
  · rw [List.mem_singleton.mp called]
    rfl

theorem downloads_isolated_running : ∃ session : Session,
    session.content = bytes "<a href='x'" ∧ session.progress 0 = 1 ∧
      session.DownloadsIsolated brokenEnvironment (bytes "h") := by
  let job : DownloadJob := { uriStr := bytes "x", line := 1, column := 9, record := 0 }
  obtain ⟨session, ran, content, progress, failure, running⟩ : ∃ session,
      (sessionTransition brokenEnvironment).run (.new (bytes "h") 1 fun _ => none)
          (.chunk {} :: (bytes "<a href='x'").map SessionAction.read ++
            [.pool (.push 0 job none), .pool (.grow 0 0 0 0), .pool (.enterLoop 0),
              .pool (.invoke 0 0 job)]) = some session ∧
        session.content = bytes "<a href='x'" ∧ session.progress 0 = 0 ∧
        session.failure = none ∧
        session.pool.pool.threadList[0]? = some (.busy .running 0 job) :=
    ⟨_, rfl, rfl, rfl, rfl, rfl⟩
  have next : (session.steps brokenEnvironment job).get? (session.progress 0) =
      some (.store (.filename (downloadFilename 1 9))) := by
    rw [progress]
    rfl
  have more : ¬(session.steps brokenEnvironment job).TerminatedAt (session.progress 0) :=
    Option.ne_none_iff_exists'.mpr ⟨_, next⟩
  have invoked : session.Reachable brokenEnvironment (bytes "h") 1 fun _ => none :=
    Transition.Reachable.run (.start rfl) ran
  have reached : (session.work brokenEnvironment 0 job).Reachable brokenEnvironment (bytes "h") 1
      fun _ => none := .step invoked (.work 0 0 job) trivial ⟨failure, running, more⟩
  refine ⟨_, ?_, ?_, Session.downloads_isolated reached⟩
  · rw [session.work_eq next]
    exact content
  · rw [session.work_eq next]
    exact congrArg (· + 1) progress

end FastCrawl
