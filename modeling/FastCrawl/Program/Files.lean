import FastCrawl.Program.Records

namespace FastCrawl

/-! The output files.  Each download writes a file of its own, and when it has ended
its record describes what curl has delivered, of which the file has a beginning. -/

variable {environment : Environment} {host : Bytes} {tlimit : UInt64}
  {files : Bytes → Option Bytes}

/-- The file before and after a transfer: it was not opened, or it has a beginning of what
was delivered.  If the transfer has succeeded, all that is missing of that is what was
left in the buffer of the stream when the file was closed, and did not get into it. -/
inductive Transfer.Stored (transfer : Transfer) (before : Option Bytes) : Option Bytes → Prop where
  | unopened (failed : transfer.succeeds = false) (empty : transfer.delivered = []) :
      Stored transfer before before
  | opened (stored : Bytes) (part : stored ++ transfer.lost <+: transfer.delivered.flatten)
      (whole : transfer.succeeds = true → stored ++ transfer.lost = transfer.delivered.flatten) :
      Stored transfer before (some stored)

theorem Fetch.stored (fetch : Fetch) (output : Output) :
    fetch.Stored output.file
      (if fetch.opened then fetch.written.fclose fetch.flushed else output).file := by
  cases opened : fetch.opened with
  | false =>
      apply Transfer.Stored.unopened
      · rw [Transfer.succeeds, opened, Bool.false_and]
      · simp [Transfer.delivered, Transfer.chunks, opened]
  | true =>
      obtain ⟨stored, isStored, split⟩ := fetch.written.fclose_file fetch.flushed
      have accepted : stored ++ fetch.lost = fetch.accepted := by
        rw [Transfer.lost, split, Transfer.written, Output.foldl_fwrite_text]
        rfl
      rw [if_pos rfl, isStored]
      apply Transfer.Stored.opened stored
      · exact accepted ▸ fetch.accepted_part
      · intro success
        rw [Transfer.succeeds, opened, Bool.true_and] at success
        exact accepted.trans (fetch.accepted_eq success)

/-- The output file of a download is not that of the index page. -/
theorem downloadFilename_ne_index (line column : UInt64) :
    downloadFilename line column ≠ bytes "./index.html" := by
  intro same
  have length := congrArg List.length same
  have index : (bytes "./index.html").length = 12 := rfl
  simp only [downloadFilename, Decimal.pad, List.length_append, List.length_cons,
    List.length_replicate, index] at length
  omega

namespace Session

variable {before session : Session}

theorem Crawls.filenames_differ (crawls : session.Crawls host)
    (short : session.content.length < 2 ^ 64) {ticket ticket' : Nat} {job job' : DownloadJob}
    (found : session.jobs[ticket]? = some job) (found' : session.jobs[ticket']? = some job')
    (different : ticket ≠ ticket') : job.filename ≠ job'.filename := by
  have wellFormed := crawls.wellFormed
  have first : ∀ job ∈ session.jobs,
      job.FirstCall ((reports sAttributeMap session.content).map Report.call) :=
    crawls.calls_eq ▸ wellFormed.first
  obtain ⟨report, reported, sameUri, sameName⟩ := (first _ (List.mem_of_getElem? found)).report
  obtain ⟨report', reported', sameUri', sameName'⟩ :=
    (first _ (List.mem_of_getElem? found')).report
  have distinct : (session.jobs.map DownloadJob.uriStr).Nodup :=
    wellFormed.keys ▸ wellFormed.distinct
  have uris : job.uriStr ≠ job'.uriStr := by
    intro same
    apply different
    have inRange := (List.getElem?_eq_some_iff.mp found).1
    apply (List.getElem?_inj (by rwa [List.length_map]) distinct).mp
    rw [List.getElem?_map, List.getElem?_map, found, found']
    exact congrArg some same
  rw [sameName, sameName']
  apply reports_filenames_differ short reported reported'
  rwa [sameUri, sameUri']

/-- The files at some time, and before the program. -/
structure FilesIsolated (environment : Environment) (before : Bytes → Option Bytes)
    (session : Session) : Prop where
  others : ∀ name, (∀ job ∈ session.jobs, job.filename ≠ name) →
    session.files name = before name
  unbuffered : ∀ ticket, session.jobs.length ≤ ticket → session.buffers ticket = []
  stored : session.content.length < 2 ^ 64 → ∀ ticket job, session.jobs[ticket]? = some job →
    session.output ticket job =
      ((session.steps environment job).take (session.progress ticket)).foldl
        DownloadStep.onOutput { file := before job.filename }

namespace FilesIsolated

theorem read (holds : before.FilesIsolated environment files)
    (isolated : before.Isolated environment host) (crawling : before.main = .crawling)
    (ch : UInt8) : (before.read ch).FilesIsolated environment files := by
  have crawls := isolated.crawls.read crawling ch
  obtain ⟨crawler, made, stepped, _, jobs, _, same⟩ := isolated.crawls.read_spec ch
  have sameHost : crawler.host = before.crawler.host := HtmlCrawler.step_host stepped
  have old : ∀ job ∈ before.jobs, job ∈ before.jobs ++ made :=
    fun job member => List.mem_append_left made member
  rw [same] at crawls ⊢
  constructor
  case others =>
    intro name unnamed
    simp only [Session.jobs, jobs] at unnamed
    exact holds.others name fun job member => unnamed job (old job member)
  case unbuffered =>
    intro ticket new
    simp only [Session.jobs, jobs, List.length_append] at new
    exact holds.unbuffered ticket (Nat.le_of_add_right_le new)
  case stored =>
    intro short ticket job found
    have shortBefore : before.content.length < 2 ^ 64 := by
      simp only [List.length_append] at short
      omega
    have isJob : (before.jobs ++ made)[ticket]? = some job := by
      rw [← jobs]
      exact found
    simp only [steps, sameHost]
    by_cases old : ticket < before.jobs.length
    · rw [List.getElem?_append_left old] at isJob
      exact holds.stored shortBefore ticket job isJob
    · have new := Nat.not_lt.mp old
      rw [isolated.unstarted_new new, Stream'.Seq.take_zero]
      suffices untouched : before.files job.filename = files job.filename by
        simp only [output, untouched, holds.unbuffered ticket new]
        rfl
      apply holds.others
      intro job' member
      obtain ⟨ticket', found'⟩ := List.mem_iff_getElem?.mp member
      have inRange := (List.getElem?_eq_some_iff.mp found').1
      have isJob' : crawler.downloads.jobs[ticket']? = some job' := by
        rw [jobs, List.getElem?_append_left inRange]
        exact found'
      apply crawls.filenames_differ short isJob' found
      omega

theorem work (holds : before.FilesIsolated environment files)
    (isolated : before.Isolated environment host) {worker ticket : Nat} {job : DownloadJob}
    (enabled : before.Enabled environment (.work worker ticket job)) :
    (before.work environment ticket job).FilesIsolated environment files := by
  obtain ⟨running, at_job, more⟩ := enabled
  have at_job : before.pool.At worker (.busy .running ticket job) := at_job
  have isJob := isolated.job_of_at at_job
  obtain ⟨step, next⟩ := Option.ne_none_iff_exists'.mp more
  rw [before.work_eq next]
  constructor
  case others =>
    intro name unnamed
    have different : name ≠ job.filename :=
      Ne.symm (unnamed job (List.mem_of_getElem? isJob))
    exact (Function.update_of_ne different ..).trans (holds.others name unnamed)
  case unbuffered =>
    intro other new
    have different : other ≠ ticket := by
      rintro rfl
      exact absurd (List.getElem?_eq_some_iff.mp isJob).1 (Nat.not_lt.mpr new)
    exact (Function.update_of_ne different ..).trans (holds.unbuffered other new)
  case stored =>
    intro short other job' found
    by_cases same : other = ticket
    · subst same
      cases isJob.symm.trans found
      have progress : (before.advance other job step).progress other = before.progress other + 1 :=
        Function.update_self ..
      have written : (before.advance other job step).output other job =
          step.onOutput (before.output other job) := by
        simp only [output, advance, updateOutput, Function.update_self]
        rfl
      rw [progress, written, holds.stored short other job isJob]
      change _ = ((before.steps environment job).take (before.progress other + 1)).foldl _ _
      rw [Stream'.Seq.take_add_one_of_get? next, List.foldl_append]
      rfl
    · have different : job'.filename ≠ job.filename :=
        isolated.crawls.filenames_differ short found isJob same
      have progress : (before.advance ticket job step).progress other = before.progress other :=
        Function.update_of_ne same ..
      have kept : (before.advance ticket job step).output other job' =
          before.output other job' := by
        simp [output, advance, updateOutput, updateRecord, different, same]
      rw [progress, kept]
      exact holds.stored short other job' found

end FilesIsolated

theorem Reachable.filesIsolated (reachable : session.Reachable environment host tlimit files) :
    session.FilesIsolated environment files := by
  induction reachable with
  | start started =>
      rw [started]
      refine ⟨fun _ _ => rfl, fun _ _ => rfl, fun _ ticket job found => ?_⟩
      simp [Session.new, jobs, HtmlCrawler.new] at found
  | step reached action _ enabled holds =>
      have isolated : Isolated environment host _ := Reachable.isolated reached
      cases action with
      | chunk udata => exact ⟨holds.others, holds.unbuffered, holds.stored⟩
      | read ch => exact holds.read isolated enabled.2 ch
      | work worker ticket job => exact holds.work isolated enabled
      | pool action => exact ⟨holds.others, holds.unbuffered, holds.stored⟩

/-- In every interleaving, when a download has ended, its record has the checksum and the
size of what curl has delivered to it and the name of a file of its own, which has a
beginning of that or was not opened.  If the download has succeeded the file has all of it,
but for what was left in the buffer when the file was closed and did not get into it.  No
download touches the file of the index page. -/
theorem records_describe_files (documented : environment.zlib.Documented)
    (shortData : ∀ dl, ∀ data ∈ (environment.perform dl).delivered, data.length < 2 ^ 32)
    (reachable : session.Reachable environment host tlimit files)
    (short : session.content.length < 2 ^ 64) :
    session.files (bytes "./index.html") = files (bytes "./index.html") ∧
    ∀ ticket job, session.jobs[ticket]? = some job → ticket ∈ session.pool.completed →
      ∃ uri, downloadUri session.crawler.host job.uriStr = .ok uri ∧
        let transfer := environment.perform { mUri := uri, mFilename := job.filename }
        session.crawler.downloads.uriRecords[job.record]? =
          some (job.uriStr, transfer.record job.filename) ∧
        transfer.Stored (files job.filename) (session.files job.filename) := by
  have isolated := reachable.isolated
  have filesIsolated := reachable.filesIsolated
  constructor
  · apply filesIsolated.others
    intro job member
    exact downloadFilename_ne_index job.line job.column
  · intro ticket job found completed
    obtain ⟨ended, sound⟩ := isolated.finished ticket job found completed
    obtain ⟨uri, parsed, ends, intact, output⟩ :=
      downloadSteps_onOutput { file := files job.filename } ended sound
    refine ⟨uri, parsed, ?_, ?_⟩
    · have made := isolated.written_of_completed found completed
      rw [download_of_intact documented shortData parsed rfl ends intact] at made
      rw [isolated.crawls.record_eq found, isolated.record ticket job found,
        ← Except.ok.inj made]
      rfl
    · have kept : session.output ticket job = _ := filesIsolated.stored short ticket job found
      have stored := (environment.fetch { mUri := uri, mFilename := job.filename }).stored
        { file := files job.filename }
      change Transfer.Stored _ _ (session.output ticket job).file
      rw [kept]
      exact output ▸ stored

end Session

/-- The download has succeeded, and its file is short of a byte. -/
theorem records_describe_files_broken : ∃ session : Session, session.pool.completed = [0] ∧
    session.files (downloadFilename 1 9) = some (bytes "Wikipedi") ∧
    session.files (bytes "./index.html") = none ∧
    ∀ ticket job, session.jobs[ticket]? = some job → ticket ∈ session.pool.completed →
      ∃ uri, downloadUri session.crawler.host job.uriStr = .ok uri ∧
        let transfer := brokenEnvironment.perform { mUri := uri, mFilename := job.filename }
        session.crawler.downloads.uriRecords[job.record]? =
          some (job.uriStr, transfer.record job.filename) ∧
        transfer.Stored none (session.files job.filename) := by
  let job : DownloadJob := { uriStr := bytes "/x", line := 1, column := 9, record := 0 }
  have observed : ((sessionTransition brokenEnvironment).run (.new (bytes "h") 1 fun _ => none)
      (.chunk {} :: (bytes "<a href='/x'").map SessionAction.read ++
        [.pool (.push 0 job none), .pool (.grow 0 0 0 0), .pool (.enterLoop 0),
          .pool (.invoke 0 0 job)] ++
        List.replicate 13 (.work 0 0 job) ++ [.pool (.complete 0 0 job)])).map
      (fun session => (session.content.length, session.pool.completed,
        session.files (downloadFilename 1 9))) =
        some (12, [0], some (bytes "Wikipedi")) := by
    decide +kernel
  obtain ⟨session, ran, same⟩ := Option.map_eq_some_iff.mp observed
  obtain ⟨length, same⟩ := Prod.mk.inj same
  obtain ⟨completed, file⟩ := Prod.mk.inj same
  have short : session.content.length < 2 ^ 64 := by
    rw [length]
    decide
  have documented : brokenEnvironment.zlib.Documented := standardAdler32_documented
  have shortData : ∀ dl, ∀ data ∈ (brokenEnvironment.perform dl).delivered,
      data.length < 2 ^ 32 := by
    intro dl
    change ∀ data ∈ brokenFetch.delivered, data.length < 2 ^ 32
    decide
  have reachable : session.Reachable brokenEnvironment (bytes "h") 1 fun _ => none :=
    Transition.Reachable.run (.start rfl) ran
  have described := Session.records_describe_files documented shortData reachable short
  exact ⟨session, completed, file, described⟩

end FastCrawl
