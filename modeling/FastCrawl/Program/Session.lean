import FastCrawl.Crawler.DownloadSteps
import FastCrawl.Crawler.Frame
import FastCrawl.Library.Simulation
import FastCrawl.ThreadPool.Pool

namespace FastCrawl

/-! The program, from the start of the index download to the report.  The main thread
crawls the index page byte by byte and hands a job to the pool for each new URI;
the pooled threads download the contents meanwhile. -/

/-- Where the main thread stands: before the first chunk of the index page; between two
bytes or two chunks; in `process_uri` with a record made, about to call `run`; in
`run`, with the job queued; past a thread that could not be started; in `wait`; or
past it, about to report. -/
inductive MainPc where
  | fetching
  | crawling
  | submitting (job : DownloadJob)
  | growing
  | threw
  | waiting
  | reporting
deriving Repr, DecidableEq

/-- After a byte, which makes the jobs `made`. -/
def MainPc.afterByte : List DownloadJob → MainPc
  | [] => .crawling
  | job :: _ => .submitting job

/-- The download of the index page is still going on. -/
def MainPc.InDownload (main : MainPc) : Prop := main = .fetching ∨ main = .crawling

instance (main : MainPc) : Decidable main.InDownload := inferInstanceAs (Decidable (_ ∨ _))

theorem MainPc.InDownload.not_ended {main : MainPc} (inDownload : main.InDownload) :
    main ≠ .waiting ∧ main ≠ .reporting := by
  rcases inDownload with rfl | rfl
  · exact ⟨nofun, nofun⟩
  · exact ⟨nofun, nofun⟩

/-- The program.  `buffers` has what the output streams have not put into their files,
and `progress` how many steps of the download of each job have been made, jobs being
numbered as in the queue.  The program does not keep `content`, which is what has been
crawled, and `found`, what the calls of `curl_write` have found of their userdata.  After
a `failure` there are no steps. -/
structure Session where
  crawler : HtmlCrawler
  pool : PoolSystem DownloadJob
  main : MainPc := .fetching
  files : Bytes → Option Bytes
  buffers : Nat → Bytes := fun _ => []
  progress : Nat → Nat := fun _ => 0
  content : Bytes := []
  found : List CurlUserdata := []
  failure : Option NoReturn := none

/-- curl calls `curl_write` with a chunk of the index page, the main thread crawls a byte
of it, a pooled thread makes a step of its download, or the main thread or a pooled one
makes a step in the pool. -/
inductive SessionAction where
  | chunk (udata : CurlUserdata)
  | read (ch : UInt8)
  | work (worker ticket : Nat) (job : DownloadJob)
  | pool (action : PoolAction DownloadJob)

namespace Session

/-- `html_crawler(uri.host, tlimit)`, in a directory that may have files. -/
def new (host : Bytes) (tlimit : UInt64) (files : Bytes → Option Bytes) : Session where
  crawler := .new host
  pool := .new DownloadJob 20 tlimit
  files

/-- `main_impl`: the URI is parsed before there is a crawler. -/
def start (uriStr : Bytes) (tlimit : UInt64) (files : Bytes → Option Bytes) : Session :=
  match Uri.parse uriStr with
  | .error failure => { new [] tlimit files with failure := some (.assertion failure) }
  | .ok uri => new uri.host tlimit files

variable (environment : Environment) (session : Session)

def steps (job : DownloadJob) : Stream'.Seq DownloadStep :=
  downloadSteps environment session.crawler.host job.uriStr job.line job.column

/-- `curl_write`, up to the first byte. -/
def chunk (udata : CurlUserdata) : Session :=
  { session with
    main := .crawling
    found := session.found ++ [udata]
    failure := udata.failure }

/-- `html_crawler::operator()` for one byte of a chunk, up to the call of `run`. -/
def read (ch : UInt8) : Session :=
  match session.crawler.step sAttributeMap ch with
  | .error failure => { session with failure := some (.assertion failure) }
  | .ok crawler =>
      { session with
        crawler
        content := session.content ++ [ch]
        main := .afterByte
          (crawler.downloads.jobs.drop session.crawler.downloads.jobs.length) }

def updateRecord (node : Nat) (step : DownloadStep) : Session :=
  { session with
    crawler.downloads.uriRecords := session.crawler.downloads.uriRecords.modify node
      fun entry => (entry.1, step.onRecord entry.2) }

/-- The file of a download and the buffer of its stream. -/
def output (ticket : Nat) (job : DownloadJob) : Output where
  file := session.files job.filename
  buffer := session.buffers ticket

def updateOutput (ticket : Nat) (job : DownloadJob) (step : DownloadStep) : Session :=
  let output := step.onOutput (session.output ticket job)
  { session with
    files := Function.update session.files job.filename output.file
    buffers := Function.update session.buffers ticket output.buffer }

def advance (ticket : Nat) (job : DownloadJob) (step : DownloadStep) : Session :=
  { (session.updateRecord job.record step).updateOutput ticket job step with
    progress := Function.update session.progress ticket (session.progress ticket + 1)
    found := session.found ++ step.found
    failure := step.failure }

def work (ticket : Nat) (job : DownloadJob) : Session :=
  match (session.steps environment job).get? (session.progress ticket) with
  | none => session
  | some step => session.advance ticket job step

/-- What the program does with the pool: `run` and `shutdown` are called by the main
thread only, and a job is complete after all steps of its download. -/
def Takes : PoolAction DownloadJob → Prop
  | .push client job _ => client = 0 ∧ session.main = .submitting job
  | .reject client job => client = 0 ∧ session.main = .submitting job
  | .grow client _ _ _ => client = 0 ∧ session.main = .growing
  | .startThread .. | .setSize .. => False
  | .callShutdown client => client = 0 ∧ session.main.InDownload
  | .signalShutdown client _ => client = 0 ∧ session.main = .waiting
  | .joinThreads client _ => client = 0 ∧ session.main = .waiting
  | .complete _ ticket job =>
      (session.steps environment job).TerminatedAt (session.progress ticket)
  | .enterLoop _ | .invoke .. | .relock .. | .wakeSpuriously _ => True

instance : ∀ action, Decidable (session.Takes environment action)
  | .push .. => inferInstanceAs (Decidable (_ ∧ _))
  | .reject .. => inferInstanceAs (Decidable (_ ∧ _))
  | .grow .. => inferInstanceAs (Decidable (_ ∧ _))
  | .startThread .. => inferInstanceAs (Decidable False)
  | .setSize .. => inferInstanceAs (Decidable False)
  | .callShutdown _ => inferInstanceAs (Decidable (_ ∧ _))
  | .signalShutdown .. => inferInstanceAs (Decidable (_ ∧ _))
  | .joinThreads .. => inferInstanceAs (Decidable (_ ∧ _))
  | .complete .. => inferInstanceAs (Decidable (Stream'.Seq.TerminatedAt _ _))
  | .enterLoop _ => inferInstanceAs (Decidable True)
  | .invoke .. => inferInstanceAs (Decidable True)
  | .relock .. => inferInstanceAs (Decidable True)
  | .wakeSpuriously _ => inferInstanceAs (Decidable True)

/-- `process_uri` ignores what `run` returns, but not what it throws. -/
def mainAfter : PoolAction DownloadJob → MainPc
  | .push .. => .growing
  | .reject .. => .crawling
  | .grow _ _ tbusy created =>
      if created = (session.pool.pool.growCount tbusy).toNat then .crawling else .threw
  | .callShutdown _ => .waiting
  | .signalShutdown .. => if session.pool.pool.shutdown then .reporting else .waiting
  | .joinThreads .. => .reporting
  | _ => session.main

def Enabled (session : Session) : SessionAction → Prop
  | .chunk _ => session.failure = none ∧ session.main.InDownload
  | .read _ => session.failure = none ∧ session.main = .crawling
  | .work worker ticket job =>
      session.failure = none ∧
        session.pool.pool.threadList[worker]? = some (.busy .running ticket job) ∧
        ¬(session.steps environment job).TerminatedAt (session.progress ticket)
  | .pool action =>
      session.failure = none ∧ session.Takes environment action ∧ session.pool.Enabled action

instance : ∀ action, Decidable (session.Enabled environment action)
  | .chunk _ => inferInstanceAs (Decidable (_ ∧ _))
  | .read _ => inferInstanceAs (Decidable (_ ∧ _))
  | .work .. => inferInstanceAs (Decidable (_ ∧ _ ∧ ¬Stream'.Seq.TerminatedAt _ _))
  | .pool _ => inferInstanceAs (Decidable (_ ∧ _ ∧ _))

def effect (session : Session) : SessionAction → Session
  | .chunk udata => session.chunk udata
  | .read ch => session.read ch
  | .work _ ticket job => session.work environment ticket job
  | .pool action =>
      { session with pool := session.pool.effect action, main := session.mainAfter action }

end Session

def sessionTransition (environment : Environment) : Transition Session SessionAction where
  Enabled := Session.Enabled environment
  effect := Session.effect environment

instance (environment : Environment) (session : Session) (action : SessionAction) :
    Decidable ((sessionTransition environment).Enabled session action) :=
  inferInstanceAs (Decidable (session.Enabled environment action))

/-- The states of the runs that start with a given host, thread limit and directory. -/
abbrev Session.Reachable (environment : Environment) (host : Bytes) (tlimit : UInt64)
    (files : Bytes → Option Bytes) (session : Session) : Prop :=
  (sessionTransition environment).Reachable (· = .new host tlimit files) session

namespace Session

variable {environment : Environment} {session : Session} {host : Bytes} {tlimit : UInt64}
  {files : Bytes → Option Bytes}

theorem read_pool (session : Session) (ch : UInt8) : (session.read ch).pool = session.pool := by
  unfold read
  split <;> rfl

theorem work_pool (session : Session) (ticket : Nat) (job : DownloadJob) :
    (session.work environment ticket job).pool = session.pool := by
  unfold work
  split <;> rfl

/-- The pool does not see what runs in its jobs. -/
theorem pool_simulation (environment : Environment) :
    Transition.Simulation (sessionTransition environment) (poolTransition DownloadJob)
      (fun session action answer => action = .pool answer ∧ session.Takes environment answer)
      (fun session system => session.pool = system) where
  step := by
    intro session system action related enabled
    cases action with
    | chunk udata => exact .inl related
    | read ch => exact .inl ((session.read_pool ch).trans related)
    | work worker ticket job => exact .inl ((session.work_pool ticket job).trans related)
    | pool action =>
        obtain ⟨_, takes, enabled⟩ := enabled
        exact .inr ⟨action, ⟨rfl, takes⟩, related ▸ enabled,
          congrArg (PoolSystem.effect · action) related⟩

theorem Reachable.pool (reachable : session.Reachable environment host tlimit files) :
    (poolTransition DownloadJob).Reachable PoolSystem.Start session.pool := by
  have reached : ∃ system, (poolTransition DownloadJob).Reaches PoolSystem.Start
      (fun _ _ => True) system ∧ session.pool = system := by
    refine (pool_simulation environment).reaches ?_ (fun _ _ _ _ _ _ _ => trivial) reachable
    intro session starts
    exact ⟨session.pool, ⟨20, tlimit, congrArg Session.pool starts⟩, rfl⟩
  obtain ⟨system, reached, rfl⟩ := reached
  exact reached

end Session

end FastCrawl
