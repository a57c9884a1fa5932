import FastCrawl.Program.Waiting
import FastCrawl.Uri.Split

namespace FastCrawl

/-! How the process can end while the program runs.  Two assertions can fail: that the port
of a URI is a number of 16 bits, which the thread that downloads it checks, and that
`curl_write` finds pointers in its userdata.  If it finds others than were put there, what
it does has no meaning. -/

/-- The text names a port that is no port number. -/
def PortOverflows (text : Bytes) : Prop :=
  ¬BrokenFragment text ∧ ¬(UriParts.split text).PortFits

variable {environment : Environment} {host : Bytes} {tlimit : UInt64}
  {files : Bytes → Option Bytes}

theorem downloadUri_eq_error {mHost text : Bytes} {failure : AssertionFailure} :
    downloadUri mHost text = .error failure ↔
      failure = .portExtraction ∧ PortOverflows text := by
  rw [downloadUri, parse_eq, PortOverflows]
  generalize UriParts.split text = parts
  split_ifs with broken fits
  · simp [Except.map, broken]
  · simp [Except.map, fits]
  · simp [Except.map, broken, fits, eq_comm]

theorem parse_eq_error {text : Bytes} {failure : AssertionFailure} :
    Uri.parse text = .error failure ↔ failure = .portExtraction ∧ PortOverflows text := by
  rw [parse_eq, PortOverflows]
  generalize UriParts.split text = parts
  split_ifs with broken fits
  · simp [broken]
  · simp [fits]
  · simp [broken, fits, eq_comm]

namespace Session

variable {before session : Session}

/-- A download has got past the storing of its file name for a link whose port is no port
number. -/
def PortReached (session : Session) : Prop :=
  ∃ ticket job, session.jobs[ticket]? = some job ∧ PortOverflows job.uriStr ∧
    1 < session.progress ticket

/-- A failure is that of the last step, and each call of `curl_write` before it has found
its userdata intact. -/
structure Accounted (environment : Environment) (host : Bytes) (session : Session) : Prop where
  isolated : session.Isolated environment host
  calls : ∀ udata ∈ session.found, udata.failure = none ∨ udata.failure = session.failure
  links : session.PortReached → session.failure = some (.assertion .portExtraction)
  cause : ∀ reason, session.failure = some reason →
    (∃ udata ∈ session.found, udata.failure = some reason) ∨
      reason = .assertion .portExtraction ∧ session.PortReached
  reporting : session.main = .reporting → session.failure = none

namespace Accounted

theorem calls_intact (accounted : before.Accounted environment host)
    (running : before.failure = none) {udata : CurlUserdata} (called : udata ∈ before.found) :
    udata.failure = none :=
  (accounted.calls udata called).elim id fun same => same.trans running

theorem not_reached (accounted : before.Accounted environment host)
    (running : before.failure = none) : ¬before.PortReached :=
  fun reached => absurd (running.symm.trans (accounted.links reached)) (by simp)

theorem new : (Session.new host tlimit files).Accounted environment host where
  isolated := .new
  calls _ called := absurd called List.not_mem_nil
  links := by
    rintro ⟨ticket, job, found, _⟩
    simp [Session.new, jobs, HtmlCrawler.new] at found
  cause _ failed := by cases failed
  reporting main := by cases main

theorem chunk (accounted : before.Accounted environment host) (udata : CurlUserdata)
    (enabled : before.Enabled environment (.chunk udata)) :
    (before.chunk udata).Accounted environment host := by
  obtain ⟨running, inDownload⟩ := enabled
  refine ⟨accounted.isolated.chunk inDownload running udata, ?calls,
    fun reached => absurd reached (accounted.not_reached running), ?cause, nofun⟩
  case calls =>
    intro other called
    rcases List.mem_append.mp called with earlier | this
    · exact .inl (accounted.calls_intact running earlier)
    · rw [List.mem_singleton.mp this]
      exact .inr rfl
  case cause =>
    intro reason failed
    exact .inl ⟨udata, List.mem_append_right _ (List.mem_singleton_self _), failed⟩

theorem read (accounted : before.Accounted environment host) (ch : UInt8)
    (enabled : before.Enabled environment (.read ch)) :
    (before.read ch).Accounted environment host := by
  obtain ⟨running, crawling⟩ := enabled
  have isolated := accounted.isolated.read crawling ch
  obtain ⟨crawler, made, stepped, _, jobs, _, same⟩ := accounted.isolated.crawls.read_spec ch
  have unreached := accounted.not_reached running
  rw [same] at isolated ⊢
  refine ⟨isolated, accounted.calls, ?links, fun reason failed => ?cause, fun _ => running⟩
  case links =>
    rintro ⟨ticket, job, found, overflows, past⟩
    change 1 < before.progress ticket at past
    refine absurd ⟨ticket, job, ?_, overflows, past⟩ unreached
    -- A job that is new has not made a step.
    have old : ticket < before.jobs.length := by
      by_contra new
      have none := accounted.isolated.unstarted_new (Nat.le_of_not_lt new)
      omega
    rwa [Session.jobs, jobs, List.getElem?_append_left old] at found
  case cause => exact absurd (running.symm.trans failed) (by simp)

theorem work (accounted : before.Accounted environment host) {worker ticket : Nat}
    {job : DownloadJob} (enabled : before.Enabled environment (.work worker ticket job)) :
    (before.work environment ticket job).Accounted environment host := by
  have isolated := accounted.isolated.work enabled
  have notReporting : before.main ≠ .reporting := fun reporting =>
    not_enabled_of_reporting accounted.isolated.crawls.submitted reporting _ enabled
  obtain ⟨running, at_job, more⟩ := enabled
  have isJob := accounted.isolated.job_of_at at_job
  obtain ⟨step, next⟩ := Option.ne_none_iff_exists'.mp more
  have unreached := accounted.not_reached running
  have progress : (before.advance ticket job step).progress ticket = before.progress ticket + 1 :=
    Function.update_self ..
  rw [before.work_eq next] at isolated ⊢
  refine ⟨isolated, ?calls, ?links, ?cause, fun reporting => absurd reporting notReporting⟩
  case calls =>
    intro udata called
    rcases List.mem_append.mp called with earlier | this
    · exact .inl (accounted.calls_intact running earlier)
    · cases step with
      | write chunk =>
          rw [List.mem_singleton.mp this]
          exact .inr rfl
      | _ => contradiction
  case links =>
    rintro ⟨other, job', found, overflows, past⟩
    by_cases same : other = ticket
    · subst same
      cases isJob.symm.trans found
      have last : before.progress other = 1 := by
        have first : ¬1 < before.progress other := fun past =>
          unreached ⟨other, job, isJob, overflows, past⟩
        omega
      have failed : downloadUri before.crawler.host job.uriStr = .error .portExtraction :=
        downloadUri_eq_error.mpr ⟨rfl, overflows⟩
      rw [steps, downloadSteps_get?_fail.mpr ⟨failed, last⟩] at next
      cases next
      rfl
    · have kept : (before.advance ticket job step).progress other = before.progress other :=
        Function.update_of_ne same ..
      exact absurd ⟨other, job', found, overflows, kept ▸ past⟩ unreached
  case cause =>
    intro reason failed
    cases step with
    | write chunk =>
        exact .inl ⟨chunk.userdata, List.mem_append_right _ (List.mem_singleton_self _), failed⟩
    | fail failure =>
        cases failed
        obtain ⟨parsed, second⟩ := downloadSteps_get?_fail.mp next
        obtain ⟨rfl, overflows⟩ := downloadUri_eq_error.mp parsed
        refine .inr ⟨rfl, ticket, job, isJob, overflows, ?_⟩
        rw [progress, second]
        exact Nat.lt_succ_self 1
    | _ => cases failed

theorem effect (accounted : before.Accounted environment host) {action : SessionAction}
    (enabled : before.Enabled environment action) :
    (before.effect environment action).Accounted environment host := by
  cases action with
  | chunk udata => exact accounted.chunk udata enabled
  | read ch => exact accounted.read ch enabled
  | work worker ticket job => exact accounted.work enabled
  | pool action =>
      exact ⟨accounted.isolated.effect enabled, accounted.calls, accounted.links,
        accounted.cause, fun _ => enabled.1⟩

end Accounted

theorem Reachable.accounted (reachable : session.Reachable environment host tlimit files) :
    session.Accounted environment host := by
  refine Transition.Reachable.invariant (fun session starts => ?_)
    (fun session action accounted enabled => accounted.effect enabled) reachable
  rw [starts]
  exact .new

/-- The process has ended: on a link whose port is no port number, or in a call of
`curl_write` that did not find its userdata intact. -/
inductive Fails (session : Session) : Prop where
  | link {job : DownloadJob} (failed : session.failure = some (.assertion .portExtraction))
      (found : job ∈ session.jobs) (overflows : PortOverflows job.uriStr) : Fails session
  | userdata {udata : CurlUserdata} (failed : session.failure = udata.failure)
      (called : udata ∈ session.found) (broken : ¬udata.Intact) : Fails session

theorem Accounted.fails (accounted : session.Accounted environment host)
    (failed : session.failure ≠ none) : session.Fails := by
  obtain ⟨reason, failed⟩ := Option.ne_none_iff_exists'.mp failed
  rcases accounted.cause reason failed with ⟨udata, called, broken⟩ |
      ⟨rfl, ticket, job, found, overflows, _⟩
  · refine .userdata (failed.trans broken.symm) called fun intact => ?_
    rw [CurlUserdata.failure_eq_none.mpr intact] at broken
    contradiction
  · exact .link failed (List.mem_of_getElem? found) overflows

theorem Fails.failed (fails : session.Fails) : session.failure ≠ none := by
  cases fails with
  | link failed => simp [failed]
  | userdata failed _ broken =>
      intro running
      exact broken (CurlUserdata.failure_eq_none.mp (failed.symm.trans running))

/-- The runs from the start of the program: no crawler, or one for the host of the URI. -/
theorem reachable_of_start {uriStr : Bytes}
    (reachable : (sessionTransition environment).Reachable (· = .start uriStr tlimit files)
      session) :
    (∃ uri, Uri.parse uriStr = .ok uri ∧ session.Reachable environment uri.host tlimit files) ∨
      ∃ failure, Uri.parse uriStr = .error failure ∧ session = .start uriStr tlimit files := by
  cases parsed : Uri.parse uriStr with
  | ok uri =>
      refine .inl ⟨uri, rfl, ?_⟩
      have same : start uriStr tlimit files = .new uri.host tlimit files := by
        rw [start, parsed]
      rwa [same] at reachable
  | error failure =>
      refine .inr ⟨failure, rfl, ?_⟩
      have same : (sessionTransition environment).Reachable
          (fun later => later = .start uriStr tlimit files) session := reachable
      refine same.invariant (fun _ started => started) (fun later action same enabled => ?_)
      have failed : later.failure ≠ none := by simp [same, start, parsed]
      cases action with
      | chunk udata => exact absurd enabled.1 failed
      | read ch => exact absurd enabled.1 failed
      | work worker ticket job => exact absurd enabled.1 failed
      | pool action => exact absurd enabled.1 failed

theorem Accounted.link_fits (accounted : session.Accounted environment host)
    (reporting : session.main = .reporting) {ticket : Nat} {job : DownloadJob}
    (found : session.jobs[ticket]? = some job) (invoked : ticket ∈ session.pool.invoked) :
    ¬PortOverflows job.uriStr := by
  intro overflows
  have taken := accounted.isolated.conserved.invokedTaken ticket invoked
  obtain ⟨ended, _⟩ := accounted.isolated.finished ticket job found
    (accounted.isolated.completed_of_reporting reporting taken)
  have parsed : downloadUri session.crawler.host job.uriStr = .error .portExtraction :=
    downloadUri_eq_error.mpr ⟨rfl, overflows⟩
  have fails : (session.steps environment job).get? 1 = some (.fail .portExtraction) :=
    downloadSteps_get?_fail.mpr ⟨parsed, rfl⟩
  refine accounted.not_reached (accounted.reporting reporting) ⟨ticket, job, found, overflows, ?_⟩
  by_contra early
  have none : (session.steps environment job).get? 1 = none :=
    Stream'.Seq.terminated_stable _ (Nat.le_of_not_lt early) ended
  exact absurd (none.symm.trans fails) (by simp)

/-- What the failure of a session that started with a URI says of its past. -/
structure FailsFor (uriStr : Bytes) (session : Session) : Prop where
  port : session.failure = some (.assertion .portExtraction) ↔
    PortOverflows uriStr ∨ session.PortReached
  userdata : session.failure = some (.assertion .userdataIsNull) ↔
    ∃ udata ∈ session.found, udata.HasNull
  seekAttr : session.failure ≠ some (.assertion .seekAttrIsEnd)
  undefined : session.failure = some .undefined ↔
    ∃ udata ∈ session.found, ¬udata.HasNull ∧ ¬udata.Intact
  reporting : session.main = .reporting → session.failure = none ∧
    (∀ udata ∈ session.found, udata.Intact) ∧
    ∀ ticket job, session.jobs[ticket]? = some job → ticket ∈ session.pool.invoked →
      ¬PortOverflows job.uriStr

/-- All failures but that of the port are failures of a call of `curl_write`. -/
theorem Accounted.failed_call (accounted : session.Accounted environment host)
    {reason : NoReturn} (notPort : reason ≠ .assertion .portExtraction) :
    session.failure = some reason ↔ ∃ udata ∈ session.found, udata.failure = some reason := by
  constructor
  · intro failed
    exact (accounted.cause reason failed).resolve_right fun port => notPort port.1
  · rintro ⟨udata, called, broken⟩
    have notIntact : udata.failure ≠ none := by simp [broken]
    exact ((accounted.calls udata called).resolve_left notIntact).symm.trans broken

theorem Accounted.failsFor (accounted : session.Accounted environment host) {uriStr : Bytes}
    (fits : ¬PortOverflows uriStr) : session.FailsFor uriStr where
  port := by
    constructor
    · intro failed
      rcases accounted.cause _ failed with ⟨udata, _, broken⟩ | ⟨_, reached⟩
      · cases (CurlUserdata.failure_eq_assertion.mp broken).1
      · exact .inr reached
    · rintro (overflows | reached)
      · exact absurd overflows fits
      · exact accounted.links reached
  userdata := by
    rw [accounted.failed_call (by simp)]
    simp only [CurlUserdata.failure_eq_assertion, true_and]
  seekAttr := by
    rw [ne_eq, accounted.failed_call (by simp)]
    rintro ⟨udata, _, broken⟩
    cases (CurlUserdata.failure_eq_assertion.mp broken).1
  undefined := by
    rw [accounted.failed_call (by simp)]
    simp only [CurlUserdata.failure_eq_undefined]
  reporting := by
    intro reporting
    have running := accounted.reporting reporting
    refine ⟨running, fun udata called => ?_, fun ticket job => accounted.link_fits reporting⟩
    exact CurlUserdata.failure_eq_none.mp (accounted.calls_intact running called)

end Session

end FastCrawl
