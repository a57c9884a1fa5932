import FastCrawl.Crawler.Download
import FastCrawl.Library.Sequence

namespace FastCrawl

open Lifetimes

/-! A download as the steps of it that others can see: the stores to the members of
its record, and what it does to its output file.  A transfer that does not end is one
that goes on with steps for ever. -/

/-- A store to one member of a record. -/
inductive RecordStore where
  | filename (value : Bytes)
  | adler32 (value : UInt32)
  | size (value : UInt64)
  | success (value : Bool)
deriving Repr, DecidableEq

def UriRecord.store (record : UriRecord) : RecordStore → UriRecord
  | .filename value => { record with filename := value }
  | .adler32 value => { record with adler32 := value }
  | .size value => { record with size := value }
  | .success value => { record with success := value }

/-- `idle` is a step of curl without a call, `fclose` the end of the scope of the file. -/
inductive DownloadStep where
  | store (member : RecordStore)
  | fopen
  | idle
  | write (chunk : Chunk)
  | fclose (flushed : Nat)
  | fail (failure : AssertionFailure)
deriving Repr, DecidableEq

/-- An output file, and the buffer of the stream that writes it. -/
structure Output where
  file : Option Bytes
  buffer : Bytes := []

namespace Output

variable (output : Output)

/-- The first bytes of the buffer get into the file. -/
def flush (count : Nat) : Output where
  file := some (output.file.getD [] ++ output.buffer.take count)
  buffer := output.buffer.drop count

def fwrite (chunk : Chunk) : Output :=
  { output with buffer := output.buffer ++ chunk.data.take chunk.accepted }.flush chunk.flushed

/-- What `fclose` does not get into the file is lost, and nobody looks at its result. -/
def fclose (flushed : Nat) : Output := { output.flush flushed with buffer := [] }

/-- What has been written, in the file or not. -/
def text : Bytes := output.file.getD [] ++ output.buffer

theorem flush_text (count : Nat) : (output.flush count).text = output.text := by
  simp [flush, text, List.append_assoc]

theorem fwrite_text (chunk : Chunk) :
    (output.fwrite chunk).text = output.text ++ chunk.data.take chunk.accepted := by
  rw [fwrite, flush_text]
  simp [text, List.append_assoc]

theorem foldl_fwrite_text (chunks : List Chunk) :
    (chunks.foldl fwrite output).text =
      output.text ++ (chunks.map fun chunk => chunk.data.take chunk.accepted).flatten := by
  induction chunks generalizing output with
  | nil => simp
  | cons chunk rest ih =>
      rw [List.foldl_cons, ih, fwrite_text, List.append_assoc, List.map_cons, List.flatten_cons]

theorem fclose_file (flushed : Nat) :
    ∃ stored, (output.fclose flushed).file = some stored ∧
      stored ++ output.buffer.drop flushed = output.text := by
  refine ⟨_, rfl, ?_⟩
  simp [text, List.append_assoc]

end Output

/-- The assertions and the uses of pointers in a step. -/
def DownloadStep.failure : DownloadStep → Option NoReturn
  | .fail failure => some (.assertion failure)
  | .write chunk => chunk.userdata.failure
  | _ => none

def DownloadStep.onRecord (record : UriRecord) : DownloadStep → UriRecord
  | .store member => record.store member
  | _ => record

/-- The mode of `fopen` is "wb", so it truncates. -/
def DownloadStep.onOutput (output : Output) : DownloadStep → Output
  | .fopen => { file := some [] }
  | .write chunk => if chunk.userdata.failure = none then output.fwrite chunk else output
  | .fclose flushed => output.fclose flushed
  | _ => output

/-- What a call of `curl_write` finds of its userdata. -/
def DownloadStep.found : DownloadStep → List CurlUserdata
  | .write chunk => [chunk.userdata]
  | _ => []

namespace Transfer

variable (transfer : Transfer)

def eventStep (index : Nat) : DownloadStep :=
  match transfer.event index with
  | none => .idle
  | some chunk => .write chunk

/-- The steps of a transfer; if it does not end, those before `curl_easy_perform`. -/
def steps : List DownloadStep :=
  if transfer.opened then
    .fopen :: match transfer.ends with
      | none => []
      | some count => (List.range count).map transfer.eventStep ++ [.fclose transfer.flushed]
  else []

/-- What is in the file and in the buffer when the file is closed. -/
def written : Output := transfer.chunks.foldl Output.fwrite { file := some [] }

/-- What is still in the buffer then, and does not get into the file. -/
def lost : Bytes := transfer.written.buffer.drop transfer.flushed

/-- What `fwrite` has taken. -/
def accepted : Bytes := (transfer.chunks.map fun chunk => chunk.data.take chunk.accepted).flatten

variable {transfer}

theorem eventStep_onRecord (record : UriRecord) (index : Nat) :
    (transfer.eventStep index).onRecord record = record := by
  unfold eventStep
  split <;> rfl

theorem steps_onRecord (record : UriRecord) :
    transfer.steps.foldl DownloadStep.onRecord record = record := by
  unfold steps
  split
  · split
    · rfl
    · rw [List.foldl_cons, List.foldl_append, List.foldl_map]
      simp only [eventStep_onRecord, List.foldl_fixed]
      rfl
  · rfl

theorem steps_onOutput (ends : transfer.opened = true → transfer.ends ≠ none)
    (intact : transfer.Intact) (output : Output) :
    transfer.steps.foldl DownloadStep.onOutput output =
      if transfer.opened then transfer.written.fclose transfer.flushed else output := by
  unfold steps
  split
  next opened =>
    obtain ⟨count, counted⟩ := Option.ne_none_iff_exists'.mp (ends opened)
    have chunks : transfer.chunks = (List.range count).filterMap transfer.event := by
      rw [Transfer.chunks, if_pos opened, counted]
      rfl
    have events : (List.range count).foldl
        (fun output index => (transfer.eventStep index).onOutput output) { file := some [] } =
          transfer.written := by
      rw [written, chunks, List.foldl_filterMap]
      refine List.foldl_ext _ _ _ fun output index inRange => ?_
      unfold eventStep
      cases event : transfer.event index with
      | none => rfl
      | some chunk =>
          have called : chunk ∈ transfer.chunks :=
            chunks ▸ List.mem_filterMap.mpr ⟨index, inRange, event⟩
          exact if_pos (CurlUserdata.failure_eq_none.mpr (intact chunk called))
    rw [counted, List.foldl_cons, List.foldl_append, List.foldl_map]
    exact congrArg (Output.fclose · transfer.flushed) events
  next => rfl

theorem write_mem_steps {chunk : Chunk} (called : chunk ∈ transfer.chunks) :
    .write chunk ∈ transfer.steps := by
  have opened := opened_of_mem called
  rw [chunks, if_pos opened] at called
  obtain ⟨index, inRange, isChunk⟩ := List.mem_filterMap.mp called
  rw [steps, if_pos opened]
  cases ends : transfer.ends with
  | none => simp [ends] at inRange
  | some count =>
      rw [ends] at inRange
      have isStep : transfer.eventStep index = .write chunk := by rw [eventStep, isChunk]
      have event : .write chunk ∈ (List.range count).map transfer.eventStep :=
        List.mem_map.mpr ⟨index, inRange, isStep⟩
      exact List.mem_cons_of_mem _ (List.mem_append_left _ event)

theorem mem_steps {step : DownloadStep} (member : step ∈ transfer.steps) :
    step = .fopen ∨ step = .idle ∨ (∃ chunk ∈ transfer.chunks, step = .write chunk) ∨
      step = .fclose transfer.flushed := by
  unfold steps at member
  split at member
  next opened =>
    rcases List.mem_cons.mp member with rfl | member
    · exact .inl rfl
    split at member
    next => contradiction
    next count ends =>
      rcases List.mem_append.mp member with event | closing
      · obtain ⟨index, inRange, rfl⟩ := List.mem_map.mp event
        unfold eventStep
        cases called : transfer.event index with
        | none => exact .inr (.inl rfl)
        | some chunk =>
            refine .inr (.inr (.inl ⟨chunk, ?_, rfl⟩))
            rw [chunks, if_pos opened, ends]
            exact List.mem_filterMap.mpr ⟨index, inRange, called⟩
      · exact .inr (.inr (.inr (List.mem_singleton.mp closing)))
  next => contradiction

end Transfer

/-- What curl and the C library promise of a transfer: `fwrite` does not take more than it
is given, and a chunk that it does not take as a whole is the last one and makes curl
return an error. -/
structure Fetch extends Transfer where
  bounded : ∀ chunk ∈ toTransfer.chunks, chunk.accepted ≤ chunk.data.length
  stops : toTransfer.chunks.Pairwise fun earlier _ => earlier.accepted = earlier.data.length
  reported : result = true →
    ∀ chunk ∈ toTransfer.chunks, chunk.accepted = chunk.data.length

namespace Fetch

variable (fetch : Fetch)

/-- Chunks that are taken whole up to the last one are taken up to a place. -/
theorem part_of_stops {chunks : List Chunk}
    (stops : chunks.Pairwise fun earlier _ => earlier.accepted = earlier.data.length) :
    (chunks.map fun chunk => chunk.data.take chunk.accepted).flatten <+:
      (chunks.map Chunk.data).flatten := by
  induction chunks with
  | nil => exact List.prefix_rfl
  | cons chunk rest ih =>
      obtain ⟨whole, stopsRest⟩ := List.pairwise_cons.mp stops
      rw [List.map_cons, List.map_cons, List.flatten_cons, List.flatten_cons]
      cases rest with
      | nil => simpa using List.take_prefix chunk.accepted chunk.data
      | cons next rest =>
          rw [whole next List.mem_cons_self, List.take_length, List.prefix_append_right_inj]
          exact ih stopsRest

theorem accepted_part : fetch.accepted <+: fetch.delivered.flatten :=
  part_of_stops fetch.stops

theorem accepted_eq (success : fetch.result = true) :
    fetch.accepted = fetch.delivered.flatten := by
  apply congrArg List.flatten
  apply List.map_congr_left
  intro chunk member
  rw [fetch.reported success chunk member, List.take_length]

end Fetch

section Stores

variable {zlib : ZlibAdler32}

/-- The size is a member of the last processor, which is destroyed first. -/
def Dproc.stores (proc : Dproc zlib) : List RecordStore :=
  [.size proc.mProcs.mProc.mSize, .adler32 proc.mProc.mChecksum.toUInt32]

theorem Dproc.destroy_eq (proc : Dproc zlib) (record : UriRecord) :
    OnlineDataProcessor.destroy proc record = proc.stores.foldl UriRecord.store record := rfl

def Temporary.stores : Temporary zlib → List RecordStore
  | .adler32 proc => [.adler32 proc.mChecksum.toUInt32]
  | .contentSize proc => [.size proc.mSize]
  | .compound proc => Dproc.stores proc

theorem Temporary.destroy_eq (object : Temporary zlib) (record : UriRecord) :
    object.destroy record = object.stores.foldl UriRecord.store record := by
  cases object with
  | adler32 proc => rfl
  | contentSize proc => rfl
  | compound proc => exact Dproc.destroy_eq proc record

theorem Initialisation.write_eq (initialisation : Initialisation zlib) (record : UriRecord) :
    initialisation.scope.write Temporary.destroy record =
      (initialisation.scope.destroyed.flatMap Temporary.stores).foldl UriRecord.store record := by
  rw [Scope.write, List.foldl_flatMap]
  congr 1
  funext record object
  exact object.destroy_eq record

end Stores

/-- What the downloads run in: zlib, the objects made while a `dproc` is initialised,
and the transfers. -/
structure Environment where
  zlib : ZlibAdler32
  initialisation : Initialisation zlib
  fetch : Download → Fetch

namespace Environment

variable (environment : Environment)

def perform (dl : Download) : Transfer := (environment.fetch dl).toTransfer

/-- curl ends each transfer, in whatever way. -/
def TransfersEnd : Prop := ∀ dl, (environment.perform dl).ends ≠ none

/-- Nothing is written over the userdata of a download while it is used. -/
def UserdataIntact : Prop := ∀ dl, (environment.perform dl).Intact

end Environment

/-- The steps of `html_crawler::download`, as in `HtmlCrawler.download`.  Behind a step
that fails there are no others. -/
def downloadSteps (environment : Environment) (mHost uriStr : Bytes) (line column : UInt64) :
    Stream'.Seq DownloadStep :=
  let filename : DownloadStep := .store (.filename (downloadFilename line column))
  match downloadUri mHost uriStr with
  | .error failure => .ofList [filename, .fail failure]
  | .ok uri =>
      let dl : Download := { mUri := uri, mFilename := downloadFilename line column }
      let transfer := environment.perform dl
      let stores := environment.initialisation.scope.destroyed.flatMap Temporary.stores
      let start := filename :: stores.map .store ++ transfer.steps
      match dl.run environment.perform environment.initialisation.dproc with
      | .ok (success, dproc) =>
          .ofList (start ++ .store (.success success) :: (Dproc.stores dproc).map .store)
      | .error .endless => .ofStream (start ++ₛ transfer.eventStep)
      | .error _ => .ofList start

section Steps

variable {environment : Environment} {mHost uriStr : Bytes} {line column : UInt64}

/-- The steps of a download that has come to its end. -/
theorem downloadSteps_of_ended {count : Nat}
    (ended : (downloadSteps environment mHost uriStr line column).TerminatedAt count)
    (sound : ∀ step ∈ (downloadSteps environment mHost uriStr line column).take count,
      step.failure = none) :
    ∃ uri, downloadUri mHost uriStr = .ok uri ∧
      let transfer := environment.perform
        { mUri := uri, mFilename := downloadFilename line column }
      (transfer.opened = true → transfer.ends ≠ none) ∧ transfer.Intact ∧
      (downloadSteps environment mHost uriStr line column).take count =
        (.store (.filename (downloadFilename line column)) ::
          (environment.initialisation.scope.destroyed.flatMap Temporary.stores).map .store ++
            transfer.steps) ++
        .store (.success transfer.succeeds) ::
          (Dproc.stores (transfer.delivered.foldl OnlineDataProcessor.call
            environment.initialisation.dproc)).map .store := by
  unfold downloadSteps at ended sound ⊢
  cases parsed : downloadUri mHost uriStr with
  | error failure =>
      simp only [parsed] at ended sound
      rw [Stream'.Seq.take_of_ended ended] at sound
      have failed := sound (.fail failure) (by simp)
      contradiction
  | ok uri =>
      simp only [parsed] at ended sound ⊢
      refine ⟨uri, rfl, ?_⟩
      cases ran : Download.run environment.perform
          { mUri := uri, mFilename := downloadFilename line column }
          environment.initialisation.dproc with
      | ok result =>
          obtain ⟨ends, intact, rfl⟩ := Download.run_eq_ok ran
          simp only [ran] at ended ⊢
          exact ⟨ends, intact, Stream'.Seq.take_of_ended ended⟩
      | error reason =>
          exfalso
          simp only [ran] at ended sound
          rcases Download.run_eq_error ran with ⟨rfl, _⟩ | ⟨chunk, called, failed⟩
          · exact Stream'.Seq.not_terminatedAt_ofStream _ ended
          · cases reason with
            | endless => exact chunk.userdata.failure_ne_endless failed
            | _ =>
                rw [Stream'.Seq.take_of_ended ended] at sound
                have unfailed := sound (.write chunk)
                  (List.mem_append_right _ (Transfer.write_mem_steps called))
                exact absurd (failed.symm.trans unfailed) (by simp)

theorem foldl_onRecord_store (members : List RecordStore) (record : UriRecord) :
    (members.map DownloadStep.store).foldl DownloadStep.onRecord record =
      members.foldl UriRecord.store record := List.foldl_map ..

theorem foldl_onOutput_store (members : List RecordStore) (output : Output) :
    (members.map DownloadStep.store).foldl DownloadStep.onOutput output = output := by
  rw [List.foldl_map]
  exact List.foldl_fixed members

/-- Taken together, the stores make the record that the download makes. -/
theorem downloadSteps_onRecord (crawler : HtmlCrawler) (record : UriRecord) {count : Nat}
    (ended : (downloadSteps environment crawler.host uriStr line column).TerminatedAt count)
    (sound : ∀ step ∈ (downloadSteps environment crawler.host uriStr line column).take count,
      step.failure = none) :
    crawler.download environment.zlib environment.perform uriStr line column
        environment.initialisation record =
      .ok (((downloadSteps environment crawler.host uriStr line column).take count).foldl
        DownloadStep.onRecord record) := by
  obtain ⟨uri, parsed, ends, intact, taken⟩ := downloadSteps_of_ended ended sound
  rw [taken]
  simp only [HtmlCrawler.download, parsed, Download.run_of_intact ends intact, List.foldl_append,
    List.foldl_cons, foldl_onRecord_store, Transfer.steps_onRecord, Initialisation.write_eq,
    Dproc.destroy_eq]
  rfl

/-- What a download that has come to its end has made of its file. -/
theorem downloadSteps_onOutput (output : Output) {count : Nat}
    (ended : (downloadSteps environment mHost uriStr line column).TerminatedAt count)
    (sound : ∀ step ∈ (downloadSteps environment mHost uriStr line column).take count,
      step.failure = none) :
    ∃ uri, downloadUri mHost uriStr = .ok uri ∧
      let transfer := environment.perform
        { mUri := uri, mFilename := downloadFilename line column }
      (transfer.opened = true → transfer.ends ≠ none) ∧ transfer.Intact ∧
      ((downloadSteps environment mHost uriStr line column).take count).foldl
          DownloadStep.onOutput output =
        if transfer.opened then transfer.written.fclose transfer.flushed else output := by
  obtain ⟨uri, parsed, ends, intact, taken⟩ := downloadSteps_of_ended ended sound
  refine ⟨uri, parsed, ends, intact, ?_⟩
  rw [taken, List.foldl_append, List.foldl_append, List.foldl_cons, List.foldl_cons,
    foldl_onOutput_store, foldl_onOutput_store]
  exact Transfer.steps_onOutput ends intact _

/-- A step of a download whose link has been parsed. -/
theorem downloadSteps_get? {uri : Uri} (parsed : downloadUri mHost uriStr = .ok uri)
    {place : Nat} {step : DownloadStep}
    (next : (downloadSteps environment mHost uriStr line column).get? place = some step) :
    let transfer := environment.perform
      { mUri := uri, mFilename := downloadFilename line column }
    (∃ member, step = .store member) ∨ step ∈ transfer.steps ∨
      transfer.ends = none ∧ ∃ index, step = transfer.eventStep index := by
  have ofStart {members : List RecordStore} {transfer : Transfer}
      (member : step ∈ .store (.filename (downloadFilename line column)) ::
        members.map .store ++ transfer.steps) :
      (∃ member, step = .store member) ∨ step ∈ transfer.steps := by
    rcases List.mem_append.mp member with stores | performed
    · left
      rcases List.mem_cons.mp stores with rfl | stores
      · exact ⟨_, rfl⟩
      · obtain ⟨stored, _, rfl⟩ := List.mem_map.mp stores
        exact ⟨stored, rfl⟩
    · exact .inr performed
  simp only [downloadSteps, parsed] at next
  split at next
  next success dproc ran =>
    rw [Stream'.Seq.ofList_get?] at next
    rcases List.mem_append.mp (List.mem_of_getElem? next) with start | stores
    · exact (ofStart start).imp_right .inl
    · rcases List.mem_cons.mp stores with rfl | stores
      · exact .inl ⟨_, rfl⟩
      · obtain ⟨stored, _, rfl⟩ := List.mem_map.mp stores
        exact .inl ⟨stored, rfl⟩
  next ran =>
    have endless : (environment.perform
        { mUri := uri, mFilename := downloadFilename line column }).ends = none := by
      rcases Download.run_eq_error ran with ⟨_, _, endless⟩ | ⟨chunk, _, failed⟩
      · exact endless
      · exact absurd failed chunk.userdata.failure_ne_endless
    rcases Stream'.Seq.mem_or_of_get?_append next with start | event
    · exact (ofStart start).imp_right .inl
    · exact .inr (.inr ⟨endless, event⟩)
  next reason _ ran =>
    rw [Stream'.Seq.ofList_get?] at next
    exact (ofStart (List.mem_of_getElem? next)).imp_right .inl

/-- The file name is stored before the link is parsed. -/
theorem downloadSteps_get?_fail {place : Nat} {failure : AssertionFailure} :
    (downloadSteps environment mHost uriStr line column).get? place = some (.fail failure) ↔
      downloadUri mHost uriStr = .error failure ∧ place = 1 := by
  cases parsed : downloadUri mHost uriStr with
  | error reason =>
      simp only [downloadSteps, parsed, Stream'.Seq.ofList_get?]
      rcases place with _ | _ | place
      · simp
      · simp [eq_comm]
      · simp
  | ok uri =>
      refine iff_of_false (fun next => ?_) (by simp)
      rcases downloadSteps_get? parsed next with ⟨member, same⟩ | performed | ⟨_, index, same⟩
      · cases same
      · rcases Transfer.mem_steps performed with same | same | ⟨chunk, _, same⟩ | same <;>
          cases same
      · unfold Transfer.eventStep at same
        split at same <;> cases same

/-- Where the transfers end and leave the userdata alone, so does each step find it. -/
theorem downloadSteps_intact (transfersEnd : environment.TransfersEnd)
    (userdataIntact : environment.UserdataIntact) {place : Nat} {step : DownloadStep}
    (next : (downloadSteps environment mHost uriStr line column).get? place = some step) :
    ∀ udata ∈ step.found, udata.Intact := by
  intro udata found
  cases step with
  | write chunk =>
      rw [List.mem_singleton.mp found]
      cases parsed : downloadUri mHost uriStr with
      | error failure =>
          simp only [downloadSteps, parsed, Stream'.Seq.ofList_get?] at next
          simpa using List.mem_of_getElem? next
      | ok uri =>
          rcases downloadSteps_get? parsed next with ⟨_, same⟩ | performed | ⟨endless, _⟩
          · cases same
          · rcases Transfer.mem_steps performed with same | same | ⟨_, called, same⟩ | same
            · cases same
            · cases same
            · cases same
              exact userdataIntact _ _ called
            · cases same
          · exact absurd endless (transfersEnd _)
  | _ => contradiction

theorem downloadSteps_terminates (transfersEnd : environment.TransfersEnd) :
    (downloadSteps environment mHost uriStr line column).Terminates := by
  unfold downloadSteps
  cases downloadUri mHost uriStr with
  | error failure => exact Stream'.Seq.terminates_ofList _
  | ok uri =>
      simp only
      split
      next => exact Stream'.Seq.terminates_ofList _
      next ran =>
        rcases Download.run_eq_error ran with ⟨_, _, endless⟩ | ⟨chunk, _, failed⟩
        · exact absurd endless (transfersEnd _)
        · exact absurd failed chunk.userdata.failure_ne_endless
      next => exact Stream'.Seq.terminates_ofList _

end Steps

end FastCrawl
