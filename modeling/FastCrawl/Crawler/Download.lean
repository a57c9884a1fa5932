import FastCrawl.Library.Adler
import FastCrawl.Library.Lifetime
import FastCrawl.Crawler.Downloads
import FastCrawl.Uri.Parse

namespace FastCrawl

open Lifetimes

/-! The download of one content.  The processors of its data write their results
into the record in their destructors, so that each temporary and each copy of them
writes the record when it goes. -/

/-- `::adler32` of zlib: the running checksum, the buffer or a null pointer, and the length. -/
abbrev ZlibAdler32 := UInt64 → Option Bytes → UInt32 → UInt64

/-- What the documentation of zlib says of `::adler32`. -/
structure ZlibAdler32.Documented (zlib : ZlibAdler32) : Prop where
  null : ∀ checksum len, zlib checksum none len = 1
  update : ∀ (sums : Adler.Sums) (data : Bytes) (len : UInt32), len.toNat ≤ data.length →
    zlib (.ofNat sums.word) (some data) len = .ofNat (sums.read (data.take len.toNat)).word

/-- The interface of processors, and what the destructor of one writes. -/
class OnlineDataProcessor (Proc : Type) where
  call : Proc → Bytes → Proc
  destroy : Proc → UriRecord → UriRecord

/-- `adler32`; its `m_result` refers to the checksum of the record. -/
structure Adler32 (zlib : ZlibAdler32) where
  mChecksum : UInt64
deriving DecidableEq

def Adler32.new (zlib : ZlibAdler32) : Adler32 zlib := { mChecksum := zlib 0 none 0 }

/-- zlib takes a length of 32 bits, and the result has 32 bits. -/
instance (zlib : ZlibAdler32) : OnlineDataProcessor (Adler32 zlib) where
  call proc data :=
    { mChecksum := zlib proc.mChecksum (some data) (UInt64.ofNat data.length).toUInt32 }
  destroy proc record := { record with adler32 := proc.mChecksum.toUInt32 }

/-- `content_size`; its `m_result` refers to the size of the record. -/
structure ContentSize where
  mSize : UInt64
deriving DecidableEq

def ContentSize.new : ContentSize := { mSize := 0 }

instance : OnlineDataProcessor ContentSize where
  call proc data := { mSize := proc.mSize + .ofNat data.length }
  destroy proc record := { record with size := proc.mSize }

/-- `compound_data_processor<Proc, Procs...>` -/
structure CompoundDataProcessor (Proc Procs : Type) where
  mProc : Proc
  mProcs : Procs
deriving DecidableEq

/-- `compound_data_processor<Proc>`, the fixed point of the recursion. -/
structure LastDataProcessor (Proc : Type) where
  mProc : Proc
deriving DecidableEq

/-- Members are destroyed in the reverse order of their declaration. -/
instance {Proc Procs : Type} [OnlineDataProcessor Proc] [OnlineDataProcessor Procs] :
    OnlineDataProcessor (CompoundDataProcessor Proc Procs) where
  call proc data :=
    { mProc := OnlineDataProcessor.call proc.mProc data
      mProcs := OnlineDataProcessor.call proc.mProcs data }
  destroy proc record :=
    OnlineDataProcessor.destroy proc.mProc (OnlineDataProcessor.destroy proc.mProcs record)

instance {Proc : Type} [OnlineDataProcessor Proc] :
    OnlineDataProcessor (LastDataProcessor Proc) where
  call proc data := { mProc := OnlineDataProcessor.call proc.mProc data }
  destroy proc record := OnlineDataProcessor.destroy proc.mProc record

/-- The type of `dproc` in `html_crawler::download`. -/
abbrev Dproc (zlib : ZlibAdler32) :=
  CompoundDataProcessor (Adler32 zlib) (LastDataProcessor ContentSize)

/-- An object made while `dproc` is initialised. -/
inductive Temporary (zlib : ZlibAdler32) where
  | adler32 (proc : Adler32 zlib)
  | contentSize (proc : ContentSize)
  | compound (proc : Dproc zlib)

def Temporary.destroy {zlib : ZlibAdler32} : Temporary zlib → UriRecord → UriRecord
  | .adler32 proc => OnlineDataProcessor.destroy proc
  | .contentSize proc => OnlineDataProcessor.destroy proc
  | .compound proc => OnlineDataProcessor.destroy proc

/-- The constructors; that of the compound is given two objects. -/
inductive Constructor where
  | adler32
  | contentSize
  | compound (proc procs : Nat)

/-- The destructors suppress moves, so members of a compound are copies. -/
def Temporary.construct (zlib : ZlibAdler32) (kind : Constructor) (live : List (Temporary zlib)) :
    Option (Temporary zlib) :=
  match kind with
  | .adler32 => some (.adler32 (Adler32.new zlib))
  | .contentSize => some (.contentSize ContentSize.new)
  | .compound place place' =>
      match live[place]?, live[place']? with
      | some (.adler32 proc), some (.contentSize procs) =>
          some (.compound { mProc := proc, mProcs := { mProc := procs } })
      | _, _ => none

/-- Any way to initialise `dproc` that has destroyed all other objects. -/
structure Initialisation (zlib : ZlibAdler32) where
  actions : List (Action Constructor)
  dproc : Dproc zlib
  scope : Scope (Temporary zlib)
  ran : Scope.run (Temporary.construct zlib) {} actions = some scope
  live : scope.live = [.compound dproc]

/-- Why a call does not return: an assertion fails, C++ gives what is done no meaning, or
curl does not end a transfer. -/
inductive NoReturn where
  | assertion (failure : AssertionFailure)
  | undefined
  | endless
deriving Repr, DecidableEq

/-- What a pointer of the `curl_userdata` is when it is read: the one that was put there,
null, or neither. -/
inductive Pointer where
  | stored
  | null
  | other
deriving Repr, DecidableEq

/-- What `curl_write` finds at the address that `CURLOPT_WRITEDATA` has.  It is that of a
local of a block that `run` has left before it calls `curl_easy_perform`, so there may be
the pointers that `run` has put there or what has been written over them. -/
structure CurlUserdata where
  processor : Pointer := .stored
  file : Pointer := .stored
deriving Repr, DecidableEq

namespace CurlUserdata

def HasNull (udata : CurlUserdata) : Prop := udata.processor = .null ∨ udata.file = .null

instance (udata : CurlUserdata) : Decidable udata.HasNull :=
  inferInstanceAs (Decidable (_ ∨ _))

/-- The assertion of `curl_write`, and its uses of the two pointers. -/
def failure (udata : CurlUserdata) : Option NoReturn :=
  if udata.HasNull then some (.assertion .userdataIsNull)
  else if udata.processor = .stored ∧ udata.file = .stored then none
  else some .undefined

/-- The userdata is as `run` has left it. -/
def Intact (udata : CurlUserdata) : Prop := udata = {}

theorem failure_eq_none {udata : CurlUserdata} : udata.failure = none ↔ udata.Intact := by
  obtain ⟨processor, file⟩ := udata
  cases processor <;> cases file <;> simp [failure, HasNull, Intact]

theorem failure_eq_assertion {udata : CurlUserdata} {failure : AssertionFailure} :
    udata.failure = some (.assertion failure) ↔ failure = .userdataIsNull ∧ udata.HasNull := by
  by_cases null : udata.HasNull
  · simp [CurlUserdata.failure, null, eq_comm]
  · have other : udata.failure ≠ some (.assertion failure) := by
      rw [CurlUserdata.failure, if_neg null]
      split <;> simp
    exact iff_of_false other fun asserted => null asserted.2

theorem failure_eq_undefined {udata : CurlUserdata} :
    udata.failure = some .undefined ↔ ¬udata.HasNull ∧ ¬udata.Intact := by
  obtain ⟨processor, file⟩ := udata
  cases processor <;> cases file <;> simp [failure, HasNull, Intact]

theorem failure_ne_endless (udata : CurlUserdata) : udata.failure ≠ some .endless := by
  unfold failure
  split_ifs <;> simp

end CurlUserdata

/-- A call of `curl_write`: its data and what it finds of the userdata, how many bytes
`fwrite` takes, and how many of those in the buffer of the stream get into the file. -/
structure Chunk where
  data : Bytes
  userdata : CurlUserdata := {}
  accepted : Nat := data.length
  flushed : Nat := 0
deriving Repr, DecidableEq

/-- A transfer: whether curl gives a handle and the file is opened; what happens in
`curl_easy_perform`, step by step (`none` is some time without a call), after how many
steps it returns, if it does, and whether it returns `CURLE_OK`; and how many bytes
`fclose` gets from the buffer into the file. -/
structure Transfer where
  handle : Bool
  file : Bool
  event : Nat → Option Chunk
  ends : Option Nat
  result : Bool
  flushed : Nat

namespace Transfer

variable (transfer : Transfer)

/-- Without a handle or a file nothing is asked for. -/
def opened : Bool := transfer.handle && transfer.file

/-- The calls of `curl_write` in a transfer that ends. -/
def chunks : List Chunk :=
  if transfer.opened then (List.range (transfer.ends.getD 0)).filterMap transfer.event else []

def delivered : List Bytes := transfer.chunks.map Chunk.data

def succeeds : Bool := transfer.opened && transfer.result

/-- Each call of `curl_write` finds the userdata as it was left. -/
def Intact : Prop := ∀ chunk ∈ transfer.chunks, chunk.userdata.Intact

theorem opened_of_mem {transfer : Transfer} {chunk : Chunk} (called : chunk ∈ transfer.chunks) :
    transfer.opened = true := by
  unfold chunks at called
  split at called
  · assumption
  · contradiction

/-- The record of a download of all that was delivered. -/
def record (filename : Bytes) : UriRecord where
  filename
  adler32 := Adler.checksum transfer.delivered.flatten
  size := .ofNat transfer.delivered.flatten.length
  success := transfer.succeeds

end Transfer

structure Download where
  mUri : Uri
  mFilename : Bytes

section Run

variable {Proc : Type} [OnlineDataProcessor Proc]

/-- `curl_write`, as far as the processor sees it. -/
def curlWrite (processor : Proc) (chunk : Chunk) : Except NoReturn Proc :=
  match chunk.userdata.failure with
  | some reason => .error reason
  | none => .ok (OnlineDataProcessor.call processor chunk.data)

/-- `download::run`; `perform` is the outside world. -/
def Download.run (perform : Download → Transfer) (dl : Download) (processor : Proc) :
    Except NoReturn (Bool × Proc) :=
  let transfer := perform dl
  if !transfer.handle then .ok (false, processor)
  else if !transfer.file then .ok (false, processor)
  else if transfer.ends = none then .error .endless
  else (transfer.chunks.foldlM curlWrite processor).map fun processor =>
    (transfer.result, processor)

theorem foldlM_curlWrite {chunks : List Chunk} (intact : ∀ chunk ∈ chunks, chunk.userdata.Intact)
    (processor : Proc) :
    chunks.foldlM curlWrite processor =
      .ok ((chunks.map Chunk.data).foldl OnlineDataProcessor.call processor) := by
  induction chunks generalizing processor with
  | nil => rfl
  | cons chunk rest ih =>
      have called : curlWrite processor chunk =
          .ok (OnlineDataProcessor.call processor chunk.data) := by
        rw [curlWrite, CurlUserdata.failure_eq_none.mpr (intact chunk List.mem_cons_self)]
      rw [List.foldlM_cons, called]
      exact ih (fun later member => intact later (List.mem_cons_of_mem chunk member)) _

theorem foldlM_curlWrite_error {chunks : List Chunk}
    (broken : ∃ chunk ∈ chunks, ¬chunk.userdata.Intact) (processor : Proc) :
    ∃ reason, chunks.foldlM curlWrite processor = .error reason ∧
      ∃ chunk ∈ chunks, chunk.userdata.failure = some reason := by
  induction chunks generalizing processor with
  | nil => simp at broken
  | cons chunk rest ih =>
      cases failed : chunk.userdata.failure with
      | some reason =>
          have called : curlWrite processor chunk = .error reason := by rw [curlWrite, failed]
          rw [List.foldlM_cons, called]
          exact ⟨reason, rfl, chunk, List.mem_cons_self, failed⟩
      | none =>
          have called : curlWrite processor chunk =
              .ok (OnlineDataProcessor.call processor chunk.data) := by rw [curlWrite, failed]
          have intact := CurlUserdata.failure_eq_none.mp failed
          obtain ⟨reason, ended, culprit, member, culpritFailed⟩ :=
            ih (by simpa [intact] using broken) (OnlineDataProcessor.call processor chunk.data)
          rw [List.foldlM_cons, called]
          exact ⟨reason, ended, culprit, List.mem_cons_of_mem _ member, culpritFailed⟩

variable {perform : Download → Transfer} {dl : Download}

theorem Download.run_of_opened (opened : (perform dl).opened = true) (processor : Proc) :
    dl.run perform processor =
      if (perform dl).ends = none then .error .endless
      else ((perform dl).chunks.foldlM curlWrite processor).map fun processor =>
        ((perform dl).result, processor) := by
  obtain ⟨handle, file⟩ : (perform dl).handle = true ∧ (perform dl).file = true := by
    simpa [Transfer.opened] using opened
  simp only [run, handle, file, Bool.not_true, Bool.false_eq_true, if_false]

theorem Download.run_of_closed (closed : (perform dl).opened = false) (processor : Proc) :
    dl.run perform processor = .ok (false, processor) := by
  unfold run
  cases handle : (perform dl).handle with
  | false => exact if_pos (by rw [handle]; rfl)
  | true =>
      have noFile : (perform dl).file = false := by simpa [Transfer.opened, handle] using closed
      simp only [handle, noFile, Bool.not_true, Bool.not_false, Bool.false_eq_true, if_false,
        if_true]

theorem Download.run_of_intact (ends : (perform dl).opened = true → (perform dl).ends ≠ none)
    (intact : (perform dl).Intact) (processor : Proc) :
    dl.run perform processor = .ok ((perform dl).succeeds,
      (perform dl).delivered.foldl OnlineDataProcessor.call processor) := by
  cases opened : (perform dl).opened with
  | false =>
      rw [run_of_closed opened]
      simp [Transfer.succeeds, Transfer.delivered, Transfer.chunks, opened]
  | true =>
      rw [run_of_opened opened, if_neg (ends opened), foldlM_curlWrite intact, Transfer.succeeds,
        opened]
      rfl

theorem Download.run_eq_ok {processor : Proc} {result : Bool × Proc}
    (returned : dl.run perform processor = .ok result) :
    ((perform dl).opened = true → (perform dl).ends ≠ none) ∧ (perform dl).Intact ∧
      result = ((perform dl).succeeds,
        (perform dl).delivered.foldl OnlineDataProcessor.call processor) := by
  have ends : (perform dl).opened = true → (perform dl).ends ≠ none := by
    intro opened endless
    rw [run_of_opened opened, if_pos endless] at returned
    cases returned
  have intact : (perform dl).Intact := by
    by_contra broken
    simp only [Transfer.Intact, not_forall, exists_prop] at broken
    obtain ⟨chunk, called, _⟩ := id broken
    have opened := Transfer.opened_of_mem called
    obtain ⟨reason, failed, _⟩ := foldlM_curlWrite_error broken processor
    rw [run_of_opened opened, if_neg (ends opened), failed] at returned
    cases returned
  rw [run_of_intact ends intact] at returned
  exact ⟨ends, intact, (Except.ok.inj returned).symm⟩

theorem Download.run_eq_error {processor : Proc} {reason : NoReturn}
    (failed : dl.run perform processor = .error reason) :
    (reason = .endless ∧ (perform dl).opened = true ∧ (perform dl).ends = none) ∨
      ∃ chunk ∈ (perform dl).chunks, chunk.userdata.failure = some reason := by
  cases opened : (perform dl).opened with
  | false => simp [run_of_closed opened] at failed
  | true =>
      rw [run_of_opened opened] at failed
      split at failed
      next endless =>
        cases failed
        exact .inl ⟨rfl, rfl, endless⟩
      next =>
        refine .inr ?_
        by_cases intact : (perform dl).Intact
        · rw [foldlM_curlWrite intact] at failed
          cases failed
        · simp only [Transfer.Intact, not_forall, exists_prop] at intact
          obtain ⟨other, ended, culprit⟩ := foldlM_curlWrite_error intact processor
          rw [ended] at failed
          cases failed
          exact culprit

end Run

def HtmlCrawler.download (zlib : ZlibAdler32) (perform : Download → Transfer)
    (crawler : HtmlCrawler) (uriStr : Bytes) (line column : UInt64)
    (initialisation : Initialisation zlib) (record : UriRecord) : Except NoReturn UriRecord :=
  let record := { record with filename := downloadFilename line column }
  match downloadUri crawler.host uriStr with
  | .error failure => .error (.assertion failure)
  | .ok uri =>
      let record := initialisation.scope.write Temporary.destroy record
      let dl : Download := { mUri := uri, mFilename := downloadFilename line column }
      (dl.run perform initialisation.dproc).map fun (success, dproc) =>
        let record := { record with success }
        -- `dproc` is destroyed after the assignment.
        OnlineDataProcessor.destroy dproc record

section Folds

variable {Proc Procs : Type} [OnlineDataProcessor Proc] [OnlineDataProcessor Procs]

theorem foldl_compound (chunks : List Bytes) (proc : CompoundDataProcessor Proc Procs) :
    chunks.foldl OnlineDataProcessor.call proc =
      { mProc := chunks.foldl OnlineDataProcessor.call proc.mProc
        mProcs := chunks.foldl OnlineDataProcessor.call proc.mProcs } := by
  induction chunks generalizing proc with
  | nil => rfl
  | cons data rest ih => exact ih _

theorem foldl_last (chunks : List Bytes) (proc : LastDataProcessor Proc) :
    chunks.foldl OnlineDataProcessor.call proc =
      { mProc := chunks.foldl OnlineDataProcessor.call proc.mProc } := by
  induction chunks generalizing proc with
  | nil => rfl
  | cons data rest ih => exact ih _

end Folds

theorem Adler32.foldl_call {zlib : ZlibAdler32} (documented : zlib.Documented)
    {chunks : List Bytes} (short : ∀ data ∈ chunks, data.length < 2 ^ 32) (sums : Adler.Sums) :
    chunks.foldl OnlineDataProcessor.call ({ mChecksum := .ofNat sums.word } : Adler32 zlib) =
      { mChecksum := .ofNat (sums.read chunks.flatten).word } := by
  induction chunks generalizing sums with
  | nil => rfl
  | cons data rest ih =>
      have fits := short data List.mem_cons_self
      have len : (UInt64.ofNat data.length).toUInt32.toNat = data.length := by
        rw [UInt64.toNat_toUInt32, UInt64.toNat_ofNat']
        omega
      have called :
          OnlineDataProcessor.call ({ mChecksum := .ofNat sums.word } : Adler32 zlib) data =
            { mChecksum := .ofNat (sums.read data).word } := by
        have updated := documented.update sums data (UInt64.ofNat data.length).toUInt32 len.le
        rw [len, List.take_length] at updated
        exact congrArg Adler32.mk updated
      have shortRest : ∀ chunk ∈ rest, chunk.length < 2 ^ 32 :=
        fun chunk member => short chunk (List.mem_cons_of_mem data member)
      rw [List.foldl_cons, called, ih shortRest, List.flatten_cons, Adler.Sums.read_append]

theorem ContentSize.foldl_call (chunks : List Bytes) (size : Nat) :
    chunks.foldl OnlineDataProcessor.call ({ mSize := .ofNat size } : ContentSize) =
      { mSize := .ofNat (size + chunks.flatten.length) } := by
  induction chunks generalizing size with
  | nil => rfl
  | cons data rest ih =>
      have called : OnlineDataProcessor.call ({ mSize := .ofNat size } : ContentSize) data =
          { mSize := .ofNat (size + data.length) } :=
        congrArg ContentSize.mk (UInt64.ofNat_add _ _).symm
      rw [List.foldl_cons, called, ih, List.flatten_cons, List.length_append, Nat.add_assoc]

def Dproc.new (zlib : ZlibAdler32) : Dproc zlib :=
  { mProc := Adler32.new zlib, mProcs := { mProc := ContentSize.new } }

/-- An object that has been given no data. -/
def Temporary.Fresh {zlib : ZlibAdler32} : Temporary zlib → Prop
  | .adler32 proc => proc = Adler32.new zlib
  | .contentSize proc => proc = ContentSize.new
  | .compound proc => proc = Dproc.new zlib

theorem Temporary.fresh_construct {zlib : ZlibAdler32} (kind : Constructor)
    (live : List (Temporary zlib)) (object : Temporary zlib) (fresh : ∀ source ∈ live, source.Fresh)
    (constructed : Temporary.construct zlib kind live = some object) : object.Fresh := by
  cases kind with
  | adler32 =>
      cases constructed
      rfl
  | contentSize =>
      cases constructed
      rfl
  | compound place place' =>
      simp only [Temporary.construct] at constructed
      split at constructed
      next proc procs isProc isProcs =>
        cases constructed
        have freshProc : proc = Adler32.new zlib := fresh _ (List.mem_of_getElem? isProc)
        have freshProcs : procs = ContentSize.new := fresh _ (List.mem_of_getElem? isProcs)
        rw [Temporary.Fresh, freshProc, freshProcs]
        rfl
      next => contradiction

theorem Initialisation.dproc_eq {zlib : ZlibAdler32} (initialisation : Initialisation zlib) :
    initialisation.dproc = Dproc.new zlib := by
  have fresh : ∀ object ∈ initialisation.scope.live, object.Fresh :=
    Scope.live_run (by simp) Temporary.fresh_construct initialisation.ran
  rw [initialisation.live] at fresh
  exact fresh _ List.mem_cons_self

theorem Temporary.destroy_filename {zlib : ZlibAdler32} (object : Temporary zlib)
    (record : UriRecord) : (object.destroy record).filename = record.filename := by
  cases object with
  | adler32 proc => rfl
  | contentSize proc => rfl
  | compound proc => rfl

/-- The checksum and the size are in the record once `dproc` has been destroyed. -/
theorem Dproc.destroy_foldl {zlib : ZlibAdler32} (documented : zlib.Documented)
    {chunks : List Bytes} (short : ∀ data ∈ chunks, data.length < 2 ^ 32) (record : UriRecord) :
    OnlineDataProcessor.destroy (chunks.foldl OnlineDataProcessor.call (Dproc.new zlib)) record =
      { record with
        adler32 := Adler.checksum chunks.flatten
        size := .ofNat chunks.flatten.length } := by
  have started : Adler32.new zlib = { mChecksum := .ofNat Adler.Sums.start.word } :=
    congrArg Adler32.mk (documented.null 0 0)
  have checksum := Adler32.foldl_call documented short Adler.Sums.start
  have size : chunks.foldl OnlineDataProcessor.call ContentSize.new =
      { mSize := .ofNat chunks.flatten.length } := by
    rw [← Nat.zero_add chunks.flatten.length]
    exact ContentSize.foldl_call chunks 0
  rw [foldl_compound, foldl_last, new, started, checksum, size, Adler.checksum,
    ← UInt64.toUInt32_ofNat']
  rfl

section Download

variable {zlib : ZlibAdler32} {perform : Download → Transfer} {crawler : HtmlCrawler}
  {uriStr : Bytes} {line column : UInt64} {initialisation : Initialisation zlib}
  {record : UriRecord} {uri : Uri}

theorem download_of_intact (documented : zlib.Documented)
    (short : ∀ dl, ∀ data ∈ (perform dl).delivered, data.length < 2 ^ 32)
    (parsed : downloadUri crawler.host uriStr = .ok uri) {dl : Download}
    (isDl : dl = { mUri := uri, mFilename := downloadFilename line column })
    (ends : (perform dl).opened = true → (perform dl).ends ≠ none)
    (intact : (perform dl).Intact) :
    crawler.download zlib perform uriStr line column initialisation record =
      .ok ((perform dl).record (downloadFilename line column)) := by
  have filename : (initialisation.scope.write Temporary.destroy
      { record with filename := downloadFilename line column }).filename =
        downloadFilename line column :=
    Scope.write_frame Temporary.destroy_filename _ _
  subst isDl
  simp only [HtmlCrawler.download, parsed, Download.run_of_intact ends intact, Except.map,
    initialisation.dproc_eq, Dproc.destroy_foldl documented (short _), filename, Transfer.record]

/-- A download whose transfer ends comes to return, with a record that has the checksum and
the size of all that was delivered, if and only if each call of `curl_write` finds the
userdata as it was left: in whichever chunks, however many temporaries have written the
record before, and whether or not the transfer succeeded. -/
theorem download_record (documented : zlib.Documented)
    (short : ∀ dl, ∀ data ∈ (perform dl).delivered, data.length < 2 ^ 32)
    (finite : ∀ dl, (perform dl).ends ≠ none) (crawler : HtmlCrawler) (uriStr : Bytes)
    (line column : UInt64) (initialisation : Initialisation zlib) (record : UriRecord) :
    crawler.download zlib perform uriStr line column initialisation record =
        (match downloadUri crawler.host uriStr with
        | .error failure => .error (.assertion failure)
        | .ok uri =>
            let filename := downloadFilename line column
            .ok ((perform { mUri := uri, mFilename := filename }).record filename)) ↔
      ∀ uri, downloadUri crawler.host uriStr = .ok uri →
        (perform { mUri := uri, mFilename := downloadFilename line column }).Intact := by
  cases parsed : downloadUri crawler.host uriStr with
  | error failure => simp [HtmlCrawler.download, parsed]
  | ok uri =>
      constructor
      · intro returned other same
        cases same
        simp only [HtmlCrawler.download, parsed] at returned
        cases ran : Download.run perform
            { mUri := uri, mFilename := downloadFilename line column } initialisation.dproc with
        | ok result => exact (Download.run_eq_ok ran).2.1
        | error reason =>
            rw [ran] at returned
            cases returned
      · intro intact
        exact download_of_intact documented short parsed rfl (fun _ => finite _) (intact uri rfl)

end Download

section DataProcessor

variable (zlib : ZlibAdler32)

/-- The initialiser of `dproc`: the arguments, the compound, the moves of the returned
compound that the compiler has not elided, and the end of the arguments. -/
def dataProcessorActions (moves : Nat) : List (Action Constructor) :=
  [.construct .adler32, .construct .contentSize, .construct (.compound 0 1)] ++
    ((List.replicate moves [.copy 2, .destroy 2]).flatten ++ [.destroy 1, .destroy 0])

theorem run_moves (first second third : Temporary zlib) (moves : Nat)
    (destroyed : List (Temporary zlib)) (rest : List (Action Constructor)) :
    Scope.run (Temporary.construct zlib) { live := [first, second, third], destroyed }
        ((List.replicate moves [.copy 2, .destroy 2]).flatten ++ rest) =
      Scope.run (Temporary.construct zlib)
        { live := [first, second, third]
          destroyed := destroyed ++ List.replicate moves third } rest := by
  induction moves generalizing destroyed with
  | zero => simp
  | succ moves ih =>
      have moved := ih (destroyed ++ [third])
      rw [List.append_assoc, List.singleton_append, ← List.replicate_succ] at moved
      rw [← moved]
      rfl

theorem run_dataProcessorActions (moves : Nat) :
    Scope.run (Temporary.construct zlib) {} (dataProcessorActions moves) =
      some {
        live := [.compound (Dproc.new zlib)]
        destroyed := List.replicate moves (.compound (Dproc.new zlib)) ++
          [.contentSize ContentSize.new, .adler32 (Adler32.new zlib)] } := by
  have moved := run_moves zlib (.adler32 (Adler32.new zlib)) (.contentSize ContentSize.new)
    (.compound (Dproc.new zlib)) moves [] [.destroy 1, .destroy 0]
  calc Scope.run (Temporary.construct zlib) {} (dataProcessorActions moves)
      = some {
          live := [.compound (Dproc.new zlib)]
          destroyed := List.replicate moves (.compound (Dproc.new zlib)) ++
            [.contentSize ContentSize.new] ++ [.adler32 (Adler32.new zlib)] } := moved
    _ = _ := by
      rw [List.append_assoc]
      rfl

/-- `auto dproc = data_processor(adler32(record.adler32), content_size(record.size))` -/
def Initialisation.dataProcessor (moves : Nat) : Initialisation zlib where
  actions := dataProcessorActions moves
  dproc := Dproc.new zlib
  scope := {
    live := [.compound (Dproc.new zlib)]
    destroyed := List.replicate moves (.compound (Dproc.new zlib)) ++
      [.contentSize ContentSize.new, .adler32 (Adler32.new zlib)] }
  ran := run_dataProcessorActions zlib moves
  live := rfl

end DataProcessor

/-- Adler-32 as zlib documents it. -/
def standardAdler32 : ZlibAdler32 := fun checksum buf len =>
  match buf with
  | none => 1
  | some data => .ofNat ((Adler.Sums.ofWord checksum.toNat).read (data.take len.toNat)).word

theorem standardAdler32_documented : standardAdler32.Documented where
  null _ _ := rfl
  update sums data len _ := by
    have word : (UInt64.ofNat sums.word).toNat = sums.word := by
      have bound := sums.word_lt
      rw [UInt64.toNat_ofNat']
      omega
    simp only [standardAdler32, word, Adler.Sums.ofWord_word]

/-- A transfer that fails after three chunks. -/
def brokenTransfer : Transfer where
  handle := true
  file := true
  event index := [{ data := bytes "Wik" }, { data := bytes "ip" }, { data := bytes "edia" }][index]?
  ends := some 3
  result := false
  flushed := 0

theorem download_record_wikipedia :
    (HtmlCrawler.new (bytes "h")).download standardAdler32 (fun _ => brokenTransfer)
        (bytes "/x") 1 10 (.dataProcessor standardAdler32 1) {} =
      match downloadUri (bytes "h") (bytes "/x") with
      | .error failure => .error (.assertion failure)
      | .ok _ => .ok {
          filename := downloadFilename 1 10
          adler32 := Adler.checksum (bytes "Wikipedia")
          size := 9
          success := false } := by
  have intact : brokenTransfer.Intact := by
    rw [Transfer.Intact]
    simp only [CurlUserdata.Intact]
    decide
  exact (download_record standardAdler32_documented (fun _ => by decide)
    (fun _ => by simp [brokenTransfer]) _ _ _ _ _ _).mpr fun _ _ => intact

example : Adler.checksum (bytes "Wikipedia") = 0x11e60398 := by decide

/-- Something has been written over the userdata when curl delivers the content. -/
def staleTransfer : Transfer where
  handle := true
  file := true
  event index :=
    [{ data := bytes "Wikipedia", userdata := { processor := .other, file := .other } }][index]?
  ends := some 1
  result := true
  flushed := 9

theorem download_record_stale :
    ¬∀ (perform : Download → Transfer) (crawler : HtmlCrawler) (uriStr : Bytes)
      (line column : UInt64) (initialisation : Initialisation standardAdler32)
      (record : UriRecord),
      (∀ dl, ∀ data ∈ (perform dl).delivered, data.length < 2 ^ 32) →
      (∀ dl, (perform dl).ends ≠ none) →
      crawler.download standardAdler32 perform uriStr line column initialisation record =
        match downloadUri crawler.host uriStr with
        | .error failure => .error (.assertion failure)
        | .ok uri =>
            let filename := downloadFilename line column
            .ok ((perform { mUri := uri, mFilename := filename }).record filename) := by
  intro recorded
  have returned := recorded (fun _ => staleTransfer) (.new (bytes "h")) (bytes "x") 1 10
    (.dataProcessor standardAdler32 1) {} (fun _ => by decide) (fun _ => by simp [staleTransfer])
  have sameHost : (HtmlCrawler.new (bytes "h")).host = bytes "h" := rfl
  obtain ⟨uri, parsed⟩ : ∃ uri, downloadUri (bytes "h") (bytes "x") = .ok uri := ⟨_, rfl⟩
  have run : Download.run (fun _ => staleTransfer)
      { mUri := uri, mFilename := downloadFilename 1 10 }
      (Initialisation.dataProcessor standardAdler32 1).dproc = .error .undefined := rfl
  simp only [HtmlCrawler.download, sameHost, parsed, run] at returned
  cases returned

end FastCrawl
