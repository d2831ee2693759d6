import DiosPool.Driver.Operation

/-!
# The ring driver

The state behind the driver's lock and what each critical section does to it: admission into the
slab, filling the submission queue, taking completions off the completion queue and giving back the
slot of a vector read. The kernel owns an operation from the moment it is filled in until it posts
its completion.
-/

namespace DiosPool.Driver

inductive SubmitError
  | full
  | staleHandle
  deriving DecidableEq, Repr

structure FileHandle where
  fileId : FileId
  ioMode : IoMode
  deriving DecidableEq

structure Completion where
  token : OpToken
  kind : OpKind
  result : IoResult
  frame : Option ReadDestination
  /-- The completion holds the lease on its slab slot. -/
  continuation : Bool
  deriving DecidableEq, Repr

inductive FileState
  | free
  | opened
  | closing
  | closed
  deriving DecidableEq, Repr

structure FileSlot where
  generation : ℕ
  state : FileState
  inflight : ℕ
  deriving DecidableEq, Repr

structure SlabSlot where
  generation : ℕ
  payload : Option OpEntry

structure DeferredCompletion where
  fd : FileId
  retire : Bool
  outcome : IoResult

structure Cqe where
  userData : OpToken
  result : IoResult
  deriving DecidableEq, Repr

structure Config where
  id : ℕ
  queueCapacity : ℕ
  fileCapacity : ℕ
  retryBound : ℕ
  frameCount : ℕ
  granule : ℕ

/-- `free` is a stack with its top first. `outstanding` are the operations the kernel works on. -/
structure Shared where
  slots : ℕ → SlabSlot
  free : List ℕ
  files : ℕ → FileSlot
  ready : List ℕ
  completionBacklog : List Completion
  deferred : List DeferredCompletion
  outstanding : List OpToken
  cqes : List Cqe

/-- A critical section. -/
abbrev Section (α : Type) := Shared → Except Assertion (α × Shared)

namespace Shared

variable (C : Config)

def new : Shared where
  slots := fun _ ↦ ⟨0, none⟩
  free := List.range C.queueCapacity
  files := fun _ ↦ ⟨0, .free, 0⟩
  ready := []
  completionBacklog := []
  deferred := []
  outstanding := []
  cqes := []

/-! ## The slab -/

def contains (shared : Shared) (token : OpToken) : Bool :=
  (shared.slots token.slot).payload.isSome &&
    (shared.slots token.slot).generation == token.generation

def token (shared : Shared) (slot : ℕ) : OpToken := ⟨slot, (shared.slots slot).generation⟩

def peek (shared : Shared) (slot : ℕ) : Except Assertion OpEntry :=
  expect (shared.slots slot).payload "peek of an occupied slot"

def setPayload (shared : Shared) (slot : ℕ) (payload : Option OpEntry) : Shared :=
  { shared with
    slots := Function.update shared.slots slot ⟨(shared.slots slot).generation, payload⟩ }

/-- Fills a reserved slot under a new generation. -/
def fill (shared : Shared) (slot : ℕ) (entry : OpEntry) : Shared :=
  { shared with
    slots := Function.update shared.slots slot ⟨(shared.slots slot).generation + 1, some entry⟩ }

def reclaim (shared : Shared) (slot : ℕ) : Except Assertion (OpEntry × Shared) := do
  let entry ← expect (shared.slots slot).payload "reclaim of an occupied slot"
  return (entry, { shared.setPayload slot none with free := slot :: shared.free })

/-! ## The file table -/

def setFile (shared : Shared) (slot : ℕ) (file : FileSlot) : Shared :=
  { shared with files := Function.update shared.files slot file }

def isLive (shared : Shared) (id : FileId) : Bool :=
  (shared.files id.slot).generation == id.generation && (shared.files id.slot).state == .opened

def totalInflight (shared : Shared) : ℕ :=
  ∑ slot ∈ Finset.range C.fileCapacity, (shared.files slot).inflight

def isClosed (shared : Shared) (id : FileId) : Bool :=
  id.generation < (shared.files id.slot).generation ||
    ((shared.files id.slot).generation == id.generation &&
      (shared.files id.slot).state == .closed)

def onSubmit (shared : Shared) (id : FileId) : Shared :=
  let file := shared.files id.slot
  shared.setFile id.slot { file with inflight := file.inflight + 1 }

/-- Whether the file is due for retirement now. -/
def onComplete (shared : Shared) (id : FileId) : Except Assertion (Bool × Shared) := do
  let file := shared.files id.slot
  let inflight ← subtract file.inflight 1
  return (inflight == 0 && file.state == .closing, shared.setFile id.slot { file with inflight })

def finishRetire (shared : Shared) (id : FileId) : Except Assertion Shared := do
  let file := shared.files id.slot
  ensure (file.state = .closing) "finish_retire expects a slot left Closing by close/on_complete"
  ensure (file.inflight = 0) "finish_retire with ops still in flight"
  return shared.setFile id.slot { file with state := .closed }

def closeFile (shared : Shared) (id : FileId) : Except Assertion (Bool × Shared) := do
  let file := shared.files id.slot
  ensure (file.generation = id.generation)
    "close of a stale fd generation is a driver state bug (EBADF)"
  ensure (file.state = .opened) "double close of an fd is a driver state bug (EBADF)"
  return (file.inflight == 0, shared.setFile id.slot { file with state := .closing })

/-- The first free or closed slot is opened under a new generation. -/
def openFile (shared : Shared) : Option FileId × Shared :=
  match (List.range C.fileCapacity).find? fun slot ↦
      (shared.files slot).state == .free || (shared.files slot).state == .closed with
  | some slot =>
    let generation := (shared.files slot).generation + 1
    (some ⟨C.id, slot, generation⟩, shared.setFile slot ⟨generation, .opened, 0⟩)
  | none => (none, shared)

/-- `abort_file`: a slot whose registration with the backend failed is free again. -/
def abortFile (shared : Shared) (id : FileId) : Except Assertion Shared := do
  ensure (id.driver = C.id) "file handle used with a foreign driver"
  let file := shared.files id.slot
  ensure (file.generation = id.generation) "abort of a stale fd generation"
  ensure (file.state = .opened) "abort_open expects a slot still Open from its reservation"
  ensure (file.inflight = 0) "abort_open before any op is submitted"
  return shared.setFile id.slot { file with state := .free }

/-! ## Admission -/

def admitOperation (shared : Shared) (fd : FileId) :
    Except Assertion (Except SubmitError ℕ × Shared) := do
  ensure (fd.driver = C.id) "file handle used with a foreign driver"
  if shared.isLive fd then
    let retained := shared.completionBacklog.length + shared.deferred.length
    if C.queueCapacity ≤ shared.totalInflight C + retained then
      return (.error .full, shared)
    else
      match shared.free with
      | slot :: free => return (.ok slot, { shared with free })
      | [] => return (.error .full, shared)
  else
    return (.error .staleHandle, shared)

/-- The bundle of a vector read is bound to its operation. -/
def bindEntry (token : OpToken) (entry : OpEntry) : Except Assertion OpEntry :=
  match entry.frame with
  | some (.vector vector) => do return { entry with frame := some (.vector (← vector.bind token)) }
  | _ => return entry

def commit (shared : Shared) (slot : ℕ) (entry : OpEntry) : Except Assertion (OpToken × Shared) := do
  let token : OpToken := ⟨slot, (shared.slots slot).generation + 1⟩
  let entry ← bindEntry token entry
  let shared := (shared.fill slot entry).onSubmit entry.fd
  return (token, { shared with ready := shared.ready ++ [slot] })

/-- The entry of a point read. -/
def pointEntry (frameLease : FrameLease) (fd : FileHandle)
    (frame fileOffset destinationOffset requestedLen : ℕ) : OpEntry where
  kind := .read
  syncMode := .full
  fd := fd.fileId
  fileOffset := fileOffset
  frame := some (.point frame)
  destinationOffset := destinationOffset
  requestedLen := requestedLen
  frameLease := frameLease
  writeSlot := none
  retries := 0
  ioMode := fd.ioMode
  state := .queued

/-- `submit_read`, after its flush. A refusal returns the frame. -/
def submitReadAs (frameLease : FrameLease) (fd : FileHandle)
    (frame fileOffset destinationOffset requestedLen : ℕ) :
    Section (Except (SubmitError × ℕ) OpToken) := fun shared ↦ do
  ensure (frame < C.frameCount) "read frame index out of range"
  ensure (0 < requestedLen) "read length must be positive"
  ensure (destinationOffset ≤ C.granule) "read destination starts within its frame"
  ensure (requestedLen ≤ C.granule - destinationOffset)
    "read destination range lies within its frame"
  ensure (fd.ioMode.check fileOffset) "the file offset is aligned"
  match ← shared.admitOperation C fd.fileId with
  | (.error error, shared) => return (.error (error, frame), shared)
  | (.ok slot, shared) => do
    let (token, shared) ← shared.commit slot
      (pointEntry frameLease fd frame fileOffset destinationOffset requestedLen)
    return (.ok token, shared)

/-- `submit_read` for a pool frame. -/
def submitRead (fd : FileHandle) (frame fileOffset destinationOffset requestedLen : ℕ) :
    Section (Except (SubmitError × ℕ) OpToken) :=
  submitReadAs C .pool fd frame fileOffset destinationOffset requestedLen

/-- `submit_read_vector`. A refusal returns the bundle. -/
def submitReadVectorAs (frameLease : FrameLease) (fd : FileHandle) (vector : ReadVector)
    (offset : ℕ) : Section (Except (SubmitError × ReadVector) OpToken) := fun shared ↦ do
  OpEntry.checkVector fd.ioMode vector offset
  match ← shared.admitOperation C fd.fileId with
  | (.error error, shared) => return (.error (error, vector), shared)
  | (.ok slot, shared) => do
    let prepared ← vector.prepare C.queueCapacity slot
    let (token, shared) ← shared.commit slot
      (OpEntry.ofVector fd.fileId fd.ioMode prepared offset frameLease)
    return (.ok token, shared)

/-- `submit_read_vector` for a bundle of pool frames. -/
def submitReadVector (fd : FileHandle) (vector : ReadVector) (offset : ℕ) :
    Section (Except (SubmitError × ReadVector) OpToken) :=
  submitReadVectorAs C .pool fd vector offset

/-- The entry of a product write. -/
def writeEntry (fd : FileHandle) (writeSlot len offset : ℕ) : OpEntry where
  kind := .write
  syncMode := .full
  fd := fd.fileId
  fileOffset := offset
  frame := none
  destinationOffset := 0
  requestedLen := len
  frameLease := .absent
  writeSlot := some writeSlot
  retries := 0
  ioMode := fd.ioMode
  state := .queued

/-- `submit_write`, after its flush. -/
def submitWrite (fd : FileHandle) (writeSlot len offset : ℕ) :
    Section (Except SubmitError OpToken) := fun shared ↦ do
  ensure (fd.ioMode.check offset) "the file offset is aligned"
  match ← shared.admitOperation C fd.fileId with
  | (.error error, shared) => return (.error error, shared)
  | (.ok slot, shared) => do
    let (token, shared) ← shared.commit slot (writeEntry fd writeSlot len offset)
    return (.ok token, shared)

/-- The entry of a product fsync. -/
def fsyncEntry (fd : FileHandle) (mode : SyncMode) : OpEntry where
  kind := .fsync
  syncMode := mode
  fd := fd.fileId
  fileOffset := 0
  frame := none
  destinationOffset := 0
  requestedLen := 0
  frameLease := .absent
  writeSlot := none
  retries := 0
  ioMode := fd.ioMode
  state := .queued

/-- `submit_fsync`, after its flush. -/
def submitFsync (fd : FileHandle) (mode : SyncMode) : Section (Except SubmitError OpToken) :=
  fun shared ↦ do
    match ← shared.admitOperation C fd.fileId with
    | (.error error, shared) => return (.error error, shared)
    | (.ok slot, shared) => do
      let (token, shared) ← shared.commit slot (fsyncEntry fd mode)
      return (.ok token, shared)

/-! ## Leases of vector reads -/

/-- `continue_read_vector`. A refusal returns the bundle; the lease is released afterwards. -/
def continueReadVector (token : OpToken) (vector : ReadVector) :
    Section (Except ReadVector OpToken) := fun shared ↦ do
  ensure (shared.contains token) "continuation owns the original generation"
  let entry ← shared.peek token.slot
  match ← entry.continueVector C.queueCapacity token vector with
  | none => return (.error vector, shared)
  | some entry => do
    ensure (shared.ready.length < C.queueCapacity) "continuation queue is bounded"
    return (.ok token,
      { shared.setPayload token.slot (some entry) with ready := shared.ready ++ [token.slot] })

/-- The outcome a released lease reports. -/
def leaseOutcome (entry : OpEntry) : Except Assertion IoResult :=
  match entry.state with
  | .continuation => return .error eio
  | .terminal outcome => return outcome
  | _ => .error ⟨"only a held read lease releases its original slot"⟩

/-- Dropping a `ReadContinuation`. -/
def releaseReadLease (token : OpToken) : Section Unit := fun shared ↦
  if shared.contains token then do
    let (entry, shared) ← shared.reclaim token.slot
    let outcome ← leaseOutcome entry
    ensure entry.frame.isNone "the completion owns the destinations"
    let (retire, shared) ← shared.onComplete entry.fd
    ensure (shared.deferred.length < C.queueCapacity) "bounded logical completions"
    return ((), { shared with deferred := shared.deferred ++ [⟨entry.fd, retire, outcome⟩] })
  else
    return ((), shared)

/-- One turn of `flush_deferred`: the next deferred completion, with the file to retire. -/
def popDeferred : Section (Option (Option FileId)) := fun shared ↦
  match shared.deferred with
  | [] => return (none, shared)
  | completion :: deferred =>
    return (some (if completion.retire then some completion.fd else none), { shared with deferred })

/-! ## The rings -/

/-- One turn of `fill_ring`: the next ready operation goes to the kernel. -/
def fillNext : Section Bool := fun shared ↦
  match shared.ready with
  | [] => return (false, shared)
  | slot :: ready => do
    let entry ← shared.peek slot
    ensure (entry.state = .queued) "a ready operation is queued"
    return (true,
      { shared.setPayload slot (some { entry with state := .active }) with
        ready
        outstanding := shared.outstanding ++ [shared.token slot] })

/-- Whether a transient error is retried. -/
def ringShouldRetry (kind : OpKind) (result : IoResult) (retries : ℕ) : Bool :=
  match result with
  | .ok _ => false
  | .error errno =>
    retries < C.retryBound && (errno == 4 || (errno == 11 && kind == .read))

/-- `ring_progress`: the entry is resubmitted, or it ends with a result. -/
def ringProgress (entry : OpEntry) (result : IoResult) :
    Except Assertion (OpEntry × Option IoResult) :=
  if ringShouldRetry C entry.kind result entry.retries then
    return ({ entry with retries := entry.retries + 1 }, none)
  else
    match entry.kind, result with
    | .write, .ok bytes => do
      ensure (bytes ≤ entry.requestedLen) "write CQE reported more bytes than requested"
      if bytes = entry.requestedLen then
        return (entry, some (.ok (entry.destinationOffset + bytes)))
      else if bytes = 0 then
        if C.retryBound ≤ entry.retries then
          return (entry, some (.error eio))
        else
          return ({ entry with retries := entry.retries + 1 }, none)
      else
        return ({ entry with
          fileOffset := entry.fileOffset + bytes
          destinationOffset := entry.destinationOffset + bytes
          requestedLen := entry.requestedLen - bytes }, none)
    | _, _ => return (entry, some result)

/-- What an operation that is over gives back to the arenas. -/
structure Released where
  frames : List ℕ
  writeSlot : Option ℕ
  deriving DecidableEq, Repr

/-- The frame of a raw read never leaves the driver: it is aborted here. The frame of a pool read
goes to the completion. -/
def releaseFrame (lease : FrameLease) (frame : Option ReadDestination) :
    Except Assertion (Option ReadDestination × List ℕ) :=
  match lease with
  | .raw => do
    let frame ← expect frame "a raw read op owns its frame token until completion"
    return (none, frame.frames)
  | _ => return (frame, [])

/-- The end of `finish_attempt` for an operation that gives up its slot. -/
def finishReclaim (shared : Shared) (slot : ℕ) (token : OpToken) (result : IoResult)
    (destination : Option ReadDestination) :
    Except Assertion (Completion × Option FileId × Released × Shared) := do
  let (entry, shared) ← shared.reclaim slot
  let (retire, shared) ← shared.onComplete entry.fd
  let (frame, frames) ← releaseFrame entry.frameLease destination
  return (⟨token, entry.kind, result, frame, false⟩, if retire then some entry.fd else none,
    ⟨frames, entry.writeSlot⟩, shared)

/-- `finish_attempt`. An eager backend brings the destination it took out of the entry. -/
def finishAttempt (shared : Shared) (slot : ℕ) (result : IoResult)
    (destination : Option ReadDestination) :
    Except Assertion (Completion × Option FileId × Released × Shared) := do
  let token := shared.token slot
  let entry ← shared.peek slot
  ensure (entry.state = .active) "a finished attempt was active"
  match destination.or entry.frame with
  | some (.vector vector) => do
    match ← entry.finishVector vector result with
    | (some entry, vector) =>
      return (⟨token, entry.kind, result, some (.vector vector), true⟩, none, ⟨[], none⟩,
        shared.setPayload slot (some entry))
    | (none, vector) => shared.finishReclaim slot token result (some (.vector vector))
  | destination => shared.finishReclaim slot token result destination

/-- What one turn of the reap brings: nothing if the operation is tried again, otherwise its
completion, the file to retire and what went back to the arenas. -/
abbrev ReapOutcome := Option (Completion × Option FileId × Released)

/-- One turn of the reap: the next completion of the kernel, if any. -/
def reapOne : Section (Option ReapOutcome) := fun shared ↦
  match shared.cqes with
  | [] => return (none, shared)
  | cqe :: cqes => do
    let shared := { shared with cqes }
    ensure (shared.contains cqe.userData) "CQE belongs to the live generation"
    let slot := cqe.userData.slot
    let entry ← shared.peek slot
    match ← ringProgress C entry cqe.result with
    | (entry, none) =>
      return (some none,
        { shared.setPayload slot (some { entry with state := .queued }) with
          ready := shared.ready ++ [slot] })
    | (entry, some result) => do
      let (completion, retire, released, shared) ←
        (shared.setPayload slot (some entry)).finishAttempt slot result none
      return (some (some (completion, retire, released)), shared)

/-- A turn of the reap for a pool, which tracks its own frames. -/
def reapNext : Section (Option (Option Completion × Option FileId)) := fun shared ↦ do
  let (outcome, shared) ← shared.reapOne C
  return (outcome.map fun outcome ↦ (outcome.map (·.1), outcome.bind (·.2.1)), shared)

/-- The next completion that waits in the backlog. -/
def popBacklog : Section (Option Completion) := fun shared ↦
  match shared.completionBacklog with
  | [] => return (none, shared)
  | completion :: completionBacklog => return (some completion, { shared with completionBacklog })

/-- The kernel posts the result of an operation it works on. -/
def postCompletion (shared : Shared) (token : OpToken) (result : IoResult) : Shared :=
  { shared with
    outstanding := shared.outstanding.erase token
    cqes := shared.cqes ++ [⟨token, result⟩] }

end Shared

end DiosPool.Driver
