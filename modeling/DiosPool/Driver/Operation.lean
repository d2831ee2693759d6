import Mathlib
import DiosPool.Identity

/-!
# Driver operations and their destinations

The value types of the driver: operation tokens, the destinations of reads and the slab entry of an
operation. A vector read owns a bundle of frames. Its descriptors are rebuilt from the part of the
bundle that is still missing before every attempt, and a short completion advances the slab entry
to the rest of the file range.
-/

namespace DiosPool

/-- A failed assertion, with its text. -/
structure Assertion where
  message : String
  deriving DecidableEq, Repr

/-- How a panic is told apart. The bounds of the fixed inventories have labels of their own; every
other panic is a failed assertion. -/
inductive Panic
  | assertion (assertion : Assertion)
  | freeFrames
  | evictQueue
  | readCredit
  | pendingIndex
  deriving DecidableEq, Repr

/-- Code that can only fail an assertion, as part of code that can fail otherwise. -/
instance : MonadLift (Except Assertion) (Except Panic) where
  monadLift
    | .ok value => .ok value
    | .error assertion => .error (.assertion assertion)

/-- `assert!`. -/
def ensure (condition : Prop) [Decidable condition] (message : String) : Except Assertion Unit :=
  if condition then .ok () else .error ⟨message⟩

/-- `expect` on an optional value. -/
def expect {α : Type} (value : Option α) (message : String) : Except Assertion α :=
  match value with
  | some value => .ok value
  | none => .error ⟨message⟩

/-- A subtraction of unsigned integers that has to stay non-negative. -/
def subtract (left right : ℕ) : Except Assertion ℕ :=
  if right ≤ left then .ok (left - right) else .error ⟨"subtract with overflow"⟩

@[simp] theorem ok_bind {ε α β : Type} (value : α) (next : α → Except ε β) :
    (Except.ok value >>= next) = next value := rfl

@[simp] theorem error_bind {ε α β : Type} (error : ε) (next : α → Except ε β) :
    (Except.error error >>= next) = .error error := rfl

@[simp] theorem pure_ok {ε α : Type} (value : α) : (pure value : Except ε α) = .ok value := rfl

/-- A computation succeeds if each of its parts does. -/
theorem bind_eq_ok {ε α β : Type} {value : Except ε α} {next : α → Except ε β} {result : β} :
    (value >>= next) = .ok result ↔ ∃ middle, value = .ok middle ∧ next middle = .ok result := by
  cases value with
  | ok middle => simp
  | error error => simp

theorem ensure_eq_ok {condition : Prop} [Decidable condition] {message : String} {result : Unit} :
    ensure condition message = .ok result ↔ condition := by
  unfold ensure
  split <;> simp_all

theorem expect_eq_ok {α : Type} {value : Option α} {message : String} {result : α} :
    expect value message = .ok result ↔ value = some result := by
  cases value with
  | none => simp [expect]
  | some value => simp [expect]

theorem subtract_eq_ok {left right result : ℕ} :
    subtract left right = .ok result ↔ right ≤ left ∧ result = left - right := by
  unfold subtract
  split <;> simp_all [eq_comm]

@[simp] theorem ensure_true {condition : Prop} [Decidable condition] (h : condition)
    (message : String) : ensure condition message = .ok () := if_pos h

@[simp] theorem expect_some {α : Type} (value : α) (message : String) :
    expect (some value) message = .ok value := rfl

@[simp] theorem subtract_of_le {left right : ℕ} (h : right ≤ left) :
    subtract left right = .ok (left - right) := if_pos h

namespace Driver

/-- The bytes a driver operation moved, or its raw error number. -/
abbrev IoResult := Except ℕ ℕ

/-- The bytes a result stands for, none in an error. -/
def transferred : IoResult → ℕ
  | .ok bytes => bytes
  | .error _ => 0

def eintr : ℕ := 4

def eagain : ℕ := 11

/-- `EIO`, also the error number of a read that ended before its frame was full. -/
def eio : ℕ := 5

/-- `EINVAL`, the refusal of a continuation that is not aligned. -/
def einval : ℕ := 22

/-- A slab slot and the generation it was filled with. -/
structure OpToken where
  slot : ℕ
  generation : ℕ
  deriving DecidableEq, Repr

/-- The alignment a direct file asks for is a power of two. -/
structure Alignment where
  bytes : ℕ
  isPowerOfTwo : ∃ bits, bytes = 2 ^ bits

instance : DecidableEq Alignment := fun left right ↦
  decidable_of_iff (left.bytes = right.bytes) (by cases left; cases right; simp)

def Alignment.check (alignment : Alignment) (offset : ℕ) : Bool :=
  offset % alignment.bytes == 0

inductive IoMode
  | buffered
  | direct (alignment : Alignment)
  deriving DecidableEq

/-- Whether a value is aligned for the mode of its file. -/
def IoMode.check : IoMode → ℕ → Bool
  | buffered, _ => true
  | direct alignment, offset => alignment.check offset

def vectorFramesMax : ℕ := 32

def vectorBytesMax : ℕ := 128 * 1024

/-- One scatter destination: `len` bytes of the frame's memory, from `offset` on. -/
structure Iovec where
  frame : ℕ
  offset : ℕ
  len : ℕ
  deriving DecidableEq, Repr

structure VectorIo where
  descriptors : List Iovec
  bytes : ℕ
  deriving DecidableEq, Repr

/-- The destination bytes of descriptors, in order. -/
def descriptorTargets (descriptors : List Iovec) : List (ℕ × ℕ) :=
  descriptors.flatMap fun descriptor ↦
    (List.range descriptor.len).map fun index ↦ (descriptor.frame, descriptor.offset + index)

/-- The part of one destination that the first bytes of a transfer fill: its place in the transfer,
the frame, the offset in the frame and the length. -/
structure Piece where
  transferred : ℕ
  frame : ℕ
  offset : ℕ
  length : ℕ
  deriving DecidableEq, Repr

/-- The loop of `transfer_prefix` over the descriptors. -/
def transferPieces (bytes : ℕ) : ℕ → List Iovec → List Piece × ℕ
  | transferred, [] => ([], transferred)
  | transferred, descriptor :: rest =>
    if transferred = bytes then ([], transferred) else
      let length := min (bytes - transferred) descriptor.len
      let (pieces, total) := transferPieces bytes (transferred + length) rest
      (⟨transferred, descriptor.frame, descriptor.offset, length⟩ :: pieces, total)

/-- The destinations that the first `bytes` bytes of a scatter transfer reach. -/
def VectorIo.transferPrefix (io : VectorIo) (bytes : ℕ) : Except Assertion (List Piece) := do
  ensure (bytes ≤ io.bytes) "the backend fills only its reported prefix"
  let (pieces, total) := transferPieces bytes 0 io.descriptors
  ensure (total = bytes) "every reported byte has a destination"
  return pieces

/-- A bundle of frames in flight. `frames` is the live prefix of the fixed array, `ordinal` the
position in the whole read of its first frame and `granule` the frame size of the arena. -/
structure ReadVector where
  frames : List ℕ
  ordinal : ℕ
  filled : ℕ
  total : ℕ
  granule : ℕ
  descriptors : Option VectorIo
  operation : Option OpToken
  deriving DecidableEq, Repr

namespace ReadVector

def new (granule : ℕ) : ReadVector := ⟨[], 0, 0, 0, granule, none, none⟩

def push (vector : ReadVector) (frame : ℕ) : Except Assertion ReadVector := do
  ensure (vector.frames.length < vectorFramesMax) "vector frame limit"
  ensure (vector.filled = 0) "only an unsubmitted bundle can grow"
  ensure (vector.operation = none) "admitted bundles cannot gain destinations"
  ensure (frame ∉ vector.frames) "vector destinations are distinct"
  ensure (vector.granule ≤ vectorBytesMax - vector.total) "vector byte limit"
  return { vector with
    frames := vector.frames ++ [frame]
    total := vector.total + vector.granule }

def bind (vector : ReadVector) (operation : OpToken) : Except Assertion ReadVector := do
  ensure (vector.operation = none) "bind one logical operation"
  return { vector with operation := some operation }

def remaining (vector : ReadVector) : ℕ := vector.total - vector.filled

def destinationOffset (vector : ReadVector) : ℕ := vector.filled % vector.granule

def recordCompletion (vector : ReadVector) (bytes : ℕ) : Except Assertion ReadVector := do
  ensure (bytes ≤ vector.remaining) "vector completion stays within its tail"
  return { vector with filled := vector.filled + bytes, descriptors := none }

section Consume

variable {m : Type → Type*} [Monad m] [MonadLiftT (Except Assertion) m] {τ : Type}

/-- Hands frames to a closure in order, each with its ordinal. The closure's captured state is
passed along. -/
def consumeFrames (consume : τ → ℕ → ℕ → m τ) : τ → ℕ → List ℕ → m τ
  | state, _, [] => pure state
  | state, ordinal, frame :: frames => do
    let state ← consume state ordinal frame
    consumeFrames consume state (ordinal + 1) frames

def takeCompleted (vector : ReadVector) (consume : τ → ℕ → ℕ → m τ) (state : τ) :
    m (τ × ReadVector) := do
  let completed ← (subtract (vector.filled / vector.granule) vector.ordinal : Except Assertion ℕ)
  (ensure (completed ≤ vector.frames.length) "published prefix is owned" : Except Assertion Unit)
  let state ← consumeFrames consume state vector.ordinal (vector.frames.take completed)
  return (state, { vector with
    frames := vector.frames.drop completed
    ordinal := vector.ordinal + completed })

def takeRemaining (vector : ReadVector) (consume : τ → ℕ → ℕ → m τ) (state : τ) :
    m (τ × ReadVector) := do
  let state ← consumeFrames consume state vector.ordinal vector.frames
  return (state, { vector with
    frames := []
    ordinal := vector.ordinal + vector.frames.length })

end Consume

/-- The descriptors of the frames from the `index`th on. Only the first frame of the bundle can be
partly filled. -/
def buildDescriptors (granule destinationOffset : ℕ) : ℕ → List ℕ → List Iovec
  | _, [] => []
  | index, frame :: frames =>
    let offset := if index = 0 then destinationOffset else 0
    ⟨frame, offset, granule - offset⟩ ::
      buildDescriptors granule destinationOffset (index + 1) frames

/-- `VectorStorage::prepare`. -/
def prepare (slots slot : ℕ) (vector : ReadVector) : Except Assertion ReadVector := do
  ensure (slot < slots) "descriptor slot belongs to this slab"
  ensure (0 < vector.frames.length) "a vector has an unpublished destination"
  ensure (vector.ordinal = vector.filled / vector.granule)
    "publish complete frames before rebuilding a suffix"
  return { vector with
    descriptors := some
      ⟨buildDescriptors vector.granule vector.destinationOffset 0 vector.frames,
        vector.remaining⟩ }

end ReadVector

inductive ReadDestination
  | point (frame : ℕ)
  | vector (vector : ReadVector)
  deriving DecidableEq, Repr

/-- The frames of a destination. -/
def ReadDestination.frames : ReadDestination → List ℕ
  | .point frame => [frame]
  | .vector bundle => bundle.frames

inductive OpKind
  | read
  | write
  | fsync
  deriving DecidableEq, Repr

inductive SyncMode
  | data
  | full
  deriving DecidableEq, Repr

/-- Which owner the frames of a completed operation return to. -/
inductive FrameLease
  | absent
  | pool
  | raw
  deriving DecidableEq, Repr

inductive OpState
  | queued
  | active
  | continuation
  | terminal (outcome : IoResult)
  deriving DecidableEq, Repr

structure OpEntry where
  kind : OpKind
  syncMode : SyncMode
  fd : FileId
  fileOffset : ℕ
  frame : Option ReadDestination
  destinationOffset : ℕ
  requestedLen : ℕ
  frameLease : FrameLease
  writeSlot : Option ℕ
  retries : ℕ
  ioMode : IoMode
  state : OpState

namespace OpEntry

/-- The assertions of `submit_read_vector` on a bundle and its file offset. -/
def checkVector (ioMode : IoMode) (vector : ReadVector) (offset : ℕ) : Except Assertion Unit := do
  ensure (vector.filled = 0) "new admission starts at byte zero"
  ensure (2 ≤ vector.frames.length ∧ vector.frames.length ≤ vectorFramesMax)
    "a vector has 2 to 32 frames"
  ensure (offset + vector.remaining < 2 ^ 64) "file range fits u64"
  ensure (ioMode.check offset) "aligned vector file offset"
  ensure (ioMode.check vector.granule) "aligned vector granule"

/-- The entry of a new vector read. -/
def ofVector (fd : FileId) (ioMode : IoMode) (vector : ReadVector) (offset : ℕ)
    (frameLease : FrameLease) : OpEntry where
  kind := .read
  syncMode := .full
  fd := fd
  fileOffset := offset
  frame := some (.vector vector)
  destinationOffset := 0
  requestedLen := vector.remaining
  frameLease := frameLease
  writeSlot := none
  retries := 0
  ioMode := ioMode
  state := .queued

/-- The branch of `finish_attempt` for a vector destination. The entry it returns keeps its slot; no
entry means that the operation is over and its slot is reclaimed. -/
def finishVector (entry : OpEntry) (vector : ReadVector) (result : IoResult) :
    Except Assertion (Option OpEntry × ReadVector) := do
  let bytes := transferred result
  ensure (bytes ≤ entry.requestedLen) "CQE fits its requested suffix"
  let vector ← vector.recordCompletion bytes
  if 0 < bytes ∧ bytes < entry.requestedLen then
    ensure (entry.fileOffset + bytes < 2 ^ 64) "admitted file range fits u64"
    return (some { entry with
      fileOffset := entry.fileOffset + bytes
      frame := none
      requestedLen := entry.requestedLen - bytes
      destinationOffset := vector.destinationOffset
      state := .continuation }, vector)
  else if entry.frameLease = .pool then
    return (some { entry with frame := none, state := .terminal result }, vector)
  else
    return (none, vector)

/-- The frame bytes a read asks the kernel to fill, in file order. -/
def targets (entry : OpEntry) : List (ℕ × ℕ) :=
  match entry.frame with
  | some (.point frame) =>
    (List.range entry.requestedLen).map fun index ↦ (frame, entry.destinationOffset + index)
  | some (.vector vector) => descriptorTargets (vector.descriptors.elim [] VectorIo.descriptors)
  | none => []

/-- Whether the file offset, the offset in the first frame and the length that are left suit a
direct file. -/
def continuationAligned (entry : OpEntry) (vector : ReadVector) : Bool :=
  entry.ioMode.check entry.fileOffset && entry.ioMode.check vector.destinationOffset &&
    entry.ioMode.check vector.remaining

/-- What `continue_read_vector` does to the entry of the operation `token`. No entry means that the
continuation is refused because it is not aligned. -/
def continueVector (slots : ℕ) (token : OpToken) (entry : OpEntry) (vector : ReadVector) :
    Except Assertion (Option OpEntry) := do
  ensure (vector.operation = some token) "suffix belongs to its exclusive lease"
  ensure (entry.state = .continuation) "a continued entry waits for its suffix"
  ensure (entry.requestedLen = vector.remaining) "the entry asks for the suffix"
  if entry.continuationAligned vector then
    let vector ← vector.prepare slots token.slot
    return some { entry with frame := some (.vector vector), state := .queued, retries := 0 }
  else
    return none

end OpEntry

end Driver

end DiosPool
