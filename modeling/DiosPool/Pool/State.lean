import DiosPool.Driver.Ring
import DiosPool.Pool.Miss
import DiosPool.Pool.Prefetch.Ledger
import DiosPool.Pool.ReadSpans
import DiosPool.Table.Sequential

/-!
# The state of a pool

A pool has two parts. What only the holder of the control lock changes is `Locked`; other threads
may read some of it. What other threads change as well, or hold in their hands, is `Unlocked`: the
epochs and guards of readers, retained handles, waiting tokens, the clock, and the driver with the
kernel behind it. The page table is the finite map it implements.
-/

namespace DiosPool.Pool

open Driver

/-- A validated pool configuration. -/
structure Config where
  identity : ℕ
  frameCount : ℕ
  granule : ℕ
  maxConcurrentReaders : ℕ
  peakGuardsPerReader : ℕ
  maxInflightReads : ℕ
  missHeadroom : ℕ
  maxRetainedFrames : ℕ
  maxInflightProductOps : ℕ
  registeredFileCapacity : ℕ
  prefetchCapacity : ℕ
  readahead : Readahead
  retryBound : ℕ
  granule_eq : ∃ bits, granule = 2 ^ bits
  sector_le : 4096 ≤ granule
  headroom_le : 3 * maxInflightReads ≤ missHeadroom
  watermark_le : max (maxConcurrentReaders * peakGuardsPerReader + missHeadroom) 1 +
    maxRetainedFrames ≤ frameCount
  prefetch_le : prefetchCapacity ≤
    frameCount - (maxConcurrentReaders * peakGuardsPerReader + missHeadroom + maxRetainedFrames)

namespace Config

variable (C : Config)

/-- The driver's queue holds every read and every product operation. -/
def queueCapacity : ℕ := max (C.maxInflightReads + C.maxInflightProductOps) 1

def driver : Driver.Config where
  id := C.identity
  queueCapacity := C.queueCapacity
  fileCapacity := C.registeredFileCapacity
  retryBound := C.retryBound
  frameCount := C.frameCount
  granule := C.granule

def prefetch : PrefetchGeometry :=
  .new C.prefetchCapacity C.maxConcurrentReaders C.maxInflightReads C.readahead C.frameCount
    C.granule

/-- The page table holds twice the frames, rounded up to a power of two. -/
def tableCapacity : ℕ := 2 ^ Nat.clog 2 (2 * C.frameCount)

end Config

/-! ## Frames -/

inductive FrameState
  | free
  | inFlight
  | resident
  | evicting
  deriving DecidableEq, Repr

/-- The state word of a frame, and the page its last claim was for. -/
structure Frame where
  state : FrameState
  generation : ℕ
  page : PageId
  deriving DecidableEq, Repr

/-- A byte of a frame: the file and position it was read from, and the transfer that brought it. -/
structure Byte where
  file : FileId
  position : ℕ
  transfer : ℕ
  deriving DecidableEq, Repr

/-- The bytes of a frame. Nothing is known of a byte before its first transfer. -/
abbrev Bytes := ℕ → Option Byte

/-! ## Readers -/

/-- A guard borrows the bytes its frame had when it was pinned. -/
structure Guard where
  frame : ℕ
  generation : ℕ
  page : PageId
  bytes : Bytes

/-- What a pin looks for: a mapped page, or a page at a hinted frame and state word. -/
inductive PinTarget
  | lookup (page : PageId)
  | hint (page : PageId) (frame : ℕ) (stamp : FrameState × ℕ)
  deriving DecidableEq, Repr

def PinTarget.page : PinTarget → PageId
  | lookup page => page
  | hint page _ _ => page

/-- Where a promotion stands. `attempts` counts the turns that are left after this one. -/
inductive PromotionStage
  | load (attempts : ℕ)
  | increment (attempts count : ℕ)
  | reserve (attempts : ℕ)
  | overdrawn (attempts : ℕ)
  | recheck (attempts : ℕ)
  | first (attempts : ℕ)
  | unreserve (attempts : ℕ)
  | retained
  | handover
  deriving DecidableEq, Repr

/-- What the thread of a reader is doing. -/
inductive Activity
  | idle
  /-- The file of the page is about to be checked. -/
  | checking (target : PinTarget)
  /-- The global epoch is about to be loaded. -/
  | entering (target : PinTarget)
  /-- The global epoch is loaded and about to be published. -/
  | publishing (epoch : ℕ) (target : PinTarget)
  /-- The pin has begun. -/
  | searching (first : Bool) (target : PinTarget)
  /-- The frame is found and being referenced in the clock. -/
  | referencing (first : Bool) (frame : ℕ) (page : PageId) (stage : Clock.ReferenceStage)
  /-- A guard, already taken out of the reader's guards, is being promoted. -/
  | promoting (guard : Guard) (stage : PromotionStage)

structure Reader where
  localEpoch : Option ℕ
  guardCount : ℕ
  guards : List Guard
  activity : Activity
  /-- The thread is inside a call that holds the control lock. -/
  inCall : Bool

/-! ## Retention -/

/-- The retention word of a frame. -/
structure Word where
  held : Bool
  count : ℕ
  deriving DecidableEq, Repr

def Word.countMask : ℕ := 2 ^ 16 - 1

/-- A retained frame in the hands of a caller. -/
structure Handle where
  frame : ℕ
  generation : ℕ
  page : PageId
  bytes : Bytes

/-- What is left to do of a release after its count is gone. -/
inductive Release
  | budget
  | ring (frame : ℕ)
  | publish (frame : ℕ) (ticket : ℕ)
  | wake
  deriving DecidableEq, Repr

/-- The release ring: the tickets taken so far, oldest first, with what their owners published. -/
structure ReleaseRing where
  head : ℕ
  entries : List (Option ℕ)
  deriving DecidableEq, Repr

structure Retention where
  words : ℕ → Word
  tags : ℕ → ℕ
  occupiedBudget : ℕ
  ring : ReleaseRing
  ringPending : Bool

/-! ## Files and product operations -/

inductive PoolFileState
  | live
  | retiring
  | retired
  deriving DecidableEq, Repr

structure PoolFile where
  id : FileId
  handle : Option FileHandle
  state : PoolFileState
  deriving DecidableEq

structure PoolToken where
  slot : ℕ
  generation : ℕ
  deriving DecidableEq, Repr

inductive PoolCompletion
  | write (token : PoolToken) (result : IoResult)
  | fsync (token : PoolToken) (result : Except ℕ Unit)
  deriving DecidableEq, Repr

inductive ProductOp
  | write (token : PoolToken) (driverToken : OpToken) (file : FileId) (order : ℕ)
  | fsyncHeld (token : PoolToken) (file : FileId) (order : ℕ) (mode : SyncMode)
  | fsync (token : PoolToken) (driverToken : OpToken) (file : FileId)
  | completed (file : FileId) (completion : PoolCompletion)
  deriving DecidableEq, Repr

namespace ProductOp

/-- The driver operation of a submitted product operation. -/
def driverToken : ProductOp → Option OpToken
  | write _ token _ _ => some token
  | fsync _ token _ => some token
  | _ => none

end ProductOp

structure ProductOpSlot where
  generation : ℕ
  operation : Option ProductOp
  deriving DecidableEq, Repr

/-- What the pool submits to the driver. -/
inductive Submission
  | demand
  | continuation
  | speculative
  | vector
  | write
  | fsync
  deriving DecidableEq, Repr

/-- What happened to the files and the product operations of a pool. -/
inductive Record
  | registered (file : FileId)
  | retiring (file : FileId)
  | retired (file : FileId)
  /-- A read of the page was admitted. -/
  | read (page : PageId)
  | leased (file : FileId)
  /-- A write was accepted and handed to the driver. -/
  | wrote (token : PoolToken) (driverToken : OpToken) (file : FileId)
  /-- An fsync was accepted, and is held. -/
  | synced (token : PoolToken) (file : FileId)
  /-- A held fsync was handed to the driver. -/
  | handed (token : PoolToken) (driverToken : OpToken)
  /-- The completion of a driver operation reached its slot. -/
  | finished (driverToken : OpToken) (completion : PoolCompletion)
  /-- A caller with room for `room` completions was given these. -/
  | delivered (room : ℕ) (completions : List PoolCompletion)
  /-- A product operation was refused because every slot was taken. -/
  | slotless
  deriving DecidableEq, Repr

/-! ## The two parts of a pool -/

/-- What only the holder of the control lock changes. The free list, the reserve and the batch are
stacks with their tops first. -/
structure Locked where
  frames : ℕ → Frame
  table : Table.Pages
  globalEpoch : ℕ
  liveGenerations : ℕ → Option ℕ
  leaseGenerations : ℕ → ℕ
  fileRetiring : ℕ → Bool
  evictQueue : List (ℕ × ℕ)
  miss : MissTable
  freeFrames : List ℕ
  reserve : List ℕ
  readSpans : ReadSpans
  framePages : FramePages
  files : ℕ → Option PoolFile
  batch : List Completion
  productOps : ℕ → ProductOpSlot
  productSequence : ℕ
  readsInFlight : ℕ
  ledger : Ledger
  /-- Every refusal of the driver so far. -/
  refusals : List (Submission × SubmitError)
  /-- What happened so far, the oldest first. -/
  history : List Record

/-- What other threads change, or hold. -/
structure Unlocked where
  readers : ℕ → Reader
  retention : Retention
  handles : List Handle
  releases : List Release
  interests : MissInterests
  tokens : List PendingToken
  pendingReleases : ℕ
  clock : Clock
  leases : ℕ → ℕ
  driver : Driver.Shared
  opened : List FileHandle
  waiting : Bool
  waitBatch : List Completion
  waitRetiring : List FileId
  contents : ℕ → Bytes
  transfers : ℕ

end Pool

/-- A pool. -/
structure Pool where
  locked : Pool.Locked
  unlocked : Pool.Unlocked

end DiosPool
