import DiosPool.Foundation.Safety
import DiosPool.Pool.State

/-!
# Building a pool

`PoolBuilder::validate` checks the capacities of a pool, and the constructors derive the sizes of
their tables from them. All arithmetic is that of unsigned machine integers on a 64-bit target. A
build ends with a pool, with a typed error, or with a fault: a failed assertion or an overflow.
-/

namespace DiosPool.Pool

open Driver Foundation

/-! ## Machine integers -/

def checkedAdd (bits left right : ℕ) : Option ℕ :=
  if left + right < 2 ^ bits then some (left + right) else none

def checkedMul (bits left right : ℕ) : Option ℕ :=
  if left * right < 2 ^ bits then some (left * right) else none

def checkedNextPowerOfTwo (bits value : ℕ) : Option ℕ :=
  if 2 ^ Nat.clog 2 value < 2 ^ bits then some (2 ^ Nat.clog 2 value) else none

/-- An addition that has to stay in range. -/
def add (bits left right : ℕ) : Except Assertion ℕ :=
  expect (checkedAdd bits left right) "attempt to add with overflow"

/-- A multiplication that has to stay in range. -/
def mul (bits left right : ℕ) : Except Assertion ℕ :=
  expect (checkedMul bits left right) "attempt to multiply with overflow"

/-- `next_power_of_two`, which has to stay in range. -/
def nextPowerOfTwo (bits value : ℕ) : Except Assertion ℕ :=
  expect (checkedNextPowerOfTwo bits value) "attempt to add with overflow"

def isPowerOfTwo (bits value : ℕ) : Bool := (List.range bits).any fun exponent ↦ value == 2 ^ exponent

/-! ## Errors -/

inductive PoolConfigError
  | prefetchHeadroomTooLarge (requested available : ℕ)
  | retentionUnrepresentable (requested limit : ℕ)
  | belowWatermark (frameCount watermark : ℕ)
  | missHeadroomTooSmall (missHeadroom minimum : ℕ)
  | granuleNotPowerOfTwo (granule : ℕ)
  | granuleBelowSector (granule sector : ℕ)
  | queueCapacityOverflow (maxInflightReads maxInflightProductOps : ℕ)
  | registrationRefused (arenaBytes memlockLimitBytes : ℕ)
  | registrationUnsupported
  | arenaLockRefused (arenaBytes memlockLimitBytes : ℕ)
  deriving DecidableEq, Repr

inductive PoolBuildError
  | configuration (error : PoolConfigError)
  | allocation
  | driver (errno : ℕ)
  deriving DecidableEq, Repr

/-- How a build can stop short. -/
inductive Stop
  | refused (error : PoolBuildError)
  | fault (assertion : Assertion)
  deriving DecidableEq, Repr

abbrev BuildM := Except Stop

instance : MonadLift (Except Assertion) BuildM where
  monadLift
    | .ok value => .ok value
    | .error assertion => .error (.fault assertion)

/-- A check of the configuration. -/
def check (condition : Prop) [Decidable condition] (error : PoolConfigError) : BuildM Unit :=
  if condition then .ok () else .error (.refused (.configuration error))

/-! ## The builder -/

inductive RegistrationPolicy
  | auto
  | registered
  | unregistered
  deriving DecidableEq, Repr

inductive ArenaLockPolicy
  | bestEffort
  | required
  deriving DecidableEq, Repr

structure PoolBuilder where
  frameCount : UInt32 := 0
  granule : UInt32 := 4096
  maxConcurrentReaders : UInt32 := 0
  peakGuardsPerReader : UInt32 := 0
  maxInflightReads : UInt32 := 0
  missHeadroom : UInt32 := 0
  maxRetainedFrames : UInt32 := 0
  writeSlots : UInt32 := 0
  maxInflightProductOps : UInt32 := 0
  registeredFileCapacity : UInt32 := 64
  registrationPolicy : RegistrationPolicy := .auto
  arenaLock : ArenaLockPolicy := .bestEffort
  prefetchHeadroom : Option UInt32 := none
  readahead : Readahead := .automatic

def sectorBytes : ℕ := 4096

namespace PoolBuilder

variable (builder : PoolBuilder)

/-- The subtraction of the readers cannot fail. -/
def validateRetentionCapacity : BuildM Unit := do
  let retained := builder.maxRetainedFrames.toNat
  let readers := builder.maxConcurrentReaders.toNat
  check (retained ≤ 2 ^ 31) (.retentionUnrepresentable retained (2 ^ 31))
  check (retained ≤ u32Max - readers) (.retentionUnrepresentable retained (u32Max - readers))
  check ((checkedAdd 32 readers 1).isSome) (.retentionUnrepresentable readers (u32Max - 1))

/-- The frames that guards and misses can hold at once, in `u64`. -/
def demandFrames : Except Assertion ℕ := do
  let guards ← mul 64 builder.maxConcurrentReaders.toNat builder.peakGuardsPerReader.toNat
  add 64 guards builder.missHeadroom.toNat

def prefetchCapacity : BuildM ℕ := do
  let demand ← builder.demandFrames
  let committed ← add 64 demand builder.maxRetainedFrames.toNat
  let spare := builder.frameCount.toNat - committed
  ensure (spare < 2 ^ 32) "spare frames fit u32"
  ensure (builder.granule.toNat ≠ 0) "attempt to divide by zero"
  let credits := match builder.prefetchHeadroom with
    | some credits => credits.toNat
    | none => min (min spare (builder.maxInflightReads.toNat - 1)) (524288 / builder.granule.toNat)
  check (credits ≤ spare) (.prefetchHeadroomTooLarge credits spare)
  return credits

def validate : BuildM Unit := do
  let reads := builder.maxInflightReads.toNat
  let productOps := builder.maxInflightProductOps.toNat
  let granule := builder.granule.toNat
  let headroom := builder.missHeadroom.toNat
  let frameCount := builder.frameCount.toNat
  check ((checkedAdd 32 reads productOps).isSome) (.queueCapacityOverflow reads productOps)
  check (isPowerOfTwo 32 granule) (.granuleNotPowerOfTwo granule)
  check (sectorBytes ≤ granule) (.granuleBelowSector granule sectorBytes)
  builder.validateRetentionCapacity
  check ((checkedMul 32 reads 3).isSome) (.missHeadroomTooSmall headroom u32Max)
  check (reads * 3 ≤ headroom) (.missHeadroomTooSmall headroom (reads * 3))
  let demand ← builder.demandFrames
  let watermark ← add 64 (max demand 1) builder.maxRetainedFrames.toNat
  check (watermark ≤ frameCount) (.belowWatermark frameCount (min watermark u32Max))
  let _ ← builder.prefetchCapacity

end PoolBuilder

/-! ## The host -/

/-- What a build allocates. -/
inductive Site
  | frameStates | framePages | frameArena
  | writeFree | writeArena
  | slabSlots | slabFree | deferred | fileTable | ready | completionBacklog
  | backendFiles
  | vectors | retire | shutdownBatch
  | readers
  | evictQueue | missSlots | missHeads | successFrames | pending | freeFrames
  | spanSlots | spanOperations | pageSlots | pageHeads | files | batch | productOps
  | vacant | reserve | entries | patterns | readyStreams | cleanup | waiting | readerEntries
  | frameEntries | feedback | feedbackScratch
  | tableSlots
  | referenceBits | speculation | consumed | completed
  | interests | waitBatch
  | liveGenerations | leaseStates | words | tags | retiring | releaseRing
  deriving DecidableEq, Repr

/-- Which backend a target has. -/
inductive Backend
  | eager
  | uring
  deriving DecidableEq, Repr

/-- How the system answers a build: which allocations it grants, and the errors of its calls. -/
structure Host where
  backend : Backend
  allocates : Site → ℕ → Bool
  lockArenas : Except ℕ Unit
  ring : Except ℕ Unit
  platformWake : Except ℕ Unit
  registerFiles : Except ℕ Unit
  registerArenas : Except ℕ Unit
  memlockLimitBytes : ℕ

namespace Host

variable (host : Host)

/-- An allocation of `count` elements. Its size may exceed what a layout can express; the host then
refuses it. -/
def allocate (site : Site) (count : ℕ) : BuildM Unit :=
  if host.allocates site count then .ok () else .error (.refused .allocation)

/-- A call of the system whose error ends the build. -/
def call (result : Except ℕ Unit) : BuildM Unit :=
  match result with
  | .ok () => .ok ()
  | .error errno => .error (.refused (.driver errno))

/-! ## Arenas -/

def hugepageBytes : ℕ := 2 * 1024 * 1024

def arenaAlignment (span granule : ℕ) : ℕ :=
  if host.backend = .uring ∧ hugepageBytes ≤ span then max hugepageBytes granule else granule

/-- `Frames::try_preallocated`: the bytes of the arena. -/
def preallocateFrames (count granule : ℕ) : BuildM ℕ := do
  ensure (0 < count) "frame count must be positive"
  ensure (isPowerOfTwo 32 granule) "granule must be a power of two"
  ensure (sectorBytes ≤ granule) "granule must not fall below the sector floor"
  match checkedMul 64 count granule with
  | none => .error (.refused .allocation)
  | some span =>
    host.allocate .frameStates count
    host.allocate .framePages count
    ensure (0 < span) "fixed arena mappings are non-empty"
    ensure (isPowerOfTwo 64 (host.arenaAlignment span granule)) "arena alignment is a power of two"
    host.allocate .frameArena span
    return span

/-- `ArenaState::try_preallocated`: the bytes of the staging slots. A layout holds at most `2 ^ 63`
bytes less its alignment. -/
def preallocateWriteArena (slotCount granule : ℕ) : BuildM ℕ := do
  ensure (0 < slotCount) "write slot count must be positive"
  ensure (isPowerOfTwo 32 granule) "granule must be a power of two"
  let span ← expect (checkedMul 64 slotCount granule) "write arena span within isize::MAX"
  ensure (span ≤ 2 ^ 63 - granule) "valid granule-aligned write arena layout"
  host.allocate .writeFree slotCount
  ensure (0 < span) "fixed arena layouts are non-empty"
  host.allocate .writeArena span
  return span

/-! ## The driver -/

/-- `Shared::try_new`. -/
def newShared (readyCapacity fileCapacity : ℕ) : BuildM Unit := do
  host.allocate .slabSlots readyCapacity
  host.allocate .slabFree readyCapacity
  host.allocate .deferred readyCapacity
  host.allocate .fileTable fileCapacity
  host.allocate .ready readyCapacity
  host.allocate .completionBacklog readyCapacity

def arenaBytes (frameBytes stagingBytes : ℕ) : Except Assertion ℕ :=
  expect (checkedAdd 64 frameBytes stagingBytes) "both arenas together fit u64"

def enomem : ℕ := 12

/-- `lock_arenas` and `registration_policy_after_lock`: the registration policy that is left. -/
def policyAfterLock (bytes : ℕ) (lock : ArenaLockPolicy) (policy : RegistrationPolicy) :
    BuildM RegistrationPolicy :=
  match host.lockArenas with
  | .ok () => return policy
  | .error errno => do
    check (lock ≠ .required) (.arenaLockRefused bytes host.memlockLimitBytes)
    return if errno = enomem ∧ policy = .auto then .unregistered else policy

def selectPosture (bytes : ℕ) (policy : RegistrationPolicy) : BuildM Unit :=
  if policy = .unregistered then
    return ()
  else
    match host.registerArenas with
    | .ok () => return ()
    | .error errno =>
      if errno = enomem then
        check (policy ≠ .registered) (.registrationRefused bytes host.memlockLimitBytes)
      else
        .error (.refused (.driver errno))

/-- `Uring::new`: the entries of the ring. -/
def newUring (frames granule queueCapacity fileCapacity bytes : ℕ) (policy : RegistrationPolicy) :
    BuildM ℕ := do
  ensure (0 < frames) "frame count must be positive"
  ensure (0 < granule) "frame size must be positive"
  ensure (0 < queueCapacity) "queue capacity must be positive"
  host.allocate .backendFiles fileCapacity
  let requests ← expect (checkedAdd 32 queueCapacity 1)
    "the product queue sum leaves room for one private wake request"
  let ringEntries ← nextPowerOfTwo 32 requests
  call host.ring
  call host.platformWake
  if 0 < fileCapacity then call host.registerFiles
  host.selectPosture bytes policy
  return ringEntries

/-- `Eager::new`, which has no ring. -/
def newEager (frames granule fileCapacity : ℕ) (policy : RegistrationPolicy) : BuildM ℕ := do
  ensure (0 < frames) "frame count must be positive"
  ensure (0 < granule) "frame size must be positive"
  check (policy ≠ .registered) .registrationUnsupported
  host.allocate .backendFiles fileCapacity
  return 0

/-- `DriverCore::try_new`. -/
def newCore (frames retryBound queueCapacity fileCapacity : ℕ) : BuildM Unit := do
  ensure (0 < frames) "driver core frame count must be positive"
  ensure (0 < queueCapacity) "driver core queue capacity must be positive"
  match (checkedAdd 64 retryBound 1).bind (checkedMul 64 vectorBytesMax) with
  | none => .error (.refused .allocation)
  | some attempts =>
    ensure (vectorBytesMax ≤ attempts) "the attempts of a vector are bounded"
    ensure (fileCapacity < 2 ^ 32) "the configured file capacity fits u32"
    match checkedMul 64 queueCapacity vectorFramesMax with
    | none => .error (.refused .allocation)
    | some descriptors =>
      ensure (0 < descriptors) "fixed arena mappings are non-empty"
      host.allocate .vectors descriptors
      host.allocate .retire fileCapacity
      host.allocate .shutdownBatch queueCapacity

/-- `DriverBuilder::build_with_frames`: the entries of the ring. -/
def buildDriver (builder : PoolBuilder) (frameBytes queueCapacity : ℕ) : BuildM ℕ := do
  let granule := builder.granule.toNat
  let frames := builder.frameCount.toNat
  let files := builder.registeredFileCapacity.toNat
  let stagingBytes ← host.preallocateWriteArena (max builder.writeSlots.toNat 1) granule
  host.newShared queueCapacity files
  let bytes ← arenaBytes frameBytes stagingBytes
  let policy ← host.policyAfterLock bytes builder.arenaLock builder.registrationPolicy
  let ringEntries ← match host.backend with
    | .uring => host.newUring frames granule queueCapacity files bytes policy
    | .eager => host.newEager frames granule files policy
  host.newCore frames 0 queueCapacity files
  return ringEntries

/-! ## The tables of the pool -/

/-- `PageTable::try_with_frame_count`: the capacity of the table. -/
def newPageTable (frameCount : ℕ) : BuildM ℕ := do
  ensure (0 < frameCount) "frame count must be positive"
  let capacity ← expect ((checkedMul 32 frameCount 2).bind (checkedNextPowerOfTwo 32))
    "page-table capacity within u32"
  host.allocate .tableSlots capacity
  let _ ← subtract capacity 1
  return capacity

/-- The levels of `DirtyFrames`, each with a bit for every word of the one below. The result is the
number of words of the last level. -/
def dirtyLevels (site : Site) : ℕ → ℕ → BuildM ℕ
  | 0, count => return count
  | levels + 1, count => do
    let count := (count + 63) / 64
    host.allocate site count
    if count = 1 then return count else dirtyLevels site levels count

/-- `DirtyFrames::try_new`. -/
def newDirtyFrames (site : Site) (frames : ℕ) : BuildM Unit := do
  ensure (0 < frames) "frames"
  let count ← host.dirtyLevels site 6 frames
  ensure (count = 1) "the last level is one word"

/-- `Clock::try_with_frame_count`. -/
def newClock (frameCount : ℕ) : BuildM Unit := do
  ensure (0 < frameCount) "frame count must be positive"
  host.allocate .referenceBits frameCount
  host.allocate .speculation frameCount
  host.newDirtyFrames .consumed frameCount
  host.newDirtyFrames .completed frameCount

/-- `FileSlots::try_new`. -/
def newFileSlots (slots heads : Site) (capacity fileCapacity : ℕ) : BuildM Unit := do
  ensure (0 < capacity) "indexed slot capacity is positive"
  host.allocate slots capacity
  host.allocate heads fileCapacity

/-- `MissTable::try_with_capacity`. -/
def newMissTable (capacity pendingCapacity fileCapacity : ℕ) : BuildM Unit := do
  ensure (pendingCapacity ≤ capacity)
    "pending misses occupy miss slots, so their bound fits the slot count"
  host.newFileSlots .missSlots .missHeads capacity fileCapacity
  host.allocate .successFrames capacity
  host.allocate .pending pendingCapacity

/-- `ReadSpans::try_new`. -/
def newReadSpans (reads operations : ℕ) : BuildM Unit := do
  ensure (0 < operations) "operations"
  host.allocate .spanSlots reads
  host.allocate .spanOperations operations

/-- `CompletionBatch::try_with_capacity`. -/
def newBatch (site : Site) (capacity : ℕ) : BuildM Unit := do
  ensure (0 < capacity) "completion batch capacity must be positive"
  host.allocate site capacity

/-- `Prefetch::try_with_geometry`. -/
def newPrefetch (capacity readers reads : ℕ) (mode : Readahead) (frames granule : ℕ) :
    BuildM PrefetchGeometry := do
  let geometry := PrefetchGeometry.new capacity readers reads mode frames granule
  ensure (granule ≠ 0) "attempt to divide by zero"
  let _ ← mul 32 2 geometry.vectorWidth
  let feedbackCapacity := if geometry.patternCount = 0 then 0 else capacity
  host.allocate .vacant capacity
  host.allocate .reserve capacity
  host.allocate .entries capacity
  host.allocate .patterns geometry.patternCount
  host.allocate .readyStreams geometry.patternCount
  host.allocate .cleanup capacity
  host.allocate .waiting capacity
  host.allocate .readerEntries geometry.patternCount
  host.allocate .frameEntries frames
  host.allocate .feedback feedbackCapacity
  host.allocate .feedbackScratch feedbackCapacity
  return geometry

/-- `ReleaseRing::try_preallocated`: the capacity of the ring. -/
def newReleaseRing (maxRetainedFrames : ℕ) : BuildM ℕ := do
  ensure (0 < maxRetainedFrames) "a release ring needs a positive budget"
  ensure (maxRetainedFrames ≤ 2 ^ 31) "a release ring capacity must remain representable"
  let rounded ← nextPowerOfTwo 32 maxRetainedFrames
  let capacity := max rounded 2
  host.allocate .releaseRing capacity
  let _ ← subtract capacity 1
  return capacity

/-- `Retention::try_preallocated_with_file_capacity`: the capacity of the release ring, if retention is
enabled. -/
def newRetention (frameCount maxRetainedFrames fileCapacity : ℕ) : BuildM (Option ℕ) :=
  if maxRetainedFrames = 0 then
    return none
  else do
    host.allocate .words frameCount
    host.allocate .tags frameCount
    host.allocate .retiring fileCapacity
    return some (← host.newReleaseRing maxRetainedFrames)

end Host

/-- The sizes a pool is built with. -/
structure Geometry where
  queueCapacity : ℕ
  ringEntries : ℕ
  prefetch : PrefetchGeometry
  tableCapacity : ℕ
  releaseRing : Option ℕ
  deriving DecidableEq, Repr

namespace PoolBuilder

variable (host : Host) (builder : PoolBuilder)

def queueCapacity : ℕ :=
  max (min (builder.maxInflightReads.toNat + builder.maxInflightProductOps.toNat) u32Max) 1

/-- `try_preallocated_control`: the geometry of the ledger. -/
def preallocateControl (backendCapacity : ℕ) : BuildM PrefetchGeometry := do
  let frames := builder.frameCount.toNat
  let reads := builder.maxInflightReads.toNat
  let files := builder.registeredFileCapacity.toNat
  ensure (0 < backendCapacity) "backend batch capacity is positive"
  host.allocate .evictQueue frames
  host.newMissTable frames reads files
  host.allocate .freeFrames frames
  host.newReadSpans reads backendCapacity
  host.newFileSlots .pageSlots .pageHeads frames files
  host.allocate .files files
  host.newBatch .batch backendCapacity
  host.allocate .productOps builder.maxInflightProductOps.toNat
  let credits ← builder.prefetchCapacity
  host.newPrefetch credits builder.maxConcurrentReaders.toNat reads builder.readahead frames
    builder.granule.toNat

/-- `Pool::try_preallocated`. -/
def preallocate (backendCapacity ringEntries : ℕ) : BuildM Geometry := do
  let frames := builder.frameCount.toNat
  let files := builder.registeredFileCapacity.toNat
  host.allocate .readers builder.maxConcurrentReaders.toNat
  ensure (0 < backendCapacity) "the backend has operation slots"
  let prefetch ← builder.preallocateControl host backendCapacity
  let tableCapacity ← host.newPageTable frames
  host.newClock frames
  host.allocate .interests frames
  host.newBatch .waitBatch backendCapacity
  host.allocate .liveGenerations files
  host.allocate .leaseStates files
  let releaseRing ← host.newRetention frames builder.maxRetainedFrames.toNat files
  return ⟨backendCapacity, ringEntries, prefetch, tableCapacity, releaseRing⟩

def build : BuildM Geometry := do
  builder.validate
  let frameBytes ← host.preallocateFrames builder.frameCount.toNat builder.granule.toNat
  let ringEntries ← host.buildDriver builder frameBytes builder.queueCapacity
  builder.preallocate host builder.queueCapacity ringEntries

end PoolBuilder

end DiosPool.Pool
