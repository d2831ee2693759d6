import DiosPool.Pool.Threads

/-!
# Programs under the control lock

A call that holds the control lock is a program over the pool. Other threads go on between two of its
steps, so every access to something they change is a step of its own; what only the lock holder sees
is done together with the access next to it.
-/

namespace DiosPool.Pool

open Driver Foundation

abbrev PoolM := Program Pool Panic

namespace PoolM

variable {α : Type}

/-- A look at the pool. -/
def read (view : Pool → α) : PoolM α := Program.load view

/-- A step that can only fail an assertion. -/
def act (action : Pool → Except Assertion (α × Pool)) : PoolM α :=
  Program.act fun pool ↦ (action pool : Except Assertion (α × Pool))

/-- A change of what the lock protects. -/
def locked (change : Locked → Except Panic (α × Locked)) : PoolM α :=
  Program.act fun pool ↦ do
    let (result, locked) ← change pool.locked
    return (result, { pool with locked })

/-- A change of what the lock protects, with no result. -/
def update (change : Locked → Except Panic Locked) : PoolM Unit :=
  locked fun locked ↦ do return ((), ← change locked)

/-- A critical section of the driver. -/
def driver (critical : Section α) : PoolM α :=
  Program.act fun pool ↦ do
    let (result, driver) ← critical pool.unlocked.driver
    return (result, pool.setDriver driver)

end PoolM

/-- The ledger and the clock of a pool. -/
def speculativeLens : Lens Pool Speculative where
  get pool := ⟨pool.locked.ledger, pool.unlocked.clock⟩
  set speculative pool :=
    { locked := { pool.locked with ledger := speculative.ledger }
      unlocked := { pool.unlocked with clock := speculative.clock } }

/-- A program of the ledger. -/
def PoolM.ledger {α : Type} (program : LedgerM α) : PoolM α := program.zoom speculativeLens .assertion

variable (C : Config)

/-! ## Frames and their inventories -/

namespace Locked

/-- Remembers what happened. -/
def record (locked : Locked) (record : Record) : Locked :=
  { locked with history := locked.history ++ [record] }

def setFrame (locked : Locked) (index : ℕ) (frame : Frame) : Locked :=
  { locked with frames := Function.update locked.frames index frame }

/-- Takes a free frame for a page. -/
def claim (locked : Locked) (frame : ℕ) (page : PageId) : Except Assertion Locked := do
  let word := locked.frames frame
  ensure (word.state = .free) "the free stack holds only Free frames"
  return locked.setFrame frame ⟨.inFlight, word.generation, page⟩

/-- The frame becomes resident under a new generation. -/
def publish (locked : Locked) (frame : ℕ) : Except Assertion Locked := do
  let word := locked.frames frame
  ensure (word.state = .inFlight) "a live token names an InFlight frame"
  return locked.setFrame frame { word with state := .resident, generation := word.generation + 1 }

/-- A frame that was never published is free again. -/
def abort (locked : Locked) (frame : ℕ) : Except Assertion Locked := do
  let word := locked.frames frame
  ensure (word.state = .inFlight) "a live token names an InFlight frame"
  return locked.setFrame frame { word with state := .free }

/-- The reclamation edges. -/
def advance (locked : Locked) (frame : ℕ) (next : FrameState) : Except Assertion Locked := do
  let word := locked.frames frame
  ensure ((word.state = .resident ∧ next = .evicting) ∨ (word.state = .evicting ∧ next = .free))
    "illegal frame transition outside a token"
  return locked.setFrame frame { word with state := next }

/-- The page of a published frame. -/
def exactPageLocked (locked : Locked) (frame : ℕ) : Except Assertion PageId := do
  let word := locked.frames frame
  ensure (word.state = .resident ∨ word.state = .evicting)
    "a locked identity read names a published frame"
  return word.page

def pushFree (locked : Locked) (frame : ℕ) : Except Panic Locked :=
  if locked.freeFrames.length < C.frameCount then
    return { locked with freeFrames := frame :: locked.freeFrames }
  else
    .error .freeFrames

def pushReserve (locked : Locked) (frame : ℕ) : Except Panic Locked :=
  if locked.reserve.length < C.prefetchCapacity then
    return { locked with reserve := frame :: locked.reserve }
  else
    .error .freeFrames

/-- The queue remembers the epoch a frame was evicted in. -/
def pushEvict (locked : Locked) (frame : ℕ) : Except Panic Locked :=
  if locked.evictQueue.length < C.frameCount then
    return { locked with evictQueue := locked.evictQueue ++ [(frame, locked.globalEpoch)] }
  else
    .error .evictQueue

/-- Moves at most `count` frames from the free list to the reserve. -/
def fillReserveFrom : ℕ → Locked → Except Panic Locked
  | 0, locked => return locked
  | count + 1, locked =>
    match locked.freeFrames with
    | [] => return locked
    | frame :: freeFrames => do
      fillReserveFrom count (← pushReserve C { locked with freeFrames } frame)

def fillReserve (locked : Locked) : Except Panic Locked :=
  if locked.ledger.active then do
    let available ← locked.ledger.available C.prefetch
    fillReserveFrom C (available - locked.reserve.length) locked
  else
    return locked

def releaseReadCredit (locked : Locked) : Except Panic Locked :=
  if 0 < locked.readsInFlight then
    return { locked with readsInFlight := locked.readsInFlight - 1 }
  else
    .error .readCredit

/-! ## The page table -/

def insertShared (locked : Locked) (page : PageId) (frame : ℕ) : Except Assertion Locked :=
  match Table.Pages.exec C.tableCapacity (.insert page frame) locked.table with
  | .ok (_, table) => return { locked with table }
  | .error _ => .error ⟨"page table exceeded fixed capacity"⟩

/-- Removes a page and returns its frame. -/
def removeShared (locked : Locked) (page : PageId) : Option ℕ × Locked :=
  (locked.table.lookup page, { locked with table := locked.table.erase page })

/-! ## Files -/

def fileIsLive (locked : Locked) (file : FileId) : Bool :=
  (locked.files file.slot).any fun entry ↦ entry.id == file && entry.state == .live

def registeredFile (locked : Locked) (page : PageId) : Except Assertion FileHandle := do
  let file ← expect (locked.files page.file.slot) "a registered file backs every requested page"
  ensure (file.id = page.file) "a page capability must name the exact registered file identity"
  expect file.handle "an admitted read retains its backend handle"

/-- The handle of a live file, for a product operation. -/
def liveFileHandle (locked : Locked) (file : FileId) : Option FileHandle :=
  match locked.files file.slot with
  | some entry => if entry.id = file ∧ entry.state = .live then entry.handle else none
  | none => none

end Locked

/-- The file offset and length of the read that fills a page from `filled` bytes on. -/
def readSpan (page : PageId) (granule filled : ℕ) : ℕ × ℕ :=
  (page.granuleIdx * granule + filled, granule - filled)

/-! ## The driver -/

/-- The turns of `flush_deferred`. -/
def flushDeferredFrom : ℕ → PoolM Unit
  | 0 => return ()
  | turns + 1 => do
    match ← PoolM.driver Shared.popDeferred with
    | none => return ()
    | some retire =>
      if let some file := retire then
        PoolM.driver fun shared ↦ do return ((), ← shared.finishRetire file)
      flushDeferredFrom turns

def flushDeferred : PoolM Unit := flushDeferredFrom C.queueCapacity

end DiosPool.Pool
