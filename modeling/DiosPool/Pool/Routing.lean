import DiosPool.Pool.Reclaim

/-!
# Routing completions

A completion of a read ends in one of three ways for each of its pages: the page becomes resident, it
fails with an error number, or the rest of it is read again. Completions of product operations go to
their slots.
-/

namespace DiosPool.Pool

open Driver Foundation

variable (C : Config)

/-! ## Submissions -/

/-- Remembers a refusal of the driver. -/
def refuse (locked : Locked) (submission : Submission) (error : SubmitError) : Locked :=
  { locked with refusals := locked.refusals ++ [(submission, error)] }

/-- A point read of the frame, from `filled` bytes on. -/
def submitPageRead (pool : Pool) (submission : Submission) (fd : FileHandle) (page : PageId)
    (frame filled : ℕ) : Except Assertion (Option OpToken × Pool) := do
  let (offset, len) := readSpan page C.granule filled
  match ← pool.unlocked.driver.submitRead C.driver fd frame offset filled len with
  | (.ok token, driver) => return (some token, pool.setDriver driver)
  | (.error (error, _), driver) =>
    return (none, { pool.setDriver driver with locked := refuse pool.locked submission error })

/-! ## Ends of a page read -/

def setMiss (pool : Pool) (miss : MissTable) : Pool :=
  { pool with locked := { pool.locked with miss } }

/-- The end of `drain_completions_finish_success`: the miss succeeds. -/
def settleSuccess (index : ℕ) (entry : MissEntry) : PoolM Unit :=
  Program.act fun pool ↦ do
    let miss ← pool.locked.miss.succeed index
    let miss ← miss.cleanTerminalZero pool.unlocked.interests index entry.generation
    return ((), pool.setMiss miss)

/-- `drain_completions_finish_success` after the frame is published: it is mapped and noticed by the
clock, and the miss succeeds. -/
def finishSuccess (index : ℕ) (entry : MissEntry) : PoolM Unit := do
  PoolM.update fun locked ↦ do
    let locked ← locked.insertShared C entry.page entry.frame
    return { locked with
      framePages := ← locked.framePages.insert entry.frame ⟨entry.page.file.slot⟩ }
  if ← PoolM.ledger (Clock.isSpeculative LedgerM.clockLens C.frameCount entry.frame) then
    PoolM.ledger
      (DirtyFrames.notify (Clock.completedLens LedgerM.clockLens) C.frameCount entry.frame)
  else
    let _ ← PoolM.ledger (Clock.referenceObserved LedgerM.clockLens C.frameCount entry.frame none)
  settleSuccess index entry

/-- A page gives its credit back and is published. -/
def releaseAndPublish (write : ℕ) (locked : Locked) : Except Panic Locked := do
  (← locked.releaseReadCredit).publish write

/-- A program of the ledger on a frame in flight. No reader looks at such a frame, so its steps are
taken at once. -/
def runLedger {α : Type} (program : LedgerM α) (pool : Pool) : Except Assertion (α × Pool) := do
  let (result, speculative) ← program.run (speculativeLens.get pool)
  return (result, speculativeLens.set speculative pool)

/-- `drain_completions_finish_failure`: the frame is free again and the miss fails. -/
def finishFailure (index : ℕ) (entry : MissEntry) (write errno : ℕ) (pool : Pool) :
    Except Panic Pool := do
  let (_, pool) ← runLedger (LedgerM.finish C.prefetch entry.frame .failed) pool
  let locked ← pool.locked.abort write
  let locked ← locked.pushFree C write
  let miss ← locked.miss.fail index errno
  let miss ← miss.cleanTerminalZero pool.unlocked.interests index entry.generation
  return { pool with locked := { locked with miss } }

/-- A page fails and gives its credit back. -/
def releaseAndFail (index : ℕ) (entry : MissEntry) (write errno : ℕ) : PoolM Unit :=
  Program.act fun pool ↦ do
    let locked ← pool.locked.releaseReadCredit
    return ((), ← finishFailure C index entry write errno { pool with locked })

/-! ## Point reads -/

/-- Whether the rest of a page suits the mode of its file. -/
def remainderSatisfiesIoMode (mode : IoMode) (fileOffset destinationOffset len : ℕ) : Bool :=
  mode.check fileOffset && mode.check destinationOffset && mode.check len

def routeReadCompletionRemainder (index : ℕ) (entry : MissEntry) (write filled : ℕ) :
    PoolM Unit := do
  let (offset, len) := readSpan entry.page C.granule filled
  let fd ← PoolM.locked fun locked ↦ do return (← locked.registeredFile entry.page, locked)
  let resubmitted ← if remainderSatisfiesIoMode fd.ioMode offset filled len then do
      flushDeferred C
      Program.act fun pool ↦ do
        match ← submitPageRead C pool .continuation fd entry.page write filled with
        | (some token, pool) =>
          return (true, pool.setMiss (← pool.locked.miss.advanceRemainder index filled token))
        | (none, pool) => return (false, pool)
    else
      pure false
  if !resubmitted then
    releaseAndFail C index entry write eio

def routeReadCompletion (index : ℕ) (entry : MissEntry) (write : ℕ) (result : IoResult) :
    PoolM Unit :=
  match result with
  | .ok 0 => releaseAndFail C index entry write eio
  | .ok bytes =>
    if C.granule ≤ entry.filled + bytes then do
      PoolM.update (releaseAndPublish write)
      finishSuccess C index entry
    else
      routeReadCompletionRemainder C index entry write (entry.filled + bytes)
  | .error errno => releaseAndFail C index entry write errno

/-! ## Product operations -/

/-- Whether a slot waits for the driver operation `token`. -/
def awaits (slot : ProductOpSlot) (token : OpToken) : Bool :=
  (slot.operation.bind ProductOp.driverToken) == some token

def setProductOp (locked : Locked) (index : ℕ) (operation : ProductOp) : Locked :=
  let slot := { locked.productOps index with operation := some operation }
  { locked with productOps := Function.update locked.productOps index slot }

def finishProductCompletion (locked : Locked) (token : OpToken) (kind : OpKind)
    (result : IoResult) : Except Assertion Locked := do
  let index ← expect ((List.range C.maxInflightProductOps).find? fun index ↦
      awaits (locked.productOps index) token)
    "every product backend completion names an admitted operation"
  match (locked.productOps index).operation, kind with
  | some (.write poolToken _ file _), .write =>
    let completion := PoolCompletion.write poolToken result
    return (setProductOp locked index (.completed file completion)).record
      (.finished token completion)
  | some (.fsync poolToken _ file), .fsync =>
    let completion := PoolCompletion.fsync poolToken (result.map fun _ ↦ ())
    return (setProductOp locked index (.completed file completion)).record
      (.finished token completion)
  | _, _ => .error ⟨"product completion kind matches its admitted operation"⟩

/-- A held fsync with no earlier write of its file in flight. -/
def heldFsync (locked : Locked) (index : ℕ) : Option (PoolToken × FileId × SyncMode) :=
  match (locked.productOps index).operation with
  | some (.fsyncHeld token file order mode) =>
    if (List.range C.maxInflightProductOps).any fun other ↦
        match (locked.productOps other).operation with
        | some (.write _ _ writeFile writeOrder) => writeFile == file && writeOrder < order
        | _ => false then
      none
    else
      some (token, file, mode)
  | _ => none

end DiosPool.Pool
