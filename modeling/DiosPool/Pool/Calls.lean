import DiosPool.Pool.Prefetch.Windows

/-!
# Parts of calls

What the calls under the control lock do to tokens, files and product operations, and the pool they
start from.
-/

namespace DiosPool.Pool

open Driver Foundation

variable (C : Config)

/-! ## Readers inside a call -/

/-- The steps of a pin that a thread makes inside a call. -/
def pinSteps (index : ℕ) : ℕ → PoolM Unit
  | 0 => return ()
  | turns + 1 => do
    Program.act fun pool ↦ do return ((), ← pool.readerStep C index)
    pinSteps index turns

/-- `pin_owned`. -/
def pinOwned (index : ℕ) (page : PageId) : PoolM Bool := do
  let before ← PoolM.read fun pool ↦ (pool.unlocked.readers index).guards.length
  Program.store fun pool ↦ pool.setReader index
    { pool.unlocked.readers index with activity := .entering (.lookup page) }
  pinSteps C index (DirtyFrames.height C.frameCount + 9)
  PoolM.read fun pool ↦ decide (before < (pool.unlocked.readers index).guards.length)

/-! ## `ready` -/

/-- What `ready` returns. -/
inductive ReadyResult
  | ready
  | notYet
  | error (errno : ℕ)
  deriving DecidableEq, Repr

def returnToken (token : PendingToken) : PoolM Unit :=
  Program.store fun pool ↦ { pool with unlocked := { pool.unlocked with
    tokens := token :: pool.unlocked.tokens } }

/-- A token is consumed, and its entry cleaned if it was the last. -/
def consumeToken (token : PendingToken) : PoolM Unit :=
  Program.act fun pool ↦ do
    let interests ← pool.unlocked.interests.release token.slot token.generation
    let miss ← pool.locked.miss.cleanTerminalZero interests token.slot token.generation
    return ((), { locked := { pool.locked with miss }
                  unlocked := { pool.unlocked with
                    interests
                    pendingReleases := pool.unlocked.pendingReleases + 1 } })

/-! ## Files -/

/-- `register_file_internal` for an opened handle. -/
def registerFile (pool : Pool) (index : ℕ) : Except Assertion Pool :=
  match pool.unlocked.opened[index]? with
  | none => return pool
  | some handle => do
    let id := handle.fileId
    ensure ((pool.locked.files id.slot).all fun entry ↦ entry.state == .retired)
      "a file slot is absent or retired before registration"
    ensure (id.driver = C.identity) "lease state belongs to the registering pool"
    ensure (pool.unlocked.leases id.slot = 0)
      "a file slot cannot publish a new generation with live leases"
    let fileRetiring := if C.maxRetainedFrames = 0 then pool.locked.fileRetiring
      else Function.update pool.locked.fileRetiring id.slot false
    return {
      locked := Locked.record { pool.locked with
        fileRetiring
        leaseGenerations := Function.update pool.locked.leaseGenerations id.slot id.generation
        files := Function.update pool.locked.files id.slot (some ⟨id, some handle, .live⟩)
        liveGenerations := Function.update pool.locked.liveGenerations id.slot
          (some id.generation) } (.registered id)
      unlocked := { pool.unlocked with opened := pool.unlocked.opened.eraseIdx index } }

def setFileEntry (locked : Locked) (index : ℕ) (entry : PoolFile) : Locked :=
  { locked with files := Function.update locked.files index (some entry) }

/-- The first half of `retire_file`: the file is marked and no longer live. -/
def beginFileRetirement (locked : Locked) (file : FileId) : Option Locked :=
  match locked.files file.slot with
  | none => none
  | some entry =>
    if entry.id = file ∧ entry.state ≠ .retired then
      some (Locked.record { setFileEntry locked file.slot { entry with state := .retiring } with
        fileRetiring := if C.maxRetainedFrames = 0 then locked.fileRetiring
          else Function.update locked.fileRetiring file.slot true
        liveGenerations := Function.update locked.liveGenerations file.slot none }
          (.retiring file))
    else
      none

/-! ## Product operations -/

/-- The first vacant slot. -/
def vacantProductOp (locked : Locked) : Option ℕ :=
  (List.range C.maxInflightProductOps).find? fun index ↦
    (locked.productOps index).operation.isNone

/-- An operation takes a slot under a new generation and the next place in the order. -/
def installProductOp (locked : Locked) (index : ℕ) (operation : PoolToken → ℕ → ProductOp) :
    PoolToken × Locked :=
  let token : PoolToken := ⟨index, (locked.productOps index).generation + 1⟩
  let order := locked.productSequence + 1
  (token, { locked with
    productSequence := order
    productOps := Function.update locked.productOps index
      ⟨token.generation, some (operation token order)⟩ })

/-- Finished operations are handed out in slot order, as many as the caller has room for. -/
def deliverFrom : ℕ → ℕ → ℕ → List PoolCompletion → Locked → List PoolCompletion × Locked
  | 0, _, _, delivered, locked => (delivered, locked)
  | _ + 1, _, 0, delivered, locked => (delivered, locked)
  | turns + 1, index, room + 1, delivered, locked =>
    match (locked.productOps index).operation with
    | some (.completed _ completion) =>
      let slot := { locked.productOps index with operation := none }
      deliverFrom turns (index + 1) room (delivered ++ [completion])
        { locked with productOps := Function.update locked.productOps index slot }
    | _ => deliverFrom turns (index + 1) (room + 1) delivered locked

/-! ## Polling -/

/-- The completions of a wait go to the batch of the pool. -/
def collectWait (pool : Pool) : Pool :=
  { locked := { pool.locked with batch := pool.unlocked.waitBatch.reverse ++ pool.locked.batch }
    unlocked := { pool.unlocked with waiting := false, waitBatch := [] } }

/-! ## A new pool -/

def Reader.new : Reader := ⟨none, 0, [], .idle, false⟩

/-- A pool as it is built. -/
def new : Pool where
  locked := {
    frames := fun _ ↦ ⟨.free, 0, ⟨⟨0, 0, 0⟩, 0⟩⟩
    table := ∅
    globalEpoch := 0
    liveGenerations := fun _ ↦ none
    leaseGenerations := fun _ ↦ 0
    fileRetiring := fun _ ↦ false
    evictQueue := []
    miss := .new C.frameCount C.maxInflightReads
    freeFrames := List.range C.frameCount
    reserve := []
    readSpans := .new C.maxInflightReads C.queueCapacity
    framePages := .new C.frameCount
    files := fun _ ↦ none
    batch := []
    productOps := fun _ ↦ ⟨0, none⟩
    productSequence := 0
    readsInFlight := 0
    ledger := .new C.prefetch
    refusals := []
    history := [] }
  unlocked := {
    readers := fun _ ↦ .new
    retention := ⟨fun _ ↦ ⟨false, 0⟩, fun _ ↦ 0, 0, ⟨0, []⟩, false⟩
    handles := []
    releases := []
    interests := fun _ ↦ ⟨0, 0⟩
    tokens := []
    pendingReleases := 0
    clock := .new
    leases := fun _ ↦ 0
    driver := .new C.driver
    opened := []
    waiting := false
    waitBatch := []
    waitRetiring := []
    contents := fun _ _ ↦ none
    transfers := 0 }

end DiosPool.Pool
