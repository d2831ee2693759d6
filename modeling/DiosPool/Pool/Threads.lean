import DiosPool.Pool.State

/-!
# What happens without the control lock

Readers pin and release frames, promote guards to retained handles and drop them, callers drop their
tokens and leases, a waiting thread collects completions from the driver, and the kernel works on
the operations it was given. Each of these is a sequence of atomic steps; an event is one step.
-/

namespace DiosPool

open Driver

namespace Pool

variable (C : Config)

def setReader (pool : Pool) (index : ℕ) (reader : Reader) : Pool :=
  { pool with unlocked := { pool.unlocked with
    readers := Function.update pool.unlocked.readers index reader } }

def setWord (pool : Pool) (frame : ℕ) (word : Word) : Pool :=
  { pool with unlocked := { pool.unlocked with
    retention := { pool.unlocked.retention with
      words := Function.update pool.unlocked.retention.words frame word } } }

def setBudget (pool : Pool) (occupiedBudget : ℕ) : Pool :=
  { pool with unlocked := { pool.unlocked with
    retention := { pool.unlocked.retention with occupiedBudget } } }

def setRing (pool : Pool) (ring : ReleaseRing) : Pool :=
  { pool with unlocked := { pool.unlocked with
    retention := { pool.unlocked.retention with ring } } }

def setReleases (pool : Pool) (releases : List Release) : Pool :=
  { pool with unlocked := { pool.unlocked with releases } }

def setClock (pool : Pool) (clock : Clock) : Pool :=
  { pool with unlocked := { pool.unlocked with clock } }

def setDriver (pool : Pool) (driver : Shared) : Pool :=
  { pool with unlocked := { pool.unlocked with driver } }

/-! ## Pins -/

/-- `begin_pin` after the epoch was loaded: the first guard of a reader publishes it. -/
def beginPin (reader : Reader) (epoch : ℕ) (target : PinTarget) : Reader :=
  if reader.guardCount = 0 then
    { reader with localEpoch := some epoch, activity := .searching true target }
  else
    { reader with activity := .searching false target }

def abortPin (reader : Reader) (first : Bool) : Reader :=
  { reader with
    localEpoch := if first then none else reader.localEpoch
    activity := .idle }

/-- The frame a pin finds: the mapped one, or the hinted one if its word and page still match. -/
def findFrame (locked : Locked) : PinTarget → Option ℕ
  | .lookup page => locked.table.lookup page
  | .hint page frame stamp =>
    let word := locked.frames frame
    if (word.state, word.generation) = stamp ∧ word.state = .resident ∧ word.page = page then
      some frame
    else
      none

def commitPin (pool : Pool) (reader : Reader) (frame : ℕ) (page : PageId) :
    Except Assertion Reader := do
  ensure (reader.guardCount + 1 ≤ C.peakGuardsPerReader)
    "reader live-guard count does not exceed its declared peak"
  return { reader with
    guardCount := reader.guardCount + 1
    guards := ⟨frame, (pool.locked.frames frame).generation, page, pool.unlocked.contents frame⟩ ::
      reader.guards
    activity := .idle }

/-- `release_guard`. The last guard of a reader makes it quiescent. -/
def releaseGuard (reader : Reader) : Except Assertion Reader := do
  ensure (0 < reader.guardCount) "a released guard was previously committed"
  return { reader with
    guardCount := reader.guardCount - 1
    localEpoch := if reader.guardCount = 1 then none else reader.localEpoch }

/-! ## Retention -/

/-- One unit of the budget is given back. -/
def releaseBudgetUnit (pool : Pool) : Except Assertion Pool := do
  ensure (0 < pool.unlocked.retention.occupiedBudget)
    "a release-ring entry owns one occupied unit"
  return pool.setBudget (pool.unlocked.retention.occupiedBudget - 1)

/-- The decrement of `release`; what is left of it is done by later steps. -/
def releaseHandle (pool : Pool) (frame : ℕ) : Except Assertion Pool := do
  let word := pool.unlocked.retention.words frame
  ensure (0 < word.count) "a retained handle owns one count"
  let pool := pool.setWord frame { word with count := word.count - 1 }
  if 1 < word.count then
    return pool
  else if word.held then
    return pool.setReleases (pool.unlocked.releases ++ [.ring frame])
  else
    return pool.setReleases (pool.unlocked.releases ++ [.budget])

/-- The ring holds the next power of two of the retained frames, and at least two entries. -/
def ringCapacity : ℕ := max (2 ^ Nat.clog 2 C.maxRetainedFrames) 2

/-- The next step of a release. -/
def releaseStep (pool : Pool) (index : ℕ) : Except Assertion Pool :=
  let ring := pool.unlocked.retention.ring
  match pool.unlocked.releases[index]? with
  | none => return pool
  | some .budget => releaseBudgetUnit (pool.setReleases (pool.unlocked.releases.eraseIdx index))
  | some (.ring frame) =>
    return (pool.setRing { ring with entries := ring.entries ++ [none] }).setReleases
      (pool.unlocked.releases.set index (.publish frame (ring.head + ring.entries.length)))
  | some (.publish frame ticket) => do
    ensure (ring.head ≤ ticket ∧ ticket < ring.head + ringCapacity C)
      "release-ring capacity proof keeps a claimed slot free"
    return (pool.setRing { ring with
        entries := ring.entries.set (ticket - ring.head) (some frame) }).setReleases
      (pool.unlocked.releases.set index .wake)
  | some .wake =>
    return { pool with unlocked := { pool.unlocked with
      retention := { pool.unlocked.retention with ringPending := true }
      releases := pool.unlocked.releases.eraseIdx index } }

/-- The promotion is refused and the guard goes back to its caller. -/
def refusePromotion (reader : Reader) (guard : Guard) : Reader :=
  { reader with guards := guard :: reader.guards, activity := .idle }

/-- The next turn of `promote`, if one is left. -/
def retryPromotion (reader : Reader) (guard : Guard) : ℕ → Reader
  | 0 => refusePromotion reader guard
  | attempts + 1 => { reader with activity := .promoting guard (.load attempts) }

/-- One step of `promote`, and of what follows it in `into_retained`. -/
def promotionStep (pool : Pool) (index : ℕ) (reader : Reader) (guard : Guard) :
    PromotionStage → Except Assertion Pool
  | .load attempts => do
    let word := pool.unlocked.retention.words guard.frame
    ensure (word.held = false) "a guard never promotes a held frame"
    if word.count = Word.countMask then
      return pool.setReader index (refusePromotion reader guard)
    else if 0 < word.count then
      return pool.setReader index
        { reader with activity := .promoting guard (.increment attempts word.count) }
    else
      return pool.setReader index { reader with activity := .promoting guard (.reserve attempts) }
  | .increment attempts count =>
    if pool.unlocked.retention.words guard.frame = ⟨false, count⟩ then
      return (pool.setWord guard.frame ⟨false, count + 1⟩).setReader index
        { reader with activity := .promoting guard .retained }
    else
      return pool.setReader index (retryPromotion reader guard attempts)
  | .reserve attempts =>
    let occupied := pool.unlocked.retention.occupiedBudget
    let stage := if C.maxRetainedFrames ≤ occupied then .overdrawn attempts else .first attempts
    return (pool.setBudget (occupied + 1)).setReader index
      { reader with activity := .promoting guard stage }
  | .overdrawn attempts => do
    return (← pool.releaseBudgetUnit).setReader index
      { reader with activity := .promoting guard (.recheck attempts) }
  | .recheck attempts =>
    if 0 < (pool.unlocked.retention.words guard.frame).count then
      return pool.setReader index (retryPromotion reader guard attempts)
    else
      return pool.setReader index (refusePromotion reader guard)
  | .first attempts =>
    if pool.unlocked.retention.words guard.frame = ⟨false, 0⟩ then
      return (pool.setWord guard.frame ⟨false, 1⟩).setReader index
        { reader with activity := .promoting guard .retained }
    else
      return pool.setReader index { reader with activity := .promoting guard (.unreserve attempts) }
  | .unreserve attempts => do
    return (← pool.releaseBudgetUnit).setReader index (retryPromotion reader guard attempts)
  | .retained =>
    if pool.locked.fileRetiring guard.page.file.slot then do
      return (← pool.releaseHandle guard.frame).setReader index (refusePromotion reader guard)
    else
      return pool.setReader index { reader with activity := .promoting guard .handover }
  | .handover => do
    let reader ← releaseGuard { reader with activity := .idle }
    return { locked := pool.locked, unlocked := { pool.unlocked with
      readers := Function.update pool.unlocked.readers index reader
      handles := ⟨guard.frame, guard.generation, guard.page, guard.bytes⟩ ::
        pool.unlocked.handles } }

/-! ## Readers -/

/-- The next step of what a reader is doing. -/
def readerStep (pool : Pool) (index : ℕ) : Except Assertion Pool :=
  let reader := pool.unlocked.readers index
  match reader.activity with
  | .idle => return pool
  | .checking target =>
    if pool.locked.liveGenerations target.page.file.slot = some target.page.file.generation then
      return pool.setReader index { reader with activity := .entering target }
    else
      return pool.setReader index { reader with activity := .idle }
  | .entering target =>
    return pool.setReader index
      { reader with activity := .publishing pool.locked.globalEpoch target }
  | .publishing epoch target => return pool.setReader index (beginPin reader epoch target)
  | .searching first target =>
    match findFrame pool.locked target with
    | some frame =>
      return pool.setReader index { reader with activity := .referencing first frame target.page .bit }
    | none => return pool.setReader index (abortPin reader first)
  | .referencing _ frame page (.done _) => do
    return pool.setReader index (← commitPin C pool reader frame page)
  | .referencing first frame page stage =>
    let (stage, clock) :=
      Clock.referenceStep C.frameCount frame (some index) stage pool.unlocked.clock
    return (pool.setClock clock).setReader index
      { reader with activity := .referencing first frame page stage }
  | .promoting guard stage => promotionStep C pool index reader guard stage

/-! ## Waiting for completions -/

/-- A waiting thread begins with an empty batch. -/
def beginWait (pool : Pool) : Pool :=
  if pool.unlocked.waiting then pool
  else { pool with unlocked := { pool.unlocked with waiting := true, waitBatch := [] } }

/-- `retire` of a file whose last operation is over. -/
def waitRetire (pool : Pool) : Except Assertion Pool :=
  match pool.unlocked.waitRetiring with
  | [] => return pool
  | file :: files => do
    let driver ← pool.unlocked.driver.finishRetire file
    return { pool with unlocked := { pool.unlocked with driver, waitRetiring := files } }

def waitFlush (pool : Pool) : Except Assertion Pool := do
  let (retire, driver) ← pool.unlocked.driver.popDeferred
  return { pool with unlocked := { pool.unlocked with
    driver
    waitRetiring := pool.unlocked.waitRetiring ++ (retire.join).toList } }

def waitFill (pool : Pool) : Except Assertion Pool := do
  let (_, driver) ← pool.unlocked.driver.fillNext
  return pool.setDriver driver

def waitReap (pool : Pool) : Except Assertion Pool := do
  let (reaped, driver) ← pool.unlocked.driver.reapNext C.driver
  match reaped with
  | none => return pool
  | some (completion, retire) =>
    return { pool with unlocked := { pool.unlocked with
      driver
      waitBatch := completion.toList ++ pool.unlocked.waitBatch
      waitRetiring := pool.unlocked.waitRetiring ++ retire.toList } }

/-! ## The kernel -/

/-- The bytes of frames after the first `count` targets received the file's bytes. -/
def fillTargets (contents : ℕ → Bytes) (targets : List (ℕ × ℕ)) (file : FileId)
    (fileOffset transfer : ℕ) : ℕ → Bytes :=
  fun frame offset ↦
    match targets.findIdx? fun target ↦ target = (frame, offset) with
    | some index => some ⟨file, fileOffset + index, transfer⟩
    | none => contents frame offset

/-- The file the kernel reads for an operation: whatever is registered in its slot. -/
def kernelFile (driver : Shared) (fd : FileId) : FileId :=
  ⟨C.identity, fd.slot, (driver.files fd.slot).generation⟩

/-- The kernel finishes an operation. A read has filled as many bytes as it reports. -/
def kernelComplete (pool : Pool) (token : OpToken) (result : IoResult) : Pool :=
  let driver := pool.unlocked.driver
  match (driver.slots token.slot).payload with
  | none => pool
  | some entry =>
    if token ∈ driver.outstanding ∧ transferred result ≤ entry.requestedLen ∧ result ≠ .error 0 then
      { pool with unlocked := { pool.unlocked with
        driver := driver.postCompletion token result
        contents := fillTargets pool.unlocked.contents (entry.targets.take (transferred result))
          (kernelFile C driver entry.fd) entry.fileOffset pool.unlocked.transfers
        transfers := pool.unlocked.transfers + 1 } }
    else
      pool

/-- While the kernel works on a read, any byte the read asked for may change. -/
def kernelScribble (pool : Pool) (token : OpToken) (index : ℕ) (byte : Option Byte) : Pool :=
  let driver := pool.unlocked.driver
  match (driver.slots token.slot).payload with
  | none => pool
  | some entry =>
    match entry.targets[index]? with
    | some (frame, offset) =>
      if token ∈ driver.outstanding then
        { pool with unlocked := { pool.unlocked with
          contents := Function.update pool.unlocked.contents frame
            (Function.update (pool.unlocked.contents frame) offset byte) } }
      else
        pool
    | none => pool

/-! ## Events -/

/-- One step outside the control lock. -/
inductive Event
  /-- `get` or `get_with_hint` begins. -/
  | get (reader : ℕ) (target : PinTarget)
  | step (reader : ℕ)
  /-- A lookup that overlaps a change of the table finds nothing. -/
  | miss (reader : ℕ)
  | dropGuard (reader index : ℕ)
  | retain (reader index : ℕ)
  | dropHandle (index : ℕ)
  | release (index : ℕ)
  | dropToken (index : ℕ)
  | dropLease (slot : ℕ)
  | openFile (mode : IoMode)
  | beginWait
  | waitFlush
  | waitRetire
  | waitFill
  | waitReap
  | complete (token : OpToken) (result : IoResult)
  | scribble (token : OpToken) (index : ℕ) (byte : Option Byte)

/-- The checks of a `get` before it looks at anything shared. -/
def targetValid : PinTarget → Bool
  | .lookup page => page.file.driver == C.identity
  | .hint page frame _ => page.file.driver == C.identity && frame < C.frameCount

/-- What an event does. An event that does not apply does nothing. -/
def event (pool : Pool) : Event → Except Assertion Pool
  | .get index target =>
    let reader := pool.unlocked.readers index
    match reader.activity with
    | .idle =>
      if index < C.maxConcurrentReaders ∧ reader.inCall = false ∧ targetValid C target then
        return pool.setReader index { reader with activity := .checking target }
      else
        return pool
    | _ => return pool
  | .step index =>
    if (pool.unlocked.readers index).inCall then return pool else pool.readerStep C index
  | .miss index =>
    let reader := pool.unlocked.readers index
    match reader.activity with
    | .searching first (.lookup _) =>
      -- the table does not change while its reader holds the lock
      if reader.inCall then return pool else return pool.setReader index (abortPin reader first)
    | _ => return pool
  | .dropGuard index guard =>
    let reader := pool.unlocked.readers index
    match reader.activity with
    | .idle =>
      if guard < reader.guards.length ∧ reader.inCall = false then do
        return pool.setReader index
          (← releaseGuard { reader with guards := reader.guards.eraseIdx guard })
      else
        return pool
    | _ => return pool
  | .retain index guard =>
    let reader := pool.unlocked.readers index
    match reader.activity, reader.guards[guard]? with
    | .idle, some promoted =>
      if C.maxRetainedFrames = 0 ∨ reader.inCall then
        return pool
      else
        return pool.setReader index { reader with
          guards := reader.guards.eraseIdx guard
          activity := .promoting promoted (.load C.maxConcurrentReaders) }
    | _, _ => return pool
  | .dropHandle index =>
    match pool.unlocked.handles[index]? with
    | some handle =>
      releaseHandle { pool with unlocked := { pool.unlocked with
        handles := pool.unlocked.handles.eraseIdx index } } handle.frame
    | none => return pool
  | .release index => pool.releaseStep C index
  | .dropToken index =>
    match pool.unlocked.tokens[index]? with
    | some token => do
      let interests ← pool.unlocked.interests.release token.slot token.generation
      return { pool with unlocked := { pool.unlocked with
        interests
        tokens := pool.unlocked.tokens.eraseIdx index
        pendingReleases := pool.unlocked.pendingReleases + 1 } }
    | none => return pool
  | .dropLease slot => do
    ensure (0 < pool.unlocked.leases slot) "a resident lease releases once"
    return { pool with unlocked := { pool.unlocked with
      leases := Function.update pool.unlocked.leases slot (pool.unlocked.leases slot - 1) } }
  | .openFile mode =>
    let (file, driver) := pool.unlocked.driver.openFile C.driver
    return { pool with unlocked := { pool.unlocked with
      driver
      opened := (file.map fun file ↦ FileHandle.mk file mode).toList ++ pool.unlocked.opened } }
  | .beginWait => return pool.beginWait
  | .waitFlush => if pool.unlocked.waiting then pool.waitFlush else return pool
  | .waitRetire => pool.waitRetire
  | .waitFill => if pool.unlocked.waiting then pool.waitFill else return pool
  | .waitReap => if pool.unlocked.waiting then pool.waitReap C else return pool
  | .complete token result => return pool.kernelComplete C token result
  | .scribble token index byte => return pool.kernelScribble token index byte

end Pool

end DiosPool
