import DiosPool.Pool.Routing

/-!
# Admitting reads

How a page that is neither mapped nor pending gets a frame and a read: on demand, or speculatively as
a single page or as a run of pages read into a bundle of frames.
-/

namespace DiosPool.Pool

open Driver Foundation

variable (C : Config)

/-- What became of a page that a caller or a stream asked for. -/
inductive Admission
  | resident
  | pending
  | admitted
  | deferred
  | rejected
  | obsolete
  deriving DecidableEq, Repr

/-! ## Miss slots -/

/-- The first reusable slot from `index` on. -/
def admissionSlotFrom : ℕ → ℕ → PoolM (Option ℕ)
  | 0, _ => return none
  | slots + 1, index => do
    if ← PoolM.read fun pool ↦ pool.locked.miss.reusable pool.unlocked.interests index then
      return some index
    else
      admissionSlotFrom slots (index + 1)

def admissionSlot : PoolM (Option ℕ) := admissionSlotFrom C.frameCount 0

/-- The first reusable slots from `index` on, as many as are wanted. -/
def admissionSlotsFrom : ℕ → ℕ → ℕ → List ℕ → PoolM (Option (List ℕ))
  | _, _, 0, slots => return some slots
  | 0, _, _ + 1, _ => return none
  | remaining + 1, index, wanted + 1, slots => do
    if ← PoolM.read fun pool ↦ pool.locked.miss.reusable pool.unlocked.interests index then
      admissionSlotsFrom remaining (index + 1) wanted (slots ++ [index])
    else
      admissionSlotsFrom remaining (index + 1) (wanted + 1) slots

def admissionSlots (wanted : ℕ) : PoolM (Option (List ℕ)) :=
  admissionSlotsFrom C.frameCount 0 wanted []

/-! ## Speculative point reads -/

/-- Counts a refused speculative submission. -/
def countRefused (locked : Locked) : Locked :=
  let stats := locked.ledger.stats
  { locked with ledger := { locked.ledger with
    stats := { stats with submissionRefused := stats.submissionRefused + 1 } } }

/-- A miss with no waiter is admitted for a read that was submitted, and the ledger records it. -/
def admitPage (pool : Pool) (slot : ℕ) (page : PageId) (frame : ℕ) (token : OpToken)
    (source : Source) : Except Panic (ℕ × Pool) := do
  let (generation, miss, interests) ← pool.locked.miss.admitSpeculative pool.unlocked.interests
    slot page frame token
  let pool :=
    { locked := Locked.record { pool.locked with miss } (.read page)
      unlocked := { pool.unlocked with interests } }
  let (_, pool) ← runLedger (LedgerM.admitEntry C.prefetch page frame source) pool
  return (generation, pool)

/-- A reserved frame is claimed and its read submitted. -/
def admitPoint (pool : Pool) (slot : ℕ) (page : PageId) (source : Source) :
    Except Panic (Admission × Pool) := do
  match pool.locked.reserve with
  | [] => return (.deferred, pool)
  | frame :: reserve =>
    let locked ← Locked.claim { pool.locked with reserve } frame page
    let fd ← locked.registeredFile page
    match ← submitPageRead C { pool with locked } .speculative fd page frame 0 with
    | (none, pool) =>
      let locked ← pool.locked.abort frame
      let locked ← locked.pushReserve C frame
      return (.deferred, { pool with locked := countRefused locked })
    | (some token, pool) =>
      let pool := { pool with locked :=
        { pool.locked with readsInFlight := pool.locked.readsInFlight + 1 } }
      let (_, pool) ← admitPage C pool slot page frame token source
      return (.admitted, pool)

def prefetchAdmitPoint (page : PageId) (source : Source) : PoolM Admission := do
  let available ← PoolM.locked fun locked ↦ do
    return (← locked.ledger.available C.prefetch, locked)
  let reads ← PoolM.read fun pool ↦ pool.locked.readsInFlight
  if available = 0 ∨ C.maxInflightReads ≤ reads then
    return .deferred
  else
    match ← admissionSlot C with
    | none => return .deferred
    | some slot =>
      PoolM.update (Locked.fillReserve C)
      if ← PoolM.read fun pool ↦ pool.locked.reserve.isEmpty then
        return .deferred
      else
        flushDeferred C
        Program.act fun pool ↦ admitPoint C pool slot page source

/-! ## Speculative vector reads -/

/-- The frames of a run are claimed from the reserve and put in a bundle. -/
def claimVector : List PageId → Locked → ReadVector → Except Assertion (ReadVector × Locked)
  | [], locked, vector => return (vector, locked)
  | page :: pages, locked, vector => do
    ensure ((locked.table.lookup page).isNone) "a classified page is not mapped"
    ensure ((locked.miss.findPending page).isNone) "a classified page is not pending"
    match locked.reserve with
    | [] => .error ⟨"reserved inventory"⟩
    | frame :: reserve =>
      let locked ← Locked.claim { locked with reserve } frame page
      claimVector pages locked (← vector.push frame)

/-- The frames of a refused bundle go back to the reserve. -/
def abortVector : List ℕ → Locked → Except Panic Locked
  | [], locked => return locked
  | frame :: frames, locked => do
    abortVector frames (← (← locked.abort frame).pushReserve C frame)

/-- The misses of a submitted bundle, page by page with its frame and slot. -/
def admitVectorPages (token : OpToken) (source : Source) :
    ℕ → List (PageId × ℕ × ℕ) → ReadSpan → Pool → Except Panic (ReadSpan × Pool)
  | _, [], span, pool => return (span, pool)
  | ordinal, (page, frame, slot) :: rest, span, pool => do
    let (generation, pool) ← admitPage C pool slot page frame token source
    let span ← span.install ordinal ⟨slot, generation⟩
    admitVectorPages token source (ordinal + 1) rest span pool

/-- A bundle is claimed and submitted, and the span that routes it is committed. -/
def admitVector (pool : Pool) (route : ℕ) (slots : List ℕ) (pages : List PageId) (first : PageId)
    (source : Source) : Except Panic (Admission × Pool) := do
  let (vector, locked) ← claimVector pages pool.locked (.new C.granule)
  let fd ← locked.registeredFile first
  match ← pool.unlocked.driver.submitReadVector C.driver fd vector
      (first.granuleIdx * C.granule) with
  | (.error (error, vector), driver) =>
    let locked ← abortVector C vector.frames locked
    let readSpans ← locked.readSpans.cancel route
    return (.deferred, { pool.setDriver driver with
      locked := countRefused (refuse { locked with readSpans } .vector error) })
  | (.ok token, driver) =>
    let span ← ReadSpan.new first token pages.length C.granule
    let (span, pool) ← admitVectorPages C token source 0
      (pages.zip (vector.frames.zip slots)) span { pool.setDriver driver with locked }
    let readSpans ← pool.locked.readSpans.commit route span
    return (.admitted, { pool with locked := { pool.locked with
      readsInFlight := pool.locked.readsInFlight + pages.length
      readSpans } })

/-- Whether pages follow each other in one file. -/
def consecutive : List PageId → Bool
  | first :: second :: pages => Pattern.follows first second && consecutive (second :: pages)
  | _ => true

def cancelRoute (route : ℕ) : PoolM Unit :=
  PoolM.update fun locked ↦ do
    return { locked with readSpans := ← locked.readSpans.cancel route }

def prefetchAdmitVector (pages : List PageId) (first : PageId) (source : Source) :
    PoolM Admission := do
  let count := pages.length
  ensure (2 ≤ count ∧ count ≤ vectorFramesMax) "a run has 2 to 32 pages"
  ensure (count ≤ vectorBytesMax / C.granule) "a run fits its byte limit"
  ensure (consecutive pages) "a run is consecutive"
  let available ← PoolM.locked fun locked ↦ do
    return (← locked.ledger.available C.prefetch, locked)
  let reads ← PoolM.read fun pool ↦ pool.locked.readsInFlight
  if available < count ∨ C.maxInflightReads - reads < count then
    return .deferred
  else
    let reserved ← PoolM.locked fun locked ↦ do
      let (route, readSpans) ← locked.readSpans.reserve
      return (route, { locked with readSpans })
    match reserved with
    | none => return .deferred
    | some route =>
      match ← admissionSlots C count with
      | none =>
        cancelRoute route
        return .deferred
      | some slots =>
        PoolM.update (Locked.fillReserve C)
        if ← PoolM.read fun pool ↦ decide (pool.locked.reserve.length < count) then
          cancelRoute route
          return .deferred
        else
          Program.act fun pool ↦ admitVector C pool route slots pages first source

def prefetchAdmitRun (pages : List PageId) (source : Source) : PoolM Admission := do
  match pages with
  | [] => Program.fail (.assertion ⟨"a run is not empty"⟩)
  | [page] => prefetchAdmitPoint C page source
  | first :: _ => prefetchAdmitVector C pages first source

end DiosPool.Pool
