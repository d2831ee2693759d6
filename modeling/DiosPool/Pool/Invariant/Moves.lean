import DiosPool.Pool.Invariant.Frames
import DiosPool.Pool.Invariant.Turns
import DiosPool.Pool.Prefetch.Protection

/-!
# What a call does

The steps of the calls under the control lock, taken apart into moves of single things. A move says
what the call must have in its hands or must have found out, and what it has afterwards. The states
that moves and events reach contain the states of every run; what holds of all of them is an
invariant of the pool.
-/

namespace DiosPool.Pool

open Driver Foundation

/-- The first `count` bytes of a frame come from the page of the frame. -/
def ReadUpTo (C : Config) (frames : ℕ → Frame) (contents : ℕ → Bytes) (frame count : ℕ) : Prop :=
  ∀ offset < count, ∃ transfer, contents frame offset = some ⟨(frames frame).page.file,
    (frames frame).page.granuleIdx * C.granule + offset, transfer⟩

/-- The pending miss of a read, as far as the routing of its completion knows it. -/
structure PendingAt (miss : MissTable) (index : ℕ) (token : OpToken) (frame : ℕ)
    (entry : MissEntry) : Prop where
  get : miss.slots.get index = some entry
  outcome : entry.outcome = .pending
  token : entry.token = token
  frame : entry.frame = frame

/-- The frames of a bundle are claimed for consecutive pages of one file. -/
def Consecutive (frames : ℕ → Frame) (first : PageId) (bundle : List ℕ) : Prop :=
  ∀ index frame, bundle[index]? = some frame →
    (frames frame).page = ⟨first.file, first.granuleIdx + index⟩

/-- The lease that a completion holds. -/
def completionLease (completion : Completion) : Multiset OpToken :=
  if completion.continuation then {completion.token} else 0

/-- The bundle of a completion. -/
def completionBundle (completion : Completion) : Option (OpToken × ReadVector) :=
  match completion.frame with
  | some (.vector vector) => some (completion.token, vector)
  | _ => none

/-- The span that the next completion of a vector read goes to. -/
def ReadSpans.routed (spans : ReadSpans) (token : OpToken) : Option ReadSpan :=
  (spans.completing token).toOption.map fun found ↦ found.2.1

/-- Facts about the bytes of other frames. -/
def without (filled : List (ℕ × ℕ)) (frames : List ℕ) : List (ℕ × ℕ) :=
  filled.filter fun fact ↦ fact.1 ∉ frames

/-- A move of the call that holds the control lock. -/
inductive Move (C : Config) : Custody × Pool → Custody × Pool → Prop
  /- What no other move depends on. -/
  | speculative {c : Custody} {pool : Pool} {speculative : Speculative}
    (hindexed : pool.locked.ledger.Indexed → speculative.ledger.Indexed) :
    Move C (c, pool) (c, speculativeLens.set speculative pool)
  | spans {c : Custody} {pool : Pool} {readSpans : ReadSpans}
    (hkeep : ∀ token span, pool.locked.readSpans.routed token = some span →
      readSpans.routed token = some span) :
    Move C (c, pool) (c, { pool with locked := { pool.locked with readSpans } })
  | ring {c : Custody} {pool : Pool} {ring : ReleaseRing} {ringPending : Bool} {tags : ℕ → ℕ} :
    Move C (c, pool) (c, { pool with unlocked := { pool.unlocked with
      retention := { pool.unlocked.retention with ring, ringPending, tags } } })
  /- Free frames. -/
  | stock {c : Custody} {pool : Pool} {freeFrames reserve : List ℕ}
    (hcount : ∀ frame, freeFrames.count frame + reserve.count frame =
      pool.locked.freeFrames.count frame + pool.locked.reserve.count frame)
    (hreserve : reserve.length ≤ C.prefetchCapacity) :
    Move C (c, pool) (c, { pool with locked := { pool.locked with freeFrames, reserve } })
  | claim {c : Custody} {pool : Pool} {frame : ℕ} {page : PageId} {freeFrames reserve : List ℕ}
    (hstate : (pool.locked.frames frame).state = .free)
    (hcount : ∀ other, freeFrames.count other + reserve.count other +
      (if other = frame then 1 else 0) =
        pool.locked.freeFrames.count other + pool.locked.reserve.count other)
    (hreserve : reserve.length ≤ pool.locked.reserve.length) :
    Move C (c, pool) ({ c with loose := frame ::ₘ c.loose }, { pool with locked :=
      { pool.locked with
        frames := Function.update pool.locked.frames frame
          ⟨.inFlight, (pool.locked.frames frame).generation, page⟩
        freeFrames
        reserve } })
  | abort {c : Custody} {pool : Pool} {frame : ℕ} {freeFrames reserve : List ℕ}
    (hloose : frame ∈ c.loose)
    (hcount : ∀ other, freeFrames.count other + reserve.count other =
      pool.locked.freeFrames.count other + pool.locked.reserve.count other +
        if other = frame then 1 else 0)
    (hreserve : reserve.length ≤ C.prefetchCapacity) :
    Move C (c, pool) ({ c with loose := c.loose.erase frame, filled := without c.filled [frame] },
      { pool with locked :=
        { pool.locked with
          frames := Function.update pool.locked.frames frame
            { pool.locked.frames frame with state := .free }
          freeFrames
          reserve } })
  /- Ends of a page read. -/
  | releaseCredit {c : Custody} {pool : Pool} {reads : ℕ}
    (h : pool.locked.readsInFlight = reads + 1) :
    Move C (c, pool) ({ c with credits := c.credits + 1 },
      { pool with locked := { pool.locked with readsInFlight := reads } })
  | publish {c : Custody} {pool : Pool} {index frame : ℕ} {token : OpToken} {entry : MissEntry}
    (howed : (token, frame) ∈ c.owed) (hentry : PendingAt pool.locked.miss index token frame entry)
    (hsettling : c.settling = none) (hunmapped : c.unmapped = none) :
    Move C (c, pool)
      ({ c with
          owed := c.owed.erase (token, frame)
          settling := some ⟨index, token, frame⟩
          unmapped := some frame
          filled := without c.filled [frame] },
        { pool with locked := { pool.locked with
          frames := Function.update pool.locked.frames frame
            { pool.locked.frames frame with
              state := .resident
              generation := (pool.locked.frames frame).generation + 1 } } })
  | map {c : Custody} {pool : Pool} {settling : Settling} (hsettling : c.settling = some settling)
    {framePages : FramePages} (hunmapped : c.unmapped = some settling.frame)
    (habsent : pool.locked.table.lookup (pool.locked.frames settling.frame).page = none)
    (hpages : pool.locked.framePages.insert settling.frame
      ⟨(pool.locked.frames settling.frame).page.file.slot⟩ = .ok framePages) :
    Move C (c, pool) ({ c with unmapped := none }, { pool with locked := { pool.locked with
      table := pool.locked.table.insert (pool.locked.frames settling.frame).page settling.frame
      framePages } })
  | succeed {c : Custody} {pool : Pool} {settling : Settling} {credits : ℕ} {miss : MissTable}
    (hsettling : c.settling = some settling) (hunmapped : c.unmapped = none)
    (hcredits : c.credits = credits + 1)
    (h : pool.locked.miss.succeed settling.index = .ok miss) :
    Move C (c, pool) ({ c with settling := none, credits },
      { pool with locked := { pool.locked with miss } })
  | fail {c : Custody} {pool : Pool} {index frame errno credits : ℕ} {token : OpToken}
    {entry : MissEntry} {miss : MissTable} (howed : (token, frame) ∈ c.owed)
    (hentry : PendingAt pool.locked.miss index token frame entry)
    (hcredits : c.credits = credits + 1) (h : pool.locked.miss.fail index errno = .ok miss)
    (hsettling : c.settling = none) :
    Move C (c, pool)
      ({ c with owed := c.owed.erase (token, frame), loose := frame ::ₘ c.loose, credits },
        { pool with locked := { pool.locked with miss } })
  | clean {c : Custody} {pool : Pool} {slot generation : ℕ} {miss : MissTable}
    (h : pool.locked.miss.cleanTerminalZero pool.unlocked.interests slot generation = .ok miss) :
    Move C (c, pool) (c, { pool with locked := { pool.locked with miss } })
  /- Admission of a page read. -/
  | takeCredits {c : Custody} {pool : Pool} {count credits : ℕ}
    (hcredits : c.credits = credits + count) :
    Move C (c, pool) ({ c with credits }, { pool with locked := { pool.locked with
      readsInFlight := pool.locked.readsInFlight + count } })
  | admitRead {c : Custody} {pool : Pool} {slot frame initial generation room : ℕ} {page : PageId}
    {token : OpToken} {miss : MissTable} {interests : MissInterests}
    (horphan : (token, frame) ∈ c.orphans) (hpage : (pool.locked.frames frame).page = page)
    (habsent : page ∈ c.absent) (hlive : page.file ∈ c.live) (hroom : c.room = room + 1)
    (h : pool.locked.miss.admitInitial pool.unlocked.interests slot page frame token initial =
      .ok (generation, miss, interests)) :
    Move C (c, pool)
      ({ c with
          orphans := c.orphans.erase (token, frame)
          absent := c.absent.erase page
          room
          credits := c.credits + 1
          tokens := Multiset.replicate initial ⟨page, slot, generation⟩ + c.tokens },
        { locked := Locked.record { pool.locked with miss } (.read page)
          unlocked := { pool.unlocked with interests } })
  /- Tokens. -/
  | join {c : Custody} {pool : Pool} {index generation : ℕ} {entry : MissEntry}
    {interests : MissInterests} (hentry : pool.locked.miss.slots.get index = some entry)
    (h : pool.locked.miss.join pool.unlocked.interests index = .ok (generation, interests)) :
    Move C (c, pool) ({ c with tokens := ⟨entry.page, index, generation⟩ ::ₘ c.tokens },
      { pool with unlocked := { pool.unlocked with interests } })
  | consume {c : Custody} {pool : Pool} {token : PendingToken} {interests : MissInterests}
    (htoken : token ∈ c.tokens)
    (h : pool.unlocked.interests.release token.slot token.generation = .ok interests) :
    Move C (c, pool) ({ c with tokens := c.tokens.erase token },
      { pool with unlocked := { pool.unlocked with
        interests
        pendingReleases := pool.unlocked.pendingReleases + 1 } })
  | takeToken {c : Custody} {pool : Pool} {index : ℕ} {token : PendingToken}
    (h : pool.unlocked.tokens[index]? = some token) :
    Move C (c, pool) ({ c with tokens := token ::ₘ c.tokens },
      { pool with unlocked := { pool.unlocked with
        tokens := pool.unlocked.tokens.eraseIdx index } })
  | giveToken {c : Custody} {pool : Pool} {token : PendingToken} (htoken : token ∈ c.tokens) :
    Move C (c, pool) ({ c with tokens := c.tokens.erase token },
      { pool with unlocked := { pool.unlocked with tokens := token :: pool.unlocked.tokens } })
  /- Eviction and reclamation. -/
  | unmap {c : Custody} {pool : Pool} {frame : ℕ} {page : PageId}
    (hlookup : pool.locked.table.lookup page = some frame) (hsettling : c.settling = none)
    (hunmapped : c.unmapped = none) (hsuccess : pool.locked.miss.successFrames frame = none) :
    Move C (c, pool) ({ c with unmapped := some frame }, { pool with locked :=
      { pool.locked with table := pool.locked.table.erase page } })
  | enqueue {c : Custody} {pool : Pool} {frame : ℕ} (hsettling : c.settling = none)
    (hunmapped : c.unmapped = some frame) :
    Move C (c, pool) ({ c with unmapped := none }, { pool with locked := { pool.locked with
      frames := Function.update pool.locked.frames frame
        { pool.locked.frames frame with state := .evicting }
      evictQueue := pool.locked.evictQueue ++ [(frame, pool.locked.globalEpoch)] } })
  | dequeue {c : Custody} {pool : Pool} {frame tag : ℕ} {evictQueue : List (ℕ × ℕ)}
    (hqueue : pool.locked.evictQueue = (frame, tag) :: evictQueue) (hevicting : c.evicting = none)
    (hmature : tag + 2 ≤ pool.locked.globalEpoch) :
    Move C (c, pool) ({ c with evicting := some (frame, c.quiet) },
      { pool with locked := { pool.locked with evictQueue } })
  | unheld {c : Custody} {pool : Pool} {frame : ℕ} {flag : Bool}
    (hevicting : c.evicting = some (frame, flag))
    (hcount : (pool.unlocked.retention.words frame).count = 0) :
    Move C (c, pool) ({ c with evicting := some (frame, true) }, pool)
  | hold {c : Custody} {pool : Pool} {frame count : ℕ} {flag : Bool}
    (hevicting : c.evicting = some (frame, flag))
    (hword : pool.unlocked.retention.words frame = ⟨false, count + 1⟩) :
    Move C (c, pool) ({ c with evicting := none }, pool.setWord frame ⟨true, count + 1⟩)
  | reclaim {c : Custody} {pool : Pool} {frame : ℕ} {framePages : FramePages}
    (hevicting : c.evicting = some (frame, true))
    (hpages : pool.locked.framePages.remove frame = .ok framePages) :
    Move C (c, pool) ({ c with evicting := none }, { pool with locked := { pool.locked with
      frames := Function.update pool.locked.frames frame
        { pool.locked.frames frame with state := .free }
      freeFrames := frame :: pool.locked.freeFrames
      framePages } })
  | reclaimHeld {c : Custody} {pool : Pool} {frame : ℕ} {framePages : FramePages}
    (hword : pool.unlocked.retention.words frame = ⟨true, 0⟩)
    (hpages : pool.locked.framePages.remove frame = .ok framePages) :
    Move C (c, pool) ({ c with budget := c.budget + 1 },
      { pool.setWord frame ⟨false, 0⟩ with locked := { pool.locked with
        frames := Function.update pool.locked.frames frame
          { pool.locked.frames frame with state := .free }
        freeFrames := frame :: pool.locked.freeFrames
        framePages } })
  | repay {c : Custody} {pool : Pool} {budget : ℕ} (hbudget : c.budget = budget + 1)
    (hoccupied : 0 < pool.unlocked.retention.occupiedBudget) :
    Move C (c, pool)
      ({ c with budget }, pool.setBudget (pool.unlocked.retention.occupiedBudget - 1))
  /- The epoch. -/
  | rescan {c : Custody} {pool : Pool} : Move C (c, pool) ({ c with passed := 0 }, pool)
  | pass {c : Custody} {pool : Pool}
    (h : permitsAdvance (pool.unlocked.readers c.passed) pool.locked.globalEpoch) :
    Move C (c, pool) ({ c with passed := c.passed + 1 }, pool)
  | tick {c : Custody} {pool : Pool} (hpassed : c.passed = C.maxConcurrentReaders)
    (hquiet : c.quiet = false) :
    Move C (c, pool) ({ c with passed := 0 }, { pool with locked :=
      { pool.locked with globalEpoch := pool.locked.globalEpoch + 1 } })
  | quiet {c : Custody} {pool : Pool} (h : pool.unlocked.retention.occupiedBudget = 0) :
    Move C (c, pool) ({ c with quiet := true }, pool)
  /- The thread that makes the call. -/
  | enter {c : Custody} {pool : Pool} {index : ℕ} (hcaller : c.caller = none)
    (hpinning : c.pinning = none) (hindex : index < C.maxConcurrentReaders)
    (h : (pool.unlocked.readers index).activity = .idle) :
    Move C (c, pool) ({ c with caller := some index },
      pool.setReader index { pool.unlocked.readers index with inCall := true })
  | beginPin {c : Custody} {pool : Pool} {index : ℕ} {target : PinTarget}
    (hcaller : c.caller = some index) :
    Move C (c, pool) ({ c with caller := none, pinning := some index },
      pool.setReader index { pool.unlocked.readers index with activity := .entering target })
  | pin {c : Custody} {pool after : Pool} {index : ℕ} (hpinning : c.pinning = some index)
    (h : ReaderTurn C index pool after) : Move C (c, pool) (c, after)
  | endPin {c : Custody} {pool : Pool} {index : ℕ} (hcaller : c.caller = none)
    (hpinning : c.pinning = some index) (h : (pool.unlocked.readers index).activity = .idle) :
    Move C (c, pool) ({ c with caller := some index, pinning := none }, pool)
  | leave {c : Custody} {pool : Pool} {index : ℕ}
    (hcaller : c.caller = some index ∨ c.pinning = some index) :
    Move C (c, pool) ({ c with caller := none, pinning := none },
      pool.setReader index { pool.unlocked.readers index with inCall := false })
  /- Completions. -/
  | startRouting {c : Custody} {pool : Pool} : Move C (c, pool) ({ c with routing := true }, pool)
  | stopRouting {c : Custody} {pool : Pool} (h : pool.locked.batch = []) :
    Move C (c, pool) ({ c with routing := false }, pool)
  | upkeep {c : Custody} {pool : Pool} {after : Shared} (h : Upkeep pool.unlocked.driver after) :
    Move C (c, pool) (c, pool.setDriver after)
  | flushed {c : Custody} {pool : Pool} (h : pool.unlocked.driver.deferred = []) :
    Move C (c, pool) ({ c with flushed := true }, pool)
  | reap {c : Custody} {pool : Pool} {after : Shared} {completion : Option Completion}
    {retire : Option FileId} (hrouting : c.routing = true)
    (h : pool.unlocked.driver.reapNext C.driver = .ok (some (completion, retire), after)) :
    Move C (c, pool) (c, { pool.setDriver after with locked := { pool.locked with
      batch := completion.toList ++ pool.locked.batch } })
  | collect {c : Custody} {pool : Pool} (hrouting : c.routing = true) :
    Move C (c, pool) (c, collectWait pool)
  | take {c : Custody} {pool : Pool} {completion : Completion} {batch : List Completion}
    {facts : List (ℕ × ℕ)} (hbatch : pool.locked.batch = completion :: batch)
    (hbundle : c.bundle = none) (hspan : c.span = none)
    (hfacts : ∀ fact ∈ facts, fact.1 ∈ Shared.framesOf completion.frame ∧
      ReadUpTo C pool.locked.frames pool.unlocked.contents fact.1 fact.2) :
    Move C (c, pool)
      ({ c with
          owed := frameCargo.completion completion + c.owed
          leases := completionLease completion + c.leases
          finished := productCargo.completion completion + c.finished
          filled := facts ++ c.filled
          bundle := completionBundle completion
          span := (completionBundle completion).map fun held ↦
            (held.1, held.2, transferred completion.result) },
        { pool with locked := { pool.locked with batch } })
  | releaseLease {c : Custody} {pool : Pool} {token : OpToken} {after : Shared}
    (hlease : token ∈ c.leases)
    (h : pool.unlocked.driver.releaseReadLease C.driver token = .ok ((), after)) :
    Move C (c, pool) ({ c with leases := c.leases.erase token, bundle := none, flushed := false },
      pool.setDriver after)
  /- Routes of vector reads. -/
  | complete {c : Custody} {pool : Pool} {token : OpToken} {vector : ReadVector} {bytes : ℕ}
    {readSpans : ReadSpans} (hspan : c.span = some (token, vector, bytes)) (hlease : token ∈ c.leases)
    (hkeep : ∀ other span, other ≠ token → pool.locked.readSpans.routed other = some span →
      readSpans.routed other = some span) :
    Move C (c, pool) ({ c with span := none },
      { pool with locked := { pool.locked with readSpans } })
  | route {c : Custody} {pool : Pool} {token : OpToken} {span : ReadSpan} {readSpans : ReadSpans}
    (hunrouted : c.unrouted = some (token, span.bytes, span.filled))
    (hrouted : readSpans.routed token = some span)
    (hkeep : ∀ other span, pool.locked.readSpans.routed other = some span →
      readSpans.routed other = some span) :
    Move C (c, pool) ({ c with unrouted := none },
      { pool with locked := { pool.locked with readSpans } })
  /- Submissions. -/
  | refuse {c : Custody} {pool : Pool} {submission : Submission} {error : SubmitError}
    (h : error = .full → submission = .vector) :
    Move C (c, pool) (c, { pool with locked := Pool.refuse pool.locked submission error })
  | submit {c : Custody} {pool : Pool} {fd : FileHandle} {page : PageId} {frame : ℕ}
    {token : OpToken} {after : Shared} (hloose : frame ∈ c.loose)
    (hpage : (pool.locked.frames frame).page = page) (hfile : fd.fileId = page.file)
    (h : pool.unlocked.driver.submitRead C.driver fd frame (page.granuleIdx * C.granule) 0
      C.granule = .ok (.ok token, after)) :
    Move C (c, pool)
      ({ c with
          loose := c.loose.erase frame
          orphans := (token, frame) ::ₘ c.orphans
          filled := without c.filled [frame] },
        pool.setDriver after)
  | resubmit {c : Custody} {pool : Pool} {fd : FileHandle} {index frame filled : ℕ}
    {token next : OpToken} {entry : MissEntry} {miss : MissTable} {after : Shared}
    (howed : (token, frame) ∈ c.owed) (hentry : PendingAt pool.locked.miss index token frame entry)
    (hfile : fd.fileId = entry.page.file)
    (h : pool.unlocked.driver.submitRead C.driver fd frame
      (entry.page.granuleIdx * C.granule + filled) filled (C.granule - filled) =
        .ok (.ok next, after))
    (hadvance : pool.locked.miss.advanceRemainder index filled next = .ok miss)
    (hsettling : c.settling = none) :
    Move C (c, pool)
      ({ c with
          owed := c.owed.erase (token, frame)
          filled := without c.filled [frame] },
        { pool.setDriver after with locked := { pool.locked with miss } })
  | submitVector {c : Custody} {pool : Pool} {fd : FileHandle} {first : PageId}
    {vector : ReadVector} {token : OpToken} {after : Shared}
    (hloose : Multiset.ofList vector.frames ≤ c.loose) (hgranule : vector.granule = C.granule)
    (hordinal : vector.ordinal = 0) (htotal : vector.total = vector.frames.length * C.granule)
    (hunrouted : c.unrouted = none)
    (hpages : Consecutive pool.locked.frames first vector.frames) (hfile : fd.fileId = first.file)
    (h : pool.unlocked.driver.submitReadVector C.driver fd vector
      (first.granuleIdx * C.granule) = .ok (.ok token, after)) :
    Move C (c, pool)
      ({ c with
          loose := c.loose - Multiset.ofList vector.frames
          orphans := Multiset.ofList (vector.frames.map fun frame ↦ (token, frame)) + c.orphans
          filled := without c.filled vector.frames
          unrouted := some (token, vector.total, 0) },
        pool.setDriver after)
  | continueVector {c : Custody} {pool : Pool} {token : OpToken} {vector whole : ReadVector}
    {completed : ℕ} {after : Shared} (hbundle : c.bundle = some (token, whole))
    (hvector : vector = { whole with
      frames := whole.frames.drop completed, ordinal := whole.ordinal + completed })
    (hcompleted : completed ≤ whole.frames.length) (hlease : token ∈ c.leases)
    (hspan : c.span = none) (hunrouted : c.unrouted = none)
    (howed : Multiset.ofList (vector.frames.map fun frame ↦ (token, frame)) ≤ c.owed)
    (h : pool.unlocked.driver.continueReadVector C.driver token vector =
      .ok (.ok token, after)) :
    Move C (c, pool)
      ({ c with
          owed := c.owed - Multiset.ofList (vector.frames.map fun frame ↦ (token, frame))
          leases := c.leases.erase token
          filled := without c.filled vector.frames
          bundle := none
          unrouted := some (token, vector.total, vector.filled) },
        pool.setDriver after)
  /- Product operations. -/
  | submitWrite {c : Custody} {pool : Pool} {fd : FileHandle} {index writeSlot len offset : ℕ}
    {token : PoolToken} {driverToken : OpToken} {file : FileId} {after : Shared} {locked : Locked}
    (hindex : index < C.maxInflightProductOps)
    (hvacant : (pool.locked.productOps index).operation = none)
    (hlive : pool.locked.liveFileHandle file = some fd)
    (h : pool.unlocked.driver.submitWrite C.driver fd writeSlot len offset =
      .ok (.ok driverToken, after))
    (hlocked : installProductOp pool.locked index (fun token order ↦
      .write token driverToken file order) = (token, locked)) :
    Move C (c, pool) (c, { pool.setDriver after with
      locked := locked.record (.wrote token driverToken file) })
  | holdFsync {c : Custody} {pool : Pool} {index : ℕ} {token : PoolToken} {file : FileId}
    {mode : SyncMode} {fd : FileHandle} {locked : Locked} (hindex : index < C.maxInflightProductOps)
    (hvacant : (pool.locked.productOps index).operation = none)
    (hlive : pool.locked.liveFileHandle file = some fd)
    (hlocked : installProductOp pool.locked index (fun token order ↦
      .fsyncHeld token file order mode) = (token, locked)) :
    Move C (c, pool) ({ c with due := true },
      { pool with locked := locked.record (.synced token file) })
  | submitFsync {c : Custody} {pool : Pool} {fd : FileHandle} {index : ℕ} {token : PoolToken}
    {driverToken : OpToken} {file : FileId} {mode : SyncMode} {after : Shared}
    (hindex : index < C.maxInflightProductOps)
    (hheld : heldFsync C pool.locked index = some (token, file, mode))
    (h : pool.unlocked.driver.submitFsync C.driver fd mode = .ok (.ok driverToken, after)) :
    Move C (c, pool) (c, { pool.setDriver after with
      locked := (setProductOp pool.locked index (.fsync token driverToken file)).record
        (.handed token driverToken) })
  | finish {c : Custody} {pool : Pool} {token : OpToken} {kind : OpKind} {result : IoResult}
    {locked : Locked} (hfinished : token ∈ c.finished)
    (h : finishProductCompletion C pool.locked token kind result = .ok locked) :
    Move C (c, pool) ({ c with finished := c.finished.erase token, due := true },
      { pool with locked })
  | held {c : Custody} {pool : Pool}
    (h : ∀ index < C.maxInflightProductOps, heldFsync C pool.locked index = none) :
    Move C (c, pool) ({ c with due := false }, pool)
  | slotless {c : Custody} {pool : Pool} (h : vacantProductOp C pool.locked = none) :
    Move C (c, pool) (c, { pool with locked := pool.locked.record .slotless })
  | deliver {c : Custody} {pool : Pool} {room : ℕ} {completions : List PoolCompletion}
    {locked : Locked}
    (h : deliverFrom C.maxInflightProductOps 0 room [] pool.locked = (completions, locked)) :
    Move C (c, pool) (c, { pool with locked := locked.record (.delivered room completions) })
  /- Files. -/
  | register {c : Custody} {pool after : Pool} {index : ℕ} {handle : FileHandle}
    (hopened : pool.unlocked.opened[index]? = some handle)
    (h : registerFile C pool index = .ok after) : Move C (c, pool) (c, after)
  | lease {c : Custody} {pool : Pool} {file : FileId}
    (hlive : pool.locked.fileIsLive file)
    (hgeneration : pool.locked.leaseGenerations file.slot = file.generation) :
    Move C (c, pool) (c, {
      locked := pool.locked.record (.leased file)
      unlocked := { pool.unlocked with
        leases := Function.update pool.unlocked.leases file.slot
          (pool.unlocked.leases file.slot + 1) } })
  | beginRetire {c : Custody} {pool : Pool} {file : FileId} {locked : Locked} (hlive : c.live = ∅)
    (h : beginFileRetirement C pool.locked file = some locked) :
    Move C (c, pool) (c, { pool with locked })
  | drain {c : Custody} {pool : Pool} {file : FileId} {handle : Option FileHandle}
    (hfile : pool.locked.files file.slot = some ⟨file, handle, .retiring⟩) :
    Move C (c, pool) ({ c with drained := insert file c.drained }, pool)
  | takeHandle {c : Custody} {pool : Pool} {index : ℕ} {entry : PoolFile}
    (hfile : pool.locked.files index = some entry) (hdrained : entry.id ∈ c.drained)
    (hclosing : c.closing = none) :
    Move C (c, pool) ({ c with closing := entry.handle },
      { pool with locked := setFileEntry pool.locked index { entry with handle := none } })
  | close {c : Custody} {pool : Pool} {handle : FileHandle} {retire : Bool} {after : Shared}
    (hclosing : c.closing = some handle)
    (h : pool.unlocked.driver.closeFile handle.fileId = .ok (retire, after)) :
    Move C (c, pool) ({ c with closing := none }, pool.setDriver after)
  | retired {c : Custody} {pool : Pool} {index : ℕ} {entry : PoolFile}
    (hfile : pool.locked.files index = some entry) (hdrained : entry.id ∈ c.drained)
    (hhandle : entry.handle = none) (hclosing : c.closing = none)
    (hclosed : pool.unlocked.driver.isClosed entry.id) :
    Move C (c, pool) (c, { pool with
      locked := (setFileEntry pool.locked index { entry with state := .retired }).record
        (.retired entry.id) })
  /- What a call finds out, and forgets. -/
  | room {c : Custody} {pool : Pool} {room : ℕ}
    (h : pool.locked.miss.pending.length + room ≤ C.maxInflightReads) :
    Move C (c, pool) ({ c with room }, pool)
  | absent {c : Custody} {pool : Pool} {page : PageId} (hlookup : pool.locked.table.lookup page = none)
    (hpending : pool.locked.miss.findPending page = none) :
    Move C (c, pool) ({ c with absent := insert page c.absent }, pool)
  | live {c : Custody} {pool : Pool} {file : FileId} (h : pool.locked.fileIsLive file) :
    Move C (c, pool) ({ c with live := insert file c.live }, pool)
  | forget {c : Custody} {pool : Pool} {filled : List (ℕ × ℕ)} {absent : Finset PageId} {room : ℕ}
    {bundle : Option (OpToken × ReadVector)} {flushed quiet due : Bool}
    {live drained : Finset FileId}
    (hfilled : filled ⊆ c.filled) (habsent : absent ⊆ c.absent) (hroom : room ≤ c.room)
    (hbundle : ∀ held ∈ bundle, c.bundle = held) (hflushed : flushed → c.flushed)
    (hquiet : quiet → c.quiet) (hlive : live ⊆ c.live) (hdrained : drained ⊆ c.drained)
    (hdue : c.due → due) :
    Move C (c, pool)
      ({ c with filled, absent, room, bundle, flushed, quiet, live, drained, due }, pool)

/-- The pools that moves and turns reach, with what the running call has in its hands. -/
inductive Reach (C : Config) : Custody → Pool → Prop
  | new : Reach C .empty (Pool.new C)
  | turn {c : Custody} {pool after : Pool} (h : Reach C c pool) (hturn : Turn C pool after) :
    Reach C c after
  | move {c c' : Custody} {pool after : Pool} (h : Reach C c pool)
    (hmove : Move C (c, pool) (c', after)) : Reach C c' after

end DiosPool.Pool
