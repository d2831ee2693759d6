import DiosPool.Pool.Invariant.Custody

/-!
# What an event does

Every event outside the control lock, as a relation between the pools before and after. What an event
checks becomes a condition here, and what it changes is written out.
-/

namespace DiosPool

open Driver Foundation

namespace Pool

namespace PromotionStage

/-- How many counts of the retention word belong to the promotion. -/
def counts : PromotionStage → ℕ
  | retained => 1
  | handover => 1
  | _ => 0

/-- How many units of the budget the promotion has reserved. -/
def units : PromotionStage → ℕ
  | overdrawn _ => 1
  | first _ => 1
  | unreserve _ => 1
  | _ => 0

/-- A count is incremented only if some handle has one already. -/
def Sound : PromotionStage → Prop
  | increment _ count => 0 < count
  | _ => True

/-- The promotion has neither a count nor a unit. -/
structure Light (stage : PromotionStage) : Prop where
  counts : stage.counts = 0
  units : stage.units = 0
  sound : stage.Sound

end PromotionStage

/-- A promotion ends without a handle, or goes on with nothing reserved. -/
def Rests (reader : Reader) (guard : Guard) (next : Reader) : Prop :=
  next = refusePromotion reader guard ∨
    ∃ stage : PromotionStage, stage.Light ∧ next = { reader with activity := .promoting guard stage }

/-- What follows the last count of a frame. -/
def lastRelease (held : Bool) (frame : ℕ) : ℕ → List Release
  | 0 => [if held then .ring frame else .budget]
  | _ + 1 => []

/-- A frame has one count less, and `count` of them are left. -/
def released (pool : Pool) (frame count : ℕ) : Pool :=
  (pool.setWord frame { pool.unlocked.retention.words frame with count }).setReleases
    (pool.unlocked.releases ++ lastRelease (pool.unlocked.retention.words frame).held frame count)

/-- The driver does something that moves no operation out of its slot. -/
inductive Upkeep (shared : Shared) : Shared → Prop
  | flush {completion : DeferredCompletion} {deferred : List DeferredCompletion}
    (h : shared.deferred = completion :: deferred) : Upkeep shared { shared with deferred }
  | retire {file : FileId} {after : Shared} (h : shared.finishRetire file = .ok after) :
    Upkeep shared after
  | fill {after : Shared} (h : shared.fillNext = .ok (true, after)) : Upkeep shared after

/-- A step of the thread of a reader. -/
inductive ReaderTurn (C : Config) (index : ℕ) (pool : Pool) : Pool → Prop
  | check {target : PinTarget} {activity : Activity}
    (h : (pool.unlocked.readers index).activity = .checking target)
    (hnext : activity = .entering target ∨ activity = .idle) :
    ReaderTurn C index pool (pool.setReader index { pool.unlocked.readers index with activity })
  | load {target : PinTarget} (h : (pool.unlocked.readers index).activity = .entering target) :
    ReaderTurn C index pool (pool.setReader index { pool.unlocked.readers index with
      activity := .publishing pool.locked.globalEpoch target })
  | publish {epoch : ℕ} {target : PinTarget}
    (h : (pool.unlocked.readers index).activity = .publishing epoch target) :
    ReaderTurn C index pool
      (pool.setReader index (beginPin (pool.unlocked.readers index) epoch target))
  | find {frame : ℕ} {first : Bool} {target : PinTarget}
    (h : (pool.unlocked.readers index).activity = .searching first target)
    (hfind : findFrame pool.locked target = some frame) :
    ReaderTurn C index pool (pool.setReader index { pool.unlocked.readers index with
      activity := .referencing first frame target.page .bit })
  | abandon {first : Bool} {target : PinTarget}
    (h : (pool.unlocked.readers index).activity = .searching first target) :
    ReaderTurn C index pool (pool.setReader index (abortPin (pool.unlocked.readers index) first))
  | reference {frame : ℕ} {first : Bool} {page : PageId} {stage next : Clock.ReferenceStage}
    {clock : Clock} (h : (pool.unlocked.readers index).activity = .referencing first frame page stage) :
    ReaderTurn C index pool ((pool.setClock clock).setReader index
      { pool.unlocked.readers index with activity := .referencing first frame page next })
  | commit {frame : ℕ} {first : Bool} {page : PageId} {stage : Clock.ReferenceStage}
    (h : (pool.unlocked.readers index).activity = .referencing first frame page stage) :
    ReaderTurn C index pool (pool.setReader index { pool.unlocked.readers index with
      guardCount := (pool.unlocked.readers index).guardCount + 1
      guards := ⟨frame, (pool.locked.frames frame).generation, page,
        pool.unlocked.contents frame⟩ :: (pool.unlocked.readers index).guards
      activity := .idle })
  | dropGuard {guard : ℕ} {reader : Reader} (h : (pool.unlocked.readers index).activity = .idle)
    (hguard : guard < (pool.unlocked.readers index).guards.length)
    (hrelease : releaseGuard { pool.unlocked.readers index with
      guards := (pool.unlocked.readers index).guards.eraseIdx guard } = .ok reader) :
    ReaderTurn C index pool (pool.setReader index reader)
  | retain {attempts position : ℕ} {guard : Guard} (hretained : C.maxRetainedFrames ≠ 0)
    (h : (pool.unlocked.readers index).activity = .idle)
    (hguard : (pool.unlocked.readers index).guards[position]? = some guard) :
    ReaderTurn C index pool (pool.setReader index { pool.unlocked.readers index with
      guards := (pool.unlocked.readers index).guards.eraseIdx position
      activity := .promoting guard (.load attempts) })
  | rest {guard : Guard} {stage : PromotionStage} {reader : Reader}
    (h : (pool.unlocked.readers index).activity = .promoting guard stage) (hstage : stage.counts = 0)
    (hunits : stage.units = 0) (hrests : Rests (pool.unlocked.readers index) guard reader) :
    ReaderTurn C index pool (pool.setReader index reader)
  | increment {attempts count : ℕ} {guard : Guard}
    (h : (pool.unlocked.readers index).activity = .promoting guard (.increment attempts count))
    (hword : pool.unlocked.retention.words guard.frame = ⟨false, count⟩) :
    ReaderTurn C index pool ((pool.setWord guard.frame ⟨false, count + 1⟩).setReader index
      { pool.unlocked.readers index with activity := .promoting guard .retained })
  | reserve {guard : Guard} {stage next : PromotionStage}
    (h : (pool.unlocked.readers index).activity = .promoting guard stage) (hstage : stage.counts = 0)
    (hunits : stage.units = 0) (hnext : next.counts = 0) (hreserved : next.units = 1) :
    ReaderTurn C index pool ((pool.setBudget (pool.unlocked.retention.occupiedBudget + 1)).setReader
      index { pool.unlocked.readers index with activity := .promoting guard next })
  | unreserve {guard : Guard} {stage : PromotionStage} {reader : Reader}
    (h : (pool.unlocked.readers index).activity = .promoting guard stage) (hstage : stage.counts = 0)
    (hunits : stage.units = 1) (hbudget : 0 < pool.unlocked.retention.occupiedBudget)
    (hrests : Rests (pool.unlocked.readers index) guard reader) :
    ReaderTurn C index pool ((pool.setBudget (pool.unlocked.retention.occupiedBudget - 1)).setReader
      index reader)
  | first {attempts : ℕ} {guard : Guard}
    (h : (pool.unlocked.readers index).activity = .promoting guard (.first attempts))
    (hword : pool.unlocked.retention.words guard.frame = ⟨false, 0⟩) :
    ReaderTurn C index pool ((pool.setWord guard.frame ⟨false, 1⟩).setReader index
      { pool.unlocked.readers index with activity := .promoting guard .retained })
  | lose {attempts : ℕ} {guard : Guard}
    (h : (pool.unlocked.readers index).activity = .promoting guard (.first attempts)) :
    ReaderTurn C index pool (pool.setReader index
      { pool.unlocked.readers index with activity := .promoting guard (.unreserve attempts) })
  | withdraw {count : ℕ} {guard : Guard}
    (h : (pool.unlocked.readers index).activity = .promoting guard .retained)
    (hcount : (pool.unlocked.retention.words guard.frame).count = count + 1) :
    ReaderTurn C index pool ((pool.released guard.frame count).setReader index
      (refusePromotion (pool.unlocked.readers index) guard))
  | keep {guard : Guard}
    (h : (pool.unlocked.readers index).activity = .promoting guard .retained) :
    ReaderTurn C index pool (pool.setReader index
      { pool.unlocked.readers index with activity := .promoting guard .handover })
  | handover {guard : Guard} {reader : Reader}
    (h : (pool.unlocked.readers index).activity = .promoting guard .handover)
    (hrelease : releaseGuard { pool.unlocked.readers index with activity := .idle } = .ok reader) :
    ReaderTurn C index pool { locked := pool.locked, unlocked := { pool.unlocked with
      readers := Function.update pool.unlocked.readers index reader
      handles := ⟨guard.frame, guard.generation, guard.page, guard.bytes⟩ ::
        pool.unlocked.handles } }

/-- A step of a thread that does not hold the control lock, or of the kernel. -/
inductive Turn (C : Config) (pool : Pool) : Pool → Prop
  | begin {index : ℕ} {target : PinTarget} (hindex : index < C.maxConcurrentReaders)
    (hcall : (pool.unlocked.readers index).inCall = false)
    (h : (pool.unlocked.readers index).activity = .idle) :
    Turn C pool (pool.setReader index
      { pool.unlocked.readers index with activity := .checking target })
  | reader {index : ℕ} {after : Pool} (hcall : (pool.unlocked.readers index).inCall = false)
    (h : ReaderTurn C index pool after) : Turn C pool after
  | dropHandle {index count : ℕ} {handle : Handle} (h : pool.unlocked.handles[index]? = some handle)
    (hcount : (pool.unlocked.retention.words handle.frame).count = count + 1) :
    Turn C pool (released { pool with unlocked := { pool.unlocked with
      handles := pool.unlocked.handles.eraseIdx index } } handle.frame count)
  | repay {index : ℕ} (h : pool.unlocked.releases[index]? = some .budget)
    (hbudget : 0 < pool.unlocked.retention.occupiedBudget) :
    Turn C pool ((pool.setReleases (pool.unlocked.releases.eraseIdx index)).setBudget
      (pool.unlocked.retention.occupiedBudget - 1))
  | ring {ring : ReleaseRing} {ringPending : Bool} {releases : List Release}
    (h : releases.count .budget = pool.unlocked.releases.count .budget) :
    Turn C pool { pool with unlocked := { pool.unlocked with
      retention := { pool.unlocked.retention with ring, ringPending }
      releases } }
  | dropToken {index : ℕ} {token : PendingToken} {interests : MissInterests}
    (h : pool.unlocked.tokens[index]? = some token)
    (hrelease : pool.unlocked.interests.release token.slot token.generation = .ok interests) :
    Turn C pool { pool with unlocked := { pool.unlocked with
      interests
      tokens := pool.unlocked.tokens.eraseIdx index
      pendingReleases := pool.unlocked.pendingReleases + 1 } }
  | dropLease {slot : ℕ} (h : 0 < pool.unlocked.leases slot) :
    Turn C pool { pool with unlocked := { pool.unlocked with
      leases := Function.update pool.unlocked.leases slot (pool.unlocked.leases slot - 1) } }
  | openFile {file : FileId} {mode : IoMode} {after : Shared}
    (h : pool.unlocked.driver.openFile C.driver = (some file, after)) :
    Turn C pool { pool with unlocked := { pool.unlocked with
      driver := after, opened := ⟨file, mode⟩ :: pool.unlocked.opened } }
  | beginWait (h : pool.unlocked.waiting = false) :
    Turn C pool { pool with unlocked := { pool.unlocked with waiting := true, waitBatch := [] } }
  | upkeep {after : Shared} {waitRetiring : List FileId} (h : Upkeep pool.unlocked.driver after) :
    Turn C pool { pool with unlocked := { pool.unlocked with driver := after, waitRetiring } }
  | reap {after : Shared} {completion : Option Completion} {retire : Option FileId}
    {waitRetiring : List FileId} (hwaiting : pool.unlocked.waiting = true)
    (h : pool.unlocked.driver.reapNext C.driver = .ok (some (completion, retire), after)) :
    Turn C pool { pool with unlocked := { pool.unlocked with
      driver := after
      waitBatch := completion.toList ++ pool.unlocked.waitBatch
      waitRetiring } }
  | complete {token : OpToken} {result : IoResult} {entry : OpEntry}
    (hentry : (pool.unlocked.driver.slots token.slot).payload = some entry)
    (houtstanding : token ∈ pool.unlocked.driver.outstanding)
    (hlen : transferred result ≤ entry.requestedLen) (herror : result ≠ .error 0) :
    Turn C pool { pool with unlocked := { pool.unlocked with
      driver := pool.unlocked.driver.postCompletion token result
      contents := fillTargets pool.unlocked.contents (entry.targets.take (transferred result))
        (kernelFile C pool.unlocked.driver entry.fd) entry.fileOffset pool.unlocked.transfers
      transfers := pool.unlocked.transfers + 1 } }
  | scribble {token : OpToken} {index frame offset : ℕ} {entry : OpEntry} {byte : Option Byte}
    (hentry : (pool.unlocked.driver.slots token.slot).payload = some entry)
    (houtstanding : token ∈ pool.unlocked.driver.outstanding)
    (htarget : entry.targets[index]? = some (frame, offset)) :
    Turn C pool { pool with unlocked := { pool.unlocked with
      contents := Function.update pool.unlocked.contents frame
        (Function.update (pool.unlocked.contents frame) offset byte) } }

/-! ## Every event is a turn -/

section Events

variable {C : Config} {pool after : Pool}

/-- No event touches what the control lock protects. -/
theorem Turn.locked_eq (h : Turn C pool after) : after.locked = pool.locked := by
  cases h with
  | reader hcall h => cases h <;> rfl
  | _ => rfl

end Events

end Pool

end DiosPool
