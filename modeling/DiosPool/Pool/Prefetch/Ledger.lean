import DiosPool.Pool.Clock
import DiosPool.Pool.Prefetch.Pattern

/-!
# The speculation ledger

Every speculative page holds one credit from its admission until demand takes it, its read fails or
its frame is evicted. The ledger indexes the credits by frame and by stream, and feeds what readers
consumed back into the patterns.
-/

namespace DiosPool.Pool

open Foundation

/-- Links of a list member. -/
structure Links where
  previous : Option ℕ
  next : Option ℕ
  deriving DecidableEq, Repr

/-- A queue of distinct indices, linked through the indices. -/
structure IndexQueue where
  links : ℕ → Option Links
  first : Option ℕ
  last : Option ℕ

namespace IndexQueue

def new : IndexQueue := ⟨fun _ ↦ none, none, none⟩

/-- Changes the links of a member. -/
def relink (queue : IndexQueue) (index : ℕ) (message : String) (change : Links → Links) :
    Except Assertion IndexQueue := do
  let links ← expect (queue.links index) message
  return { queue with links := Function.update queue.links index (some (change links)) }

def push (queue : IndexQueue) (index : ℕ) : Except Assertion IndexQueue :=
  if (queue.links index).isSome then
    return queue
  else do
    let queue := { queue with links := Function.update queue.links index (some ⟨queue.last, none⟩) }
    let queue ← match queue.last with
      | some last => queue.relink last "queue tail" fun links ↦ { links with next := some index }
      | none => pure { queue with first := some index }
    return { queue with last := some index }

def remove (queue : IndexQueue) (index : ℕ) : Except Assertion IndexQueue :=
  match queue.links index with
  | none => return queue
  | some ⟨previous, next⟩ => do
    let queue := { queue with links := Function.update queue.links index none }
    let queue ← match previous with
      | some previous => queue.relink previous "previous link" fun links ↦ { links with next }
      | none => pure { queue with first := next }
    match next with
    | some next => queue.relink next "next link" fun links ↦ { links with previous }
    | none => return { queue with last := previous }

def pop (queue : IndexQueue) : Except Assertion (Option ℕ × IndexQueue) :=
  match queue.first with
  | none => return (none, queue)
  | some index => return (some index, ← queue.remove index)

end IndexQueue

structure PrefetchEntry where
  page : PageId
  frame : ℕ
  source : Source
  membership : Option Links
  protectedAt : ℕ
  deriving DecidableEq, Repr

structure Feedback where
  reader : ℕ
  incarnation : ℕ
  page : PageId
  deriving DecidableEq, Repr

/-- The key byte of a feedback record: the page index, then the incarnation, then the reader. -/
def Feedback.byte (feedback : Feedback) (ordinal : ℕ) : ℕ :=
  if ordinal < 4 then feedback.page.granuleIdx / 2 ^ (ordinal * 8) % 256
  else if ordinal < 12 then feedback.incarnation / 2 ^ ((ordinal - 4) * 8) % 256
  else feedback.reader / 2 ^ ((ordinal - 12) * 8) % 256

/-- How a credit ends. -/
inductive Terminal
  | promoted (reader : Option ℕ)
  | evicted
  | failed
  deriving DecidableEq, Repr

structure PrefetchStats where
  admitted : ℕ
  automaticAdmitted : ℕ
  demandPromoted : ℕ
  evictedUnused : ℕ
  failed : ℕ
  deferred : ℕ
  submissionRefused : ℕ
  occupied : ℕ
  deriving DecidableEq, Repr

/-- The sizes a ledger is built with. -/
structure PrefetchGeometry where
  capacity : ℕ
  patternCount : ℕ
  requestLimit : ℕ
  vectorWidth : ℕ
  automaticWidth : ℕ
  frames : ℕ
  deriving DecidableEq, Repr

inductive Readahead
  | automatic
  | disabled
  deriving DecidableEq, Repr

/-- `try_with_geometry`. -/
def PrefetchGeometry.new (capacity readers reads : ℕ) (mode : Readahead) (frames granule : ℕ) :
    PrefetchGeometry :=
  let vectorWidth := min (max (Driver.vectorBytesMax / granule) 1) 32
  { capacity
    patternCount := match mode with
      | .automatic => if 0 < capacity then readers else 0
      | .disabled => 0
    requestLimit := max (min (max capacity reads * 4) u32Max) 1
    vectorWidth
    automaticWidth := if 2 * vectorWidth ≤ min capacity (reads - 1) then vectorWidth else 1
    frames }

/-- The vacant entry indices are a stack; `feedback` holds the records in the order they came. -/
structure Ledger where
  entries : ℕ → Option PrefetchEntry
  patterns : ℕ → Pattern
  stats : PrefetchStats
  active : Bool
  ready : IndexQueue
  cleanup : IndexQueue
  waiting : IndexQueue
  readerEntries : ℕ → Option ℕ
  frameEntries : ℕ → Option ℕ
  vacant : List ℕ
  feedback : List Feedback
  stamp : ℕ
  replacementCursor : ℕ
  pendingReleases : ℕ

namespace Ledger

variable (G : PrefetchGeometry)

def new : Ledger where
  entries := fun _ ↦ none
  patterns := fun _ ↦ .new
  stats := ⟨0, 0, 0, 0, 0, 0, 0, 0⟩
  active := false
  ready := .new
  cleanup := .new
  waiting := .new
  readerEntries := fun _ ↦ none
  frameEntries := fun _ ↦ none
  vacant := (List.range G.capacity).reverse
  feedback := []
  stamp := 0
  replacementCursor := 0
  pendingReleases := 0

def available (ledger : Ledger) : Except Assertion ℕ :=
  if ledger.stats.occupied ≤ G.capacity then .ok (G.capacity - ledger.stats.occupied)
  else .error ⟨"bounded speculation"⟩

def sourceObsolete (ledger : Ledger) : Source → Bool
  | .explicit => false
  | .automatic reader incarnation => !(ledger.patterns reader).owns incarnation

/-- Changes the list links of an entry. -/
def relinkEntry (ledger : Ledger) (index : ℕ) (message : String) (change : Links → Links) :
    Except Assertion Ledger := do
  let entry ← expect (ledger.entries index) message
  let links ← expect entry.membership message
  return { ledger with
    entries := Function.update ledger.entries index
      (some { entry with membership := some (change links) }) }

def refreshReady (ledger : Ledger) (reader : ℕ) : Except Assertion Ledger := do
  let ready ← if ((ledger.patterns reader).window reader G.automaticWidth).isSome then
      ledger.ready.push reader
    else
      ledger.ready.remove reader
  return { ledger with ready }

/-- The loop of `invalidate_reader` over the members of a stream. -/
def invalidateFrom : ℕ → Option ℕ → Ledger → Except Assertion Ledger
  | 0, next, ledger => do
    ensure next.isNone "bounded incarnation membership"
    return ledger
  | _ + 1, none, ledger => return ledger
  | fuel + 1, some index, ledger => do
    let entry ← expect (ledger.entries index) "reader member"
    let links ← expect entry.membership "linked entry"
    let cleanup ← ledger.cleanup.push index
    invalidateFrom fuel links.next { ledger with
      entries := Function.update ledger.entries index (some { entry with membership := none })
      cleanup }

def invalidateReader (ledger : Ledger) (reader : ℕ) : Except Assertion Ledger :=
  invalidateFrom G.capacity (ledger.readerEntries reader)
    { ledger with readerEntries := Function.update ledger.readerEntries reader none }

def patternChanged (ledger : Ledger) (reader before : ℕ) : Except Assertion Ledger := do
  let ledger ← if (ledger.patterns reader).owns before then pure ledger
    else ledger.invalidateReader G reader
  ledger.refreshReady G reader

/-- Replaces a reader's pattern and follows up on a new incarnation. -/
def setPattern (ledger : Ledger) (reader : ℕ) (pattern : Pattern) : Except Assertion Ledger :=
  patternChanged G { ledger with patterns := Function.update ledger.patterns reader pattern }
    reader (ledger.patterns reader).incarnation

def resetReader (ledger : Ledger) (reader : ℕ) : Except Assertion Ledger :=
  if reader < G.patternCount then ledger.setPattern G reader (ledger.patterns reader).reset
  else return ledger

def issued (ledger : Ledger) (reader : ℕ) (page : PageId) : Except Assertion Ledger := do
  ledger.setPattern G reader (← (ledger.patterns reader).issued page)

def advanceTurn (ledger : Ledger) (reader : ℕ) : Except Assertion Ledger := do
  refreshReady G { ledger with ready := ← ledger.ready.remove reader } reader

def beginExplicit (ledger : Ledger) : Ledger :=
  { ledger with stamp := ledger.stamp + 1, replacementCursor := 0 }

def protect (ledger : Ledger) (frame : ℕ) : Except Assertion Ledger :=
  match ledger.frameEntries frame with
  | none => return ledger
  | some index => do
    let entry ← expect (ledger.entries index) "indexed entry"
    return { ledger with
      entries := Function.update ledger.entries index
        (some { entry with protectedAt := ledger.stamp }) }

/-- The part of `admit` before the clock learns of the speculation. -/
def admitEntry (ledger : Ledger) (page : PageId) (frame : ℕ) (source : Source) :
    Except Assertion Ledger := do
  ensure (ledger.feedback = []) "admission follows ordered feedback"
  ensure (0 < (← ledger.available G)) "admission has a credit"
  let index ← expect ledger.vacant.head? "a vacant entry"
  let ledger := { ledger with vacant := ledger.vacant.tail }
  ensure (ledger.entries index).isNone "the vacant entry is empty"
  ensure (ledger.frameEntries frame).isNone "a frame holds one credit"
  let ledger := { ledger with frameEntries := Function.update ledger.frameEntries frame index }
  match source with
  | .explicit =>
    return { ledger with
      entries := Function.update ledger.entries index
        (some ⟨page, frame, source, none, ledger.stamp⟩) }
  | .automatic reader _ => do
    let next := ledger.readerEntries reader
    let ledger := { ledger with readerEntries := Function.update ledger.readerEntries reader index }
    let ledger ← match next with
      | some next => ledger.relinkEntry next "reader entry" fun links ↦
          { links with previous := some index }
      | none => pure ledger
    return { ledger with
      entries := Function.update ledger.entries index
        (some ⟨page, frame, source, some ⟨none, next⟩, ledger.stamp⟩) }

/-- The part of `admit` after the clock learned of the speculation. -/
def admitCount (ledger : Ledger) (source : Source) : Except Assertion Ledger := do
  let stats := { ledger.stats with
    admitted := ledger.stats.admitted + 1
    occupied := ledger.stats.occupied + 1
    automaticAdmitted := match source with
      | .explicit => ledger.stats.automaticAdmitted
      | .automatic _ _ => ledger.stats.automaticAdmitted + 1 }
  ensure (stats.occupied ≤ G.capacity) "occupied credits stay within the capacity"
  return { ledger with stats }

def finishIndexUnlinkReader (ledger : Ledger) (index : ℕ) (entry : PrefetchEntry) :
    Except Assertion Ledger :=
  match entry.membership, entry.source with
  | none, _ => return ledger
  | some _, .explicit => .error ⟨"automatic member"⟩
  | some links, .automatic reader _ => do
    let ledger ← match links.previous with
      | some previous => ledger.relinkEntry previous "previous member" fun before ↦
          { before with next := links.next }
      | none => do
        ensure (ledger.readerEntries reader = some index) "the first member heads its stream"
        pure { ledger with
          readerEntries := Function.update ledger.readerEntries reader links.next }
    match links.next with
    | some next => ledger.relinkEntry next "next member" fun after ↦
        { after with previous := links.previous }
    | none => return ledger

/-- The part of `finish_index` before the marker is taken. -/
def finishIndexUnlink (ledger : Ledger) (index : ℕ) :
    Except Assertion (PrefetchEntry × Ledger) := do
  let entry ← expect (ledger.entries index) "one speculative credit"
  let ledger := { ledger with entries := Function.update ledger.entries index none }
  let ledger ← ledger.finishIndexUnlinkReader index entry
  let ledger := { ledger with
    cleanup := ← ledger.cleanup.remove index
    waiting := ← ledger.waiting.remove index }
  ensure (ledger.frameEntries entry.frame = some index) "the frame names its credit"
  return (entry, { ledger with
    frameEntries := Function.update ledger.frameEntries entry.frame none
    vacant := index :: ledger.vacant })

def finishIndexFeedback (ledger : Ledger) (entry : PrefetchEntry) (terminal : Terminal) :
    Except Assertion Ledger :=
  match entry.source, terminal with
  | .explicit, _ => return ledger
  | .automatic reader incarnation, .promoted consumer =>
    if consumer = some reader then do
      ensure (ledger.feedback.length < G.capacity) "feedback fits its credits"
      return { ledger with feedback := ledger.feedback ++ [⟨reader, incarnation, entry.page⟩] }
    else
      return ledger
  | .automatic reader incarnation, _ =>
    if (ledger.patterns reader).owns incarnation then ledger.resetReader G reader
    else return ledger

/-- The part of `finish_index` after the marker is taken. A marker that a reader consumed turns every
end into a promotion. -/
def finishIndexCount (ledger : Ledger) (entry : PrefetchEntry) (outcome : Speculation)
    (terminal : Terminal) : Except Assertion Ledger := do
  ensure (outcome ≠ .absent) "a credit has a marker"
  let occupied ← subtract ledger.stats.occupied 1
  let terminal := match outcome with
    | .consumed reader => .promoted reader
    | _ => terminal
  let stats := { ledger.stats with occupied }
  let stats := match terminal with
    | .promoted _ => { stats with demandPromoted := stats.demandPromoted + 1 }
    | .evicted => { stats with evictedUnused := stats.evictedUnused + 1 }
    | .failed => { stats with failed := stats.failed + 1 }
  let ledger ← finishIndexFeedback G { ledger with stats } entry terminal
  ensure (ledger.stats.admitted =
      ledger.stats.demandPromoted + ledger.stats.evictedUnused + ledger.stats.failed +
        ledger.stats.occupied)
    "every credit ends once"
  return ledger

/-- One pass of the radix sort: a stable distribution by one key byte. -/
def sortByByte (feedback : List Feedback) (ordinal : ℕ) : List Feedback :=
  (List.range 256).flatMap fun byte ↦ feedback.filter fun record ↦ record.byte ordinal = byte

def flushFeedbackSort (feedback : List Feedback) : List Feedback :=
  (List.range 16).foldl sortByByte feedback

def flushFeedback (ledger : Ledger) : Except Assertion Ledger := do
  let feedback := flushFeedbackSort ledger.feedback
  let ledger ← feedback.foldlM (fun ledger record ↦ do
    let pattern ← (ledger.patterns record.reader).promoted record.page record.incarnation G.capacity
    ledger.setPattern G record.reader pattern) ledger
  return { ledger with feedback := [] }

end Ledger

/-- The ledger and the clock it reconciles with. -/
structure Speculative where
  ledger : Ledger
  clock : Clock

abbrev LedgerM := Program Speculative Assertion

namespace LedgerM

def clockLens : Lens Speculative Clock := ⟨Speculative.clock, fun clock memory ↦ { memory with clock }⟩

/-- A change of the ledger alone. -/
def update (change : Ledger → Except Assertion Ledger) : LedgerM Unit :=
  Program.act fun memory ↦ do return ((), { memory with ledger := ← change memory.ledger })

def updateWith {α : Type} (change : Ledger → Except Assertion (α × Ledger)) : LedgerM α :=
  Program.act fun memory ↦ do
    let (result, ledger) ← change memory.ledger
    return (result, { memory with ledger })

def readLedger {α : Type} (read : Ledger → α) : LedgerM α :=
  Program.load fun memory ↦ read memory.ledger

variable (G : PrefetchGeometry)

def admitEntry (page : PageId) (frame : ℕ) (source : Source) : LedgerM Unit := do
  update fun ledger ↦ ledger.admitEntry G page frame source
  Clock.beginSpeculation clockLens G.frames frame
  update fun ledger ↦ ledger.admitCount G source

def finishIndex (index : ℕ) (terminal : Terminal) : LedgerM Unit := do
  let entry ← updateWith fun ledger ↦ ledger.finishIndexUnlink index
  let outcome ← Clock.takeSpeculation clockLens G.frames entry.frame
  update fun ledger ↦ ledger.finishIndexCount G entry outcome terminal

def finish (frame : ℕ) (terminal : Terminal) : LedgerM Unit := do
  match ← readLedger fun ledger ↦ ledger.frameEntries frame with
  | some index => finishIndex G index terminal
  | none =>
    let speculative ← Clock.isSpeculative clockLens G.frames frame
    ensure (speculative = false) "a frame without a credit has no marker"

/-- The visit of a completed frame: its entry is cleaned up if its stream is gone. -/
def visitCompleted (frame : ℕ) : LedgerM Unit :=
  update fun ledger ↦
    match ledger.frameEntries frame with
    | none => return ledger
    | some index => do
      let entry ← expect (ledger.entries index) "indexed entry"
      if ledger.sourceObsolete entry.source then
        return { ledger with cleanup := ← ledger.cleanup.push index }
      else
        return ledger

def visitConsumed (frame : ℕ) : LedgerM Unit := do
  match ← readLedger fun ledger ↦ ledger.frameEntries frame with
  | none => return ()
  | some index =>
    if ← Clock.speculationConsumed clockLens G.frames frame then
      finishIndex G index (.promoted none)

/-- Drains the consumed frames until a round returns no credit. -/
def reconcileConsumed : ℕ → LedgerM Unit
  | 0 => return ()
  | rounds + 1 => do
    let before ← readLedger fun ledger ↦ ledger.stats.occupied
    let _ ← DirtyFrames.drain (Clock.consumedLens clockLens) G.frames (visitConsumed G)
    let after ← readLedger fun ledger ↦ ledger.stats.occupied
    if before = after then return () else reconcileConsumed rounds

def reconcile : LedgerM Unit := do
  let _ ← DirtyFrames.drain (Clock.completedLens clockLens) G.frames visitCompleted
  reconcileConsumed G (G.capacity + 1)
  update fun ledger ↦ ledger.flushFeedback G

def reconcileFeedback : LedgerM Unit := do
  if ← readLedger fun ledger ↦ decide (0 < ledger.feedback.length) then
    reconcile G

end LedgerM

end DiosPool.Pool
