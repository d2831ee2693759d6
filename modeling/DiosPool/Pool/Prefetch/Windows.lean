import DiosPool.Pool.Prefetch.Admission

/-!
# Explicit and automatic windows

A caller asks for a list of pages with `prefetch`; a stream of cold demand is extended by the poll.
Both look up what is mapped or pending already and admit the rest in runs.
-/

namespace DiosPool.Pool

open Driver Foundation

variable (C : Config)

/-- A change of the ledger alone. -/
def PoolM.updateLedger {α : Type} (change : Ledger → Except Assertion (α × Ledger)) : PoolM α :=
  PoolM.ledger (LedgerM.updateWith change)

/-- What is known of a page, nothing if it has to be read. -/
def prefetchClassify (locked : Locked) (page : PageId) : Except Assertion (Option Admission) := do
  ensure (page.file.driver = C.identity) "prefetch uses its owning pool"
  if locked.fileIsLive page.file = false then
    return some .rejected
  else if (locked.table.lookup page).isSome then
    return some .resident
  else if (locked.miss.findPending page).isSome then
    return some .pending
  else
    return none

/-! ## Upkeep of the reserve -/

/-- The next candidate for replacement, if too few credits are left and the cursor is not at the
end. -/
def nextReplacement (wanted : ℕ) (ledger : Ledger) :
    Except Assertion (Option (Option PrefetchEntry) × Ledger) := do
  if wanted ≤ (← ledger.available C.prefetch) then
    return (none, ledger)
  else
    let entry := (ledger.entries ledger.replacementCursor).filter fun entry ↦
      entry.protectedAt ≠ ledger.stamp
    return (some entry, { ledger with replacementCursor := ledger.replacementCursor + 1 })

def prefetchReplaceUnusedFrom (wanted : ℕ) : ℕ → PoolM Unit
  | 0 => return ()
  | turns + 1 => do
    match ← PoolM.updateLedger (nextReplacement C wanted) with
    | none => return ()
    | some none => prefetchReplaceUnusedFrom wanted turns
    | some (some entry) =>
      if ← PoolM.read fun pool ↦ decide ((pool.locked.frames entry.frame).state = .resident) then
        if ← prepareEviction entry.frame then
          evictResident C entry.frame
      prefetchReplaceUnusedFrom wanted turns

def prefetchReplaceUnused (wanted : ℕ) : PoolM Unit := do
  let cursor ← PoolM.read fun pool ↦ pool.locked.ledger.replacementCursor
  prefetchReplaceUnusedFrom C wanted (C.prefetchCapacity - cursor)

/-! ## Explicit windows -/

structure PrefetchReport where
  requested : ℕ
  resident : ℕ
  pending : ℕ
  admitted : ℕ
  deferred : ℕ
  rejected : ℕ
  deriving DecidableEq, Repr

def PrefetchReport.record (report : PrefetchReport) (admission : Admission) (count : ℕ) :
    Except Assertion PrefetchReport :=
  match admission with
  | .resident => return { report with resident := report.resident + count }
  | .pending => return { report with pending := report.pending + count }
  | .admitted => return { report with admitted := report.admitted + count }
  | .deferred => return { report with deferred := report.deferred + count }
  | .rejected => return { report with rejected := report.rejected + count }
  | .obsolete => .error ⟨"explicit hints have no incarnation"⟩

/-- The pages an explicit window protects from replacement. -/
def prefetchProtect : List PageId → PoolM Unit
  | [] => return ()
  | page :: pages => do
    PoolM.update fun locked ↦ do
      ensure (page.file.driver = C.identity) "prefetch uses its owning pool"
      let frame ← match locked.table.lookup page, locked.miss.findPending page with
        | some frame, _ => pure (some frame)
        | none, some index => do pure (some (← locked.miss.entry index).frame)
        | none, none => pure none
      match frame with
      | some frame => return { locked with ledger := ← locked.ledger.protect frame }
      | none => return locked
    prefetchProtect pages

/-- The pages after `last` that continue its run, at most `limit` of them. -/
def runTail (locked : Locked) : ℕ → PageId → List PageId → Except Assertion (List PageId)
  | limit + 1, last, page :: pages =>
    if Pattern.follows last page then do
      if (← prefetchClassify C locked page).isSome then
        return []
      else
        return page :: (← runTail locked limit page pages)
    else
      return []
  | _, _, _ => return []

/-- The loop of `prefetch_examined` over the pages that are left. -/
def prefetchExamined : ℕ → List PageId → PrefetchReport → PoolM PrefetchReport
  | 0, pages, report => do
    ensure (pages = []) "every page is examined"
    return report
  | _ + 1, [], report => return report
  | turns + 1, page :: pages, report => do
    match ← PoolM.locked fun locked ↦ do return (← prefetchClassify C locked page, locked) with
    | some outcome =>
      let report ← report.record outcome 1
      prefetchExamined turns pages report
    | none =>
      let tail ← PoolM.locked fun locked ↦ do
        return (← runTail C locked (C.prefetch.vectorWidth - 1) page pages, locked)
      let wanted := tail.length + 1
      prefetchReplaceUnused C wanted
      let count ← PoolM.locked fun locked ↦ do
        let available ← locked.ledger.available C.prefetch
        return (min (min wanted available) (C.maxInflightReads - locked.readsInFlight), locked)
      if count = 0 then
        prefetchExamined turns (pages.drop tail.length)
          { report with deferred := report.deferred + wanted }
      else
        PoolM.ledger (LedgerM.reconcileFeedback C.prefetch)
        let outcome ← prefetchAdmitRun C ((page :: pages).take count) .explicit
        let report ← report.record outcome count
        prefetchExamined turns ((page :: pages).drop count) report

def prefetch (pages : List PageId) : PoolM PrefetchReport := do
  PoolM.ledger (LedgerM.reconcile C.prefetch)
  PoolM.updateLedger fun ledger ↦
    .ok ((), { ledger with active := decide (0 < C.prefetchCapacity) })
  let examined := pages.take C.prefetch.requestLimit
  PoolM.updateLedger fun ledger ↦ .ok ((), ledger.beginExplicit)
  prefetchProtect C examined
  let report ← prefetchExamined C examined.length examined
    ⟨pages.length, 0, 0, 0, pages.length - examined.length, 0⟩
  PoolM.updateLedger fun ledger ↦
    .ok ((), { ledger with
      stats := { ledger.stats with deferred := ledger.stats.deferred + report.deferred } })
  ensure (report.requested = report.resident + report.pending + report.admitted +
    report.deferred + report.rejected) "the report partitions the window"
  return report

/-! ## Automatic windows -/

/-- The pages of an automatic window, each with what is known of it. -/
def prefetchAutomaticWindowClassify (locked : Locked) (first : PageId) (count : ℕ) :
    Except Assertion (List (PageId × Option Admission)) := do
  ensure (1 ≤ count ∧ count ≤ 32) "a window has 1 to 32 pages"
  (List.range count).mapM fun index ↦ do
    ensure (first.granuleIdx + index ≤ u32Max) "confirmed horizon"
    let page : PageId := ⟨first.file, first.granuleIdx + index⟩
    return (page, ← prefetchClassify C locked page)

def prefetchAutomaticWindowHasCredits (locked : Locked)
    (classes : List (PageId × Option Admission)) : Except Assertion Bool := do
  let missing := classes.countP fun (_, known) ↦ known.isNone
  if (← locked.ledger.available C.prefetch) < missing then
    return false
  else
    return missing ≤ C.maxInflightReads - locked.readsInFlight

def issuePages (reader : ℕ) : List PageId → Ledger → Except Assertion Ledger
  | [], ledger => return ledger
  | page :: pages, ledger => do issuePages reader pages (← ledger.issued C.prefetch reader page)

/-- Admits the run that a window starts with, or nothing if its stream is gone. -/
def admitAutomaticRun (source : Source) (run : List PageId) : PoolM Admission := do
  PoolM.ledger (LedgerM.reconcileFeedback C.prefetch)
  if ← PoolM.read fun pool ↦ pool.locked.ledger.sourceObsolete source then
    return .obsolete
  else
    prefetchAdmitRun C run source

/-- The loop of `prefetch_automatic_window` over the pages that are left. -/
def prefetchAutomaticWindowFrom (reader : ℕ) (source : Source) :
    ℕ → List (PageId × Option Admission) → ℕ → PoolM (Admission × ℕ)
  | 0, _, admitted => return (.resident, admitted)
  | _ + 1, [], admitted => return (.resident, admitted)
  | turns + 1, (page, known) :: rest, admitted => do
    let run := match known with
      | some _ => [page]
      | none => page :: (rest.takeWhile fun (_, known) ↦ known.isNone).map Prod.fst
    let outcome ← match known with
      | some outcome => pure outcome
      | none => admitAutomaticRun C source run
    match outcome with
    | .obsolete => return (.obsolete, admitted)
    | .deferred => return (.deferred, admitted)
    | .rejected =>
      PoolM.updateLedger fun ledger ↦ do return ((), ← ledger.resetReader C.prefetch reader)
      return (.rejected, admitted)
    | _ =>
      PoolM.updateLedger fun ledger ↦ do return ((), ← issuePages C reader run ledger)
      prefetchAutomaticWindowFrom reader source turns (rest.drop (run.length - 1))
        (if outcome = .admitted then admitted + run.length else admitted)

def prefetchAutomaticWindowFinish (reader : ℕ) (outcome : Admission) (admitted : ℕ) :
    PoolM Unit := do
  if admitted = 0 ∧ (outcome = .deferred ∨ outcome = .rejected ∨ outcome = .obsolete) then
    return ()
  else
    PoolM.updateLedger fun ledger ↦ do return ((), ← ledger.advanceTurn C.prefetch reader)

def prefetchAutomaticWindow (reader : ℕ) (first : PageId) (source : Source) (count : ℕ) :
    PoolM Admission := do
  let classes ← PoolM.locked fun locked ↦ do
    ensure (locked.ledger.ready.first = some reader) "the stream at the front has its turn"
    return (← prefetchAutomaticWindowClassify C locked first count, locked)
  let credits ← PoolM.locked fun locked ↦ do
    return (← prefetchAutomaticWindowHasCredits C locked classes, locked)
  if credits then
    let (outcome, admitted) ← prefetchAutomaticWindowFrom C reader source count classes 0
    prefetchAutomaticWindowFinish C reader outcome admitted
    return outcome
  else
    return .deferred

/-- The stream at the front of the ready queue, with the window it asks for. -/
def readyWindow (ledger : Ledger) : Except Assertion (Option (ℕ × PageId × Source × ℕ)) :=
  match ledger.ready.first with
  | none => return none
  | some reader => do
    let (page, source, count) ← expect
      ((ledger.patterns reader).window reader C.prefetch.automaticWidth)
      "ready stream has eligible horizon"
    return some (reader, page, source, count)

end DiosPool.Pool
