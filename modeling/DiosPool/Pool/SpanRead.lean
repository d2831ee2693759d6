import DiosPool.Driver.DirectWrite
import DiosPool.Pool.Routing
import DiosPool.Pool.VectorRead

/-!
# The life of a read, page by page

A run of pages is fetched by one vector read or by one point read for each page. Both are loops that
hand the backend one attempt a turn. The driver repeats an attempt that failed for a passing reason;
every other answer goes to the pool, which publishes the pages that are complete and then stops,
or submits what is left of the read.
-/

namespace DiosPool.Pool

open Driver Foundation

/-- A read attempt as a backend gets it. -/
structure ReadAttempt where
  fileOffset : ℕ
  destinationOffset : ℕ
  length : ℕ
  descriptors : List Iovec
  deriving DecidableEq, Repr

/-- What a device makes of an attempt. It fills no more bytes than it is asked for. -/
structure DeviceTurn where
  answer : ReadAttempt → IoResult
  fits : ∀ attempt, transferred (answer attempt) ≤ attempt.length

/-- The attempt that the entry of a queued read stands for. -/
def readAttempt (entry : OpEntry) : ReadAttempt where
  fileOffset := entry.fileOffset
  destinationOffset := entry.destinationOffset
  length := entry.requestedLen
  descriptors := match entry.frame with
    | some (.point frame) => [⟨frame, entry.destinationOffset, entry.requestedLen⟩]
    | some (.vector vector) => vector.descriptors.elim [] VectorIo.descriptors
    | none => []

/-- The bytes that a result of an attempt brings. -/
def ReadAttempt.received (attempt : ReadAttempt) (result : IoResult) : List Request :=
  (requestsAt attempt.fileOffset (descriptorTargets attempt.descriptors)).take (transferred result)

/-- What became of the miss of a page. -/
inductive PageEnd
  | resident
  | failed (errno : ℕ)
  deriving DecidableEq, Repr

/-- Why a read is over. -/
inductive Cause
  | full
  | endOfFile
  | device (errno : ℕ)
  | misaligned
  deriving DecidableEq, Repr

/-- The cause behind a result that brings nothing. -/
def Cause.ofResult : IoResult → Cause
  | .ok _ => .endOfFile
  | .error errno => .device errno

/-- The error number of a result that brings nothing. The end of the file counts as `EIO`. -/
def failureErrno : IoResult → ℕ
  | .ok _ => eio
  | .error errno => errno

/-- The attempts of a read and where they lead to. A completion says why the read is over, if it is.
Where the script of the device ends, the read is left waiting for its last attempt. -/
def serve {σ : Type} (payload : σ → Option OpEntry)
    (complete : IoResult → StateT σ (Except Assertion) (Option Cause)) :
    List DeviceTurn → σ → Except Assertion (List ReadAttempt × σ × Option Cause)
  | [], state => do
    let entry ← expect (payload state) "a read in flight has its slot"
    return ([readAttempt entry], state, none)
  | turn :: script, state => do
    let entry ← expect (payload state) "a read in flight has its slot"
    let (cause, state) ← (complete (turn.answer (readAttempt entry))).run state
    match cause with
    | some cause => return ([readAttempt entry], state, some cause)
    | none => do
      let (attempts, outcome) ← serve payload complete script state
      return (readAttempt entry :: attempts, outcome)

section Serve

variable {σ : Type} {payload : σ → Option OpEntry}
  {complete : IoResult → StateT σ (Except Assertion) (Option Cause)} {turn : DeviceTurn}
  {state next : σ} {entry : OpEntry}

theorem serve_of_stop {cause : Cause} (script : List DeviceTurn)
    (hpayload : payload state = some entry)
    (hrun : (complete (turn.answer (readAttempt entry))).run state = .ok (some cause, next)) :
    serve payload complete (turn :: script) state = .ok ([readAttempt entry], next, some cause) := by
  simp [serve, hpayload, hrun]

theorem serve_of_next {script : List DeviceTurn} {attempts : List ReadAttempt} {final : σ}
    {outcome : Option Cause} (hpayload : payload state = some entry)
    (hrun : (complete (turn.answer (readAttempt entry))).run state = .ok (none, next))
    (hrest : serve payload complete script next = .ok (attempts, final, outcome)) :
    serve payload complete (turn :: script) state =
      .ok (readAttempt entry :: attempts, final, outcome) := by
  simp [serve, hpayload, hrun, hrest]

end Serve

/-- A completion keeps an invariant of the reads in flight, or ends the read as it may end. -/
def Completes {σ : Type} (complete : IoResult → StateT σ (Except Assertion) (Option Cause))
    (running : σ → OpEntry → Prop) (ended : σ → Cause → Prop) : Prop :=
  ∀ state entry, running state entry → ∀ result, transferred result ≤ entry.requestedLen →
    (∃ next after, (complete result).run state = .ok (none, next) ∧ running next after) ∨
      ∃ next cause, (complete result).run state = .ok (some cause, next) ∧ ended next cause

/-- Every attempt of a read belongs to a read in flight, a read that is over has ended as it may end,
and any other read is still in flight. -/
theorem serve_of_completes {σ : Type} (payload : σ → Option OpEntry)
    {complete : IoResult → StateT σ (Except Assertion) (Option Cause)}
    {running : σ → OpEntry → Prop} {ended : σ → Cause → Prop}
    (hcompletes : Completes complete running ended)
    (hpayload : ∀ state entry, running state entry → payload state = some entry)
    (script : List DeviceTurn) :
    ∀ state entry, running state entry →
      ∃ attempts final outcome, serve payload complete script state =
          .ok (attempts, final, outcome) ∧
        (∀ attempt ∈ attempts, ∃ state entry, running state entry ∧
          attempt = readAttempt entry) ∧
        (∀ cause, outcome = some cause → ended final cause) ∧
        (outcome = none → ∃ entry, running final entry) := by
  induction script with
  | nil =>
    intro state entry hrunning
    refine ⟨[readAttempt entry], state, none, ?_, ?_, by simp, fun _ ↦ ⟨entry, hrunning⟩⟩
    · simp [serve, hpayload state entry hrunning]
    · intro attempt hmem
      exact ⟨state, entry, hrunning, List.mem_singleton.mp hmem⟩
  | cons turn script ih =>
    intro state entry hrunning
    have hentry := hpayload state entry hrunning
    rcases hcompletes state entry hrunning _ (turn.fits (readAttempt entry)) with
      ⟨next, after, hrun, hnext⟩ | ⟨next, cause, hrun, hended⟩
    · obtain ⟨attempts, final, outcome, hserve, hattempts, hfinal⟩ := ih next after hnext
      refine ⟨_, final, outcome, serve_of_next hentry hrun hserve, ?_, hfinal⟩
      intro attempt hmem
      cases hmem with
      | head => exact ⟨state, entry, hrunning, rfl⟩
      | tail _ hmem => exact hattempts attempt hmem
    · refine ⟨_, next, some cause, serve_of_stop script hentry hrun, ?_, ?_, by simp⟩
      · intro attempt hmem
        exact ⟨state, entry, hrunning, List.mem_singleton.mp hmem⟩
      · rintro _ ⟨⟩
        exact hended

/-- A page of a span whose miss is settled. -/
structure SettledPage where
  ordinal : ℕ
  frame : ℕ
  pageEnd : PageEnd
  deriving DecidableEq, Repr

/-! ## Vector reads -/

/-- A vector read with the route it gets. `misses` are the misses of its pages, and `reads` the
credits that other reads hold. -/
structure SpanPlan extends VectorPlan where
  driver : Driver.Config
  routes : ReadSpans
  route : ℕ
  misses : ℕ → SpanPage
  reads : ℕ
  prepared : routes.slots[route]? = some .preparing
  vacant : routes.operations[token.slot]? = some none

/-- What a vector read holds: its slot in the slab, its route and its credits. `settled` are the
pages that are over, and `received` are the bytes that arrived, both in order. -/
structure SpanRun where
  payload : Option OpEntry
  spans : ReadSpans
  readsInFlight : ℕ
  settled : List SettledPage
  received : List Request

abbrev SpanM := StateT SpanRun (Except Assertion)

namespace SpanM

/-- `release_read_credit`. -/
def releaseReadCredit : SpanM Unit := do
  let state ← MonadState.get
  let readsInFlight ← (subtract state.readsInFlight 1 : Except Assertion ℕ)
  set { state with readsInFlight }

/-- The miss of a page, which is pending, gets its outcome. -/
def settle (span : ReadSpan) (pageEnd : PageEnd) (ordinal frame : ℕ) : SpanM Unit := do
  let state ← MonadState.get
  (ensure (ordinal < span.count) "ordinal of the span" : Except Assertion Unit)
  (ensure (span.pages[ordinal]?.join.isSome) "committed span ordinal" : Except Assertion Unit)
  (ensure (∀ page ∈ state.settled, page.ordinal ≠ ordinal) "a span page is pending" :
    Except Assertion Unit)
  releaseReadCredit
  modify fun state ↦ { state with settled := state.settled ++ [⟨ordinal, frame, pageEnd⟩] }

/-- `release_read_lease`: the slot of the read is vacant. -/
def releaseReadLease : SpanM Unit := do
  let state ← MonadState.get
  let entry ← (expect state.payload "reclaim of an occupied slot" : Except Assertion OpEntry)
  let _ ← (Shared.leaseOutcome entry : Except Assertion IoResult)
  (ensure entry.frame.isNone "the completion owns the destinations" : Except Assertion Unit)
  set { state with payload := none }

/-- A change of the routes. -/
def route (change : ReadSpans → Except Assertion ReadSpans) : SpanM Unit := do
  let state ← MonadState.get
  let spans ← (change state.spans : Except Assertion ReadSpans)
  set { state with spans }

end SpanM

namespace SpanPlan

variable (plan : SpanPlan)

/-- The misses of the first pages are installed. -/
def installPages : ℕ → ReadSpan → Except Assertion ReadSpan
  | 0, span => return span
  | count + 1, span => do
    let span ← installPages count span
    span.install count (plan.misses count)

/-- Admission of a vector read: it is submitted and its route is committed. -/
def commit : Except Assertion SpanRun := do
  let entry ← plan.submit
  let span ← ReadSpan.new plan.first plan.token plan.frames.length plan.granule
  let span ← plan.installPages plan.frames.length span
  let spans ← plan.routes.commit plan.route span
  return ⟨some entry, spans, plan.reads + plan.frames.length, [], []⟩

/-- The closure of `route_span_failure`; `failed` counts its pages. -/
def failPage (span : ReadSpan) (errno failed ordinal frame : ℕ) : SpanM ℕ := do
  (ensure (ordinal = span.published + failed) "failure follows the published prefix" :
    Except Assertion Unit)
  SpanM.settle span (.failed errno) ordinal frame
  return failed + 1

def routeSpanFailure (slot : ℕ) (span : ReadSpan) (vector : ReadVector) (errno : ℕ) :
    SpanM Unit := do
  let (failed, _) ← vector.takeRemaining (failPage span errno) 0
  (ensure (span.published + failed = span.count) "each destination terminates once" :
    Except Assertion Unit)
  SpanM.route fun spans ↦ spans.finish slot span.token

/-- The end of `route_span_completion`, when the complete pages are published. The result says why the
read is over, if it is. -/
def routeSpanProgress (slot : ℕ) (span : ReadSpan) (vector : ReadVector) (continuation : Bool)
    (result : IoResult) : SpanM (Option Cause) := do
  if ← (span.isComplete : Except Assertion Bool) then
    SpanM.route fun spans ↦ spans.finish slot plan.token
    if continuation then SpanM.releaseReadLease
    return some .full
  else if 0 < transferred result then
    (ensure (continuation = true) "positive short progress retains the original slot" :
      Except Assertion Unit)
    let state ← MonadState.get
    let entry ← (expect state.payload "peek of an occupied slot" : Except Assertion OpEntry)
    match ← (entry.continueVector plan.slots plan.token vector :
        Except Assertion (Option OpEntry)) with
    | some entry =>
      set { state with payload := some entry }
      SpanM.route fun spans ↦ spans.resume slot span
      return none
    | none =>
      SpanM.releaseReadLease
      routeSpanFailure slot span vector einval
      return some .misaligned
  else
    routeSpanFailure slot span vector (failureErrno result)
    if continuation then SpanM.releaseReadLease
    return some (.ofResult result)

def routeSpanCompletion (vector : ReadVector) (continuation : Bool) (result : IoResult) :
    SpanM (Option Cause) := do
  let state ← MonadState.get
  let (slot, span, spans) ← (state.spans.completing plan.token :
    Except Assertion (ℕ × ReadSpan × ReadSpans))
  set { state with spans }
  let (span, vector) ← span.publishCompleted vector (transferred result) plan.granule
    fun span ordinal frame ↦ SpanM.settle span .resident ordinal frame
  plan.routeSpanProgress slot span vector continuation result

/-- A completion of the backend: `ring_progress`, `finish_attempt` and the routing. -/
def complete (result : IoResult) : SpanM (Option Cause) := do
  let state ← MonadState.get
  let entry ← (expect state.payload "CQE belongs to the live generation" : Except Assertion OpEntry)
  match ← (ringTurn plan.driver entry result : Except Assertion (OpEntry ⊕ IoResult)) with
  | .inl entry =>
    set { state with payload := some entry }
    return none
  | .inr result =>
    match entry.frame with
    | some (.vector vector) => do
      let received := state.received ++ (readAttempt entry).received result
      let (kept, vector) ← (entry.finishVector vector result :
        Except Assertion (Option OpEntry × ReadVector))
      set { state with payload := kept, received }
      plan.routeSpanCompletion vector kept.isSome result
    | _ => throw ⟨"queued read destination"⟩

/-- A vector read from its admission on. -/
def fetch (script : List DeviceTurn) :
    Except Assertion (List ReadAttempt × SpanRun × Option Cause) := do
  serve SpanRun.payload plan.complete script (← plan.commit)

end SpanPlan

/-! ## Point reads -/

/-- A point read of a page into a frame. -/
structure PointPlan where
  granule : ℕ
  page : PageId
  frame : ℕ
  fd : FileHandle
  driver : Driver.Config
  reads : ℕ
  granule_pos : 0 < granule
  granule_aligned : fd.ioMode.check granule = true

/-- What a point read holds. `filled` is the progress that its miss remembers. -/
structure PointRun where
  payload : Option OpEntry
  filled : ℕ
  readsInFlight : ℕ
  settled : Option PageEnd
  received : List Request

abbrev PointM := StateT PointRun (Except Assertion)

namespace PointPlan

variable (plan : PointPlan)

/-- The entry of the read that fills the page from `filled` bytes on. -/
def entry (filled : ℕ) : OpEntry :=
  Shared.pointEntry .pool plan.fd plan.frame (readSpan plan.page plan.granule filled).1 filled
    (readSpan plan.page plan.granule filled).2

/-- Admission of a demand read. -/
def commit : PointRun := ⟨some (plan.entry 0), 0, plan.reads + 1, none, []⟩

/-- The credit is released and the miss gets its outcome. -/
def settle (pageEnd : PageEnd) : PointM Unit := do
  let state ← MonadState.get
  let readsInFlight ← (subtract state.readsInFlight 1 : Except Assertion ℕ)
  (ensure (state.settled = none) "a miss ends once" : Except Assertion Unit)
  set { state with readsInFlight, settled := some pageEnd }

def routeReadCompletionRemainder (filled : ℕ) : PointM (Option Cause) := do
  let (offset, len) := readSpan plan.page plan.granule filled
  if remainderSatisfiesIoMode plan.fd.ioMode offset filled len then
    modify fun state ↦ { state with payload := some (plan.entry filled), filled }
    return none
  else
    settle (.failed eio)
    return some .misaligned

def routeReadCompletion (result : IoResult) : PointM (Option Cause) :=
  match result with
  | .ok 0 => do
    settle (.failed eio)
    return some .endOfFile
  | .ok bytes => do
    let state ← MonadState.get
    if plan.granule ≤ state.filled + bytes then
      settle .resident
      return some .full
    else
      plan.routeReadCompletionRemainder (state.filled + bytes)
  | .error errno => do
    settle (.failed errno)
    return some (.device errno)

/-- A completion of the backend: `ring_progress`, the end of the operation and the routing. -/
def complete (result : IoResult) : PointM (Option Cause) := do
  let state ← MonadState.get
  let entry ← (expect state.payload "CQE belongs to the live generation" : Except Assertion OpEntry)
  match ← (ringTurn plan.driver entry result : Except Assertion (OpEntry ⊕ IoResult)) with
  | .inl entry =>
    set { state with payload := some entry }
    return none
  | .inr result =>
    set { state with
      payload := none
      received := state.received ++ (readAttempt entry).received result }
    plan.routeReadCompletion result

def fetch (script : List DeviceTurn) :
    Except Assertion (List ReadAttempt × PointRun × Option Cause) :=
  serve PointRun.payload plan.complete script plan.commit

end PointPlan

end DiosPool.Pool
