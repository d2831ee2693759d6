import DiosPool.Driver.Eager
import DiosPool.Driver.EagerCore

/-!
# Draining an eager core

`quiesce` is what remains to be done when the last owner of the driver drops it. It gives up the
leases that are still held, then polls until no operation is in flight: bundles that are read in
part are resubmitted, everything else is aborted. A completion that a writer parked in the backlog
is drained by the first poll, after its lease is gone; if it asks for the rest of its bundle, the
core panics.
-/

namespace DiosPool.Driver

open Foundation

/-- A device that answers every transfer. -/
structure BlockingExecutor extends Executor where
  lasts : ∀ index transfer, (answer index transfer).isSome

/-- The core while it is drained. -/
structure Teardown where
  machine : Machine
  /-- The completions of the last poll, the newest first. -/
  batch : List Completion
  /-- The frames that were aborted, with the operations they came from. -/
  dropped : List (OpToken × ℕ)
  /-- The transfers that the executor answered. -/
  index : ℕ

/-- How many turns without a completion a broken backend gets. -/
def quiesceIdleMax : ℕ := 1_000_000

variable (C : Config) (arena : ℕ → ℕ → UInt8) (executor : BlockingExecutor)

namespace Machine

/-- `retire`, for the file that the last operation of a closing file left. -/
def retireDue (machine : Machine) : Except Assertion Machine := do
  (← machine.next C (.retire 0)).next C (.finishRetire 0)

def flushDeferred : ℕ → Machine → Except Assertion Machine
  | 0, machine => return machine
  | turns + 1, machine =>
    if machine.shared.deferred.isEmpty then
      return machine
    else do
      flushDeferred turns (← (← machine.next C .flush).retireDue C)

/-- `release_read_lease`. -/
def releaseReadLease (machine : Machine) (token : OpToken) : Except Assertion Machine := do
  let (_, shared) ← machine.shared.releaseReadLease C token
  return { machine with
    shared
    leases := machine.leases.erase token
    departed := token :: machine.departed }

/-- Dropping a `ReadContinuation`. -/
def dropContinuation (machine : Machine) (token : OpToken) : Except Assertion Machine :=
  if machine.shared.contains token then machine.releaseReadLease C token else return machine

/-- Releases the leased slots among `slots`. -/
def abandonSlots : List ℕ → Machine → Except Assertion Machine
  | [], machine => return machine
  | slot :: slots, machine =>
    if (machine.shared.slots slot).payload.any fun entry ↦ entry.state.isLeased then do
      abandonSlots slots (← machine.releaseReadLease C (machine.shared.token slot))
    else
      abandonSlots slots machine

def abandonHeldContinuations (machine : Machine) : Except Assertion Machine := do
  (← abandonSlots C (List.range C.queueCapacity) machine).flushDeferred C C.queueCapacity

end Machine

namespace Teardown

/-- The rest of `drain_completion_backlog`. -/
def drainCompletionBacklog : ℕ → Teardown → Except Assertion Teardown
  | 0, teardown => return teardown
  | turns + 1, teardown =>
    match teardown.machine.shared.completionBacklog with
    | [] => return teardown
    | completion :: _ => do
      let machine ← teardown.machine.next C .drainBacklog
      drainCompletionBacklog turns { teardown with machine, batch := completion :: teardown.batch }

/-- One turn of the loop in `poll`: the next ready operation is executed and published. -/
def pollNext (teardown : Teardown) : Except Assertion (Option Teardown) :=
  match teardown.machine.shared.ready with
  | [] => return none
  | slot :: _ => do
    let entry ← teardown.machine.shared.peek slot
    let context ← OpContext.ofEntry arena entry
    let machine ← teardown.machine.next C .prepare
    let (transfers, result) ←
      execute C executor.toDevice teardown.index entry.kind context
    let result ← expect result "a blocking transfer returns"
    let (completion, retire, released, shared) ←
      machine.shared.finishAttempt slot result context.frame
    let machine := { machine with executing := machine.executing.eraseIdx 0 }.completed shared
      completion retire released
    return some { teardown with
      machine := ← machine.retireDue C
      batch := completion :: teardown.batch
      index := teardown.index + transfers.length }

def pollReady : ℕ → Teardown → Except Assertion Teardown
  | 0, teardown => return teardown
  | turns + 1, teardown => do
    match ← pollNext C arena executor teardown with
    | none => return teardown
    | some teardown => pollReady turns teardown

/-- `poll` into the shutdown batch, which has room for `queueCapacity` completions. -/
def poll (teardown : Teardown) : Except Assertion Teardown := do
  let machine ← teardown.machine.flushDeferred C C.queueCapacity
  let teardown ← drainCompletionBacklog C C.queueCapacity { teardown with machine, batch := [] }
  pollReady C arena executor (C.queueCapacity - teardown.batch.length) teardown

/-- Dropping a `ReadVector` aborts its frames, unless the kernel may still write to them. -/
def dropVector (teardown : Teardown) (token : OpToken) (vector : ReadVector) : Teardown :=
  if vector.operation.isSome && vector.descriptors.isSome then teardown
  else { teardown with dropped := vector.frames.map (token, ·) ++ teardown.dropped }

/-- The lease of a completion is dropped with it. -/
def dropLease (teardown : Teardown) (completion : Completion) : Except Assertion Teardown := do
  if completion.continuation then
    return { teardown with
      machine := ← teardown.machine.dropContinuation C completion.token }
  else
    return teardown

/-- `continue_read_vector` on the tail of a bundle. -/
def continueReadVector (teardown : Teardown) (completion : Completion) (vector : ReadVector) :
    Except Assertion Teardown := do
  let machine := teardown.machine
  let (outcome, shared) ← machine.shared.continueReadVector C completion.token vector
  match outcome with
  | .ok token =>
    return { teardown with machine := { machine with
      shared
      leases := machine.leases.erase token
      given := vector.frames.map (token, ·) ++ machine.given } }
  | .error vector => (teardown.dropVector completion.token vector).dropLease C completion

/-- What `quiesce_continue_vectors` does with one completion. -/
def quiesceCompletion (teardown : Teardown) (completion : Completion) :
    Except Assertion Teardown := do
  match completion.frame with
  | some (.vector vector) =>
    let (dropped, vector) ← vector.takeCompleted
      (fun dropped _ frame ↦ return (completion.token, frame) :: dropped) teardown.dropped
    let teardown := { teardown with dropped }
    if vector.remaining = 0 ∨ transferred completion.result = 0 ∨ !completion.continuation then
      (teardown.dropVector completion.token vector).dropLease C completion
    else
      teardown.continueReadVector C completion vector
  | some (.point frame) =>
    ({ teardown with dropped := (completion.token, frame) :: teardown.dropped }).dropLease C
      completion
  | none =>
    ensure (completion.continuation = false) "a completion without frames has no lease"
    return teardown

def quiesceContinueVectors : ℕ → Teardown → Except Assertion Teardown
  | 0, teardown => return teardown
  | turns + 1, teardown =>
    match teardown.batch with
    | [] => return teardown
    | completion :: batch => do
      quiesceContinueVectors turns (← quiesceCompletion C { teardown with batch } completion)

/-- One turn of the loop in `quiesce`, with the number of completions it polled. -/
def quiesceTurn (teardown : Teardown) : Except Assertion (ℕ × Teardown) := do
  let teardown ← teardown.poll C arena executor
  let drained := teardown.batch.length
  let teardown ← quiesceContinueVectors C C.queueCapacity teardown
  return (drained, { teardown with machine := ← teardown.machine.abandonHeldContinuations C })

/-- The loop of `quiesce`, for at most `turns` turns. No result means that operations are left. -/
def quiesceLoop : ℕ → ℕ → Teardown → Except Assertion (Option Teardown)
  | 0, _, _ => return none
  | turns + 1, idle, teardown =>
    if teardown.machine.shared.totalInflight C = 0 then
      return some teardown
    else do
      let (drained, teardown) ← teardown.quiesceTurn C arena executor
      if 0 < drained then
        quiesceLoop turns 0 teardown
      else
        ensure (idle + 1 < quiesceIdleMax) "drop quiesce made no progress"
        quiesceLoop turns (idle + 1) teardown

end Teardown

/-- `quiesce`. -/
def Machine.quiesce (turns : ℕ) (machine : Machine) : Except Assertion (Option Teardown) := do
  let machine ← machine.abandonHeldContinuations C
  let teardown : Teardown := ⟨machine, [], [], 0⟩
  if machine.shared.totalInflight C = 0 then
    return some teardown
  else
    teardown.quiesceLoop C arena executor turns 0

end DiosPool.Driver
