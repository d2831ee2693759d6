import DiosPool.Pool.FileSlots

/-!
# The miss table

One entry for every page that is being read, and for every finished read that still has waiters. The
pending entries are listed once more in an index of the size of the read bound. Waiters are counted
beside the table, where a dropped token can reach them without the control lock.
-/

namespace DiosPool.Pool

open Driver

/-- Generation and waiter count of one miss slot. -/
structure Interest where
  generation : ℕ
  waiters : ℕ
  deriving DecidableEq, Repr

inductive MissOutcome
  | pending
  | failed (errno : ℕ)
  | succeeded
  deriving DecidableEq, Repr

structure MissEntry where
  page : PageId
  frame : ℕ
  token : OpToken
  generation : ℕ
  filled : ℕ
  pendingPosition : ℕ
  outcome : MissOutcome
  deriving DecidableEq, Repr

instance : FileOwned MissEntry := ⟨fun entry ↦ entry.page.file.slot⟩

structure PendingMiss where
  page : PageId
  token : OpToken
  slot : ℕ
  deriving DecidableEq, Repr

/-- What a waiting caller holds. -/
structure PendingToken where
  page : PageId
  slot : ℕ
  generation : ℕ
  deriving DecidableEq, Repr

abbrev MissInterests := ℕ → Interest

namespace MissInterests

/-- A new generation of a slot starts with the interest of its first caller, or with none if the
read is speculative. -/
def beginInitial (interests : MissInterests) (slot initial : ℕ) :
    Except Assertion (ℕ × MissInterests) := do
  ensure ((interests slot).waiters = 0)
    "a miss slot is never recycled with live waiter interest"
  let generation := (interests slot).generation + 1
  return (generation, Function.update interests slot ⟨generation, initial⟩)

def join (interests : MissInterests) (slot generation : ℕ) : Except Assertion MissInterests := do
  ensure ((interests slot).generation = generation)
    "singleflight joins only the current miss generation"
  return Function.update interests slot ⟨generation, (interests slot).waiters + 1⟩

def release (interests : MissInterests) (slot generation : ℕ) : Except Assertion MissInterests := do
  ensure ((interests slot).generation = generation)
    "a live capability's miss slot cannot be recycled"
  ensure (0 < (interests slot).waiters) "a pending capability consumes interest once"
  return Function.update interests slot ⟨generation, (interests slot).waiters - 1⟩

def waiters (interests : MissInterests) (slot generation : ℕ) : Option ℕ :=
  if (interests slot).generation = generation then some (interests slot).waiters else none

end MissInterests

/-- `pending` is the live part of the index. -/
structure MissTable where
  slots : FileSlots MissEntry
  successFrames : ℕ → Option (ℕ × ℕ)
  pending : List PendingMiss
  pendingCapacity : ℕ

namespace MissTable

def new (capacity pendingCapacity : ℕ) : MissTable :=
  ⟨.new capacity, fun _ ↦ none, [], pendingCapacity⟩

def findPending (miss : MissTable) (page : PageId) : Option ℕ :=
  (miss.pending.find? fun pending ↦ pending.page = page).map PendingMiss.slot

def entry (miss : MissTable) (index : ℕ) : Except Assertion MissEntry :=
  expect (miss.slots.get index) "an occupied miss slot"

def pendingPosition (miss : MissTable) (slot : ℕ) : Except Assertion ℕ := do
  let entry ← miss.entry slot
  let indexed ← expect miss.pending[entry.pendingPosition]? "indexed pending miss"
  ensure (indexed.slot = slot) "the pending position names its slot"
  return entry.pendingPosition

def pendingPush (miss : MissTable) (pending : PendingMiss) : Except Panic MissTable :=
  if miss.pending.length < miss.pendingCapacity then
    return { miss with pending := miss.pending ++ [pending] }
  else
    .error .pendingIndex

/-- The last pending miss takes the place of the removed one. -/
def pendingRemove (miss : MissTable) (slot : ℕ) : Except Assertion MissTable := do
  let index ← miss.pendingPosition slot
  let last := miss.pending.length - 1
  if index < last then
    let moved ← expect miss.pending[last]? "the pending prefix is occupied"
    return { miss with
      pending := (miss.pending.set index moved).dropLast
      slots := miss.slots.modifyValue moved.slot fun entry ↦
        { entry with pendingPosition := index } }
  else
    return { miss with pending := miss.pending.dropLast }

/-- Whether admission may take a slot: it is empty, or its read is over and nobody waits. -/
def reusable (miss : MissTable) (interests : MissInterests) (index : ℕ) : Bool :=
  match miss.slots.get index with
  | none => true
  | some entry => entry.outcome != .pending && interests.waiters index entry.generation == some 0

def cleanTerminalZero (miss : MissTable) (interests : MissInterests) (slot generation : ℕ) :
    Except Assertion MissTable :=
  match miss.slots.get slot with
  | none => return miss
  | some entry =>
    if entry.generation = generation ∧ entry.outcome ≠ .pending ∧
        interests.waiters slot generation = some 0 then do
      let miss ← if entry.outcome = .succeeded then do
          ensure (miss.successFrames entry.frame = some (slot, generation))
            "successful protection names its exact terminal generation"
          pure { miss with successFrames := Function.update miss.successFrames entry.frame none }
        else pure miss
      return { miss with slots := ← miss.slots.remove slot }
    else
      return miss

def admitInitial (miss : MissTable) (interests : MissInterests) (slot : ℕ) (page : PageId)
    (frame : ℕ) (token : OpToken) (initial : ℕ) :
    Except Panic (ℕ × MissTable × MissInterests) := do
  let miss ← match miss.slots.get slot with
    | some previous => miss.cleanTerminalZero interests slot previous.generation
    | none => pure miss
  ensure (miss.slots.get slot).isNone "admission reuses only an empty or cleaned terminal slot"
  let (generation, interests) ← interests.beginInitial slot initial
  let entry : MissEntry := ⟨page, frame, token, generation, 0, miss.pending.length, .pending⟩
  let miss := { miss with slots := ← miss.slots.insert slot entry }
  let miss ← miss.pendingPush ⟨page, token, slot⟩
  return (generation, miss, interests)

def admitSpeculative (miss : MissTable) (interests : MissInterests) (slot : ℕ) (page : PageId)
    (frame : ℕ) (token : OpToken) : Except Panic (ℕ × MissTable × MissInterests) :=
  miss.admitInitial interests slot page frame token 0

def join (miss : MissTable) (interests : MissInterests) (index : ℕ) :
    Except Assertion (ℕ × MissInterests) := do
  let entry ← miss.entry index
  ensure (entry.outcome = .pending) "only pending misses join"
  return (entry.generation, ← interests.join index entry.generation)

def advanceRemainder (miss : MissTable) (index filled : ℕ) (token : OpToken) :
    Except Assertion MissTable := do
  let entry ← miss.entry index
  ensure (entry.outcome = .pending) "only pending misses reslice"
  let position ← miss.pendingPosition index
  return { miss with
    slots := miss.slots.modifyValue index fun entry ↦ { entry with filled, token }
    pending := miss.pending.modify position fun pending ↦ { pending with token } }

/-- A pending entry gets its outcome and leaves the index. -/
def settle (miss : MissTable) (index : ℕ) (outcome : MissOutcome) : Except Assertion MissTable :=
  pendingRemove
    { miss with slots := miss.slots.modifyValue index fun entry ↦ { entry with outcome } } index

def fail (miss : MissTable) (index errno : ℕ) : Except Assertion MissTable := do
  let entry ← miss.entry index
  ensure (errno ≠ 0) "a terminal miss failure carries a real errno"
  ensure (entry.outcome = .pending) "a miss fails once"
  miss.settle index (.failed errno)

def succeed (miss : MissTable) (index : ℕ) : Except Assertion MissTable := do
  let entry ← miss.entry index
  ensure (entry.outcome = .pending) "a miss succeeds once"
  let miss ← miss.settle index .succeeded
  ensure (miss.successFrames entry.frame).isNone
    "one successful terminal generation protects a frame"
  return { miss with
    successFrames :=
      Function.update miss.successFrames entry.frame (some (index, entry.generation)) }

def validate (miss : MissTable) (token : PendingToken) : Except Assertion MissEntry := do
  let entry ← expect (miss.slots.get token.slot) "pending token names a live miss record"
  ensure (entry.generation = token.generation) "pending token generation is exact"
  ensure (entry.page = token.page) "pending token page is exact"
  return entry

def prepareEviction (miss : MissTable) (interests : MissInterests) (frame : ℕ) :
    Except Assertion (Bool × MissTable) :=
  match miss.successFrames frame with
  | none => return (true, miss)
  | some (slot, generation) =>
    if interests.waiters slot generation ≠ some 0 then
      return (false, miss)
    else do
      let miss ← miss.cleanTerminalZero interests slot generation
      ensure (miss.successFrames frame).isNone
        "zero-interest success protection clears before frame reuse"
      return (true, miss)

end MissTable

end DiosPool.Pool
