import DiosPool.Pool.Control

/-!
# Eviction

Evicting a frame takes it out of the page table and queues it with the current epoch. The epoch
advances past readers that rest or have seen it.
-/

namespace DiosPool.Pool

open Driver Foundation

variable (C : Config)

/-- Whether the epoch may advance past a reader. -/
def permitsAdvance (reader : Reader) (epoch : ℕ) : Bool :=
  reader.localEpoch = none || reader.localEpoch = some epoch

/-- Whether no token waits for the page of a frame. -/
def prepareEviction (frame : ℕ) : PoolM Bool :=
  Program.act fun pool ↦ do
    let (prepared, miss) ← pool.locked.miss.prepareEviction pool.unlocked.interests frame
    return (prepared, { pool with locked := { pool.locked with miss } })

/-- The end of an eviction: the frame no longer is resident and waits in the queue. -/
def enqueueEvicting (frame : ℕ) : PoolM Unit :=
  PoolM.update fun locked ↦ do
    (← locked.advance frame .evicting).pushEvict C frame

def evictResident (frame : ℕ) : PoolM Unit := do
  PoolM.update fun locked ↦ do
    let page ← locked.exactPageLocked frame
    let (removed, locked) := locked.removeShared page
    ensure (removed = some frame) "a resident frame is mapped under its page"
    return locked
  PoolM.ledger (LedgerM.finish C.prefetch frame .evicted)
  enqueueEvicting C frame

/-- The turns of `evict_clock_victim`. -/
def evictClockVictimFrom : ℕ → PoolM Bool
  | 0 => return false
  | turns + 1 => do
    let victim ← PoolM.ledger (Clock.evictVictimShared LedgerM.clockLens C.frameCount)
    if ← PoolM.read fun pool ↦ decide ((pool.locked.frames victim).state ≠ .resident) then
      evictClockVictimFrom turns
    else if !(← prepareEviction victim) then
      evictClockVictimFrom turns
    else if ← PoolM.ledger (Clock.isSpeculative LedgerM.clockLens C.frameCount victim) then
      evictClockVictimFrom turns
    else
      let indexed ← PoolM.read fun pool ↦ (pool.locked.framePages.get victim).isSome
      ensure (indexed = true) "a resident CLOCK victim remains indexed"
      evictResident C victim
      return true

def evictClockVictim : PoolM Bool := evictClockVictimFrom C (2 * C.frameCount + 1)

end DiosPool.Pool
