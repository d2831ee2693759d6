import DiosPool.Pool.Invariant.Guards
import DiosPool.Pool.Invariant.Occupancy

/-!
# A pool between two calls

What every state of a pool satisfies in which no call has anything in its hands.
-/

namespace DiosPool.Pool

open Driver Foundation

variable {C : Config} {pool : Pool}

/-- In how many places a frame is: listed as free or reserved, with a read, queued for reclamation,
held by retained handles, or mapped under its page. -/
def places (C : Config) (pool : Pool) (frame : ℕ) : ℕ :=
  pool.locked.freeFrames.count frame + pool.locked.reserve.count frame +
    ((holders C pool).map Prod.snd).count frame +
    (pool.locked.evictQueue.map Prod.fst).count frame +
    (if (pool.unlocked.retention.words frame).held then 1 else 0) +
    if pool.locked.table.lookup (pool.locked.frames frame).page = some frame then 1 else 0

end DiosPool.Pool
