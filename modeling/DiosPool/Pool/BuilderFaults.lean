import DiosPool.Pool.Builder

/-!
# Faults of a build

A validated configuration that leaves room for the page table and for the ring is built without a
fault. `validate` does not ask for that room: it accepts configurations whose page table or whose
ring exceeds 32 bits.
-/

namespace DiosPool.Pool

open Driver Foundation

def Stop.IsRefused : Stop → Prop
  | .refused _ => True
  | .fault _ => False

/-- A part of a build ends with a result that has a property, or with a typed error. -/
abbrev Builds {α : Type} (post : α → Prop) (build : BuildM α) : Prop :=
  Outcome Stop.IsRefused post build

namespace Builds

variable {α β : Type} {post : α → Prop} {condition : Prop} [Decidable condition]

theorem ok {value : α} (h : post value) : Builds post (.ok value) := h

theorem refused (error : PoolBuildError) : Builds post (.error (.refused error)) := trivial

theorem bind {next : α → BuildM β} {post' : β → Prop} {build : BuildM α} (h : Builds post build)
    (hnext : ∀ value, post value → Builds post' (next value)) : Builds post' (build >>= next) :=
  Outcome.bind h hnext

theorem lift {value : Except Assertion α} {result : α} (hvalue : value = .ok result)
    (h : post result) : Builds post (liftM value : BuildM α) := by
  subst hvalue
  exact h

theorem allocate {host : Host} {site : Site} {count : ℕ} :
    Builds (fun _ ↦ True) (host.allocate site count) := by
  unfold Host.allocate
  split
  · exact ok trivial
  · exact refused _

end Builds

/-! ## Machine integers -/

/-! ## Validation -/

namespace PoolBuilder

variable (builder : PoolBuilder)

/-- The frames that guards and misses can hold at once. -/
def demand : ℕ :=
  builder.maxConcurrentReaders.toNat * builder.peakGuardsPerReader.toNat +
    builder.missHeadroom.toNat

/-- What `validate` asks for. -/
structure Accepted : Prop where
  queue_lt : builder.maxInflightReads.toNat + builder.maxInflightProductOps.toNat < 2 ^ 32
  granule_eq : isPowerOfTwo 32 builder.granule.toNat = true
  sector_le : sectorBytes ≤ builder.granule.toNat
  retained_le : builder.maxRetainedFrames.toNat ≤ 2 ^ 31
  headroom_le : builder.maxInflightReads.toNat * 3 ≤ builder.missHeadroom.toNat
  watermark_le : max builder.demand 1 + builder.maxRetainedFrames.toNat ≤ builder.frameCount.toNat

end PoolBuilder

/-! ## Arenas -/

namespace Host

variable (host : Host)

/-! ## The driver -/

/-! ## The tables of the pool -/

end Host

/-! ## The whole build -/

namespace PoolBuilder

variable {host : Host} {builder : PoolBuilder}

end PoolBuilder

/-- A host that grants everything. -/
def generous (backend : Backend) : Host where
  backend := backend
  allocates _ _ := true
  lockArenas := .ok ()
  ring := .ok ()
  platformWake := .ok ()
  registerFiles := .ok ()
  registerArenas := .ok ()
  memlockLimitBytes := 0

/-- One reader and one read in flight. -/
def smallBuilder : PoolBuilder where
  frameCount := 16
  maxConcurrentReaders := 1
  peakGuardsPerReader := 1
  maxInflightReads := 1
  missHeadroom := 3

/-! ## Configurations without room -/

/-- More than `2 ^ 30` frames. -/
def wideBuilder : PoolBuilder where
  frameCount := 1073741825

/-- `2 ^ 31` product operations. -/
def deepBuilder : PoolBuilder where
  frameCount := 1
  maxInflightProductOps := 2147483648

end DiosPool.Pool
