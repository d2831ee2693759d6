import DiosPool.Driver.Invariant
import DiosPool.Pool.Calls

/-!
# What is where

The frames in flight are held by operations in the slab of the driver and by completions on their
way to the pool. While a call runs, it has things in its own hands that an invariant of the pool
has to count: completions that are being routed, a frame between two places, a miss between its page
and its outcome. A custody says what these are.
-/

namespace DiosPool.Pool

open Driver Foundation

/-! ## What operations and completions carry -/

/-- Something that comes with the kind and the frames of an operation, in the slab as well as in a
completion. A read whose frames are in a completion carries nothing. -/
structure Cargo (β : Type) where
  of : OpToken → OpKind → List ℕ → Multiset β
  leased : ∀ token, of token .read [] = 0

namespace Cargo

variable {β : Type} (cargo : Cargo β)

/-- What the operation in a slot carries. -/
def slot (slot : ℕ) (content : SlabSlot) : Multiset β :=
  content.payload.elim 0 fun entry ↦
    cargo.of ⟨slot, content.generation⟩ entry.kind (Shared.framesOf entry.frame)

def completion (completion : Completion) : Multiset β :=
  cargo.of completion.token completion.kind (Shared.framesOf completion.frame)

/-- What a slab and completions carry together. -/
def total (capacity : ℕ) (slots : ℕ → SlabSlot) (completions : List Completion) : Multiset β :=
  ∑ index ∈ Finset.range capacity, cargo.slot index (slots index) +
    (completions.map cargo.completion).sum

end Cargo

/-- The frames of reads, each with the operation it belongs to. -/
def frameCargo : Cargo (OpToken × ℕ) where
  of token _ frames := Multiset.ofList (frames.map fun frame ↦ (token, frame))
  leased _ := rfl

/-- The operations that are no reads. -/
def productCargo : Cargo OpToken where
  of token kind _ := if kind = .read then 0 else {token}
  leased _ := rfl

/-- The completions on their way to the pool. -/
def queued (pool : Pool) : List Completion := pool.locked.batch ++ pool.unlocked.waitBatch

/-- The frames that the driver and completions hold. -/
def holders (C : Config) (pool : Pool) : Multiset (OpToken × ℕ) :=
  frameCargo.total C.queueCapacity pool.unlocked.driver.slots (queued pool)

/-! ## Custody -/

/-- A miss whose page is published while the miss is still pending. -/
structure Settling where
  index : ℕ
  token : OpToken
  frame : ℕ

/-- What the running call has in its hands, and what it has found out and relies on. -/
structure Custody where
  /-- Frames that are claimed for no read. -/
  loose : Multiset ℕ
  /-- Frames of submitted reads that have no miss yet. -/
  orphans : Multiset (OpToken × ℕ)
  /-- Frames of pending misses that were taken out of a completion. -/
  owed : Multiset (OpToken × ℕ)
  /-- How many bytes of a frame are read. -/
  filled : List (ℕ × ℕ)
  /-- The bundle of a vector read that keeps its slot in the driver. -/
  bundle : Option (OpToken × ReadVector)
  /-- A bundle of a completion that is not routed yet, and how many bytes the completion brought. -/
  span : Option (OpToken × ReadVector × ℕ)
  /-- A submitted bundle that has no route, its length and how much of it is read. -/
  unrouted : Option (OpToken × ℕ × ℕ)
  settling : Option Settling
  /-- A resident frame that the table does not map. -/
  unmapped : Option ℕ
  /-- An evicting frame that has left the queue, and whether no handle holds it any more. -/
  evicting : Option (ℕ × Bool)
  /-- Pending misses that have no credit, not yet or no longer. -/
  credits : ℕ
  /-- Reads that may still be admitted. -/
  room : ℕ
  /-- Pages that are neither mapped nor pending. -/
  absent : Finset PageId
  /-- Leases of completions. -/
  leases : Multiset OpToken
  /-- Product operations whose completion is being routed. -/
  finished : Multiset OpToken
  /-- The batch may hold completions. -/
  routing : Bool
  /-- The driver has no deferred completion. -/
  flushed : Bool
  /-- Tokens that callers do not have yet, or have given to the call. -/
  tokens : Multiset PendingToken
  /-- Units of the retention budget whose frame is free already. -/
  budget : ℕ
  /-- How many readers an epoch scan has passed. -/
  passed : ℕ
  /-- No handle holds a matured frame. -/
  quiet : Bool
  /-- The reader whose thread makes the call, and rests. -/
  caller : Option ℕ
  /-- The reader whose thread makes the call, while it pins a frame. -/
  pinning : Option ℕ
  /-- Files that are live as long as the call goes on. -/
  live : Finset FileId
  /-- Files that are retiring and have nothing left. -/
  drained : Finset FileId
  /-- The handle of a drained file, about to be closed. -/
  closing : Option FileHandle
  /-- A held fsync may have no earlier write in flight. -/
  due : Bool

/-- Nothing is in the hands of a call. -/
def Custody.empty : Custody where
  loose := 0
  orphans := 0
  owed := 0
  filled := []
  bundle := none
  span := none
  unrouted := none
  settling := none
  unmapped := none
  evicting := none
  credits := 0
  room := 0
  absent := ∅
  leases := 0
  finished := 0
  routing := false
  flushed := false
  tokens := 0
  budget := 0
  passed := 0
  quiet := false
  caller := none
  pinning := none
  live := ∅
  drained := ∅
  closing := none
  due := false

/-! ## Changes of the cargo -/

namespace Cargo

variable {β : Type} (cargo : Cargo β) {capacity : ℕ} {shared after : Shared}
  {completions : List Completion} {token : OpToken} {entry : OpEntry}

theorem total_cons (slots : ℕ → SlabSlot) (completion : Completion) :
    cargo.total capacity slots (completion :: completions) =
      cargo.completion completion + cargo.total capacity slots completions := by
  simp only [total, List.map_cons, List.sum_cons]
  abel

theorem total_perm (slots : ℕ → SlabSlot) {completions' : List Completion}
    (h : completions.Perm completions') :
    cargo.total capacity slots completions = cargo.total capacity slots completions' := by
  rw [total, total, (h.map cargo.completion).sum_eq]

/-- The content of a slot changes. -/
theorem total_update {index : ℕ} (hindex : index < capacity) (slots : ℕ → SlabSlot)
    (content : SlabSlot) (completions : List Completion) :
    cargo.total capacity (Function.update slots index content) completions +
        cargo.slot index (slots index) =
      cargo.total capacity slots completions + cargo.slot index content := by
  have hsum := sum_range_update_add hindex cargo.slot slots content
  rw [total, total, add_right_comm, hsum]
  abel

theorem slot_holds (hholds : shared.Holds token entry) :
    cargo.slot token.slot (shared.slots token.slot) =
      cargo.of token entry.kind (Shared.framesOf entry.frame) := by
  rw [hholds]
  rfl

/-- An operation changes in its slot. -/
theorem total_replaced (hlt : token.slot < capacity) (hholds : shared.Holds token entry)
    (next : OpEntry) (completions : List Completion) :
    cargo.total capacity (shared.replaced token next).slots completions +
        cargo.of token entry.kind (Shared.framesOf entry.frame) =
      cargo.total capacity shared.slots completions +
        cargo.of token next.kind (Shared.framesOf next.frame) := by
  rw [← cargo.slot_holds hholds]
  exact cargo.total_update hlt shared.slots ⟨token.generation, some next⟩ completions

/-- An operation leaves its slot. -/
theorem total_vacated (hlt : token.slot < capacity) (hholds : shared.Holds token entry)
    (completions : List Completion) :
    cargo.total capacity (shared.vacated token entry).slots completions +
        cargo.of token entry.kind (Shared.framesOf entry.frame) =
      cargo.total capacity shared.slots completions := by
  rw [← cargo.slot_holds hholds]
  exact (cargo.total_update hlt shared.slots ⟨token.generation, none⟩ completions).trans (add_zero _)

/-- An operation changes, but neither its kind nor its frames. -/
theorem total_same (hlt : token.slot < capacity) (hholds : shared.Holds token entry)
    (next : OpEntry) (hkind : next.kind = entry.kind)
    (hframe : Shared.framesOf next.frame = Shared.framesOf entry.frame)
    (completions : List Completion) :
    cargo.total capacity (shared.replaced token next).slots completions =
      cargo.total capacity shared.slots completions := by
  have htotal := cargo.total_replaced hlt hholds next completions
  rw [hkind, hframe] at htotal
  exact add_right_cancel htotal

end Cargo

end DiosPool.Pool
