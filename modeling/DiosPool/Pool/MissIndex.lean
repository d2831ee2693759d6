import DiosPool.Pool.Invariant.MissTable

/-!
# The indexes of the miss table

The index of the pending entries is an array, whose front is the live part. A removal moves the last
record to the freed place, and the entry of that record learns its new place. The table with the list
of pending entries stands for the table with this array.
-/

namespace DiosPool.Pool

open Driver

/-- `MissTable` with its index as the array it is. -/
structure DenseMissTable where
  slots : FileSlots MissEntry
  successFrames : ℕ → Option (ℕ × ℕ)
  pending : ℕ → Option PendingMiss
  pendingLen : ℕ
  pendingCapacity : ℕ

namespace DenseMissTable

def new (capacity pendingCapacity : ℕ) : DenseMissTable :=
  ⟨.new capacity, fun _ ↦ none, fun _ ↦ none, 0, pendingCapacity⟩

def pendingPosition (table : DenseMissTable) (slot : ℕ) : Except Assertion ℕ := do
  let entry ← expect (table.slots.get slot) "an occupied miss slot"
  ensure (entry.pendingPosition < table.pendingCapacity) "index out of bounds"
  let indexed ← expect (table.pending entry.pendingPosition) "indexed pending miss"
  ensure (indexed.slot = slot) "the pending position names its slot"
  return entry.pendingPosition

def pendingPush (table : DenseMissTable) (pending : PendingMiss) : Except Panic DenseMissTable :=
  if table.pendingLen < table.pendingCapacity then do
    ensure (table.pending table.pendingLen).isNone "the pending tail is free"
    return { table with
      pending := Function.update table.pending table.pendingLen (some pending)
      pendingLen := table.pendingLen + 1 }
  else
    .error .pendingIndex

/-- The last record moves to the freed place, unless that was its own. -/
def pendingMove (table : DenseMissTable) (index last : ℕ) (moved : Option PendingMiss) :
    Except Assertion DenseMissTable :=
  if index < last then do
    let record ← expect moved "the pending prefix is occupied"
    ensure (table.slots.get record.slot).isSome "moved pending miss"
    return { table with
      pending := Function.update table.pending index moved
      slots := table.slots.modifyValue record.slot fun entry ↦
        { entry with pendingPosition := index } }
  else
    return table

def pendingRemove (table : DenseMissTable) (slot : ℕ) : Except Assertion DenseMissTable := do
  let index ← table.pendingPosition slot
  let last ← subtract table.pendingLen 1
  ensure (last < table.pendingCapacity) "index out of bounds"
  let moved := table.pending last
  let table ← pendingMove { table with pending := Function.update table.pending last none } index
    last moved
  ensure (table.pending last).isNone "removal frees the pending tail"
  return { table with pendingLen := last }

/-- The table without its index, for the operations that do not touch it. -/
def unindexed (table : DenseMissTable) : MissTable :=
  ⟨table.slots, table.successFrames, [], table.pendingCapacity⟩

def cleanTerminalZero (table : DenseMissTable) (interests : MissInterests) (slot generation : ℕ) :
    Except Assertion DenseMissTable := do
  let miss ← table.unindexed.cleanTerminalZero interests slot generation
  return { table with slots := miss.slots, successFrames := miss.successFrames }

def prepareEviction (table : DenseMissTable) (interests : MissInterests) (frame : ℕ) :
    Except Assertion (Bool × DenseMissTable) := do
  let prepared ← table.unindexed.prepareEviction interests frame
  return (prepared.1,
    { table with slots := prepared.2.slots, successFrames := prepared.2.successFrames })

/-- An admission cleans the slot first. -/
def vacate (table : DenseMissTable) (interests : MissInterests) (slot : ℕ) :
    Except Assertion DenseMissTable :=
  match table.slots.get slot with
  | some previous => table.cleanTerminalZero interests slot previous.generation
  | none => return table

def admitInitial (table : DenseMissTable) (interests : MissInterests) (slot : ℕ) (page : PageId)
    (frame : ℕ) (token : OpToken) (initial : ℕ) :
    Except Panic (DenseMissTable × MissInterests) := do
  let table ← table.vacate interests slot
  ensure (table.slots.get slot).isNone "admission reuses only an empty or cleaned terminal slot"
  let begun ← interests.beginInitial slot initial
  let entry : MissEntry := ⟨page, frame, token, begun.1, 0, table.pendingLen, .pending⟩
  let slots ← table.slots.insert slot entry
  let table ← pendingPush { table with slots } ⟨page, token, slot⟩
  return (table, begun.2)

def join (table : DenseMissTable) (interests : MissInterests) (index : ℕ) :
    Except Assertion MissInterests := do
  let joined ← table.unindexed.join interests index
  return joined.2

def advanceRemainder (table : DenseMissTable) (index filled : ℕ) (token : OpToken) :
    Except Assertion DenseMissTable := do
  let entry ← expect (table.slots.get index) "an occupied miss slot"
  ensure (entry.outcome = .pending) "only pending misses reslice"
  let table := { table with
    slots := table.slots.modifyValue index fun entry ↦ { entry with filled, token } }
  let position ← table.pendingPosition index
  let pending ← expect (table.pending position) "a pending position names an indexed miss"
  return { table with pending := Function.update table.pending position (some { pending with token }) }

def settle (table : DenseMissTable) (index : ℕ) (outcome : MissOutcome) :
    Except Assertion DenseMissTable :=
  pendingRemove
    { table with slots := table.slots.modifyValue index fun entry ↦ { entry with outcome } } index

def fail (table : DenseMissTable) (index errno : ℕ) : Except Assertion DenseMissTable := do
  let entry ← expect (table.slots.get index) "an occupied miss slot"
  ensure (errno ≠ 0) "a terminal miss failure carries a real errno"
  ensure (entry.outcome = .pending) "a miss fails once"
  table.settle index (.failed errno)

def succeed (table : DenseMissTable) (index : ℕ) : Except Assertion DenseMissTable := do
  let entry ← expect (table.slots.get index) "an occupied miss slot"
  ensure (entry.outcome = .pending) "a miss succeeds once"
  let table ← table.settle index .succeeded
  ensure (table.successFrames entry.frame).isNone
    "one successful terminal generation protects a frame"
  return { table with
    successFrames :=
      Function.update table.successFrames entry.frame (some (index, entry.generation)) }

end DenseMissTable

/-- What is done to a miss table and its interests. A dropped token releases its interest. -/
inductive MissCall
  | admitMiss (slot : ℕ) (page : PageId) (frame : ℕ) (token : OpToken)
  | admitSpeculative (slot : ℕ) (page : PageId) (frame : ℕ) (token : OpToken)
  | join (index : ℕ)
  | release (slot generation : ℕ)
  | advanceRemainder (index filled : ℕ) (token : OpToken)
  | fail (index errno : ℕ)
  | succeed (index : ℕ)
  | cleanTerminalZero (slot generation : ℕ)
  | prepareEviction (frame : ℕ)
  deriving DecidableEq, Repr

namespace DenseMissTable

/-- A table changes and the interests stay. -/
def keeping (interests : MissInterests) (table : Except Assertion DenseMissTable) :
    Except Panic (DenseMissTable × MissInterests) := do
  return (← table, interests)

def call (state : DenseMissTable × MissInterests) :
    MissCall → Except Panic (DenseMissTable × MissInterests)
  | .admitMiss slot page frame token => state.1.admitInitial state.2 slot page frame token 1
  | .admitSpeculative slot page frame token => state.1.admitInitial state.2 slot page frame token 0
  | .join index => do return (state.1, ← state.1.join state.2 index)
  | .release slot generation => do return (state.1, ← state.2.release slot generation)
  | .advanceRemainder index filled token =>
    keeping state.2 (state.1.advanceRemainder index filled token)
  | .fail index errno => keeping state.2 (state.1.fail index errno)
  | .succeed index => keeping state.2 (state.1.succeed index)
  | .cleanTerminalZero slot generation =>
    keeping state.2 (state.1.cleanTerminalZero state.2 slot generation)
  | .prepareEviction frame =>
    keeping state.2 (Prod.snd <$> state.1.prepareEviction state.2 frame)

end DenseMissTable

/-! ## The list of pending entries stands for the array -/

/-- The operations that do not touch the index do the same with any list of pending entries. -/
theorem MissTable.cleanTerminalZero_pending (miss : MissTable) (interests : MissInterests)
    (slot generation : ℕ) (pending : List PendingMiss) :
    cleanTerminalZero { miss with pending } interests slot generation = do
      let cleaned ← miss.cleanTerminalZero interests slot generation
      return { cleaned with pending } := by
  unfold cleanTerminalZero
  dsimp only
  cases hget : miss.slots.get slot with
  | none => rfl
  | some entry =>
    dsimp only
    split
    · split
      · simp only [bind_assoc, pure_bind]
      · simp only [bind_assoc, pure_bind]
    · rfl

theorem MissTable.prepareEviction_pending (miss : MissTable) (interests : MissInterests)
    (frame : ℕ) (pending : List PendingMiss) :
    prepareEviction { miss with pending } interests frame = do
      let prepared ← miss.prepareEviction interests frame
      return (prepared.1, { prepared.2 with pending }) := by
  unfold prepareEviction
  dsimp only
  cases hmark : miss.successFrames frame with
  | none => rfl
  | some mark =>
    dsimp only
    split
    · rfl
    · simp only [cleanTerminalZero_pending, bind_assoc, pure_bind]

namespace DenseMissTable

variable {table after : DenseMissTable} {miss : MissTable} {interests : MissInterests}

/-- The front of the array is the list. -/
structure Stands (table : DenseMissTable) (miss : MissTable) : Prop where
  slots : table.slots = miss.slots
  success : table.successFrames = miss.successFrames
  capacity : table.pendingCapacity = miss.pendingCapacity
  length : table.pendingLen = miss.pending.length
  pending : ∀ place, table.pending place = miss.pending[place]?

theorem new_stands (capacity pendingCapacity : ℕ) :
    (new capacity pendingCapacity).Stands (.new capacity pendingCapacity) :=
  ⟨rfl, rfl, rfl, rfl, fun _ ↦ rfl⟩

namespace Stands

theorem unindexed (h : table.Stands miss) : table.unindexed = { miss with pending := [] } := by
  rw [DenseMissTable.unindexed, h.slots, h.success, h.capacity]

theorem cleanTerminalZero (h : table.Stands miss) {slot generation : ℕ}
    (hclean : table.cleanTerminalZero interests slot generation = .ok after) :
    ∃ miss', miss.cleanTerminalZero interests slot generation = .ok miss' ∧ after.Stands miss' := by
  unfold DenseMissTable.cleanTerminalZero at hclean
  rw [h.unindexed, MissTable.cleanTerminalZero_pending] at hclean
  simp only [bind_assoc, bind_eq_ok, pure_ok, Except.ok.injEq] at hclean
  obtain ⟨miss', hmiss, _, rfl, rfl⟩ := hclean
  have hkept : miss'.pending = miss.pending ∧ miss'.pendingCapacity = miss.pendingCapacity := by
    rcases MissTable.cleanTerminalZero_eq_ok hmiss with rfl | ⟨entry, -, hcleaned⟩
    · exact ⟨rfl, rfl⟩
    · exact ⟨hcleaned.pending, hcleaned.capacity⟩
  exact ⟨miss', hmiss, rfl, rfl, h.capacity.trans hkept.2.symm, by rw [hkept.1]; exact h.length,
    by rw [hkept.1]; exact h.pending⟩

theorem pendingPosition (h : table.Stands miss) {slot position : ℕ}
    (hposition : table.pendingPosition slot = .ok position) :
    miss.pendingPosition slot = .ok position := by
  simp only [DenseMissTable.pendingPosition, bind_eq_ok, expect_eq_ok, ensure_eq_ok, pure_ok,
    Except.ok.injEq, h.slots, h.pending] at hposition
  obtain ⟨entry, hentry, _, -, indexed, hindexed, _, hslot, rfl⟩ := hposition
  simp only [MissTable.pendingPosition, MissTable.entry, hentry, expect_some, ok_bind, hindexed,
    ensure_true hslot, pure_ok]

theorem pendingPush (h : table.Stands miss) {pending : PendingMiss}
    (hpush : table.pendingPush pending = .ok after) :
    ∃ miss', miss.pendingPush pending = .ok miss' ∧ after.Stands miss' := by
  unfold DenseMissTable.pendingPush at hpush
  split at hpush
  · rename_i hroom
    simp only [bind_eq_ok, pure_ok, Except.ok.injEq] at hpush
    obtain ⟨_, -, rfl⟩ := hpush
    rw [h.length, h.capacity] at hroom
    refine ⟨_, if_pos hroom, h.slots, h.success, h.capacity, ?_, fun place ↦ ?_⟩
    · simp [h.length]
    · dsimp only
      rw [Function.update_apply, h.length, h.pending, List.getElem?_append]
      grind
  · cases hpush

theorem pendingRemove (h : table.Stands miss) {slot : ℕ}
    (hremove : table.pendingRemove slot = .ok after) :
    ∃ miss', miss.pendingRemove slot = .ok miss' ∧ after.Stands miss' := by
  simp only [DenseMissTable.pendingRemove, bind_eq_ok, subtract_eq_ok, ensure_eq_ok, pure_ok,
    Except.ok.injEq] at hremove
  obtain ⟨index, hindex, last, ⟨hpos, hlast⟩, _, -, moved, hmoved, _, -, rfl⟩ := hremove
  have hposition := h.pendingPosition hindex
  rw [h.length] at hpos hlast
  simp only [MissTable.pendingRemove, hposition, ok_bind]
  rw [← hlast]
  unfold pendingMove at hmoved
  split at hmoved
  · rename_i hlt
    simp only [bind_eq_ok, expect_eq_ok, ensure_eq_ok, pure_ok, Except.ok.injEq,
      h.pending] at hmoved
    obtain ⟨record, hrecord, _, -, rfl⟩ := hmoved
    refine ⟨_, by rw [if_pos hlt, hrecord]; rfl, ?_⟩
    refine ⟨by rw [h.slots], h.success, h.capacity, ?_, fun place ↦ ?_⟩
    · simp [hlast]
    · dsimp only
      rw [MissTable.getElem?_swapRemove, Function.update_apply, Function.update_apply, h.pending]
      grind
  · rename_i hge
    cases hmoved
    refine ⟨_, if_neg hge, h.slots, h.success, h.capacity, ?_, fun place ↦ ?_⟩
    · simp [hlast]
    · dsimp only
      rw [Function.update_apply, h.pending, List.getElem?_dropLast]
      grind

end Stands

end DenseMissTable

/-- An eviction is prepared if nothing protects the frame any more. -/
theorem MissTable.prepareEviction_eq_ok {miss after : MissTable} {interests : MissInterests}
    {frame : ℕ} {evicts : Bool} (h : miss.prepareEviction interests frame = .ok (evicts, after)) :
    after = miss ∨ ∃ slot entry, miss.Cleaned interests slot entry after := by
  unfold prepareEviction at h
  cases hmark : miss.successFrames frame with
  | none =>
    rw [hmark] at h
    cases h
    exact .inl rfl
  | some mark =>
    rw [hmark] at h
    dsimp only at h
    split at h
    · cases h
      exact .inl rfl
    · simp only [bind_eq_ok, pure_ok, Except.ok.injEq, Prod.mk.injEq] at h
      obtain ⟨cleaned, hclean, _, -, -, rfl⟩ := h
      rcases cleanTerminalZero_eq_ok hclean with rfl | ⟨entry, -, hcleaned⟩
      · exact .inl rfl
      · exact .inr ⟨mark.1, entry, hcleaned⟩

theorem MissTable.WellFormed.cleaned {miss after : MissTable} {interests : MissInterests}
    (hwf : miss.WellFormed) {slot generation : ℕ}
    (h : miss.cleanTerminalZero interests slot generation = .ok after) :
    after.WellFormed := by
  rcases MissTable.cleanTerminalZero_eq_ok h with rfl | ⟨entry, -, hcleaned⟩
  · exact hwf
  · exact hcleaned.wellFormed hwf

theorem MissTable.WellFormed.prepared {miss after : MissTable} {interests : MissInterests}
    (hwf : miss.WellFormed) {frame : ℕ} {evicts : Bool}
    (h : miss.prepareEviction interests frame = .ok (evicts, after)) :
    after.WellFormed := by
  rcases MissTable.prepareEviction_eq_ok h with rfl | ⟨slot, entry, hcleaned⟩
  · exact hwf
  · exact hcleaned.wellFormed hwf

namespace DenseMissTable

variable {table after : DenseMissTable} {miss : MissTable} {interests interests' : MissInterests}

namespace Stands

theorem prepareEviction (h : table.Stands miss) {frame : ℕ} {evicts : Bool}
    (hprepare : table.prepareEviction interests frame = .ok (evicts, after)) :
    ∃ miss', miss.prepareEviction interests frame = .ok (evicts, miss') ∧ after.Stands miss' := by
  unfold DenseMissTable.prepareEviction at hprepare
  rw [h.unindexed, MissTable.prepareEviction_pending] at hprepare
  simp only [bind_assoc, bind_eq_ok, pure_ok, Except.ok.injEq, Prod.mk.injEq] at hprepare
  obtain ⟨prepared, hmiss, _, rfl, rfl, rfl⟩ := hprepare
  have hkept : prepared.2.pending = miss.pending ∧
      prepared.2.pendingCapacity = miss.pendingCapacity := by
    rcases MissTable.prepareEviction_eq_ok hmiss with hsame | ⟨slot, entry, hcleaned⟩
    · rw [hsame]
      exact ⟨rfl, rfl⟩
    · exact ⟨hcleaned.pending, hcleaned.capacity⟩
  exact ⟨prepared.2, hmiss, rfl, rfl, h.capacity.trans hkept.2.symm, by rw [hkept.1]; exact h.length,
    by rw [hkept.1]; exact h.pending⟩

theorem vacate (h : table.Stands miss) {slot : ℕ}
    (hvacate : table.vacate interests slot = .ok after) :
    ∃ miss', (Option.elim (miss.slots.get slot) (.ok miss) fun previous ↦
      miss.cleanTerminalZero interests slot previous.generation) = .ok miss' ∧
      after.Stands miss' := by
  unfold DenseMissTable.vacate at hvacate
  rw [h.slots] at hvacate
  cases hget : miss.slots.get slot with
  | none =>
    rw [hget] at hvacate
    cases hvacate
    exact ⟨miss, rfl, h⟩
  | some previous =>
    rw [hget] at hvacate
    exact h.cleanTerminalZero hvacate

theorem admitInitial (h : table.Stands miss) {slot frame initial : ℕ} {page : PageId}
    {token : OpToken}
    (hadmission : table.admitInitial interests slot page frame token initial =
      .ok (after, interests')) :
    ∃ generation miss', miss.admitInitial interests slot page frame token initial =
      .ok (generation, miss', interests') ∧ after.Stands miss' := by
  simp only [DenseMissTable.admitInitial, bind_eq_ok, liftM_eq_ok, ensure_eq_ok, pure_ok,
    Except.ok.injEq, Prod.mk.injEq] at hadmission
  obtain ⟨vacated, hvacated, _, hnone, begun, hbegun, slots, hslots, pushed, hpushed, rfl, rfl⟩ :=
    hadmission
  obtain ⟨miss', hmiss', hstands⟩ := h.vacate hvacated
  rw [hstands.slots] at hnone hslots
  rw [hstands.length] at hslots
  have hfilled : Stands { vacated with slots } { miss' with slots } :=
    ⟨rfl, hstands.success, hstands.capacity, hstands.length, hstands.pending⟩
  obtain ⟨result, hresult, hafter⟩ := hfilled.pendingPush hpushed
  refine ⟨begun.1, result, ?_, hafter⟩
  unfold MissTable.admitInitial
  cases hget : miss.slots.get slot with
  | none =>
    rw [hget] at hmiss'
    cases hmiss'
    simp only [bind_eq_ok, liftM_eq_ok, pure_ok, Except.ok.injEq]
    exact ⟨miss, rfl, (), ensure_true hnone _, begun, hbegun, slots, hslots, result, hresult, rfl⟩
  | some previous =>
    rw [hget] at hmiss'
    simp only [bind_eq_ok, liftM_eq_ok, pure_ok, Except.ok.injEq]
    exact ⟨miss', hmiss', (), ensure_true hnone _, begun, hbegun, slots, hslots, result, hresult, rfl⟩

theorem advanceRemainder (h : table.Stands miss) {index filled : ℕ} {token : OpToken}
    (hadvance : table.advanceRemainder index filled token = .ok after) :
    ∃ miss', miss.advanceRemainder index filled token = .ok miss' ∧ after.Stands miss' := by
  simp only [DenseMissTable.advanceRemainder, bind_eq_ok, expect_eq_ok, ensure_eq_ok, pure_ok,
    Except.ok.injEq] at hadvance
  obtain ⟨entry, hget, _, hpending, position, hposition, record, hrecord, rfl⟩ := hadvance
  rw [h.slots] at hget
  rw [h.pending] at hrecord
  -- The new read leaves the place of the entry.
  have hsame : table.pendingPosition index = .ok position := by
    simp only [DenseMissTable.pendingPosition, h.slots, FileSlots.get_modifyValue, if_pos, hget,
      Option.map_some, expect_some, ok_bind] at hposition ⊢
    exact hposition
  refine ⟨_, by
    simp only [MissTable.advanceRemainder, MissTable.entry, hget, expect_some, ok_bind,
      ensure_true hpending, h.pendingPosition hsame, pure_ok]
    rfl, ?_⟩
  refine ⟨by rw [h.slots], h.success, h.capacity, ?_, fun place ↦ ?_⟩
  · simp [h.length]
  · dsimp only
    rw [Function.update_apply, h.pending, List.getElem?_modify]
    grind

theorem settle (h : table.Stands miss) {index : ℕ} {outcome : MissOutcome}
    (hsettle : table.settle index outcome = .ok after) :
    ∃ miss', miss.settle index outcome = .ok miss' ∧ after.Stands miss' := by
  have hchanged : Stands
      { table with slots := table.slots.modifyValue index fun entry ↦ { entry with outcome } }
      { miss with slots := miss.slots.modifyValue index fun entry ↦ { entry with outcome } } :=
    ⟨by rw [h.slots], h.success, h.capacity, h.length, h.pending⟩
  exact hchanged.pendingRemove hsettle

theorem fail (h : table.Stands miss) {index errno : ℕ}
    (hfail : table.fail index errno = .ok after) :
    ∃ miss', miss.fail index errno = .ok miss' ∧ after.Stands miss' := by
  simp only [DenseMissTable.fail, bind_eq_ok, expect_eq_ok, ensure_eq_ok, h.slots] at hfail
  obtain ⟨entry, hget, _, herrno, _, hpending, hsettle⟩ := hfail
  obtain ⟨miss', hmiss', hafter⟩ := h.settle hsettle
  refine ⟨miss', ?_, hafter⟩
  simp only [MissTable.fail, MissTable.entry, hget, expect_some, ok_bind, ensure_true herrno,
    ensure_true hpending, hmiss']

theorem succeed (h : table.Stands miss) {index : ℕ}
    (hsucceed : table.succeed index = .ok after) :
    ∃ miss', miss.succeed index = .ok miss' ∧ after.Stands miss' := by
  simp only [DenseMissTable.succeed, bind_eq_ok, expect_eq_ok, ensure_eq_ok, pure_ok,
    Except.ok.injEq, h.slots] at hsucceed
  obtain ⟨entry, hget, _, hpending, settled, hsettle, _, hfree, rfl⟩ := hsucceed
  obtain ⟨miss', hmiss', hsettled⟩ := h.settle hsettle
  rw [hsettled.success] at hfree
  refine ⟨_, by
    simp only [MissTable.succeed, MissTable.entry, hget, expect_some, ok_bind, ensure_true hpending,
      hmiss', ensure_true hfree, pure_ok]
    rfl, ?_⟩
  exact ⟨hsettled.slots, by rw [hsettled.success], hsettled.capacity, hsettled.length,
    hsettled.pending⟩

end Stands

/-- The array stands for the index of a consistent table. -/
def Sound (table : DenseMissTable) : Prop := ∃ miss, table.Stands miss ∧ miss.WellFormed

theorem new_sound (capacity pendingCapacity : ℕ) : (new capacity pendingCapacity).Sound :=
  ⟨_, new_stands capacity pendingCapacity, .new capacity pendingCapacity⟩

theorem keeping_eq_ok {changed : Except Assertion DenseMissTable}
    (h : keeping interests changed = .ok (after, interests')) : changed = .ok after := by
  simp only [keeping, bind_eq_ok, liftM_eq_ok, pure_ok, Except.ok.injEq, Prod.mk.injEq] at h
  obtain ⟨_, hchanged, rfl, -⟩ := h
  exact hchanged

theorem Sound.call (h : table.Sound) {request : MissCall}
    (hcall : DenseMissTable.call (table, interests) request = .ok (after, interests')) :
    after.Sound := by
  obtain ⟨miss, hstands, hwf⟩ := h
  cases request with
  | admitMiss slot page frame token =>
    obtain ⟨generation, miss', hmiss', hafter⟩ := hstands.admitInitial hcall
    exact ⟨miss', hafter, (MissTable.admitInitial_eq_ok hwf hmiss').1⟩
  | admitSpeculative slot page frame token =>
    obtain ⟨generation, miss', hmiss', hafter⟩ := hstands.admitInitial hcall
    exact ⟨miss', hafter, (MissTable.admitInitial_eq_ok hwf hmiss').1⟩
  | join index =>
    simp only [DenseMissTable.call, bind_eq_ok, pure_ok, Except.ok.injEq, Prod.mk.injEq] at hcall
    obtain ⟨_, -, rfl, -⟩ := hcall
    exact ⟨miss, hstands, hwf⟩
  | release slot generation =>
    simp only [DenseMissTable.call, bind_eq_ok, pure_ok, Except.ok.injEq, Prod.mk.injEq] at hcall
    obtain ⟨_, -, rfl, -⟩ := hcall
    exact ⟨miss, hstands, hwf⟩
  | advanceRemainder index filled token =>
    obtain ⟨miss', hmiss', hafter⟩ := hstands.advanceRemainder (keeping_eq_ok hcall)
    exact ⟨miss', hafter, (MissTable.advanceRemainder_eq_ok hwf hmiss').1⟩
  | fail index errno =>
    obtain ⟨miss', hmiss', hafter⟩ := hstands.fail (keeping_eq_ok hcall)
    exact ⟨miss', hafter, (MissTable.fail_eq_ok hwf hmiss').1⟩
  | succeed index =>
    obtain ⟨miss', hmiss', hafter⟩ := hstands.succeed (keeping_eq_ok hcall)
    exact ⟨miss', hafter, (MissTable.succeed_eq_ok hwf hmiss').1⟩
  | cleanTerminalZero slot generation =>
    obtain ⟨miss', hmiss', hafter⟩ := hstands.cleanTerminalZero (keeping_eq_ok hcall)
    exact ⟨miss', hafter, MissTable.WellFormed.cleaned hwf hmiss'⟩
  | prepareEviction frame =>
    have hprepared := keeping_eq_ok hcall
    cases hresult : table.prepareEviction interests frame with
    | error error =>
      rw [hresult] at hprepared
      cases hprepared
    | ok prepared =>
      rw [hresult] at hprepared
      cases hprepared
      obtain ⟨miss', hmiss', hafter⟩ := hstands.prepareEviction hresult
      exact ⟨miss', hafter, MissTable.WellFormed.prepared hwf hmiss'⟩

theorem Sound.run (h : table.Sound) {calls : List MissCall}
    (hrun : calls.foldlM DenseMissTable.call (table, interests) = .ok (after, interests')) :
    after.Sound := by
  induction calls generalizing table interests with
  | nil =>
    cases hrun
    exact h
  | cons request calls ih =>
    rw [List.foldlM_cons, bind_eq_ok] at hrun
    obtain ⟨middle, hcall, hrest⟩ := hrun
    exact ih (h.call hcall) hrest

/-- The front of the index is occupied and nothing else is. It lists the pending entries with their
pages and tokens, each at the place that the entry knows. A frame is marked with a slot and a
generation if the entry there succeeded with the frame, and two such entries never share one. -/
theorem indexes_exact (capacity pendingCapacity : ℕ) (interests : MissInterests)
    (calls : List MissCall)
    (hrun : calls.foldlM DenseMissTable.call (new capacity pendingCapacity, interests) =
      .ok (after, interests')) :
    (∀ place, (after.pending place).isSome ↔ place < after.pendingLen) ∧
    (∀ place pending, after.pending place = some pending ↔ ∃ entry,
      after.slots.get pending.slot = some entry ∧ entry.outcome = .pending ∧
        entry.page = pending.page ∧ entry.token = pending.token ∧ entry.pendingPosition = place) ∧
    (∀ frame index generation, after.successFrames frame = some (index, generation) ↔ ∃ entry,
      after.slots.get index = some entry ∧ entry.outcome = .succeeded ∧ entry.frame = frame ∧
        entry.generation = generation) ∧
    ∀ index other entry entry', after.slots.get index = some entry →
      after.slots.get other = some entry' → entry.outcome = .succeeded →
      entry'.outcome = .succeeded → entry.frame = entry'.frame → index = other := by
  obtain ⟨miss, hstands, hwf⟩ := (new_sound capacity pendingCapacity).run hrun
  have hsuccess : ∀ frame index generation,
      after.successFrames frame = some (index, generation) ↔ ∃ entry,
        after.slots.get index = some entry ∧ entry.outcome = .succeeded ∧ entry.frame = frame ∧
          entry.generation = generation := by
    intro frame index generation
    rw [hstands.success, hwf.success, hstands.slots]
    constructor
    · rintro ⟨_, hentry, hmark⟩
      obtain ⟨entry, hget, rfl⟩ := MissTable.entryAt_eq_some hentry
      exact ⟨entry, hget, hmark⟩
    · rintro ⟨entry, hget, hmark⟩
      exact ⟨entry.unindexed, MissTable.entryAt_of_get hget, hmark⟩
  refine ⟨fun place ↦ ?_, fun place pending ↦ ?_, hsuccess, ?_⟩
  · rw [hstands.pending, hstands.length]
    simp
  · rw [hstands.pending, hstands.slots]
    constructor
    · intro hplace
      obtain ⟨entry, hget, houtcome, rfl⟩ := hwf.listed place pending hplace
      have hlisted := hwf.pending pending.slot entry hget houtcome
      rw [hplace, Option.some_inj] at hlisted
      exact ⟨entry, hget, houtcome, by rw [hlisted], by rw [hlisted], rfl⟩
    · rintro ⟨entry, hget, houtcome, hpage, htoken, rfl⟩
      rw [hwf.pending pending.slot entry hget houtcome, hpage, htoken]
  · intro index other entry entry' hget hget' houtcome houtcome' hframe
    have hmark := (hsuccess _ _ _).mpr ⟨entry, hget, houtcome, rfl, rfl⟩
    have hmark' := (hsuccess _ _ _).mpr ⟨entry', hget', houtcome', rfl, rfl⟩
    rw [hframe, hmark', Option.some_inj, Prod.mk.injEq] at hmark
    exact hmark.1.symm

/-- The first of two reads succeeds, so that the record of the second one moves. Its waiter leaves, and
the slot is used again. -/
def recycling : List MissCall :=
  [.admitMiss 0 ⟨⟨0, 0, 0⟩, 1⟩ 3 ⟨0, 1⟩, .admitSpeculative 1 ⟨⟨0, 0, 0⟩, 2⟩ 2 ⟨1, 1⟩, .succeed 0,
    .release 0 1, .advanceRemainder 1 512 ⟨2, 1⟩, .prepareEviction 3,
    .admitMiss 0 ⟨⟨0, 0, 0⟩, 5⟩ 3 ⟨0, 2⟩]

theorem recycling_indexes_exact :
    ∃ after interests,
      recycling.foldlM DenseMissTable.call (new 4 2, fun _ ↦ ⟨0, 0⟩) = .ok (after, interests) ∧
      after.pending 0 = some ⟨⟨⟨0, 0, 0⟩, 2⟩, ⟨2, 1⟩, 1⟩ ∧
      ∀ place, (after.pending place).isSome ↔ place < after.pendingLen := by
  obtain ⟨after, interests, hrun, hfirst⟩ : ∃ after interests,
      recycling.foldlM DenseMissTable.call (new 4 2, fun _ ↦ ⟨0, 0⟩) = .ok (after, interests) ∧
        after.pending 0 = some ⟨⟨⟨0, 0, 0⟩, 2⟩, ⟨2, 1⟩, 1⟩ := ⟨_, _, rfl, rfl⟩
  exact ⟨after, interests, hrun, hfirst, (indexes_exact 4 2 _ recycling hrun).1⟩

end DenseMissTable

end DiosPool.Pool
