import DiosPool.Foundation.Counting
import DiosPool.Foundation.Safety
import DiosPool.Pool.Miss

/-!
# The miss table is consistent

The index lists every pending entry once, and an entry knows its place in the index. The frames of
successful entries are marked with the entry. What an operation of the table does to its entries is
written out here without their places in the index, which nothing outside the table looks at.
-/

namespace DiosPool.Pool

open Driver Foundation

/-- An entry without its place in the index. -/
def MissEntry.unindexed (entry : MissEntry) : MissEntry := { entry with pendingPosition := 0 }

/-- The panics that are failed assertions. -/
def IsAssertion (panic : Panic) : Prop := ∃ assertion, panic = .assertion assertion

/-- Code that only fails assertions returns a value in a computation that can fail otherwise. -/
theorem liftM_eq_ok {α : Type} {value : Except Assertion α} {result : α} :
    (liftM value : Except Panic α) = .ok result ↔ value = .ok result := by
  cases value with
  | ok value =>
    constructor <;> intro h <;> cases h <;> rfl
  | error error =>
    constructor <;> intro h <;> cases h

theorem outcome_liftM {α : Type} {value : Except Assertion α} :
    Outcome IsAssertion (fun result ↦ value = .ok result) (liftM value : Except Panic α) := by
  cases value with
  | ok value => exact rfl
  | error error => exact ⟨error, rfl⟩

namespace MissTable

/-- The entry of a slot, without its place in the index. -/
def entryAt (miss : MissTable) (index : ℕ) : Option MissEntry :=
  (miss.slots.get index).map MissEntry.unindexed

/-- The reads of the pending entries with their frames. -/
def pairs (miss : MissTable) : Multiset (OpToken × ℕ) :=
  Multiset.ofList (miss.pending.map fun pending ↦
    (pending.token, (miss.entryAt pending.slot).elim 0 MissEntry.frame))

/-- The index agrees with the entries. -/
structure Indexed (miss : MissTable) : Prop where
  listed : ∀ position pending, miss.pending[position]? = some pending → ∃ entry,
    miss.slots.get pending.slot = some entry ∧ entry.outcome = .pending ∧
      entry.pendingPosition = position
  pending : ∀ index entry, miss.slots.get index = some entry → entry.outcome = .pending →
    miss.pending[entry.pendingPosition]? = some ⟨entry.page, entry.token, index⟩

/-- The index and the success marks agree with the entries. -/
structure WellFormed (miss : MissTable) : Prop extends Indexed miss where
  success : ∀ frame index generation, miss.successFrames frame = some (index, generation) ↔
    ∃ entry, miss.entryAt index = some entry ∧ entry.outcome = .succeeded ∧ entry.frame = frame ∧
      entry.generation = generation

section Facts

variable {miss : MissTable} {index : ℕ} {entry : MissEntry}

theorem WellFormed.new (capacity pendingCapacity : ℕ) :
    (MissTable.new capacity pendingCapacity).WellFormed := by
  refine ⟨⟨?_, ?_⟩, ?_⟩ <;> simp [MissTable.new, entryAt, FileSlots.new, FileSlots.get, FileSlot.get,
    FileSlot.vacant]

theorem entryAt_of_get (h : miss.slots.get index = some entry) :
    miss.entryAt index = some entry.unindexed := by
  rw [entryAt, h, Option.map_some]

theorem entryAt_eq_some (h : miss.entryAt index = some entry) :
    ∃ indexed, miss.slots.get index = some indexed ∧ indexed.unindexed = entry := by
  obtain ⟨indexed, hget, hentry⟩ := Option.map_eq_some_iff.mp h
  exact ⟨indexed, hget, hentry⟩

/-- A pending entry is listed. -/
theorem WellFormed.mem_pending (hwf : miss.WellFormed) (h : miss.entryAt index = some entry)
    (houtcome : entry.outcome = .pending) :
    ⟨entry.page, entry.token, index⟩ ∈ miss.pending := by
  obtain ⟨indexed, hget, rfl⟩ := entryAt_eq_some h
  exact List.mem_of_getElem? (hwf.pending index indexed hget houtcome)

/-- What is listed is a pending entry. -/
theorem WellFormed.of_mem_pending (hwf : miss.WellFormed) {pending : PendingMiss}
    (h : pending ∈ miss.pending) : ∃ entry, miss.entryAt pending.slot = some entry ∧
      entry.outcome = .pending ∧ entry.page = pending.page ∧ entry.token = pending.token := by
  obtain ⟨position, hposition⟩ := List.mem_iff_getElem?.mp h
  obtain ⟨entry, hget, houtcome, hplace⟩ := hwf.listed position pending hposition
  have hlisted := hwf.pending pending.slot entry hget houtcome
  rw [hplace, hposition, Option.some_inj] at hlisted
  refine ⟨entry.unindexed, entryAt_of_get hget, houtcome, ?_, ?_⟩
  · rw [hlisted]
    rfl
  · rw [hlisted]
    rfl

/-- No slot is listed twice. -/
theorem Indexed.position_eq (hwf : miss.Indexed) {first second : ℕ}
    {pending other : PendingMiss} (hfirst : miss.pending[first]? = some pending)
    (hsecond : miss.pending[second]? = some other) (hslot : pending.slot = other.slot) :
    first = second := by
  obtain ⟨entry, hget, -, rfl⟩ := hwf.listed first pending hfirst
  obtain ⟨entry', hget', -, rfl⟩ := hwf.listed second other hsecond
  rw [hslot, hget'] at hget
  cases hget
  rfl

theorem WellFormed.mem_pairs (hwf : miss.WellFormed) {token : OpToken} {frame : ℕ} :
    (token, frame) ∈ miss.pairs ↔ ∃ index entry, miss.entryAt index = some entry ∧
      entry.outcome = .pending ∧ entry.token = token ∧ entry.frame = frame := by
  rw [pairs, Multiset.mem_coe, List.mem_map]
  constructor
  · rintro ⟨pending, hmem, hpair⟩
    obtain ⟨entry, hentry, houtcome, -, htoken⟩ := hwf.of_mem_pending hmem
    rw [hentry] at hpair
    cases hpair
    exact ⟨pending.slot, entry, hentry, houtcome, htoken, rfl⟩
  · rintro ⟨index, entry, hentry, houtcome, rfl, rfl⟩
    refine ⟨_, hwf.mem_pending hentry houtcome, ?_⟩
    rw [hentry]
    rfl

theorem card_pairs (miss : MissTable) : miss.pairs.card = miss.pending.length := by
  rw [pairs, Multiset.coe_card, List.length_map]

/-- The frames of pending entries, as they are listed. -/
theorem pairs_congr {after : MissTable} (hpending : after.pending = miss.pending)
    (hframe : ∀ pending ∈ miss.pending, (after.entryAt pending.slot).elim 0 MissEntry.frame =
      (miss.entryAt pending.slot).elim 0 MissEntry.frame) : after.pairs = miss.pairs := by
  rw [pairs, pairs, hpending]
  congr 1
  refine List.map_congr_left fun pending hmem ↦ ?_
  rw [hframe pending hmem]

theorem WellFormed.findPending_eq_none (hwf : miss.WellFormed) {page : PageId}
    (h : miss.findPending page = none) (hentry : miss.entryAt index = some entry)
    (houtcome : entry.outcome = .pending) : entry.page ≠ page := by
  have hnone := List.find?_eq_none.mp (Option.map_eq_none_iff.mp h) _
    (hwf.mem_pending hentry houtcome)
  simpa using hnone

end Facts

/-! ## Cleaning -/

/-- The finished entry of a slot is gone, with its success mark. -/
structure Cleaned (miss : MissTable) (interests : MissInterests) (slot : ℕ) (entry : MissEntry)
    (after : MissTable) : Prop where
  found : miss.entryAt slot = some entry
  outcome : entry.outcome ≠ .pending
  waiters : interests.waiters slot entry.generation = some 0
  get : after.slots.get = Function.update miss.slots.get slot none
  pending : after.pending = miss.pending
  capacity : after.pendingCapacity = miss.pendingCapacity
  success : after.successFrames = if entry.outcome = .succeeded then
    Function.update miss.successFrames entry.frame none else miss.successFrames

section Clean

variable {miss after : MissTable} {interests : MissInterests} {slot : ℕ} {entry : MissEntry}

theorem cleanTerminalZero_eq_ok {generation : ℕ}
    (h : miss.cleanTerminalZero interests slot generation = .ok after) :
    after = miss ∨ ∃ entry, entry.generation = generation ∧
      miss.Cleaned interests slot entry after := by
  unfold cleanTerminalZero at h
  split at h
  · cases h
    exact .inl rfl
  · rename_i entry hget
    split at h
    · rename_i hterminal
      obtain ⟨rfl, houtcome, hwaiters⟩ := hterminal
      refine .inr ⟨entry.unindexed, rfl, ?_⟩
      split at h
      · rename_i hsucceeded
        simp only [bind_eq_ok, ensure_eq_ok, pure_ok, Except.ok.injEq] at h
        obtain ⟨_, -, _, rfl, slots, hslots, rfl⟩ := h
        exact ⟨entryAt_of_get hget, houtcome, hwaiters, (FileSlots.get_remove hslots).2, rfl, rfl,
          (if_pos hsucceeded).symm⟩
      · rename_i hfailed
        simp only [bind_eq_ok, pure_ok, Except.ok.injEq] at h
        obtain ⟨_, rfl, slots, hslots, rfl⟩ := h
        exact ⟨entryAt_of_get hget, houtcome, hwaiters, (FileSlots.get_remove hslots).2, rfl, rfl,
          (if_neg hfailed).symm⟩
    · cases h
      exact .inl rfl

variable (h : miss.Cleaned interests slot entry after)

include h

theorem Cleaned.entryAt : after.entryAt = Function.update miss.entryAt slot none := by
  funext index
  rw [MissTable.entryAt, h.get]
  by_cases hindex : index = slot
  · subst hindex
    rw [Function.update_self, Function.update_self, Option.map_none]
  · rw [Function.update_of_ne hindex, Function.update_of_ne hindex, MissTable.entryAt]

/-- Nothing pending is at the cleaned slot. -/
theorem Cleaned.slot_ne (hwf : miss.WellFormed) {pending : PendingMiss}
    (hmem : pending ∈ miss.pending) : pending.slot ≠ slot := by
  rintro rfl
  obtain ⟨other, hother, houtcome, -, -⟩ := hwf.of_mem_pending hmem
  rw [h.found] at hother
  cases hother
  exact h.outcome houtcome

theorem Cleaned.pairs (hwf : miss.WellFormed) : after.pairs = miss.pairs := by
  refine pairs_congr h.pending fun pending hmem ↦ ?_
  rw [h.entryAt, Function.update_of_ne (h.slot_ne hwf hmem)]

theorem Cleaned.wellFormed (hwf : miss.WellFormed) : after.WellFormed := by
  refine ⟨⟨?_, ?_⟩, ?_⟩
  · intro position pending hposition
    rw [h.pending] at hposition
    rw [h.get, Function.update_of_ne (h.slot_ne hwf (List.mem_of_getElem? hposition))]
    exact hwf.listed position pending hposition
  · intro index other hget houtcome
    rw [h.get] at hget
    by_cases hindex : index = slot
    · subst hindex
      simp at hget
    · rw [Function.update_of_ne hindex] at hget
      rw [h.pending]
      exact hwf.pending index other hget houtcome
  · intro frame index generation
    have hold := hwf.success frame index generation
    rw [h.success, h.entryAt]
    by_cases hindex : index = slot
    · subst hindex
      -- The mark of the cleaned entry is gone, and no other mark names its slot.
      simp only [Function.update_self, reduceCtorEq, false_and, exists_false, iff_false]
      rw [h.found] at hold
      intro hmark
      by_cases hsucceeded : entry.outcome = .succeeded
      · rw [if_pos hsucceeded] at hmark
        by_cases hframe : frame = entry.frame
        · subst hframe
          simp at hmark
        · rw [Function.update_of_ne hframe, hold] at hmark
          obtain ⟨_, heq, -, hframe', -⟩ := hmark
          cases heq
          exact hframe hframe'.symm
      · rw [if_neg hsucceeded, hold] at hmark
        obtain ⟨_, heq, hsucceeded', -, -⟩ := hmark
        cases heq
        exact hsucceeded hsucceeded'
    · rw [Function.update_of_ne hindex, ← hold]
      by_cases hsucceeded : entry.outcome = .succeeded
      · rw [if_pos hsucceeded]
        by_cases hframe : frame = entry.frame
        · subst hframe
          have hmark := (hwf.success entry.frame slot entry.generation).mpr
            ⟨entry, h.found, hsucceeded, rfl, rfl⟩
          rw [Function.update_self, hmark]
          simp [Ne.symm hindex]
        · rw [Function.update_of_ne hframe]
      · rw [if_neg hsucceeded]

end Clean

/-! ## Admission -/

/-- An empty slot gets a pending entry, at the end of the index. -/
structure Filled (miss : MissTable) (slot : ℕ) (entry : MissEntry) (after : MissTable) : Prop where
  vacant : miss.slots.get slot = none
  outcome : entry.outcome = .pending
  position : entry.pendingPosition = miss.pending.length
  get : after.slots.get = Function.update miss.slots.get slot (some entry)
  pending : after.pending = miss.pending ++ [⟨entry.page, entry.token, slot⟩]
  capacity : after.pendingCapacity = miss.pendingCapacity
  success : after.successFrames = miss.successFrames

section Admission

variable {miss vacated after : MissTable} {interests interests' : MissInterests} {slot frame : ℕ}
  {entry : MissEntry} {page : PageId} {token : OpToken} {initial generation : ℕ}

theorem beginInitial_eq_ok
    (h : interests.beginInitial slot initial = .ok (generation, interests')) :
    (interests slot).waiters = 0 ∧ generation = (interests slot).generation + 1 ∧
      interests' = Function.update interests slot ⟨generation, initial⟩ := by
  simp only [MissInterests.beginInitial, bind_eq_ok, ensure_eq_ok, pure_ok, Except.ok.injEq,
    Prod.mk.injEq] at h
  obtain ⟨_, hwaiters, rfl, rfl⟩ := h
  exact ⟨hwaiters, rfl, rfl⟩

theorem pendingPush_eq_ok {pending : PendingMiss} (h : miss.pendingPush pending = .ok after) :
    after = { miss with pending := miss.pending ++ [pending] } := by
  unfold pendingPush at h
  split at h
  · cases h
    rfl
  · cases h

theorem filled_of_insert {slots : FileSlots MissEntry}
    (hslots : miss.slots.insert slot entry = .ok slots) (houtcome : entry.outcome = .pending)
    (hposition : entry.pendingPosition = miss.pending.length)
    (hpush : pendingPush { miss with slots } ⟨entry.page, entry.token, slot⟩ = .ok after) :
    miss.Filled slot entry after := by
  obtain ⟨hvacant, hget⟩ := FileSlots.get_insert hslots
  rw [pendingPush_eq_ok hpush]
  exact ⟨hvacant, houtcome, hposition, hget, rfl, rfl, rfl⟩

theorem fill_of_admitInitial (h : miss.admitInitial interests slot page frame token initial =
      .ok (generation, after, interests')) :
    (∃ vacated, (vacated = miss ∨ ∃ entry, miss.Cleaned interests slot entry vacated) ∧
      vacated.Filled slot ⟨page, frame, token, generation, 0, vacated.pending.length, .pending⟩
        after) ∧
      (interests slot).waiters = 0 ∧ generation = (interests slot).generation + 1 ∧
      interests' = Function.update interests slot ⟨generation, initial⟩ := by
  unfold admitInitial at h
  split at h
  · simp only [bind_eq_ok, liftM_eq_ok, pure_ok, Except.ok.injEq] at h
    obtain ⟨vacated, hclean, _, -, begun, hbegin, slots, hslots, pushed, hpush, hresult⟩ := h
    cases hresult
    refine ⟨⟨vacated, ?_, filled_of_insert hslots rfl rfl hpush⟩, beginInitial_eq_ok hbegin⟩
    exact (cleanTerminalZero_eq_ok hclean).imp_right fun hcleaned ↦ hcleaned.imp fun _ ↦ And.right
  · simp only [bind_eq_ok, liftM_eq_ok, pure_ok, Except.ok.injEq] at h
    obtain ⟨vacated, rfl, _, -, begun, hbegin, slots, hslots, pushed, hpush, hresult⟩ := h
    cases hresult
    exact ⟨⟨miss, .inl rfl, filled_of_insert hslots rfl rfl hpush⟩, beginInitial_eq_ok hbegin⟩

variable (h : miss.Filled slot entry after)

include h

theorem Filled.entryAt :
    after.entryAt = Function.update miss.entryAt slot (some entry.unindexed) := by
  funext index
  rw [MissTable.entryAt, h.get]
  by_cases hindex : index = slot
  · subst hindex
    rw [Function.update_self, Function.update_self, Option.map_some]
  · rw [Function.update_of_ne hindex, Function.update_of_ne hindex, MissTable.entryAt]

theorem Filled.entryAt_vacant : miss.entryAt slot = none := by
  rw [MissTable.entryAt, h.vacant, Option.map_none]

theorem Filled.slot_ne (hwf : miss.WellFormed) {pending : PendingMiss}
    (hmem : pending ∈ miss.pending) : pending.slot ≠ slot := by
  rintro rfl
  obtain ⟨other, hother, -⟩ := hwf.of_mem_pending hmem
  rw [h.entryAt_vacant] at hother
  cases hother

theorem Filled.pairs (hwf : miss.WellFormed) :
    after.pairs = (entry.token, entry.frame) ::ₘ miss.pairs := by
  have hold : ∀ pending ∈ miss.pending,
      (pending.token, (after.entryAt pending.slot).elim 0 MissEntry.frame) =
        (pending.token, (miss.entryAt pending.slot).elim 0 MissEntry.frame) := by
    intro pending hmem
    rw [h.entryAt, Function.update_of_ne (h.slot_ne hwf hmem)]
  rw [MissTable.pairs, MissTable.pairs, h.pending, List.map_append, List.map_congr_left hold,
    List.map_singleton, h.entryAt, Function.update_self, ← Multiset.coe_add, add_comm]
  rfl

theorem Filled.wellFormed (hwf : miss.WellFormed) : after.WellFormed := by
  refine ⟨⟨?_, ?_⟩, ?_⟩
  · intro position pending hposition
    rw [h.pending] at hposition
    rw [h.get]
    by_cases hlt : position < miss.pending.length
    · rw [List.getElem?_append_left hlt] at hposition
      rw [Function.update_of_ne (h.slot_ne hwf (List.mem_of_getElem? hposition))]
      exact hwf.listed position pending hposition
    · rw [List.getElem?_append_right (by omega), List.getElem?_singleton] at hposition
      split at hposition
      · cases hposition
        refine ⟨entry, Function.update_self .., h.outcome, ?_⟩
        rw [h.position]
        omega
      · cases hposition
  · intro index other hget houtcome
    rw [h.get] at hget
    rw [h.pending]
    by_cases hindex : index = slot
    · subst hindex
      rw [Function.update_self] at hget
      cases hget
      rw [h.position, List.getElem?_append_right le_rfl]
      simp
    · rw [Function.update_of_ne hindex] at hget
      have hlisted := hwf.pending index other hget houtcome
      rw [List.getElem?_append_left (List.getElem?_eq_some_iff.mp hlisted).1]
      exact hlisted
  · intro frame index generation
    rw [h.success, h.entryAt, hwf.success]
    by_cases hindex : index = slot
    · subst hindex
      rw [Function.update_self, h.entryAt_vacant]
      constructor
      · rintro ⟨_, heq, -⟩
        cases heq
      · rintro ⟨_, heq, houtcome, -⟩
        cases heq
        rw [show entry.unindexed.outcome = entry.outcome from rfl, h.outcome] at houtcome
        cases houtcome
    · rw [Function.update_of_ne hindex]

omit h

/-- A slot that holds nothing, or a finished entry without waiters, gets a pending entry. -/
structure Admitted (miss : MissTable) (interests : MissInterests) (slot : ℕ) (entry : MissEntry)
    (after : MissTable) : Prop where
  reusable : ∀ previous, miss.entryAt slot = some previous → previous.outcome ≠ .pending ∧
    interests.waiters slot previous.generation = some 0
  entryAt : after.entryAt = Function.update miss.entryAt slot (some entry)
  pairs : after.pairs = (entry.token, entry.frame) ::ₘ miss.pairs
  capacity : after.pendingCapacity = miss.pendingCapacity

theorem admitInitial_eq_ok (hwf : miss.WellFormed)
    (h : miss.admitInitial interests slot page frame token initial =
      .ok (generation, after, interests')) :
    after.WellFormed ∧
      miss.Admitted interests slot ⟨page, frame, token, generation, 0, 0, .pending⟩ after ∧
      (interests slot).waiters = 0 ∧ generation = (interests slot).generation + 1 ∧
      interests' = Function.update interests slot ⟨generation, initial⟩ := by
  obtain ⟨⟨vacated, hvacated, hfilled⟩, hinterests⟩ := fill_of_admitInitial h
  rcases hvacated with rfl | ⟨previous, hcleaned⟩
  · refine ⟨hfilled.wellFormed hwf, ⟨?_, hfilled.entryAt, hfilled.pairs hwf, hfilled.capacity⟩,
      hinterests⟩
    intro previous hprevious
    rw [hfilled.entryAt_vacant] at hprevious
    cases hprevious
  · refine ⟨hfilled.wellFormed (hcleaned.wellFormed hwf), ⟨?_, ?_, ?_, ?_⟩, hinterests⟩
    · intro other hother
      rw [hcleaned.found] at hother
      cases hother
      exact ⟨hcleaned.outcome, hcleaned.waiters⟩
    · rw [hfilled.entryAt, hcleaned.entryAt, Function.update_idem]
      rfl
    · rw [hfilled.pairs (hcleaned.wellFormed hwf), hcleaned.pairs hwf]
    · exact hfilled.capacity.trans hcleaned.capacity

end Admission

/-! ## The end of a read -/

section Settle

variable {miss after : MissTable} {index : ℕ} {entry : MissEntry}

/-- The last value takes the place of a removed one. -/
theorem perm_swapRemove {α : Type} {list : List α} {position : ℕ} {value last : α}
    (hvalue : list[position]? = some value) (hlast : list[list.length - 1]? = some last) :
    (value :: (list.set position last).dropLast).Perm list := by
  obtain ⟨hlt, rfl⟩ := List.getElem?_eq_some_iff.mp hvalue
  obtain ⟨front, rfl⟩ : ∃ front, list = front ++ [last] := by
    obtain ⟨hlt', hget⟩ := List.getElem?_eq_some_iff.mp hlast
    refine ⟨list.dropLast, ?_⟩
    rw [← hget, ← List.getLast_eq_getElem (List.ne_nil_of_length_pos (by omega)),
      List.dropLast_concat_getLast]
  by_cases hfront : position < front.length
  · have hset := List.set_perm_cons_eraseIdx hfront last
    have hrest := List.getElem_cons_eraseIdx_perm hfront
    rw [List.set_append_left _ _ hfront, List.dropLast_concat, List.getElem_append_left hfront]
    calc (front[position] :: front.set position last).Perm
          (front[position] :: last :: front.eraseIdx position) := hset.cons _
      _ |>.Perm (last :: front[position] :: front.eraseIdx position) := .swap _ _ _
      _ |>.Perm (last :: front) := hrest.cons _
      _ |>.Perm (front ++ [last]) := (List.perm_append_singleton last front).symm
  · have hposition : position = front.length := by
      simp only [List.length_append, List.length_singleton] at hlt
      omega
    subst hposition
    rw [List.set_append_right _ _ le_rfl]
    simpa using (List.perm_append_singleton last front).symm

/-- A value after the last one took the place of a removed one. -/
theorem getElem?_swapRemove {α : Type} (list : List α) (position : ℕ) (last : α) (other : ℕ) :
    (list.set position last).dropLast[other]? =
      if other < list.length - 1 then if other = position then some last else list[other]?
      else none := by
  rw [List.getElem?_dropLast, List.length_set, List.getElem?_set]
  split
  · by_cases hother : other = position
    · subst hother
      rw [if_pos rfl, if_pos rfl, if_pos (by omega)]
    · rw [if_neg (Ne.symm hother), if_neg hother]
  · rfl

theorem pendingPosition_eq_ok {position : ℕ} (h : miss.pendingPosition index = .ok position) :
    ∃ entry pending, miss.slots.get index = some entry ∧ entry.pendingPosition = position ∧
      miss.pending[position]? = some pending ∧ pending.slot = index := by
  simp only [pendingPosition, MissTable.entry, bind_eq_ok, expect_eq_ok, ensure_eq_ok, pure_ok,
    Except.ok.injEq] at h
  obtain ⟨entry, hentry, pending, hpending, _, hslot, rfl⟩ := h
  exact ⟨entry, pending, hentry, rfl, hpending, hslot⟩

/-- The last pending entry takes the place of the removed one, also if it is the removed one. -/
theorem pendingRemove_eq_ok (h : miss.pendingRemove index = .ok after) :
    ∃ entry pending moved, miss.slots.get index = some entry ∧
      miss.pending[entry.pendingPosition]? = some pending ∧ pending.slot = index ∧
      miss.pending[miss.pending.length - 1]? = some moved ∧
      after.pending = (miss.pending.set entry.pendingPosition moved).dropLast ∧
      (∀ other, after.slots.get other = if other = moved.slot then
        (miss.slots.get other).map fun entry' ↦
          { entry' with pendingPosition := entry.pendingPosition }
        else miss.slots.get other) ∧
      after.successFrames = miss.successFrames ∧ after.pendingCapacity = miss.pendingCapacity := by
  simp only [pendingRemove, bind_eq_ok] at h
  obtain ⟨position, hposition, h⟩ := h
  obtain ⟨entry, pending, hget, rfl, hpending, hslot⟩ := pendingPosition_eq_ok hposition
  split at h
  · simp only [bind_eq_ok, expect_eq_ok, pure_ok, Except.ok.injEq] at h
    obtain ⟨moved, hmoved, rfl⟩ := h
    refine ⟨entry, pending, moved, hget, hpending, hslot, hmoved, rfl, fun other ↦ ?_, rfl, rfl⟩
    refine (FileSlots.get_modifyValue _ other).trans ?_
    by_cases hother : other = moved.slot
    · rw [if_pos hother, if_pos hother, hother]
    · rw [if_neg hother, if_neg hother]
  · rename_i hge
    cases h
    have hlt := (List.getElem?_eq_some_iff.mp hpending).1
    have hlast : entry.pendingPosition = miss.pending.length - 1 := by omega
    refine ⟨entry, pending, pending, hget, hpending, hslot, hlast ▸ hpending, ?_, ?_, rfl, rfl⟩
    · have hset := List.set_getElem_self hlt
      rw [(List.getElem?_eq_some_iff.mp hpending).2] at hset
      rw [hset]
    · intro other
      by_cases hother : other = pending.slot
      · rw [if_pos hother, hother, hslot, hget]
        rfl
      · rw [if_neg hother]

/-- How a settled table is made of the old one. -/
theorem settle_shape {outcome : MissOutcome} (hget : miss.slots.get index = some entry)
    (h : miss.settle index outcome = .ok after) : ∃ pending moved,
      miss.pending[entry.pendingPosition]? = some pending ∧ pending.slot = index ∧
      miss.pending[miss.pending.length - 1]? = some moved ∧
      after.pending = (miss.pending.set entry.pendingPosition moved).dropLast ∧
      (∀ other, other ≠ index → other ≠ moved.slot →
        after.slots.get other = miss.slots.get other) ∧
      (moved.slot ≠ index → after.slots.get moved.slot = (miss.slots.get moved.slot).map fun other ↦
        { other with pendingPosition := entry.pendingPosition }) ∧
      after.slots.get index = some { entry with outcome } ∧
      after.successFrames = miss.successFrames ∧ after.pendingCapacity = miss.pendingCapacity := by
  obtain ⟨changed, pending, moved, hchanged, hlisted, hslot, hmoved, hrest, hget', hsuccess,
    hcapacity⟩ := pendingRemove_eq_ok h
  rw [FileSlots.get_modifyValue, if_pos rfl, hget] at hchanged
  cases hchanged
  simp only [FileSlots.get_modifyValue, hget, Option.map_some] at hget'
  refine ⟨pending, moved, hlisted, hslot, hmoved, hrest, ?_, ?_, ?_, hsuccess, hcapacity⟩
  · intro other hindex hother
    rw [hget', if_neg hother, if_neg hindex]
  · intro hindex
    rw [hget', if_pos rfl, if_neg hindex]
  · rw [hget', if_pos rfl]
    split <;> rfl

/-- A pending entry gets its outcome and leaves the index. -/
structure Settled (miss : MissTable) (index : ℕ) (entry : MissEntry) (outcome : MissOutcome)
    (after : MissTable) : Prop where
  found : miss.entryAt index = some entry
  pending : entry.outcome = .pending
  entryAt : after.entryAt = Function.update miss.entryAt index (some { entry with outcome })
  pairs : miss.pairs = (entry.token, entry.frame) ::ₘ after.pairs
  capacity : after.pendingCapacity = miss.pendingCapacity

theorem settle_eq_ok (hwf : miss.Indexed) {outcome : MissOutcome} (houtcome : outcome ≠ .pending)
    (hget : miss.slots.get index = some entry) (hpending : entry.outcome = .pending)
    (h : miss.settle index outcome = .ok after) :
    after.Indexed ∧ miss.Settled index entry.unindexed outcome after ∧
      after.successFrames = miss.successFrames := by
  obtain ⟨pending, moved, hlisted, hslot, hmoved, hrest, hother, hmove, hsettled, hsuccess,
    hcapacity⟩ := settle_shape hget h
  have hlisted' := hwf.pending index entry hget hpending
  rw [hlisted, Option.some_inj] at hlisted'
  have hlt := (List.getElem?_eq_some_iff.mp hlisted).1
  -- The last entry of the index is the removed one only if it has the same place.
  have hlast : ∀ position other, miss.pending[position]? = some other → other.slot = moved.slot →
      position = miss.pending.length - 1 :=
    fun position other hget' hslot' ↦ hwf.position_eq hget' hmoved hslot'
  have hplace : ∀ position other, miss.pending[position]? = some other → other.slot = index →
      position = entry.pendingPosition :=
    fun position other hget' hslot' ↦ hwf.position_eq hget' hlisted (hslot'.trans hslot.symm)
  have hentryAt : after.entryAt =
      Function.update miss.entryAt index (some { entry.unindexed with outcome }) := by
    funext other
    rw [MissTable.entryAt]
    by_cases hindex : other = index
    · subst hindex
      rw [Function.update_self, hsettled]
      rfl
    · rw [Function.update_of_ne hindex, MissTable.entryAt]
      by_cases hmoved' : other = moved.slot
      · subst hmoved'
        rw [hmove hindex, Option.map_map]
        rfl
      · rw [hother other hindex hmoved']
  refine ⟨⟨?_, ?_⟩, ⟨entryAt_of_get hget, hpending, hentryAt, ?_, hcapacity⟩, hsuccess⟩
  · intro position listed hlisted''
    rw [hrest, getElem?_swapRemove] at hlisted''
    split at hlisted''
    · split at hlisted''
      · rename_i hposition heq
        cases hlisted''
        have hne : moved.slot ≠ index := by
          intro heq'
          have := hplace _ moved hmoved heq'
          omega
        obtain ⟨original, horiginal, houtcome', -⟩ := hwf.listed _ moved hmoved
        refine ⟨{ original with pendingPosition := entry.pendingPosition }, ?_, houtcome', heq.symm⟩
        rw [hmove hne, horiginal, Option.map_some]
      · rename_i hposition hne
        have hindex : listed.slot ≠ index := fun heq ↦ hne (hplace position listed hlisted'' heq)
        have hmoved' : listed.slot ≠ moved.slot := by
          intro heq
          have := hlast position listed hlisted'' heq
          omega
        rw [hother _ hindex hmoved']
        exact hwf.listed position listed hlisted''
    · cases hlisted''
  · intro other changed hchanged hpending'
    have hindex : other ≠ index := by
      rintro rfl
      rw [hsettled] at hchanged
      cases hchanged
      exact houtcome hpending'
    rw [hrest, getElem?_swapRemove]
    by_cases hmoved' : other = moved.slot
    · subst hmoved'
      obtain ⟨original, horiginal, houtcome', hposition⟩ := hwf.listed _ moved hmoved
      rw [hmove hindex, horiginal, Option.map_some] at hchanged
      cases hchanged
      have hne : entry.pendingPosition ≠ miss.pending.length - 1 := by
        intro heq
        rw [heq, hmoved] at hlisted
        cases hlisted
        exact hindex hslot
      have hoccupied := hwf.pending _ original horiginal houtcome'
      rw [hposition, hmoved] at hoccupied
      rw [if_pos (by simp only; omega), if_pos rfl]
      exact hoccupied
    · rw [hother other hindex hmoved'] at hchanged
      have hoccupied := hwf.pending other changed hchanged hpending'
      have hlt' := (List.getElem?_eq_some_iff.mp hoccupied).1
      have hlast' : changed.pendingPosition ≠ miss.pending.length - 1 := by
        intro heq
        rw [heq, hmoved] at hoccupied
        cases hoccupied
        exact hmoved' rfl
      have hne : changed.pendingPosition ≠ entry.pendingPosition := by
        intro heq
        rw [heq, hlisted] at hoccupied
        cases hoccupied
        exact hindex hslot
      rw [if_pos (by omega), if_neg hne]
      exact hoccupied
  · have hframes : ∀ slot, (after.entryAt slot).elim 0 MissEntry.frame =
        (miss.entryAt slot).elim 0 MissEntry.frame := by
      intro slot
      rw [hentryAt]
      by_cases hindex : slot = index
      · subst hindex
        rw [Function.update_self, entryAt_of_get hget]
        rfl
      · rw [Function.update_of_ne hindex]
    have hperm := perm_swapRemove hlisted hmoved
    have hmap := hperm.map fun pending ↦
      (pending.token, (miss.entryAt pending.slot).elim 0 MissEntry.frame)
    rw [List.map_cons, hlisted', entryAt_of_get hget] at hmap
    simp only [MissTable.pairs, hframes, hrest]
    exact (Multiset.coe_eq_coe.mpr hmap).symm

theorem fail_eq_ok (hwf : miss.WellFormed) {errno : ℕ} (h : miss.fail index errno = .ok after) :
    after.WellFormed ∧ ∃ entry, miss.Settled index entry (.failed errno) after := by
  simp only [fail, MissTable.entry, bind_eq_ok, expect_eq_ok, ensure_eq_ok] at h
  obtain ⟨entry, hget, _, -, _, hpending, h⟩ := h
  obtain ⟨hindexed, hsettled, hsuccess⟩ := settle_eq_ok hwf.toIndexed (by simp) hget hpending h
  refine ⟨⟨hindexed, fun frame other generation ↦ ?_⟩, _, hsettled⟩
  rw [hsuccess, hwf.success, hsettled.entryAt]
  by_cases hother : other = index
  · subst hother
    rw [Function.update_self, hsettled.found]
    constructor
    · rintro ⟨_, heq, houtcome, -⟩
      cases heq
      rw [hsettled.pending] at houtcome
      cases houtcome
    · rintro ⟨_, heq, houtcome, -⟩
      cases heq
      cases houtcome
  · rw [Function.update_of_ne hother]

theorem succeed_eq_ok (hwf : miss.WellFormed) (h : miss.succeed index = .ok after) :
    after.WellFormed ∧ ∃ entry, miss.Settled index entry .succeeded after := by
  simp only [succeed, MissTable.entry, bind_eq_ok, expect_eq_ok, ensure_eq_ok, pure_ok,
    Except.ok.injEq] at h
  obtain ⟨entry, hget, _, hpending, settled, h, _, hnone, rfl⟩ := h
  obtain ⟨hindexed, hsettled, hsuccess⟩ := settle_eq_ok hwf.toIndexed (by simp) hget hpending h
  rw [Option.isNone_iff_eq_none, hsuccess] at hnone
  refine ⟨⟨⟨hindexed.listed, hindexed.pending⟩, fun frame other generation ↦ ?_⟩, entry.unindexed,
    hsettled.found, hsettled.pending, hsettled.entryAt, hsettled.pairs, hsettled.capacity⟩
  have hold := hwf.success frame other generation
  change Function.update settled.successFrames entry.frame (some (index, entry.generation)) frame =
    some (other, generation) ↔ ∃ entry, settled.entryAt other = some entry ∧ _
  rw [hsuccess, hsettled.entryAt]
  by_cases hother : other = index
  · subst hother
    rw [hsettled.found] at hold
    have hunmarked : miss.successFrames frame ≠ some (other, generation) := by
      rw [Ne, hold]
      rintro ⟨_, heq, houtcome, -⟩
      cases heq
      rw [hsettled.pending] at houtcome
      cases houtcome
    rw [Function.update_self]
    by_cases hframe : frame = entry.frame
    · subst hframe
      rw [Function.update_self]
      simp [MissEntry.unindexed]
    · rw [Function.update_of_ne hframe]
      refine ⟨fun hmark ↦ absurd hmark hunmarked, ?_⟩
      rintro ⟨_, heq, -, hframe', -⟩
      cases heq
      exact absurd hframe'.symm hframe
  · rw [Function.update_of_ne hother, ← hold]
    by_cases hframe : frame = entry.frame
    · subst hframe
      rw [Function.update_self, hnone]
      simp [Ne.symm hother]
    · rw [Function.update_of_ne hframe]

/-- A pending entry goes on with another read. -/
structure Advanced (miss : MissTable) (index : ℕ) (entry : MissEntry) (filled : ℕ) (token : OpToken)
    (after : MissTable) : Prop where
  found : miss.entryAt index = some entry
  pending : entry.outcome = .pending
  entryAt : after.entryAt = Function.update miss.entryAt index (some { entry with filled, token })
  pairs : (token, entry.frame) ::ₘ miss.pairs = (entry.token, entry.frame) ::ₘ after.pairs
  capacity : after.pendingCapacity = miss.pendingCapacity

theorem advanceRemainder_eq_ok (hwf : miss.WellFormed) {filled : ℕ} {token : OpToken}
    (h : miss.advanceRemainder index filled token = .ok after) :
    after.WellFormed ∧ ∃ entry, miss.Advanced index entry filled token after := by
  simp only [advanceRemainder, MissTable.entry, bind_eq_ok, expect_eq_ok, ensure_eq_ok, pure_ok,
    Except.ok.injEq] at h
  obtain ⟨entry, hget, _, hpending, position, hposition, rfl⟩ := h
  obtain ⟨entry', pending, hget', rfl, hlisted, hslot⟩ := pendingPosition_eq_ok hposition
  rw [hget] at hget'
  cases hget'
  have hlisted' := hwf.pending index entry hget hpending
  rw [hlisted, Option.some_inj] at hlisted'
  subst hlisted'
  have hlt := (List.getElem?_eq_some_iff.mp hlisted).1
  have hsame : ∀ other, other ≠ index →
      (miss.slots.modifyValue index fun entry ↦ { entry with filled, token }).get other =
        miss.slots.get other := by
    intro other hother
    rw [FileSlots.get_modifyValue, if_neg hother]
  have hnew : (miss.slots.modifyValue index fun entry ↦ { entry with filled, token }).get index =
      some { entry with filled, token } := by
    rw [FileSlots.get_modifyValue, if_pos rfl, hget, Option.map_some]
  have hentryAt : MissTable.entryAt { miss with
        slots := miss.slots.modifyValue index fun entry ↦ { entry with filled, token }
        pending := miss.pending.modify entry.pendingPosition fun pending ↦ { pending with token } } =
      Function.update miss.entryAt index (some { entry.unindexed with filled, token }) := by
    funext other
    rw [MissTable.entryAt]
    by_cases hother : other = index
    · subst hother
      rw [Function.update_self, hnew]
      rfl
    · rw [Function.update_of_ne hother, hsame other hother, MissTable.entryAt]
  have hframes : ∀ slot,
      ((Function.update miss.entryAt index (some { entry.unindexed with filled, token })) slot).elim 0
        MissEntry.frame = (miss.entryAt slot).elim 0 MissEntry.frame := by
    intro slot
    by_cases hslot : slot = index
    · subst hslot
      rw [Function.update_self, entryAt_of_get hget]
      rfl
    · rw [Function.update_of_ne hslot]
  refine ⟨⟨⟨?_, ?_⟩, ?_⟩, entry.unindexed, entryAt_of_get hget, hpending, hentryAt, ?_, rfl⟩
  · intro position listed hposition'
    rw [List.getElem?_modify] at hposition'
    obtain ⟨original, horiginal, rfl⟩ := Option.map_eq_some_iff.mp hposition'
    obtain ⟨other, hother, houtcome, hplace⟩ := hwf.listed position original horiginal
    have hslot' : (if entry.pendingPosition = position then { original with token } else original :
        PendingMiss).slot = original.slot := by split <;> rfl
    rw [hslot']
    by_cases hindex : original.slot = index
    · rw [hindex, hget] at hother
      cases hother
      refine ⟨{ entry with filled, token }, ?_, houtcome, hplace⟩
      rw [hindex]
      exact hnew
    · exact ⟨other, (hsame _ hindex).trans hother, houtcome, hplace⟩
  · intro other changed hchanged houtcome
    rw [List.getElem?_modify]
    by_cases hother : other = index
    · subst hother
      rw [hnew] at hchanged
      cases hchanged
      simp [hlisted]
    · have hoccupied := hwf.pending other changed ((hsame other hother).symm.trans hchanged) houtcome
      rw [hoccupied]
      have hne : entry.pendingPosition ≠ changed.pendingPosition := by
        intro heq
        rw [← heq, hlisted, Option.some_inj] at hoccupied
        exact hother (congrArg PendingMiss.slot hoccupied).symm
      simp [hne]
  · intro frame other generation
    rw [hentryAt, hwf.success]
    by_cases hother : other = index
    · subst hother
      rw [Function.update_self, entryAt_of_get hget]
      constructor
      · rintro ⟨_, heq, houtcome, -⟩
        cases heq
        cases hpending.symm.trans houtcome
      · rintro ⟨_, heq, houtcome, -⟩
        cases heq
        cases hpending.symm.trans houtcome
    · rw [Function.update_of_ne hother]
  · have hperm := List.getElem_cons_eraseIdx_perm hlt
    have hset := List.set_perm_cons_eraseIdx hlt ⟨entry.page, token, index⟩
    rw [(List.getElem?_eq_some_iff.mp hlisted).2] at hperm
    have hmodify : (miss.pending.modify entry.pendingPosition fun pending ↦ { pending with token }) =
        miss.pending.set entry.pendingPosition ⟨entry.page, token, index⟩ := by
      rw [List.modify_eq_set_getElem?, hlisted]
      rfl
    have hpairs := hperm.map fun pending ↦
      (pending.token, (miss.entryAt pending.slot).elim 0 MissEntry.frame)
    have hpairs' := hset.map fun pending ↦
      (pending.token, (miss.entryAt pending.slot).elim 0 MissEntry.frame)
    rw [List.map_cons, entryAt_of_get hget] at hpairs hpairs'
    simp only [MissTable.pairs, hentryAt, hframes]
    rw [hmodify, ← Multiset.coe_eq_coe.mpr hpairs, Multiset.coe_eq_coe.mpr hpairs', ← Multiset.cons_coe,
      ← Multiset.cons_coe]
    exact Multiset.cons_swap _ _ _

end Settle

end MissTable

end DiosPool.Pool
