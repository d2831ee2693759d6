import DiosPool.Driver.Effects
import DiosPool.Foundation.Counting

/-!
# The slab of the driver

Every slot of the slab is free or holds one operation, and the stage of the operation says where it
is: a queued operation is in the ready queue, an active one is with the backend, and a vector read
whose frames are in a completion is leased. Each of the three places lists it once and lists nothing
else. Every change of a slot moves its operation from one place to another.
-/

namespace DiosPool.Driver

open Foundation

namespace OpState

def isQueued : OpState → Bool
  | queued => true
  | _ => false

def isActive : OpState → Bool
  | active => true
  | _ => false

/-- The slot stays with a completion. -/
def isLeased : OpState → Bool
  | continuation => true
  | terminal _ => true
  | _ => false

@[simp] theorem isQueued_queued : queued.isQueued = true := rfl

@[simp] theorem isQueued_active : active.isQueued = false := rfl

@[simp] theorem isQueued_continuation : continuation.isQueued = false := rfl

@[simp] theorem isQueued_terminal (outcome : IoResult) : (terminal outcome).isQueued = false := rfl

@[simp] theorem isActive_queued : queued.isActive = false := rfl

@[simp] theorem isActive_active : active.isActive = true := rfl

@[simp] theorem isActive_continuation : continuation.isActive = false := rfl

@[simp] theorem isActive_terminal (outcome : IoResult) : (terminal outcome).isActive = false := rfl

@[simp] theorem isLeased_queued : queued.isLeased = false := rfl

@[simp] theorem isLeased_active : active.isLeased = false := rfl

@[simp] theorem isLeased_continuation : continuation.isLeased = true := rfl

@[simp] theorem isLeased_terminal (outcome : IoResult) : (terminal outcome).isLeased = true := rfl

theorem not_queued_of_isLeased {state : OpState} (h : state.isLeased) :
    state.isQueued = false ∧ state.isActive = false := by
  cases state <;> simp_all

end OpState

/-- A quantity of the operation in a slot, none in a free slot. -/
def SlabSlot.weight (measure : OpEntry → ℕ) (content : SlabSlot) : ℕ :=
  content.payload.elim 0 measure

/-- A quantity of the operation `token`, if a slot with some content holds it. -/
def SlabSlot.weightOf (measure : OpEntry → ℕ) (slot : ℕ) (content : SlabSlot) (token : OpToken) : ℕ :=
  if token = ⟨slot, content.generation⟩ then content.weight measure else 0

/-- Whether a slot holds an operation in a stage. -/
def SlabSlot.count (stage : OpState → Bool) (content : SlabSlot) : ℕ :=
  content.weight fun entry ↦ if stage entry.state then 1 else 0

/-- Whether a slot with some content holds the operation `token` in a stage. -/
def SlabSlot.countOf (stage : OpState → Bool) (slot : ℕ) (content : SlabSlot) (token : OpToken) : ℕ :=
  content.weightOf (fun entry ↦ if stage entry.state then 1 else 0) slot token

section Count

variable {measure : OpEntry → ℕ} {stage : OpState → Bool} {generation slot : ℕ} {entry : OpEntry}
  {token : OpToken}

@[simp] theorem SlabSlot.weightOf_none :
    SlabSlot.weightOf measure slot ⟨generation, none⟩ token = 0 := by
  simp [SlabSlot.weightOf, SlabSlot.weight]

@[simp] theorem SlabSlot.weightOf_some :
    SlabSlot.weightOf measure slot ⟨generation, some entry⟩ token =
      if token = ⟨slot, generation⟩ then measure entry else 0 := rfl

/-- The quantities of an operation when one slot changes. -/
theorem SlabSlot.weightOf_update (slots : ℕ → SlabSlot) (slot : ℕ) (content : SlabSlot)
    (measure : OpEntry → ℕ) (token : OpToken) :
    (Function.update slots slot content token.slot).weightOf measure token.slot token +
        (slots slot).weightOf measure slot token =
      (slots token.slot).weightOf measure token.slot token + content.weightOf measure slot token := by
  by_cases hslot : token.slot = slot
  · subst hslot
    rw [Function.update_self]
    omega
  · have hne : ∀ generation, token ≠ ⟨slot, generation⟩ := by
      rintro generation rfl
      exact hslot rfl
    rw [Function.update_of_ne hslot]
    simp [SlabSlot.weightOf, hne]

@[simp] theorem SlabSlot.count_none : SlabSlot.count stage ⟨generation, none⟩ = 0 := rfl

@[simp] theorem SlabSlot.count_some :
    SlabSlot.count stage ⟨generation, some entry⟩ = if stage entry.state then 1 else 0 := rfl

@[simp] theorem SlabSlot.countOf_none : SlabSlot.countOf stage slot ⟨generation, none⟩ token = 0 :=
  SlabSlot.weightOf_none

@[simp] theorem SlabSlot.countOf_some :
    SlabSlot.countOf stage slot ⟨generation, some entry⟩ token =
      if token = ⟨slot, generation⟩ ∧ stage entry.state then 1 else 0 := by
  rw [ite_and]
  rfl

end Count

/-- `active` are the operations that the backend works on or has completed, `leases` the leases on
slots. -/
structure SlabInv (capacity : ℕ) (slots : ℕ → SlabSlot) (free ready : List ℕ)
    (active : List OpToken) (leases : Multiset OpToken) : Prop where
  free : ∀ slot, free.count slot = if slot < capacity ∧ (slots slot).payload = none then 1 else 0
  beyond : ∀ slot, capacity ≤ slot → (slots slot).payload = none
  ready : ∀ slot, ready.count slot = (slots slot).count OpState.isQueued
  active : ∀ token, active.count token =
    (slots token.slot).countOf OpState.isActive token.slot token
  leases : ∀ token, leases.count token =
    (slots token.slot).countOf OpState.isLeased token.slot token

namespace SlabInv

variable {capacity slot : ℕ} {slots : ℕ → SlabSlot} {free free' ready ready' : List ℕ}
  {active active' : List OpToken} {leases leases' : Multiset OpToken} {token : OpToken}
  {entry next : OpEntry}

theorem lt_of_payload (h : SlabInv capacity slots free ready active leases)
    (hentry : (slots slot).payload = some entry) : slot < capacity := by
  by_contra hge
  rw [h.beyond slot (by omega)] at hentry
  cases hentry

theorem perm (h : SlabInv capacity slots free ready active leases) (hperm : active.Perm active') :
    SlabInv capacity slots free ready active' leases :=
  ⟨h.free, h.beyond, h.ready, fun token ↦ by rw [← hperm.count_eq, h.active], h.leases⟩

/-- One slot changes, and the places with it. -/
theorem update (h : SlabInv capacity slots free ready active leases) (hslot : slot < capacity)
    {content : SlabSlot}
    (hfree : ∀ other, free'.count other + (if other = slot ∧ (slots slot).payload = none then 1 else 0) =
      free.count other + if other = slot ∧ content.payload = none then 1 else 0)
    (hready : ∀ other,
      ready'.count other + (if other = slot then (slots slot).count OpState.isQueued else 0) =
        ready.count other + if other = slot then content.count OpState.isQueued else 0)
    (hactive : ∀ token, active'.count token + (slots slot).countOf OpState.isActive slot token =
      active.count token + content.countOf OpState.isActive slot token)
    (hleases : ∀ token, leases'.count token + (slots slot).countOf OpState.isLeased slot token =
      leases.count token + content.countOf OpState.isLeased slot token) :
    SlabInv capacity (Function.update slots slot content) free' ready' active' leases' := by
  constructor
  · intro other
    have hold := h.free other
    have hnew := hfree other
    by_cases hother : other = slot
    · subst hother
      simp only [hslot, true_and, Function.update_self] at hold hnew ⊢
      omega
    · rw [Function.update_of_ne hother]
      simp only [hother, false_and, if_false] at hnew
      omega
  · intro other hother
    rw [Function.update_of_ne (by omega)]
    exact h.beyond other hother
  · intro other
    have hold := h.ready other
    have hnew := hready other
    by_cases hother : other = slot
    · subst hother
      simp only [if_true, Function.update_self] at hnew ⊢
      omega
    · rw [Function.update_of_ne hother]
      simp only [hother, if_false] at hnew
      omega
  · intro token
    have hold := h.active token
    have hnew := hactive token
    have hcount := SlabSlot.weightOf_update slots slot content
      (fun entry ↦ if entry.state.isActive then 1 else 0) token
    simp only [SlabSlot.countOf] at hold hnew ⊢
    omega
  · intro token
    have hold := h.leases token
    have hnew := hleases token
    have hcount := SlabSlot.weightOf_update slots slot content
      (fun entry ↦ if entry.state.isLeased then 1 else 0) token
    simp only [SlabSlot.countOf] at hold hnew ⊢
    omega

/-- An operation stays in its slot and changes its place. -/
theorem replace (h : SlabInv capacity slots free ready active leases)
    (hslot : slots token.slot = ⟨token.generation, some entry⟩)
    (hready : ∀ other,
      ready'.count other + (if other = token.slot ∧ entry.state.isQueued then 1 else 0) =
        ready.count other + if other = token.slot ∧ next.state.isQueued then 1 else 0)
    (hactive : ∀ other, active'.count other + (if other = token ∧ entry.state.isActive then 1 else 0) =
      active.count other + if other = token ∧ next.state.isActive then 1 else 0)
    (hleases : ∀ other, leases'.count other + (if other = token ∧ entry.state.isLeased then 1 else 0) =
      leases.count other + if other = token ∧ next.state.isLeased then 1 else 0) :
    SlabInv capacity (Function.update slots token.slot ⟨token.generation, some next⟩) free ready'
      active' leases' := by
  have hentry : (slots token.slot).payload = some entry := by rw [hslot]
  refine h.update (h.lt_of_payload hentry) ?_ ?_ ?_ ?_
  · simp [hentry]
  · intro other
    rw [hslot]
    simpa [← ite_and] using hready other
  · intro other
    rw [hslot]
    simpa using hactive other
  · intro other
    rw [hslot]
    simpa using hleases other

/-- An operation leaves its slot. -/
theorem vacate (h : SlabInv capacity slots free ready active leases)
    (hslot : slots token.slot = ⟨token.generation, some entry⟩)
    (hready : ∀ other,
      ready'.count other + (if other = token.slot ∧ entry.state.isQueued then 1 else 0) =
        ready.count other)
    (hactive : ∀ other, active'.count other + (if other = token ∧ entry.state.isActive then 1 else 0) =
      active.count other)
    (hleases : ∀ other, leases'.count other + (if other = token ∧ entry.state.isLeased then 1 else 0) =
      leases.count other) :
    SlabInv capacity (Function.update slots token.slot ⟨token.generation, none⟩)
      (token.slot :: free) ready' active' leases' := by
  have hentry : (slots token.slot).payload = some entry := by rw [hslot]
  refine h.update (h.lt_of_payload hentry) ?_ ?_ ?_ ?_
  · intro other
    by_cases hother : other = token.slot
    · simp [hother, hentry]
    · simp [hother, Ne.symm hother]
  · intro other
    rw [hslot]
    simpa [← ite_and] using hready other
  · intro other
    rw [hslot]
    simpa using hactive other
  · intro other
    rw [hslot]
    simpa using hleases other

theorem vacant_of_free (h : SlabInv capacity slots (slot :: free) ready active leases) :
    slot < capacity ∧ (slots slot).payload = none := by
  have hcount := h.free slot
  by_contra hnot
  rw [if_neg hnot] at hcount
  simp at hcount

/-- A free slot takes an operation. -/
theorem submit (h : SlabInv capacity slots (slot :: free) ready active leases)
    (hqueued : entry.state = .queued) (generation : ℕ) :
    SlabInv capacity (Function.update slots slot ⟨generation, some entry⟩) free (ready ++ [slot])
      active leases := by
  obtain ⟨hlt, hvacant⟩ := h.vacant_of_free
  have hnone : slots slot = ⟨(slots slot).generation, none⟩ := by rw [← hvacant]
  refine h.update hlt ?_ ?_ ?_ ?_
  · intro other
    by_cases hother : other = slot
    · simp [hother, hvacant]
    · simp [hother, Ne.symm hother]
  · intro other
    rw [hnone]
    by_cases hother : other = slot
    · simp [hother, hqueued]
    · simp [hother, Ne.symm hother]
  · intro token
    rw [hnone]
    simp [hqueued]
  · intro token
    rw [hnone]
    simp [hqueued]

section Moves

variable (hslot : slots token.slot = ⟨token.generation, some entry⟩)
include hslot

/-- A queued operation goes to the backend. -/
theorem start (h : SlabInv capacity slots free (token.slot :: ready) active leases)
    (hqueued : entry.state = .queued) (hnext : next.state = .active)
    (hactive : active'.Perm (token :: active)) :
    SlabInv capacity (Function.update slots token.slot ⟨token.generation, some next⟩) free ready
      active' leases := by
  refine h.replace hslot ?_ ?_ ?_
  · intro other
    by_cases hother : other = token.slot
    · simp [hother, hqueued, hnext]
    · simp [hother, Ne.symm hother]
  · intro other
    rw [hactive.count_eq]
    by_cases hother : other = token
    · simp [hother, hqueued, hnext]
    · simp [hother, Ne.symm hother]
  · intro other
    simp [hqueued, hnext]

/-- The backend gives an operation back to be tried again. -/
theorem retry (h : SlabInv capacity slots free ready active leases)
    (hactive : entry.state = .active) (hnext : next.state = .queued)
    (hperm : active.Perm (token :: active')) :
    SlabInv capacity (Function.update slots token.slot ⟨token.generation, some next⟩) free
      (ready ++ [token.slot]) active' leases := by
  refine h.replace hslot ?_ ?_ ?_
  · intro other
    by_cases hother : other = token.slot
    · simp [hother, hactive, hnext]
    · simp [hother, Ne.symm hother]
  · intro other
    rw [hperm.count_eq]
    by_cases hother : other = token
    · simp [hother, hactive, hnext]
    · simp [hother, Ne.symm hother]
  · intro other
    simp [hactive, hnext]

/-- The frames of an operation leave for a completion, which leases the slot. -/
theorem suspend (h : SlabInv capacity slots free ready active leases)
    (hactive : entry.state = .active) (hnext : next.state.isLeased)
    (hperm : active.Perm (token :: active')) :
    SlabInv capacity (Function.update slots token.slot ⟨token.generation, some next⟩) free ready
      active' (token ::ₘ leases) := by
  have hstages := OpState.not_queued_of_isLeased hnext
  refine h.replace hslot ?_ ?_ ?_
  · intro other
    simp [hactive, hstages.1]
  · intro other
    rw [hperm.count_eq]
    by_cases hother : other = token
    · simp [hother, hactive, hstages.2]
    · simp [hother, Ne.symm hother]
  · intro other
    by_cases hother : other = token
    · simp [hother, hactive, hnext]
    · simp [hother]

/-- A leased operation is queued again. -/
theorem resume (h : SlabInv capacity slots free ready active leases)
    (hleased : entry.state.isLeased) (hnext : next.state = .queued)
    (hleases : leases = token ::ₘ leases') :
    SlabInv capacity (Function.update slots token.slot ⟨token.generation, some next⟩) free
      (ready ++ [token.slot]) active leases' := by
  have hstages := OpState.not_queued_of_isLeased hleased
  subst hleases
  refine h.replace hslot ?_ ?_ ?_
  · intro other
    by_cases hother : other = token.slot
    · simp [hother, hstages.1, hnext]
    · simp [hother, Ne.symm hother]
  · intro other
    simp [hstages.2, hnext]
  · intro other
    by_cases hother : other = token
    · simp [hother, hleased, hnext]
    · simp [hother]

/-- An operation that the backend worked on is over. -/
theorem finish (h : SlabInv capacity slots free ready active leases)
    (hactive : entry.state = .active) (hperm : active.Perm (token :: active')) :
    SlabInv capacity (Function.update slots token.slot ⟨token.generation, none⟩)
      (token.slot :: free) ready active' leases := by
  refine h.vacate hslot ?_ ?_ ?_
  · simp [hactive]
  · intro other
    rw [hperm.count_eq]
    by_cases hother : other = token
    · simp [hother, hactive]
    · simp [hother, Ne.symm hother]
  · simp [hactive]

/-- The lease of an operation is given up. -/
theorem release (h : SlabInv capacity slots free ready active leases)
    (hleased : entry.state.isLeased) (hleases : leases = token ::ₘ leases') :
    SlabInv capacity (Function.update slots token.slot ⟨token.generation, none⟩)
      (token.slot :: free) ready active leases' := by
  have hstages := OpState.not_queued_of_isLeased hleased
  subst hleases
  refine h.vacate hslot ?_ ?_ ?_
  · simp [hstages.1]
  · simp [hstages.2]
  · intro other
    by_cases hother : other = token
    · simp [hother, hleased]
    · simp [hother]

end Moves

/-- A place that lists an operation lists one that is in its slot. -/
theorem of_count_pos {stage : OpState → Bool}
    (hpos : 0 < (slots token.slot).countOf stage token.slot token) :
    ∃ entry, slots token.slot = ⟨token.generation, some entry⟩ ∧ stage entry.state := by
  rcases hcontent : slots token.slot with ⟨generation, _ | entry⟩
  · rw [hcontent] at hpos
    simp at hpos
  · rw [hcontent, SlabSlot.countOf_some] at hpos
    split at hpos
    · rename_i hfound
      obtain ⟨htoken, hstage⟩ := hfound
      have hgeneration : generation = token.generation := by rw [htoken]
      exact ⟨entry, by rw [hgeneration], hstage⟩
    · omega

/-- An operation that the backend knows is active. -/
theorem of_mem_active (h : SlabInv capacity slots free ready active leases) (hmem : token ∈ active) :
    ∃ entry, slots token.slot = ⟨token.generation, some entry⟩ ∧ entry.state = .active := by
  have hpos := List.count_pos_iff.mpr hmem
  rw [h.active] at hpos
  obtain ⟨entry, hentry, hstage⟩ := of_count_pos hpos
  refine ⟨entry, hentry, ?_⟩
  cases hstate : entry.state <;> simp_all

/-- A lease names an operation whose frames are in a completion. -/
theorem of_mem_leases (h : SlabInv capacity slots free ready active leases) (hmem : token ∈ leases) :
    ∃ entry, slots token.slot = ⟨token.generation, some entry⟩ ∧ entry.state.isLeased := by
  have hpos := Multiset.count_pos.mpr hmem
  rw [h.leases] at hpos
  exact of_count_pos hpos

/-- The ready queue lists queued operations. -/
theorem mem_ready_iff (h : SlabInv capacity slots free ready active leases) :
    slot ∈ ready ↔ ∃ entry, (slots slot).payload = some entry ∧ entry.state = .queued := by
  rw [← List.count_pos_iff, h.ready]
  unfold SlabSlot.count SlabSlot.weight
  cases (slots slot).payload with
  | none => simp
  | some entry => cases hstate : entry.state <;> simp [hstate]

theorem nodup_ready (h : SlabInv capacity slots free ready active leases) : ready.Nodup := by
  refine List.nodup_iff_count_le_one.mpr fun slot ↦ ?_
  rw [h.ready]
  unfold SlabSlot.count SlabSlot.weight
  cases (slots slot).payload with
  | none => simp
  | some entry =>
    dsimp only [Option.elim_some]
    split <;> omega

theorem nodup_active (h : SlabInv capacity slots free ready active leases) : active.Nodup := by
  refine List.nodup_iff_count_le_one.mpr fun token ↦ ?_
  rw [h.active]
  unfold SlabSlot.countOf
  rcases slots token.slot with ⟨generation, _ | entry⟩
  · simp
  · rw [SlabSlot.weightOf_some]
    split_ifs <;> omega

/-- The ready queue and the backend together hold no more operations than the slab. -/
theorem length_le (h : SlabInv capacity slots free ready active leases) :
    ready.length + active.length ≤ capacity := by
  have hslots : (active.map OpToken.slot).Nodup := by
    refine List.Nodup.map_on ?_ h.nodup_active
    intro left hleft right hright hslot
    obtain ⟨_, hentry, -⟩ := h.of_mem_active hleft
    obtain ⟨_, hother, -⟩ := h.of_mem_active hright
    rw [hslot, hother] at hentry
    cases left
    cases right
    simp_all
  have hnodup : (ready ++ active.map OpToken.slot).Nodup := by
    refine List.Nodup.append h.nodup_ready hslots ?_
    intro slot hslot hmem
    obtain ⟨entry, hentry, hqueued⟩ := h.mem_ready_iff.mp hslot
    obtain ⟨token, htoken, rfl⟩ := List.mem_map.mp hmem
    obtain ⟨other, hother, hstate⟩ := h.of_mem_active htoken
    rw [hother] at hentry
    cases hentry
    rw [hstate] at hqueued
    cases hqueued
  have hbound : ∀ slot ∈ ready ++ active.map OpToken.slot, slot ∈ List.range capacity := by
    intro slot hmem
    rw [List.mem_range]
    rcases List.mem_append.mp hmem with hmem | hmem
    · obtain ⟨entry, hentry, -⟩ := h.mem_ready_iff.mp hmem
      exact h.lt_of_payload hentry
    · obtain ⟨token, htoken, rfl⟩ := List.mem_map.mp hmem
      obtain ⟨entry, hentry, -⟩ := h.of_mem_active htoken
      have hpayload : (slots token.slot).payload = some entry := by rw [hentry]
      exact h.lt_of_payload hpayload
  have hlength := (hnodup.subperm hbound).length_le
  simpa using hlength

end SlabInv

end DiosPool.Driver
