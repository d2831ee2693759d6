import DiosPool.Pool.Invariant.Misses

/-!
# Room in the driver

An operation in the slab is a read of a pending miss, the slot that a completed vector read still
leases, or a product operation. So the driver never holds more operations than the pool has pending
pages and submitted product operations, and what the pool may submit finds room in it.
-/

namespace DiosPool.Pool

open Driver Foundation

namespace DriverSound

variable {C : Config} {leases finished : Multiset OpToken} {shared : Shared}
  {completions : List Completion} {productOps : ℕ → ProductOpSlot}

/-- Every occupied slot has a frame, a product operation or a lease. -/
theorem slot_le (h : DriverSound C leases finished shared completions productOps) (slot : ℕ) :
    (if (shared.slots slot).payload.isSome then 1 else 0) ≤
      (frameCargo.slot slot (shared.slots slot)).card +
        (productCargo.slot slot (shared.slots slot)).card +
          ((completions.map completionLease).sum + leases).count
            ⟨slot, (shared.slots slot).generation⟩ := by
  cases hentry : (shared.slots slot).payload with
  | none => simp
  | some entry =>
    have hsound := h.entries slot entry hentry
    simp only [Cargo.slot, hentry, Option.elim_some, Option.isSome_some, if_true]
    by_cases hkind : entry.kind = .read
    · cases hframe : entry.frame with
      | none =>
        have hleased := hsound.leased.mpr ⟨hkind, hframe⟩
        have hcount := h.inv.slab.leases ⟨slot, (shared.slots slot).generation⟩
        simp only [SlabSlot.countOf, SlabSlot.weightOf, SlabSlot.weight, hentry, hleased,
          Option.elim_some, if_true] at hcount
        omega
      | some destination =>
        have hframes : (Shared.framesOf (some destination)).length ≠ 0 := by
          cases destination with
          | point frame => simp [Shared.framesOf, ReadDestination.frames]
          | vector vector =>
            simpa [Shared.framesOf, ReadDestination.frames] using hsound.bundle vector hframe
        simp only [frameCargo, Multiset.coe_card, List.length_map]
        omega
    · simp only [productCargo, if_neg hkind, Multiset.card_singleton]
      omega

/-- The lease of a completion stands for a frame of it. -/
theorem card_completionLease_le (h : ∀ completion ∈ completions, CompletionSound completion) :
    ((completions.map completionLease).sum).card ≤
      ((completions.map frameCargo.completion).sum).card := by
  induction completions with
  | nil => rfl
  | cons completion completions ih =>
    have hrest := ih fun other hmem ↦ h other (List.mem_cons_of_mem _ hmem)
    have hsound := h completion (List.mem_cons_self ..)
    have hfirst : (completionLease completion).card ≤ (frameCargo.completion completion).card := by
      by_cases hcontinuation : completion.continuation
      · obtain ⟨vector, hframe⟩ := hsound.continuation.mp hcontinuation
        have hframes := List.length_pos_of_ne_nil (hsound.bundle vector hframe)
        simp only [completionLease, hcontinuation, if_true, Multiset.card_singleton,
          Cargo.completion, frameCargo, hframe, Shared.framesOf, Option.elim_some,
          ReadDestination.frames, Multiset.coe_card, List.length_map]
        exact hframes
      · simp [completionLease, hcontinuation]
    simp only [List.map_cons, List.sum_cons, Multiset.card_add]
    omega

/-- The operations of all files are the occupied slots. -/
theorem totalInflight_eq (h : DriverSound C leases finished shared completions productOps) :
    shared.totalInflight C.driver =
      ((Finset.range C.queueCapacity).filter fun slot ↦ (shared.slots slot).payload.isSome).card :=
  h.inv.files.sum_inflight

/-- The driver operations are at most the pages of reads, the leases in the hands of the call and
the product operations that were submitted and are not routed yet. -/
theorem totalInflight_le (h : DriverSound C leases finished shared completions productOps) :
    shared.totalInflight C.driver + finished.card ≤
      (frameCargo.total C.queueCapacity shared.slots completions).card + leases.card +
        (productTokens C productOps).card := by
  have hsum := Finset.sum_le_sum fun slot (_ : slot ∈ Finset.range C.queueCapacity) ↦ h.slot_le slot
  have hcount := sum_count_le_card (Finset.range C.queueCapacity)
    (fun slot ↦ (⟨slot, (shared.slots slot).generation⟩ : OpToken))
    (fun _ _ _ _ heq ↦ congrArg OpToken.slot heq) ((completions.map completionLease).sum + leases)
  have hleases := card_completionLease_le h.sound
  have hproducts := congrArg Multiset.card h.products
  rw [h.totalInflight_eq, Finset.card_filter]
  simp only [Finset.sum_add_distrib, Cargo.total, Multiset.card_add, Multiset.card_sum] at *
  omega

/-- As long as the slab is not full, it has a free slot. -/
theorem free_ne_nil (h : DriverSound C leases finished shared completions productOps)
    (hroom : shared.totalInflight C.driver < C.queueCapacity) : shared.free ≠ [] := by
  intro hfree
  have hoccupied : ∀ slot ∈ Finset.range C.queueCapacity, (shared.slots slot).payload.isSome := by
    intro slot hslot
    have hcount := h.inv.slab.free slot
    rw [hfree, List.count_nil] at hcount
    by_contra hvacant
    rw [if_pos ⟨Finset.mem_range.mp hslot, Option.not_isSome_iff_eq_none.mp hvacant⟩] at hcount
    cases hcount
  rw [h.totalInflight_eq, Finset.filter_true_of_mem hoccupied, Finset.card_range] at hroom
  exact hroom.false

end DriverSound

/-- The operations that the driver works on, the completed ones included whose slot is leased. -/
theorem Reach.totalInflight_le {C : Config} {c : Custody} {pool : Pool} (h : Reach C c pool) :
    pool.unlocked.driver.totalInflight C.driver + c.finished.card + c.owed.card ≤
      pool.locked.miss.pending.length + c.orphans.card + c.leases.card +
        (productTokens C pool.locked.productOps).card := by
  have hdriver := h.connected.driver.totalInflight_le
  have hpairs := congrArg Multiset.card h.paired.pairs
  simp only [Multiset.card_add, MissTable.card_pairs, holders] at hpairs
  omega

/-- A product operation for every slot at most. -/
theorem card_productTokens_le (C : Config) (productOps : ℕ → ProductOpSlot) :
    (productTokens C productOps).card ≤ C.maxInflightProductOps := by
  have hslot (slot : ProductOpSlot) : (productToken slot).card ≤ 1 := by
    unfold productToken
    cases slot.operation.bind ProductOp.driverToken <;> simp
  rw [productTokens, Multiset.card_sum]
  refine (Finset.sum_le_sum fun index _ ↦ hslot (productOps index)).trans ?_
  simp

/-- A flushed driver refuses an operation of a live file only if the pool has as many reads and
product operations as it may have. -/
theorem Reach.not_full {C : Config} {c : Custody} {pool : Pool} (h : Reach C c pool)
    (hflushed : c.flushed)
    (hroom : pool.locked.miss.pending.length + c.orphans.card + c.leases.card +
      (productTokens C pool.locked.productOps).card < C.queueCapacity + c.owed.card)
    {error : SubmitError} {after : Shared}
    (hrefused : Shared.Refused C.driver pool.unlocked.driver error after) : error ≠ .full := by
  intro hfull
  have hinflight := h.totalInflight_le
  have hdeferred := h.connected.flushed hflushed
  have hbacklog := h.connected.driver.backlog
  have hcapacity : C.driver.queueCapacity = C.queueCapacity := rfl
  rcases hrefused.2 hfull with hfull | hfree
  · rw [hdeferred, hbacklog, hcapacity] at hfull
    simp only [List.length_nil] at hfull
    omega
  · exact h.connected.driver.free_ne_nil (by omega) hfree

end DiosPool.Pool
