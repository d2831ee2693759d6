import DiosPool.Pool.Programs.Rules

/-!
# Evicting frames

The programs that evict a resident frame. A prepared frame protects no finished read, and an evicted
one fits the queue.
-/

namespace DiosPool.Pool

open Driver Foundation

section Reclaiming

variable {C : Config} {c : Custody} {known : Locked → Prop}

/-- A prepared frame protects no finished read. -/
theorem prepareEviction_at (frame : ℕ)
    (hknown : ∀ locked miss, miss.pending = locked.miss.pending → known locked →
      known { locked with miss }) :
    (rules C).Triple (At C c known) (prepareEviction frame) fun prepared ↦ At C c fun locked ↦
      known locked ∧ (prepared = true → locked.miss.successFrames frame = none) := by
  refine act_triple at_stable fun pool h ↦ outcome_lift_bind fun outcome hprepare ↦ ?_
  unfold MissTable.prepareEviction at hprepare
  split at hprepare
  · rename_i hsuccess
    cases hprepare
    exact ⟨h.1, h.2, fun _ ↦ hsuccess⟩
  · rename_i slot generation hsuccess
    split at hprepare
    · cases hprepare
      exact ⟨h.1, h.2, by simp⟩
    · simp only [bind_eq_ok, ensure_eq_ok, pure_ok, Except.ok.injEq] at hprepare
      obtain ⟨miss, hclean, _, hnone, rfl⟩ := hprepare
      have hpending : miss.pending = pool.locked.miss.pending := by
        rcases MissTable.cleanTerminalZero_eq_ok hclean with rfl | ⟨entry, -, hcleaned⟩
        · rfl
        · exact hcleaned.pending
      exact ⟨h.1.move (.clean hclean), hknown _ miss hpending h.2, fun _ ↦ by simpa using hnone⟩

/-- A resident frame fits the queue. -/
theorem enqueueEvicting_triple (frame : ℕ) (hsettling : c.settling = none)
    (hknown : ∀ locked frames evictQueue, known locked → known { locked with frames, evictQueue }) :
    (rules C).Triple (At C { c with unmapped := some frame } known) (enqueueEvicting C frame)
      fun _ ↦ At C { c with unmapped := none } known := by
  refine update_triple at_stable fun pool h ↦ outcome_lift_bind fun locked hadvance ↦ ?_
  simp only [Locked.advance, bind_eq_ok, ensure_eq_ok, pure_ok, Except.ok.injEq] at hadvance
  obtain ⟨_, hstate, rfl⟩ := hadvance
  have hresident : (pool.locked.frames frame).state = .resident := by simpa using hstate
  have hpush : Locked.pushEvict C (pool.locked.setFrame frame
      { pool.locked.frames frame with state := .evicting }) frame = .ok { pool.locked with
        frames := Function.update pool.locked.frames frame
          { pool.locked.frames frame with state := .evicting }
        evictQueue := pool.locked.evictQueue ++ [(frame, pool.locked.globalEpoch)] } :=
    if_pos (h.1.placed.frames.queue_length_lt hresident)
  rw [hpush]
  exact ⟨h.1.move (.enqueue hsettling rfl), hknown _ _ _ h.2⟩

/-- A resident frame is unmapped, its credit ends, and it is queued. -/
theorem evictResident_at {known' : Locked → Prop} (frame : ℕ) (hsettling : c.settling = none)
    (herase : ∀ locked page, known locked → locked.table.lookup page = some frame →
      known' { locked with table := locked.table.erase page })
    (hledger : ∀ locked ledger, locked.ledger.Evolves ledger → known' locked →
      known' { locked with ledger })
    (hqueue : ∀ locked frames evictQueue, known' locked →
      known' { locked with frames, evictQueue }) :
    (rules C).Triple
      (At C { c with unmapped := none } fun locked ↦
        known locked ∧ locked.miss.successFrames frame = none)
      (evictResident C frame) fun _ ↦ At C { c with unmapped := none } known' := by
  refine Rules.Triple.through (fun _ ↦ At C { c with unmapped := some frame } known') ?_ fun _ ↦ ?_
  · refine update_triple at_stable fun pool h ↦ outcome_lift_bind fun page hpage ↦ ?_
    refine outcome_lift_bind fun _ hremoved ↦ ?_
    have hlookup := ensure_eq_ok.mp hremoved
    exact ⟨h.1.move (.unmap hlookup hsettling rfl h.2.2), herase _ page h.2.1 hlookup⟩
  · refine (ledger_triple (LedgerM.finish_evolving _ _) hledger).bind fun _ ↦ ?_
    exact enqueueEvicting_triple frame hsettling hqueue

end Reclaiming

end DiosPool.Pool
