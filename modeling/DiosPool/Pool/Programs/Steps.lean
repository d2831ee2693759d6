import DiosPool.Foundation.Guarantee
import DiosPool.Pool.Calls

/-!
# Steps of a call

What the steps of a call guarantee of the pool, each by itself and whatever the other threads do in
between.
-/

namespace DiosPool.Pool

open Driver Foundation

namespace PoolM

variable {guarantee : Pool → Pool → Prop} {α : Type}

theorem read_respects (hrefl : ∀ pool, guarantee pool pool) (view : Pool → α) :
    (read view).Respects guarantee := .load hrefl view

theorem locked_respects {change : Locked → Except Panic (α × Locked)}
    (h : ∀ pool result locked, change pool.locked = .ok (result, locked) →
      guarantee pool { pool with locked }) :
    (PoolM.locked change).Respects guarantee := by
  refine Program.Respects.act fun pool result after haction ↦ ?_
  simp only [bind_eq_ok, pure_ok, Except.ok.injEq, Prod.mk.injEq] at haction
  obtain ⟨⟨value, locked⟩, hchange, -, rfl⟩ := haction
  exact h pool value locked hchange

theorem update_respects {change : Locked → Except Panic Locked}
    (h : ∀ pool locked, change pool.locked = .ok locked → guarantee pool { pool with locked }) :
    (PoolM.update change).Respects guarantee := by
  refine locked_respects fun pool result locked hchange ↦ ?_
  simp only [bind_eq_ok, pure_ok, Except.ok.injEq, Prod.mk.injEq] at hchange
  obtain ⟨value, hvalue, -, rfl⟩ := hchange
  exact h pool value hvalue

theorem driver_respects {critical : Section α}
    (h : ∀ pool result driver, critical pool.unlocked.driver = .ok (result, driver) →
      guarantee pool (pool.setDriver driver)) :
    (PoolM.driver critical).Respects guarantee := by
  refine Program.Respects.act fun pool result after haction ↦ ?_
  cases hvalue : critical pool.unlocked.driver with
  | error assertion =>
    rw [hvalue] at haction
    cases haction
  | ok outcome =>
    rw [hvalue] at haction
    cases haction
    exact h pool _ _ hvalue

end PoolM

theorem flushDeferredFrom_respects {guarantee : Pool → Pool → Prop}
    (h : ∀ pool driver, guarantee pool (pool.setDriver driver)) (turns : ℕ) :
    (flushDeferredFrom turns).Respects guarantee := by
  induction turns with
  | zero => exact .done _
  | succ turns ih =>
    refine (PoolM.driver_respects fun _ _ _ _ ↦ h _ _).bind fun retire ↦ ?_
    cases retire with
    | none => exact .done _
    | some retire =>
      cases retire with
      | none => exact ih
      | some file => exact (PoolM.driver_respects fun _ _ _ _ ↦ h _ _).bind fun _ ↦ ih

/-! ## Runs of single steps -/

section Runs

variable {pool after : Pool}

theorem liftM_ok {α : Type} (value : α) :
    (liftM (Except.ok value : Except Assertion α) : Except Panic α) = .ok value := rfl

/-- A ledger program of the pool. -/
theorem run_ledger {α : Type} (program : LedgerM α) (pool : Pool) :
    (PoolM.ledger program).run pool =
      ((program.run (speculativeLens.get pool)).mapError .assertion).map fun outcome ↦
        (outcome.1, speculativeLens.set outcome.2 pool) :=
  Program.run_zoom (fun _ _ ↦ rfl) (fun _ _ _ ↦ rfl) (fun _ ↦ rfl) program pool

theorem run_ledger_eq_ok {α : Type} {program : LedgerM α} {value : α}
    (h : (PoolM.ledger program).run pool = .ok (value, after)) :
    ∃ speculative, after = speculativeLens.set speculative pool := by
  rw [run_ledger] at h
  cases hrun : program.run (speculativeLens.get pool) with
  | error error =>
    rw [hrun] at h
    cases h
  | ok outcome =>
    rw [hrun] at h
    cases h
    exact ⟨outcome.2, rfl⟩

theorem run_update_eq_ok {change : Locked → Except Panic Locked} {value : Unit}
    (h : (PoolM.update change).run pool = .ok (value, after)) :
    ∃ locked, change pool.locked = .ok locked ∧ after = { pool with locked } := by
  rw [PoolM.update, PoolM.locked, Program.run_act] at h
  simp only [bind_eq_ok, pure_ok, Except.ok.injEq, Prod.mk.injEq] at h
  obtain ⟨_, ⟨locked, hchange, rfl⟩, -, rfl⟩ := h
  exact ⟨locked, hchange, rfl⟩

end Runs

end DiosPool.Pool
