import DiosPool.Pool.Programs.Rules

/-!
# Reaping completions

The programs that a call runs on the driver: they give back deferred slots, hand ready operations to
the kernel and collect completions in the batch of the pool.
-/

namespace DiosPool.Pool

open Driver Foundation

section Reaping

variable {C : Config} {c : Custody} {known : Locked → Prop}

/-! ## Deferred completions -/

/-- Only the routing of completions defers one. -/
theorem Turn.deferred_le {pool after : Pool} (hturn : Turn C pool after) (h : Connected C c pool) :
    after.unlocked.driver.deferred.length ≤ pool.unlocked.driver.deferred.length := by
  cases hturn with
  | reader hcall hreader => cases hreader <;> exact le_rfl
  | openFile hopen =>
    obtain ⟨-, -, -, rfl⟩ := Shared.openFile_eq_some hopen
    exact le_rfl
  | upkeep hupkeep =>
    cases hupkeep with
    | flush hdeferred =>
      rw [hdeferred, List.length_cons]
      exact Nat.le_succ _
    | retire hretire =>
      obtain ⟨-, -, rfl⟩ := Shared.finishRetire_eq_ok hretire
      exact le_rfl
    | fill hfill =>
      obtain ⟨_, _, _, -, -, -, rfl⟩ := Shared.fillNext_eq_ok hfill
      exact le_rfl
  | reap hwaiting hreap => rw [Reaped.deferred_eq (h.driver.reaped hreap)]
  | _ => exact le_rfl

/-- At most `turns` completions are deferred. -/
def DeferredAt (C : Config) (c : Custody) (known : Locked → Prop) (turns : ℕ) (pool : Pool) : Prop :=
  At C c known pool ∧ pool.unlocked.driver.deferred.length ≤ turns

theorem deferredAt_stable {turns : ℕ} : (rules C).Stable (DeferredAt C c known turns) := by
  refine ⟨fun pool h ↦ at_stable.always pool h.1, fun pool seen h hturns ↦ ?_⟩
  refine ⟨at_stable.rely pool seen h.1 hturns, ?_⟩
  induction hturns with
  | refl => exact h.2
  | tail hturns hturn ih => exact (hturn.deferred_le (h.1.1.turns hturns).1.connected).trans ih

/-- The file of a completion is retired. -/
theorem finishRetire_triple {turns : ℕ} (file : FileId) :
    (rules C).Triple (DeferredAt C c known turns)
      (PoolM.driver fun shared ↦ do return ((), ← shared.finishRetire file))
      fun _ ↦ DeferredAt C c known turns := by
  refine driver_triple deferredAt_stable fun pool h result driver hdriver ↦ ?_
  simp only [bind_eq_ok, pure_ok, Except.ok.injEq, Prod.mk.injEq] at hdriver
  obtain ⟨_, hretire, -, rfl⟩ := hdriver
  refine ⟨⟨h.1.1.move (.upkeep (.retire hretire)), h.1.2⟩, ?_⟩
  obtain ⟨-, -, rfl⟩ := Shared.finishRetire_eq_ok hretire
  exact h.2

theorem flushDeferredFrom_triple (turns : ℕ) :
    (rules C).Triple (DeferredAt C c known turns) (flushDeferredFrom turns)
      fun _ ↦ At C { c with flushed := true } known := by
  induction turns with
  | zero =>
    refine Rules.Triple.done fun pool h ↦ ⟨h.1.1.move (.flushed ?_), h.1.2⟩
    exact List.length_eq_zero_iff.mp (Nat.le_zero.mp h.2)
  | succ turns ih =>
    have hpop : (rules C).Triple (DeferredAt C c known (turns + 1))
        (PoolM.driver Shared.popDeferred) fun retire ↦
          retire.elim (At C { c with flushed := true } known) fun _ ↦ DeferredAt C c known turns := by
      refine driver_triple deferredAt_stable fun pool h result driver hpop ↦ ?_
      unfold Shared.popDeferred at hpop
      split at hpop
      · rename_i hdeferred
        cases hpop
        exact ⟨h.1.1.move (.flushed hdeferred), h.1.2⟩
      · rename_i completion deferred hdeferred
        cases hpop
        refine ⟨⟨h.1.1.move (.upkeep (.flush hdeferred)), h.1.2⟩, ?_⟩
        have hlength := h.2
        rw [hdeferred, List.length_cons] at hlength
        exact Nat.le_of_succ_le_succ hlength
    refine hpop.bind fun retire ↦ ?_
    cases retire with
    | none => exact Rules.Triple.done fun pool h ↦ h
    | some retire =>
      cases retire with
      | none => exact ih
      | some file => exact (finishRetire_triple file).bind fun _ ↦ ih

/-- After a flush no completion is deferred. -/
theorem flushDeferred_triple :
    (rules C).Triple (At C c known) (flushDeferred C)
      fun _ ↦ At C { c with flushed := true } known := by
  refine (flushDeferredFrom_triple C.queueCapacity).weaken fun pool h ↦ ⟨h, ?_⟩
  exact (Nat.le_add_left _ _).trans h.1.connected.driver.inv.bound

/-! ## Progress of the ring -/

end Reaping

end DiosPool.Pool
