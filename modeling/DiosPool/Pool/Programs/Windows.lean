import DiosPool.Pool.Programs.Vectors

/-!
# Windows

Pages are asked for by a caller or by a stream of cold demand. What is mapped or pending is left
alone, and the rest is admitted in runs. An explicit window makes room by evicting speculative pages
that it does not ask for itself.
-/

namespace DiosPool.Pool

open Driver Foundation

/-! ## The ledger -/

/-- The frame may lose its page to another window. -/
def Ledger.Replaceable (ledger : Ledger) (frame : ℕ) : Prop :=
  ∃ index entry, ledger.entries index = some entry ∧ entry.frame = frame ∧
    entry.protectedAt ≠ ledger.stamp

/-- Within a window no further frame becomes replaceable. -/
theorem Ledger.Evolves.replaceable {before after : Ledger} (h : before.Evolves after) {frame : ℕ}
    (hframe : after.Replaceable frame) : before.Replaceable frame := by
  obtain ⟨index, entry, hentry, rfl, hprotected⟩ := hframe
  obtain ⟨old, hold, hsame, hstamp⟩ := h.protects.entries index entry hentry hprotected
  rw [h.protects.stamp, ← hstamp] at hprotected
  exact ⟨index, old, hold, hsame, hprotected⟩

section Ledger

variable {C : Config} {c c' : Custody} {pool after : Pool} {known : Locked → Prop} {α : Type}

theorem Move.indexed (hmove : Move C (c, pool) (c', after)) (h : pool.locked.ledger.Indexed) :
    after.locked.ledger.Indexed := by
  cases hmove with
  | speculative hindexed => exact hindexed h
  | pin hpinning hreader => cases hreader <;> exact h
  | submitWrite hindex hvacant hlive hsubmit hlocked =>
    cases hlocked
    exact h
  | holdFsync hindex hvacant hlive hlocked =>
    cases hlocked
    exact h
  | finish hfinished hfinish => cases finishProductCompletion_eq_ok hfinish <;> exact h
  | deliver hdeliver =>
    obtain ⟨productOps, rfl⟩ := deliverFrom_eq _ _ _ _ _ _ _ hdeliver
    exact h
  | register hopened hregister =>
    obtain ⟨_, _, _, _, rfl⟩ := registerFile_eq_ok hopened hregister
    exact h
  | beginRetire hlive hretire =>
    obtain ⟨_, _, _, _, rfl⟩ := beginFileRetirement_eq_some hretire
    exact h
  | _ => exact h

theorem Reach.indexed (h : Reach C c pool) : pool.locked.ledger.Indexed := by
  induction h with
  | new => exact fun index entry hentry ↦ by cases hentry
  | turn hreach hturn ih =>
    rw [hturn.locked_eq]
    exact ih
  | move hreach hmove ih => exact hmove.indexed ih

/-- One change of the ledger. -/
theorem updateLedger_triple {change : Ledger → Except Assertion (α × Ledger)}
    {post : α → Locked → Prop}
    (h : ∀ locked result ledger, known locked → change locked.ledger = .ok (result, ledger) →
      (locked.ledger.Indexed → ledger.Indexed) ∧ post result { locked with ledger }) :
    (rules C).Triple (At C c known) (PoolM.updateLedger change) fun result ↦ At C c (post result) := by
  intro memory hmemory
  refine ⟨at_stable.always memory hmemory, fun seen hseen ↦ ?_⟩
  obtain ⟨hreach, hknown⟩ := at_stable.rely memory seen hmemory hseen
  cases hchange : change seen.locked.ledger with
  | error assertion =>
    simp only [speculativeLens, hchange, bind, Except.bind]
    exact ⟨assertion, rfl⟩
  | ok outcome =>
    obtain ⟨hindexed, hpost⟩ := h seen.locked outcome.1 outcome.2 hknown hchange
    simp only [speculativeLens, hchange, bind, Except.bind, pure, Except.pure]
    exact ⟨hreach.move (@Move.speculative C _ _ ⟨outcome.2, seen.unlocked.clock⟩ hindexed), hpost⟩

end Ledger

/-! ## Upkeep of the reserve -/

end DiosPool.Pool
