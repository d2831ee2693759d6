import DiosPool.Pool.ReadOutcome

/-!
# How many attempts an operation makes

A read that gets some bytes may begin its retries anew, a write may not. A read therefore makes as
many attempts for each of its bytes as the retry bound allows, and a write one for each of its bytes
and one for each retry. The device may answer whatever it likes.
-/

namespace DiosPool.Pool

open Driver Foundation

/-! ## Reads -/

/-- The attempts that a read with so many bytes to go and so many retries behind it may still make. -/
def attemptsLeft (retryBound bytes retries : ℕ) : ℕ := bytes * (retryBound + 1) - retries

section Left

variable {retryBound bytes retries : ℕ}

theorem attemptsLeft_pos (hbytes : 0 < bytes) (hretries : retries ≤ retryBound) :
    0 < attemptsLeft retryBound bytes retries := by
  have hle : 1 * (retryBound + 1) ≤ bytes * (retryBound + 1) :=
    Nat.mul_le_mul_right _ hbytes
  unfold attemptsLeft
  omega

/-- A retry is an attempt. -/
theorem attemptsLeft_retry (hbytes : 0 < bytes) (hretries : retries < retryBound) :
    attemptsLeft retryBound bytes (retries + 1) < attemptsLeft retryBound bytes retries := by
  have hpos := attemptsLeft_pos hbytes hretries.le
  unfold attemptsLeft at hpos ⊢
  omega

/-- A byte is worth all retries. -/
theorem attemptsLeft_progress {rest : ℕ} (hrest : rest < bytes) (hretries : retries ≤ retryBound) :
    attemptsLeft retryBound rest 0 < attemptsLeft retryBound bytes retries := by
  have hle : (rest + 1) * (retryBound + 1) ≤ bytes * (retryBound + 1) :=
    Nat.mul_le_mul_right _ hrest
  rw [Nat.add_mul] at hle
  unfold attemptsLeft
  omega

end Left

/-- Every completion ends a read or leaves it with fewer attempts. -/
def Spends {σ : Type} (complete : IoResult → StateT σ (Except Assertion) (Option Cause))
    (running : ℕ → σ → OpEntry → Prop) : Prop :=
  ∀ left state entry, running left state entry →
    ∀ result, transferred result ≤ entry.requestedLen →
      (∃ next after fewer, (complete result).run state = .ok (none, next) ∧
        fewer < left ∧ running fewer next after) ∨
      ∃ next cause, (complete result).run state = .ok (some cause, next)

/-- A read makes no more attempts than it has left, and is over if the device answers so many. -/
theorem serve_of_spends {σ : Type} (payload : σ → Option OpEntry)
    {complete : IoResult → StateT σ (Except Assertion) (Option Cause)}
    {running : ℕ → σ → OpEntry → Prop} (hspends : Spends complete running)
    (hpayload : ∀ left state entry, running left state entry →
      payload state = some entry ∧ 0 < left)
    (script : List DeviceTurn) :
    ∀ left state entry, running left state entry →
      ∃ attempts final outcome, serve payload complete script state =
          .ok (attempts, final, outcome) ∧
        attempts.length ≤ left ∧ (left ≤ script.length → outcome.isSome) := by
  induction script with
  | nil =>
    intro left state entry hrunning
    obtain ⟨hentry, hpos⟩ := hpayload left state entry hrunning
    refine ⟨[readAttempt entry], state, none, ?_, hpos, fun hleft ↦ ?_⟩
    · simp [serve, hentry]
    · exact absurd hleft (not_le_of_gt hpos)
  | cons turn script ih =>
    intro left state entry hrunning
    obtain ⟨hentry, hpos⟩ := hpayload left state entry hrunning
    rcases hspends left state entry hrunning _ (turn.fits (readAttempt entry)) with
      ⟨next, after, fewer, hrun, hfewer, hnext⟩ | ⟨next, cause, hrun⟩
    · obtain ⟨attempts, final, outcome, hserve, hlength, hends⟩ := ih fewer next after hnext
      refine ⟨_, final, outcome, serve_of_next hentry hrun hserve, ?_, fun hleft ↦ hends ?_⟩
      · rw [List.length_cons]
        exact Nat.lt_of_le_of_lt hlength hfewer
      · rw [List.length_cons] at hleft
        omega
    · exact ⟨_, next, some cause, serve_of_stop script hentry hrun, hpos, fun _ ↦ rfl⟩

/-- The driver retries a read as long as the bound allows. -/
theorem ringTurn_retries {C : Driver.Config} {entry next : OpEntry} {result : IoResult}
    (hring : ringTurn C entry result = .ok (.inl next)) (hlen : next.requestedLen = entry.requestedLen)
    (hretries : next.retries = entry.retries + 1) : entry.retries < C.retryBound := by
  have hdecreases := ringTurn_decreases hring
  omega

namespace SpanPlan

variable (plan : SpanPlan)

/-- A vector read in flight, and the attempts it may still make. -/
def Attempting (left : ℕ) (state : SpanRun) (entry : OpEntry) : Prop :=
  ∃ done retries, done < plan.total ∧ retries ≤ plan.driver.retryBound ∧
    left = attemptsLeft plan.driver.retryBound (plan.total - done) retries ∧
    state = plan.runAt done retries ∧ entry = plan.attemptAt done retries

theorem spends : Spends plan.complete plan.Attempting := by
  rintro left state entry ⟨done, retries, hdone, hretries, rfl, rfl, rfl⟩ result hfits
  have hlen : (plan.attemptAt done retries).requestedLen = plan.total - done := rfl
  rw [hlen] at hfits
  have hkind : (plan.attemptAt done retries).kind = .read := rfl
  have hleft : 0 < plan.total - done := Nat.sub_pos_of_lt hdone
  rcases ringTurn_read hkind result with hring | hring
  · have hless : retries < plan.driver.retryBound := ringTurn_retries hring rfl rfl
    exact .inl ⟨_, _, _, plan.run_complete_of_again hring, attemptsLeft_retry hleft hless,
      done, retries + 1, hdone, hless, rfl, rfl, rfl⟩
  by_cases hnone : transferred result = 0
  · exact .inr ⟨_, _, plan.run_complete_of_nothing hdone hnone hring⟩
  cases result with
  | error errno => exact absurd rfl hnone
  | ok bytes =>
    rw [transferred] at hfits hnone
    by_cases hfull : done + bytes = plan.total
    · exact .inr ⟨_, _, plan.run_complete_of_full hfull hring⟩
    · have hshort : done + bytes < plan.total := by omega
      have hrun := plan.run_complete_of_short (Nat.pos_of_ne_zero hnone) hshort hring
      split at hrun
      · refine .inl ⟨_, _, _, hrun, ?_, done + bytes, 0, hshort, Nat.zero_le _, rfl, rfl, rfl⟩
        exact attemptsLeft_progress (by omega) hretries
      · exact .inr ⟨_, _, hrun⟩

theorem fetch_le (script : List DeviceTurn) :
    ∃ attempts final outcome, plan.fetch script = .ok (attempts, final, outcome) ∧
      attempts.length ≤ plan.total * (plan.driver.retryBound + 1) ∧
      (plan.total * (plan.driver.retryBound + 1) ≤ script.length → outcome.isSome) := by
  have hserve := serve_of_spends SpanRun.payload plan.spends ?_ script
    (plan.total * (plan.driver.retryBound + 1)) (plan.runAt 0 0) (plan.attemptAt 0 0)
    ⟨0, 0, plan.total_pos, Nat.zero_le _, rfl, rfl, rfl⟩
  · rw [fetch, plan.commit_eq]
    exact hserve
  · rintro _ _ _ ⟨done, retries, hdone, hretries, rfl, rfl, rfl⟩
    exact ⟨rfl, attemptsLeft_pos (Nat.sub_pos_of_lt hdone) hretries⟩

end SpanPlan

namespace PointPlan

variable (plan : PointPlan)

/-- A point read in flight, and the attempts it may still make. -/
def Attempting (left : ℕ) (state : PointRun) (entry : OpEntry) : Prop :=
  ∃ filled retries, filled < plan.granule ∧ retries ≤ plan.driver.retryBound ∧
    left = attemptsLeft plan.driver.retryBound (plan.granule - filled) retries ∧
    state = plan.runAt filled retries ∧ entry = plan.attemptAt filled retries

theorem spends : Spends plan.complete plan.Attempting := by
  rintro left state entry ⟨filled, retries, hfilled, hretries, rfl, rfl, rfl⟩ result hfits
  have hlen : (plan.attemptAt filled retries).requestedLen = plan.granule - filled := rfl
  rw [hlen] at hfits
  have hkind : (plan.attemptAt filled retries).kind = .read := rfl
  have hleft : 0 < plan.granule - filled := Nat.sub_pos_of_lt hfilled
  rcases ringTurn_read hkind result with hring | hring
  · have hless : retries < plan.driver.retryBound := ringTurn_retries hring rfl rfl
    exact .inl ⟨_, _, _, plan.run_complete_of_again hring, attemptsLeft_retry hleft hless,
      filled, retries + 1, hfilled, hless, rfl, rfl, rfl⟩
  rw [plan.run_complete_of_finish hring]
  by_cases hnone : transferred result = 0
  · exact .inr ⟨_, _, plan.run_routeReadCompletion_of_nothing hnone⟩
  cases result with
  | error errno => exact absurd rfl hnone
  | ok bytes =>
    rw [transferred] at hfits hnone
    have hpos := Nat.pos_of_ne_zero hnone
    rw [transferred]
    by_cases hfull : filled + bytes = plan.granule
    · exact .inr ⟨_, _, plan.run_routeReadCompletion_of_full hpos hfull⟩
    · have hshort : filled + bytes < plan.granule := by omega
      have hrun := plan.run_routeReadCompletion_of_short hpos hshort
      split at hrun
      · refine .inl ⟨_, _, _, hrun, ?_, filled + bytes, 0, hshort, Nat.zero_le _, rfl, rfl, rfl⟩
        exact attemptsLeft_progress (by omega) hretries
      · exact .inr ⟨_, _, hrun⟩

theorem fetch_le (script : List DeviceTurn) :
    ∃ attempts final outcome, plan.fetch script = .ok (attempts, final, outcome) ∧
      attempts.length ≤ plan.granule * (plan.driver.retryBound + 1) ∧
      (plan.granule * (plan.driver.retryBound + 1) ≤ script.length → outcome.isSome) := by
  refine serve_of_spends PointRun.payload plan.spends ?_ script _ _ (plan.attemptAt 0 0)
    ⟨0, 0, plan.granule_pos, Nat.zero_le _, rfl, rfl, rfl⟩
  rintro _ _ _ ⟨filled, retries, hfilled, hretries, rfl, rfl, rfl⟩
  exact ⟨rfl, attemptsLeft_pos (Nat.sub_pos_of_lt hfilled) hretries⟩

end PointPlan

/-! ## Writes -/

/-- A write that has bytes to go. -/
def Unwritten (state : OpContext × ℕ) : Prop :=
  state.1.requestedLen = state.1.writeBuf.length ∧ 0 < state.1.requestedLen

theorem executeTurn_unwritten (C : Driver.Config) (logicalLen : ℕ) {state : OpContext × ℕ}
    (hstate : Unwritten state) {result : IoResult}
    (hfits : transferred result ≤ state.1.requestedLen) :
    ∃ outcome, executeTurn C .write logicalLen state.1 state.2 result = .ok outcome ∧
      ∀ next, outcome = .inl next → Unwritten next := by
  obtain ⟨outcome, houtcome⟩ := executeTurn_of_fits C .write logicalLen state.1 state.2 hfits
  refine ⟨outcome, houtcome, fun next hnext ↦ ?_⟩
  subst hnext
  cases executeTurn_eq_ok houtcome with
  | short bytes hkind hpos hless =>
    refine ⟨rfl, ?_⟩
    change 0 < (state.1.writeBuf.drop bytes).length
    rw [List.length_drop, ← hstate.1]
    exact Nat.sub_pos_of_lt hless
  | again => exact hstate
  | retry => exact hstate

/-- A write makes one attempt for each byte and each retry at most. -/
theorem execute_write_le (C : Driver.Config) (executor : Executor) {context : OpContext}
    (hcontext : Unwritten (context, 0)) :
    ∃ transfers result, execute C executor 0 .write context = .ok (transfers, result) ∧
      transfers.length ≤ context.requestedLen + C.retryBound ∧
      ((∀ index transfer, (executor.answer index transfer).isSome) → result.isSome) := by
  refine Resumable.run_le_budget (P := Unwritten) ?_ ?_ hcontext
  · intro state hstate
    exact Nat.add_pos_left hstate.2 _
  · intro state hstate index answer hanswer
    exact executeTurn_unwritten C context.requestedLen hstate (executor.fits hanswer)

/-- Whatever a device answers, a vector read and a page read end within as many attempts for each byte
as the retry bound allows, and a write within one for each byte and each retry. -/
theorem attempts_bounded :
    (∀ (plan : SpanPlan) (turns : ℕ → DeviceTurn), ∃ attempts final cause,
      plan.fetch ((List.range (plan.total * (plan.driver.retryBound + 1))).map turns) =
        .ok (attempts, final, some cause) ∧
      attempts.length ≤ plan.total * (plan.driver.retryBound + 1)) ∧
    (∀ (plan : PointPlan) (turns : ℕ → DeviceTurn), ∃ attempts final cause,
      plan.fetch ((List.range (plan.granule * (plan.driver.retryBound + 1))).map turns) =
        .ok (attempts, final, some cause) ∧
      attempts.length ≤ plan.granule * (plan.driver.retryBound + 1)) ∧
    ∀ (C : Driver.Config) (arena : ℕ → ℕ → UInt8) (fd : FileHandle) (writeSlot len offset : ℕ)
      (executor : Executor), 0 < len →
      (∀ index transfer, (executor.answer index transfer).isSome) →
      ∃ context transfers result,
        OpContext.ofEntry arena (Shared.writeEntry fd writeSlot len offset) = .ok context ∧
        execute C executor 0 .write context = .ok (transfers, some result) ∧
        (ringLoop C).run executor 0 (Shared.writeEntry fd writeSlot len offset) =
          .ok (transfers, some result) ∧
        transfers.length ≤ len + C.retryBound := by
  refine ⟨fun plan turns ↦ ?_, fun plan turns ↦ ?_, ?_⟩
  · obtain ⟨attempts, final, outcome, hfetch, hlength, hends⟩ := plan.fetch_le
      ((List.range (plan.total * (plan.driver.retryBound + 1))).map turns)
    obtain ⟨cause, rfl⟩ := Option.isSome_iff_exists.mp (hends (by simp))
    exact ⟨attempts, final, cause, hfetch, hlength⟩
  · obtain ⟨attempts, final, outcome, hfetch, hlength, hends⟩ := plan.fetch_le
      ((List.range (plan.granule * (plan.driver.retryBound + 1))).map turns)
    obtain ⟨cause, rfl⟩ := Option.isSome_iff_exists.mp (hends (by simp))
    exact ⟨attempts, final, cause, hfetch, hlength⟩
  · intro C arena fd writeSlot len offset executor hlen hlasts
    obtain ⟨context, hcontext, hmirrors⟩ :=
      OpContext.ofEntry_mirrors arena (writeEntry_fresh fd writeSlot len offset)
    have hrequested : context.requestedLen = len := hmirrors.requestedLen
    have hwhole : context.writeBuf.length = len := (hmirrors.written rfl).1
    have hunwritten : Unwritten (context, 0) := ⟨hrequested.trans hwhole.symm, hrequested ▸ hlen⟩
    obtain ⟨transfers, outcome, hexecute, hlength, hends⟩ :=
      execute_write_le C executor hunwritten
    obtain ⟨result, rfl⟩ := Option.isSome_iff_exists.mp (hends hlasts)
    obtain ⟨_, _, hexecute', hring, -⟩ := hmirrors.run_eq (C := C) executor 0
    cases hexecute.symm.trans hexecute'
    exact ⟨context, transfers, result, hcontext, hexecute, hring, hrequested ▸ hlength⟩

theorem attempts_bounded_bytewise : ∃ context transfers result,
    OpContext.ofEntry (fun _ _ ↦ 0) (Shared.writeEntry ⟨⟨0, 0, 1⟩, .buffered⟩ 0 3 16) = .ok context ∧
    execute ⟨0, 4, 1, 2, 1, 4096⟩ bytewise 0 .write context = .ok (transfers, some result) ∧
    (ringLoop ⟨0, 4, 1, 2, 1, 4096⟩).run bytewise 0
      (Shared.writeEntry ⟨⟨0, 0, 1⟩, .buffered⟩ 0 3 16) = .ok (transfers, some result) ∧
    transfers.length ≤ 3 + 2 :=
  attempts_bounded.2.2 ⟨0, 4, 1, 2, 1, 4096⟩ (fun _ _ ↦ 0) ⟨⟨0, 0, 1⟩, .buffered⟩ 0 3 16 bytewise
    (by decide) fun _ _ ↦ rfl

end DiosPool.Pool
