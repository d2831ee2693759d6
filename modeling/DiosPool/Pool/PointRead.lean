import DiosPool.Pool.ClockSweep
import DiosPool.Pool.Programs.Claiming

/-!
# Short completions of a point read

The read of a page may complete in pieces. Each piece that is too short is followed by a new operation
for the rest of the page, with a new token but for the same frame and the same miss. The pieces follow
each other without gap or overlap, and the page is mapped when they fill it, and not before.
-/

namespace DiosPool.Pool

open Driver Foundation

section PointRead

variable {C : Config} {pool after : Pool} {index : ℕ} {entry : MissEntry}

theorem releaseReadCredit_eq_ok {locked after : Locked} (h : locked.releaseReadCredit = .ok after) :
    ∃ reads, after = { locked with readsInFlight := reads } := by
  unfold Locked.releaseReadCredit at h
  split at h
  · cases h
    exact ⟨_, rfl⟩
  · cases h

theorem insertShared_eq_ok {locked after : Locked} {page : PageId} {frame : ℕ}
    (h : locked.insertShared C page frame = .ok after) :
    after = { locked with table := locked.table.insert page frame } := by
  unfold Locked.insertShared at h
  split at h
  · rename_i answer table hexec
    cases h
    rw [Table.Pages.exec] at hexec
    split at hexec
    · cases hexec
    · cases hexec
      rfl
  · cases h

/-- The read has succeeded: the page is mapped, its frame is resident, and the miss is over. -/
structure Succeeded (pool : Pool) (index : ℕ) (entry : MissEntry) : Prop where
  mapped : pool.locked.table.lookup entry.page = some entry.frame
  resident : (pool.locked.frames entry.frame).state = .resident
  outcome : ∀ found, pool.locked.miss.entryAt index = some found → found.outcome = .succeeded

/-- The read is over without success: the page is not mapped, its frame is free, and the miss is
gone or keeps the error for those who wait. -/
structure Failed (pool : Pool) (index : ℕ) (entry : MissEntry) : Prop where
  unmapped : pool.locked.table.lookup entry.page = none
  free : (pool.locked.frames entry.frame).state = .free
  outcome : ∀ found, pool.locked.miss.entryAt index = some found → ∃ errno,
    found.outcome = .failed errno

theorem Succeeded.congr {other : MissEntry} (h : Succeeded pool index entry)
    (hpage : entry.page = other.page) (hframe : entry.frame = other.frame) :
    Succeeded pool index other := by
  refine ⟨?_, hframe ▸ h.resident, h.outcome⟩
  rw [← hpage, ← hframe]
  exact h.mapped

theorem Failed.congr {other : MissEntry} (h : Failed pool index entry)
    (hpage : entry.page = other.page) (hframe : entry.frame = other.frame) :
    Failed pool index other :=
  ⟨hpage ▸ h.unmapped, hframe ▸ h.free, h.outcome⟩

/-- A pending miss whose operation reads the page into its frame, from `filled` bytes to the end of
the granule. The index of pending misses finds it by the token of that operation. -/
structure Awaits (C : Config) (pool : Pool) (index : ℕ) (entry : MissEntry) : Prop where
  found : pool.locked.miss.entryAt index = some entry
  pending : entry.outcome = .pending
  filled_lt : entry.filled < C.granule
  listed : ⟨entry.page, entry.token, index⟩ ∈ pool.locked.miss.pending
  unmapped : pool.locked.table.lookup entry.page = none
  submitted : ∃ fd before shared, Shared.submitRead C.driver fd entry.frame
    (readSpan entry.page C.granule entry.filled).1 entry.filled
    (readSpan entry.page C.granule entry.filled).2 before = .ok (.ok entry.token, shared)

/-! ## One completion -/

/-- A miss that is over keeps its outcome until it is cleaned. -/
theorem outcome_of_clean {miss cleaned : MissTable} {interests : MissInterests} {generation : ℕ}
    (ended : MissOutcome → Prop)
    (h : ∀ found, miss.entryAt index = some found → ended found.outcome)
    (hclean : miss.cleanTerminalZero interests index generation = .ok cleaned) :
    ∀ found, cleaned.entryAt index = some found → ended found.outcome := by
  rcases MissTable.cleanTerminalZero_eq_ok hclean with rfl | ⟨_, -, hcleaned⟩
  · exact h
  · intro found hentry
    rw [hcleaned.entryAt, Function.update_self] at hentry
    cases hentry

theorem finishSuccess_eq_ok (hwf : pool.locked.miss.WellFormed) {value : Unit}
    (h : (finishSuccess C index entry).run pool = .ok (value, after)) :
    after.locked.frames = pool.locked.frames ∧
      after.locked.table = pool.locked.table.insert entry.page entry.frame ∧
      ∀ found, after.locked.miss.entryAt index = some found → found.outcome = .succeeded := by
  rw [finishSuccess, Program.run_bind_eq_ok] at h
  obtain ⟨_, mapped, hmap, h⟩ := h
  obtain ⟨locked, hlocked, rfl⟩ := run_update_eq_ok hmap
  simp only [bind_eq_ok, liftM_eq_ok, pure_ok, Except.ok.injEq] at hlocked
  obtain ⟨inserted, hinsert, framePages, -, rfl⟩ := hlocked
  cases insertShared_eq_ok hinsert
  rw [Program.run_bind_eq_ok] at h
  obtain ⟨speculative, seen, hmarker, h⟩ := h
  obtain ⟨memory, rfl⟩ := run_ledger_eq_ok hmarker
  extract_lets settle at h
  have hsettle (answer : PUnit) (before : Pool)
      (hrun : (settle answer).run before = .ok (value, after))
      (hbefore : before.locked.miss = pool.locked.miss) :
      after.locked.frames = before.locked.frames ∧ after.locked.table = before.locked.table ∧
        ∀ found, after.locked.miss.entryAt index = some found → found.outcome = .succeeded := by
    simp only [settle, settleSuccess, Program.run_act, bind_eq_ok, liftM_eq_ok, pure_ok,
      Except.ok.injEq, Prod.mk.injEq] at hrun
    obtain ⟨miss, hsucceed, cleaned, hclean, -, rfl⟩ := hrun
    obtain ⟨-, settled, hsettled⟩ := MissTable.succeed_eq_ok (hbefore ▸ hwf) hsucceed
    refine ⟨rfl, rfl, outcome_of_clean (· = .succeeded) (fun found hfound ↦ ?_) hclean⟩
    rw [hsettled.entryAt, Function.update_self] at hfound
    cases hfound
    rfl
  split at h
  · rw [Program.run_bind_eq_ok] at h
    obtain ⟨_, noticed, hnotify, h⟩ := h
    obtain ⟨memory', rfl⟩ := run_ledger_eq_ok hnotify
    exact hsettle ⟨⟩ _ h rfl
  · rw [Program.run_bind_eq_ok] at h
    obtain ⟨_, noticed, hnotify, h⟩ := h
    obtain ⟨memory', rfl⟩ := run_ledger_eq_ok hnotify
    exact hsettle ⟨⟩ _ h rfl

theorem releaseAndFail_eq_ok (hwf : pool.locked.miss.WellFormed) {errno : ℕ} {value : Unit}
    (hunmapped : pool.locked.table.lookup entry.page = none)
    (h : (releaseAndFail C index entry entry.frame errno).run pool = .ok (value, after)) :
    Failed after index entry := by
  rw [releaseAndFail, Program.run_act] at h
  simp only [bind_eq_ok, pure_ok, Except.ok.injEq, Prod.mk.injEq] at h
  obtain ⟨released, hrelease, failed, hfail, -, rfl⟩ := h
  obtain ⟨reads, rfl⟩ := releaseReadCredit_eq_ok hrelease
  simp only [finishFailure, bind_eq_ok, liftM_eq_ok, pure_ok, Except.ok.injEq] at hfail
  obtain ⟨⟨_, ended⟩, hledger, aborted, habort, freed, hpush, missed, hmiss, cleaned, hclean, rfl⟩ :=
    hfail
  simp only [runLedger, bind_eq_ok, pure_ok, Except.ok.injEq, Prod.mk.injEq] at hledger
  obtain ⟨⟨_, memory⟩, -, -, rfl⟩ := hledger
  simp only [Locked.abort, bind_eq_ok, ensure_eq_ok, pure_ok, Except.ok.injEq] at habort
  obtain ⟨_, -, rfl⟩ := habort
  unfold Locked.pushFree at hpush
  split at hpush
  swap
  · cases hpush
  cases hpush
  obtain ⟨-, settled, hsettled⟩ := MissTable.fail_eq_ok hwf hmiss
  refine ⟨hunmapped, by simp only [Locked.setFrame, Function.update_self], ?_⟩
  refine outcome_of_clean (fun outcome ↦ ∃ errno, outcome = .failed errno) (fun found hfound ↦ ?_)
    hclean
  rw [hsettled.entryAt, Function.update_self] at hfound
  cases hfound
  exact ⟨errno, rfl⟩

theorem flushDeferred_locked {value : Unit} (h : (flushDeferred C).run pool = .ok (value, after)) :
    after.locked = pool.locked := by
  have hrespects : (flushDeferred C).Respects fun before after ↦ after.locked = before.locked :=
    flushDeferredFrom_respects (fun _ _ ↦ rfl) _
  exact hrespects.run (fun _ ↦ rfl) (fun _ _ _ hfirst hsecond ↦ hsecond.trans hfirst) h

/-- The rest of a short read is submitted for the same frame and the same miss, or the read fails. -/
theorem routeReadCompletionRemainder_eq_ok (hwf : pool.locked.miss.WellFormed) {filled : ℕ}
    {value : Unit} (hget : pool.locked.miss.slots.get index = some entry)
    (hunmapped : pool.locked.table.lookup entry.page = none) (hfilled : filled < C.granule)
    (h : (routeReadCompletionRemainder C index entry entry.frame filled).run pool =
      .ok (value, after)) :
    (∃ token, Awaits C after index { entry.unindexed with filled, token }) ∨
      Failed after index entry := by
  rw [routeReadCompletionRemainder] at h
  dsimp only at h
  rw [Program.run_bind_eq_ok] at h
  obtain ⟨fd, seen, hfd, h⟩ := h
  have hseen : seen = pool := by
    rw [PoolM.locked, Program.run_act] at hfd
    simp only [bind_eq_ok, liftM_eq_ok, pure_ok, Except.ok.injEq, Prod.mk.injEq] at hfd
    obtain ⟨_, ⟨_, -, rfl⟩, -, rfl⟩ := hfd
    rfl
  subst hseen
  split at h
  · rw [Program.run_bind_eq_ok] at h
    obtain ⟨_, flushed, hflush, h⟩ := h
    have hlocked := flushDeferred_locked hflush
    rw [Program.run_bind_eq_ok] at h
    obtain ⟨resubmitted, submitted, hact, h⟩ := h
    rw [Program.run_act, bind_eq_ok] at hact
    obtain ⟨⟨result, offered⟩, hsubmit, hact⟩ := hact
    rw [liftM_eq_ok] at hsubmit
    rcases submitPageRead_eq_ok hsubmit with ⟨next, driver, rfl, rfl, hread⟩ | ⟨error, rfl, rfl, -⟩
    · simp only [bind_eq_ok, liftM_eq_ok, pure_ok, Except.ok.injEq, Prod.mk.injEq] at hact
      obtain ⟨miss, hadvance, rfl, rfl⟩ := hact
      cases h
      change flushed.locked.miss.advanceRemainder index filled next = .ok miss at hadvance
      rw [hlocked] at hadvance
      obtain ⟨hwf', advanced, hadvanced⟩ := MissTable.advanceRemainder_eq_ok hwf hadvance
      have hentry := hadvanced.found
      rw [MissTable.entryAt_of_get hget] at hentry
      cases hentry
      have hfound : miss.entryAt index = some { entry.unindexed with filled, token := next } := by
        rw [hadvanced.entryAt, Function.update_self]
      refine .inl ⟨next, hfound, hadvanced.pending, hfilled, ?_, ?_, ⟨fd, _, driver, hread⟩⟩
      · exact hwf'.mem_pending hfound hadvanced.pending
      · change flushed.locked.table.lookup entry.page = none
        rw [hlocked]
        exact hunmapped
    · cases hact
      refine .inr (releaseAndFail_eq_ok ?_ ?_ h)
      · exact hlocked ▸ hwf
      · exact hlocked ▸ hunmapped
  · exact .inr (releaseAndFail_eq_ok hwf hunmapped h)

/-- A completion that fills the granule makes the page resident. Any other one is followed by an
attempt at the rest, or the read fails. -/
theorem routeReadCompletion_eq_ok (hwf : pool.locked.miss.WellFormed) {result : IoResult}
    {value : Unit} (hget : pool.locked.miss.slots.get index = some entry)
    (hunmapped : pool.locked.table.lookup entry.page = none) (hfilled : entry.filled < C.granule)
    (hlen : transferred result ≤ C.granule - entry.filled)
    (h : (routeReadCompletion C index entry entry.frame result).run pool = .ok (value, after)) :
    (entry.filled + transferred result = C.granule ∧ Succeeded after index entry) ∨
      (entry.filled + transferred result < C.granule ∧
        ((∃ token, Awaits C after index { entry.unindexed with
          filled := entry.filled + transferred result, token }) ∨ Failed after index entry)) := by
  unfold routeReadCompletion at h
  split at h
  · exact .inr ⟨hfilled, .inr (releaseAndFail_eq_ok hwf hunmapped h)⟩
  · rename_i bytes _
    change bytes ≤ C.granule - entry.filled at hlen
    split at h
    · rename_i hfull
      rw [Program.run_bind_eq_ok] at h
      obtain ⟨_, published, hpublish, h⟩ := h
      obtain ⟨locked, hlocked, rfl⟩ := run_update_eq_ok hpublish
      simp only [releaseAndPublish, bind_eq_ok, liftM_eq_ok] at hlocked
      obtain ⟨released, hrelease, hstate⟩ := hlocked
      obtain ⟨reads, rfl⟩ := releaseReadCredit_eq_ok hrelease
      simp only [Locked.publish, bind_eq_ok, ensure_eq_ok, pure_ok, Except.ok.injEq] at hstate
      obtain ⟨_, -, rfl⟩ := hstate
      obtain ⟨hframes, htable, houtcome⟩ := finishSuccess_eq_ok (by exact hwf) h
      have htotal : entry.filled + bytes = C.granule := by omega
      refine .inl ⟨htotal, ?_, ?_, houtcome⟩
      · rw [htable]
        exact Finmap.lookup_insert _
      · rw [hframes]
        simp only [Locked.setFrame, Function.update_self]
    · rename_i hshort
      have hless : entry.filled + bytes < C.granule := Nat.lt_of_not_le hshort
      exact .inr ⟨hless, routeReadCompletionRemainder_eq_ok hwf hget hunmapped hless h⟩
  · exact .inr ⟨hfilled, .inr (releaseAndFail_eq_ok hwf hunmapped h)⟩

/-! ## A chain of completions -/

/-- The completions of one page read, each with the miss as it was found. Whatever else the pool does
in between leads to a reachable pool, and leaves the pending miss as it is. -/
inductive Completions (C : Config) (index : ℕ) (start : Pool) :
    List (MissEntry × IoResult) → Pool → Prop
  | start : Completions C index start [] start
  | complete {log : List (MissEntry × IoResult)} {before pool after : Pool} {c : Custody}
    {entry : MissEntry} {result : IoResult} (h : Completions C index start log before)
    (hreach : Reach C c pool) (hsettling : c.settling = none)
    (hkept : pool.locked.miss.entryAt index = before.locked.miss.entryAt index)
    (hget : pool.locked.miss.slots.get index = some entry) (hpending : entry.outcome = .pending)
    (hlen : transferred result ≤ C.granule - entry.filled)
    (hroute : (routeReadCompletion C index entry entry.frame result).run pool = .ok ((), after)) :
    Completions C index start (log ++ [(entry.unindexed, result)]) after

/-- How many bytes the completions brought. -/
def received (log : List (MissEntry × IoResult)) : ℕ :=
  (log.map fun completion ↦ transferred completion.2).sum

theorem received_concat (log : List (MissEntry × IoResult)) (completion : MissEntry × IoResult) :
    received (log ++ [completion]) = received log + transferred completion.2 := by
  simp [received]

/-- The attempts of a read: each is for the miss and the frame of the first one, and starts where the
bytes of those before it end. -/
def Contiguous (entry : MissEntry) (log : List (MissEntry × IoResult)) : Prop :=
  ∀ position completion, log[position]? = some completion → ∃ token,
    completion.1 = { entry with filled := received (log.take position), token }

theorem Contiguous.concat {log : List (MissEntry × IoResult)} {result : IoResult} {token : OpToken}
    (h : Contiguous entry log) :
    Contiguous entry (log ++ [({ entry with filled := received log, token }, result)]) := by
  intro position completion hposition
  rcases Nat.lt_trichotomy position log.length with hlt | rfl | hgt
  · rw [List.getElem?_append_left hlt] at hposition
    rw [List.take_append_of_le_length hlt.le]
    exact h position completion hposition
  · rw [List.getElem?_concat_length] at hposition
    cases hposition
    rw [List.take_left']
    · exact ⟨token, rfl⟩
    · rfl
  · rw [List.getElem?_eq_none (by simpa using hgt)] at hposition
    cases hposition

/-- Where a read is after some completions. -/
structure Progress (C : Config) (index : ℕ) (entry : MissEntry) (log : List (MissEntry × IoResult))
    (pool : Pool) : Prop where
  contiguous : Contiguous entry log
  submitted : ∀ completion ∈ log, ∃ fd before shared, Shared.submitRead C.driver fd entry.frame
    (readSpan entry.page C.granule completion.1.filled).1 completion.1.filled
    (readSpan entry.page C.granule completion.1.filled).2 before =
      .ok (.ok completion.1.token, shared)
  outcome : (received log = C.granule ∧ Succeeded pool index entry) ∨
    (received log < C.granule ∧
      ((∃ token, Awaits C pool index { entry with filled := received log, token }) ∨
        Failed pool index entry))

theorem Completions.progress {start : Pool} {log : List (MissEntry × IoResult)}
    (hstart : Awaits C start index entry) (hfilled : entry.filled = 0)
    (h : Completions C index start log pool) : Progress C index entry log pool := by
  induction h with
  | start =>
    refine ⟨fun position completion hposition ↦ ?_, fun completion hmem ↦ ?_, .inr ⟨?_, .inl ?_⟩⟩
    · cases hposition
    · cases hmem
    · have hlt := hstart.filled_lt
      rw [hfilled] at hlt
      exact hlt
    · refine ⟨entry.token, ?_⟩
      have hsame : ({ entry with filled := received [], token := entry.token } : MissEntry) = entry := by
        change ({ entry with filled := 0 } : MissEntry) = entry
        rw [← hfilled]
      rw [hsame]
      exact hstart
  | @complete log before pool after c found result hchain hreach hsettling hkept hget hpending hlen
      hroute ih =>
    have hentry : before.locked.miss.entryAt index = some found.unindexed :=
      hkept.symm.trans (MissTable.entryAt_of_get hget)
    -- The miss is still pending, so that neither end has come yet.
    rcases ih.outcome with ⟨-, hsucceeded⟩ | ⟨hshort, ⟨token, hawaits⟩ | hfailed⟩
    · have hover := hsucceeded.outcome _ hentry
      rw [show found.unindexed.outcome = found.outcome from rfl, hpending] at hover
      cases hover
    · have hsame := hawaits.found
      rw [hentry, Option.some_inj] at hsame
      have hunmapped : pool.locked.table.lookup found.page = none :=
        hreach.paged.fresh index found.unindexed ⟨MissTable.entryAt_of_get hget, hpending⟩
          fun settled hsettled ↦ by rw [hsettling] at hsettled; cases hsettled
      have hpage := congrArg MissEntry.page hsame
      have hframe := congrArg MissEntry.frame hsame
      have hcount := congrArg MissEntry.filled hsame
      change found.page = entry.page at hpage
      change found.frame = entry.frame at hframe
      change found.filled = received log at hcount
      have hstep := routeReadCompletion_eq_ok hreach.credited.table hget hunmapped
        (hcount ▸ hshort) hlen hroute
      rw [hcount] at hstep
      refine ⟨?_, ?_, ?_⟩
      · rw [hsame]
        exact ih.contiguous.concat
      · rw [List.forall_mem_append, List.forall_mem_singleton]
        refine ⟨ih.submitted, ?_⟩
        rw [hsame]
        exact hawaits.submitted
      · rw [received_concat]
        rcases hstep with ⟨hfull, hsucceeded⟩ | ⟨hless, ⟨next, hnext⟩ | hfailed⟩
        · exact .inl ⟨hfull, hsucceeded.congr hpage hframe⟩
        · rw [hsame] at hnext
          exact .inr ⟨hless, .inl ⟨next, hnext⟩⟩
        · exact .inr ⟨hless, .inr (hfailed.congr hpage hframe)⟩
    · obtain ⟨errno, hover⟩ := hfailed.outcome _ hentry
      rw [show found.unindexed.outcome = found.outcome from rfl, hpending] at hover
      cases hover

end PointRead

end DiosPool.Pool
