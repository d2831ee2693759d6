import DiosPool.Foundation.Cyclic
import DiosPool.Pool.FailedMiss
import DiosPool.Pool.FileMembers
import DiosPool.Pool.MissIndex
import DiosPool.Pool.Programs.Steps
import DiosPool.Pool.Reclaim

/-!
# Sweeps of the clock

A sweep of the clock passes the frames whose reference bits are set, clears their bits and stops at
the first clear one. A frame that may not be evicted is swept like any other, so that an eviction can
take many sweeps. Each sweep moves the hand on, and no frame is passed more than once without being
found: after two rotations every frame was the victim of a sweep.
-/

namespace DiosPool.Pool

open Foundation Foundation.Cyclic

/-! ## One sweep -/

namespace Clock

/-- The bits after the hand passed `count` frames. -/
def clearPassed (frames hand count : ℕ) (bits : ℕ → Bool) (frame : ℕ) : Bool :=
  if ∃ distance < count, walk frames hand distance = frame then false else bits frame

/-- One sweep: the hand passes `passed` frames whose bits are set and stops at the first frame with a
clear bit, or after a full rotation. -/
structure Swept (frames : ℕ) (clock : Clock) (passed victim : ℕ) (after : Clock) : Prop where
  le : passed ≤ frames
  set : ∀ distance < passed, clock.referenceBits (walk frames clock.hand distance) = true
  victim_eq : victim = walk frames clock.hand passed
  clear : clock.referenceBits victim = false ∨ passed = frames
  after_eq : after = { clock with
    referenceBits := clearPassed frames clock.hand passed clock.referenceBits
    hand := walk frames victim 1 }

variable {frames hand : ℕ}

theorem clearPassed_zero (bits : ℕ → Bool) : clearPassed frames hand 0 bits = bits := by
  funext frame
  simp [clearPassed]

/-- The hand passes a frame, and then some more. -/
theorem clearPassed_succ (hhand : hand < frames) (count : ℕ) (bits : ℕ → Bool) :
    clearPassed frames (walk frames hand 1) count (Function.update bits hand false) =
      clearPassed frames hand (count + 1) bits := by
  funext frame
  have hshift : (∃ distance < count + 1, walk frames hand distance = frame) ↔
      hand = frame ∨ ∃ distance < count, walk frames (walk frames hand 1) distance = frame := by
    rw [Nat.exists_lt_succ_left, walk_zero hhand]
    simp only [walk_walk, Nat.add_comm 1]
  by_cases hframe : frame = hand
  · subst hframe
    rw [clearPassed, clearPassed, if_pos (hshift.mpr (.inl rfl)), Function.update_self, ite_self]
  · simp only [clearPassed, hshift, Function.update_of_ne hframe, Ne.symm hframe, false_or]

/-- A sweep stops at the first frame whose bit is clear by then. -/
theorem run_sweep (passed : ℕ) :
    ∀ fuel hand (memory : Speculative), hand < frames → passed < fuel → passed ≤ frames →
      (∀ distance < passed, memory.clock.referenceBits (walk frames hand distance) = true) →
      clearPassed frames hand passed memory.clock.referenceBits (walk frames hand passed) = false →
      (sweep LedgerM.clockLens frames fuel hand).run memory = .ok (walk frames hand passed,
        { memory with clock := { memory.clock with
          referenceBits := clearPassed frames hand passed memory.clock.referenceBits
          hand := walk frames (walk frames hand passed) 1 } }) := by
  induction passed with
  | zero =>
    intro fuel hand memory hhand hfuel _ _ hclear
    obtain ⟨fuel, rfl⟩ := Nat.exists_eq_succ_of_ne_zero hfuel.ne'
    rw [walk_zero hhand, clearPassed_zero] at hclear ⊢
    simp [sweep, Program.load, LedgerM.clockLens, hclear, setHand, Program.store, Program.run, walk]
  | succ passed ih =>
    intro fuel hand memory hhand hfuel hpassed hset hclear
    obtain ⟨fuel, rfl⟩ := Nat.exists_eq_succ_of_ne_zero (Nat.ne_zero_of_lt hfuel)
    have hpos := Nat.zero_lt_of_lt hhand
    have hbit : memory.clock.referenceBits hand = true := by
      simpa [walk_zero hhand] using hset 0 (Nat.succ_pos _)
    have hwalk (distance : ℕ) : walk frames (walk frames hand 1) distance =
        walk frames hand (distance + 1) := by rw [walk_walk, Nat.add_comm]
    have hrest := ih fuel (walk frames hand 1) { memory with clock := { memory.clock with
        referenceBits := Function.update memory.clock.referenceBits hand false } }
      (walk_lt hpos _ _) (Nat.lt_of_succ_lt_succ hfuel) (Nat.le_of_succ_le hpassed)
      (fun distance hdistance ↦ by
        dsimp only
        rw [hwalk, Function.update_of_ne]
        · exact hset _ (Nat.succ_lt_succ hdistance)
        · -- The frames ahead are not the one that was just passed.
          intro hback
          have hzero : walk frames hand (distance + 1) = walk frames hand 0 := by
            rw [hback, walk_zero hhand]
          exact absurd (walk_injective hhand (by omega) hpos hzero) (Nat.succ_ne_zero _))
      (by rw [hwalk, clearPassed_succ hhand, hclear])
    simp only [hwalk, clearPassed_succ hhand] at hrest
    rw [← hrest]
    simp [sweep, Program.load, LedgerM.clockLens, hbit, setReference, Program.store, Program.run,
      walk]

theorem run_evictVictimShared (memory : Speculative) (hhand : memory.clock.hand < frames) :
    ∃ passed victim clock, Swept frames memory.clock passed victim clock ∧
      (evictVictimShared LedgerM.clockLens frames).run memory =
        .ok (victim, { memory with clock }) := by
  have hload : (evictVictimShared LedgerM.clockLens frames).run memory =
      (sweep LedgerM.clockLens frames (frames + 1) memory.clock.hand).run memory := rfl
  rw [hload]
  by_cases hexists : ∃ distance < frames,
      memory.clock.referenceBits (walk frames memory.clock.hand distance) = false
  · classical
    obtain ⟨hlt, hclear⟩ := Nat.find_spec hexists
    have hset (distance : ℕ) (hdistance : distance < Nat.find hexists) :
        memory.clock.referenceBits (walk frames memory.clock.hand distance) = true := by
      have hmin := Nat.find_min hexists hdistance
      rw [not_and, Bool.not_eq_false] at hmin
      exact hmin (hdistance.trans hlt)
    refine ⟨Nat.find hexists, _, _, ⟨hlt.le, hset, rfl, .inl hclear, rfl⟩,
      run_sweep _ _ _ memory hhand (Nat.lt_succ_of_lt hlt) hlt.le hset ?_⟩
    rw [clearPassed, hclear, ite_self]
  · have hset (distance : ℕ) (hdistance : distance < frames) :
        memory.clock.referenceBits (walk frames memory.clock.hand distance) = true := by
      by_contra hclear
      exact hexists ⟨distance, hdistance, Bool.eq_false_of_not_eq_true hclear⟩
    have hback : walk frames memory.clock.hand frames = memory.clock.hand := by
      simp [walk, Nat.mod_eq_of_lt hhand]
    refine ⟨frames, _, _, ⟨le_rfl, hset, rfl, .inr rfl, rfl⟩,
      run_sweep _ _ _ memory hhand (Nat.lt_succ_self _) le_rfl hset ?_⟩
    rw [hback]
    exact if_pos ⟨0, Nat.zero_lt_of_lt hhand, walk_zero hhand⟩

/-! ## The way to a frame -/

/-- How far the hand has to move until a frame is the victim, whatever is swept before. -/
def distanceTo (frames : ℕ) (clock : Clock) (frame : ℕ) : ℕ :=
  ahead frames clock.hand frame + if clock.referenceBits frame then frames else 0

theorem distanceTo_lt {clock : Clock} (hpos : 0 < frames) (frame : ℕ) :
    clock.distanceTo frames frame < 2 * frames := by
  have hahead := ahead_lt hpos clock.hand frame
  unfold distanceTo
  split <;> omega

namespace Swept

variable {clock after : Clock} {passed victim frame : ℕ}

theorem victim_lt (h : Swept frames clock passed victim after) (hhand : clock.hand < frames) :
    victim < frames := by
  rw [h.victim_eq]
  exact walk_lt (Nat.zero_lt_of_lt hhand) _ _

theorem hand_lt (h : Swept frames clock passed victim after) (hhand : clock.hand < frames) :
    after.hand < frames := by
  rw [h.after_eq]
  exact walk_lt (Nat.zero_lt_of_lt hhand) _ _

theorem speculation_eq (h : Swept frames clock passed victim after) :
    after.speculation = clock.speculation := by
  rw [h.after_eq]

/-- A sweep that does not stop at a frame comes closer to it. -/
theorem distanceTo_decreases (h : Swept frames clock passed victim after)
    (hhand : clock.hand < frames) (hframe : frame < frames) (hother : victim ≠ frame) :
    after.distanceTo frames frame < clock.distanceTo frames frame := by
  have hpos := Nat.zero_lt_of_lt hhand
  have hlt := ahead_lt hpos clock.hand frame
  have hwalk := walk_ahead hhand hframe
  have hvictim := h.victim_eq
  have hle := h.le
  have hrotation (distance : ℕ) :
      walk frames clock.hand (distance + frames) = walk frames clock.hand distance := by
    rw [← walk_mod, Nat.add_mod_right, walk_mod]
  have hne : passed ≠ ahead frames clock.hand frame := by
    rintro rfl
    exact hother (hvictim.trans hwalk)
  have hne' : passed ≠ ahead frames clock.hand frame + frames := by
    rintro rfl
    rw [hrotation, hwalk] at hvictim
    exact hother hvictim
  have hhand' : after.hand = walk frames clock.hand (passed + 1) := by
    rw [h.after_eq]
    dsimp only
    rw [hvictim, walk_walk]
  have hnear : ahead frames after.hand frame = (ahead frames clock.hand frame + frames -
      (passed + 1)) % frames := by
    have hreach : walk frames after.hand ((ahead frames clock.hand frame + frames -
        (passed + 1)) % frames) = frame := by
      rw [walk_mod, hhand', walk_walk, Nat.add_sub_cancel' (by omega), hrotation, hwalk]
    have hahead := ahead_walk (h.hand_lt hhand) (Nat.mod_lt (ahead frames clock.hand frame + frames -
      (passed + 1)) hpos)
    rwa [hreach] at hahead
  by_cases hpassed : ahead frames clock.hand frame < passed
  · -- The frame was passed: its bit was set, and is clear now.
    have hbit : clock.referenceBits frame = true := by
      have hset := h.set _ hpassed
      rwa [hwalk] at hset
    have hcleared : after.referenceBits frame = false := by
      rw [h.after_eq]
      exact if_pos ⟨_, hpassed, hwalk⟩
    unfold distanceTo
    rw [hbit, hcleared, hnear, Nat.mod_eq_of_lt (by omega)]
    simp
    omega
  · have hkept : after.referenceBits frame = clock.referenceBits frame := by
      rw [h.after_eq]
      refine if_neg ?_
      rintro ⟨distance, hdistance, hsame⟩
      have hahead := ahead_walk hhand (show distance < frames by omega)
      rw [hsame] at hahead
      omega
    unfold distanceTo
    have hahead : ahead frames clock.hand frame + frames - (passed + 1) =
        ahead frames clock.hand frame - (passed + 1) + frames := by omega
    rw [hkept, hnear, hahead, Nat.add_mod_right, Nat.mod_eq_of_lt (by omega)]
    omega

end Swept

end Clock

/-! ## Evictions -/

namespace MissTable

/-- Nobody waits for the page that a finished read brought into a frame. -/
def Unwaited (miss : MissTable) (interests : MissInterests) (frame : ℕ) : Prop :=
  ∀ slot generation, miss.successFrames frame = some (slot, generation) →
    interests.waiters slot generation = some 0

variable {miss : MissTable} {interests : MissInterests} {frame : ℕ} {members : ℕ → List ℕ}

/-- The mark of a finished read that nobody waits for is taken off its frame. -/
theorem WellFormed.clean_mark (hwf : miss.WellFormed) (hlists : miss.slots.Lists members)
    {slot generation : ℕ} (hmark : miss.successFrames frame = some (slot, generation))
    (hwaiters : interests.waiters slot generation = some 0) :
    ∃ slots members', miss.cleanTerminalZero interests slot generation = .ok { miss with
        slots, successFrames := Function.update miss.successFrames frame none } ∧
      slots.Lists members' := by
  obtain ⟨entry, hentry, houtcome, rfl, rfl⟩ := (hwf.success frame slot generation).mp hmark
  obtain ⟨indexed, hget, rfl⟩ := entryAt_eq_some hentry
  obtain ⟨slots, hremove, -, hlists'⟩ := hlists.remove hget rfl
  have hsucceeded : indexed.outcome = .succeeded := houtcome
  have hterminal : indexed.generation = indexed.unindexed.generation ∧ indexed.outcome ≠ .pending ∧
      interests.waiters slot indexed.unindexed.generation = some 0 := by
    refine ⟨rfl, ?_, hwaiters⟩
    rw [hsucceeded]
    simp
  refine ⟨slots, _, ?_, hlists'⟩
  simp only [cleanTerminalZero, hget, if_pos hterminal, if_pos hsucceeded]
  rw [ensure_true (show miss.successFrames indexed.frame = some (slot, indexed.unindexed.generation)
    from hmark)]
  simp only [ok_bind, pure_ok, hremove]
  rfl

/-- An eviction is prepared exactly if nobody waits, and no other mark is touched. -/
theorem WellFormed.prepares (hwf : miss.WellFormed) (hlists : miss.slots.Lists members)
    (interests : MissInterests) (frame : ℕ) :
    ∃ prepared after members', miss.prepareEviction interests frame = .ok (prepared, after) ∧
      (prepared = true ↔ miss.Unwaited interests frame) ∧ after.slots.Lists members' ∧
      ∀ other, after.successFrames other = miss.successFrames other ∨
        after.successFrames other = none ∧ miss.Unwaited interests other := by
  cases hmark : miss.successFrames frame with
  | none =>
    refine ⟨true, miss, members, ?_, ?_, hlists, fun _ ↦ .inl rfl⟩
    · simp [prepareEviction, hmark]
    · simp [Unwaited, hmark]
  | some mark =>
    by_cases hwaiters : interests.waiters mark.1 mark.2 = some 0
    · obtain ⟨slots, members', hclean, hlists'⟩ := hwf.clean_mark hlists hmark hwaiters
      have hunwaited : miss.Unwaited interests frame := by
        intro slot generation hmark'
        rw [hmark] at hmark'
        cases hmark'
        exact hwaiters
      refine ⟨true, { miss with
        slots, successFrames := Function.update miss.successFrames frame none }, members', ?_, ?_,
        hlists', fun other ↦ ?_⟩
      · simp only [prepareEviction, hmark, hwaiters, ne_eq, not_true, if_false, hclean, ok_bind]
        rw [ensure_true (by simp)]
        rfl
      · simp [hunwaited]
      · by_cases hother : other = frame
        · subst hother
          exact .inr ⟨Function.update_self .., hunwaited⟩
        · exact .inl (Function.update_of_ne hother ..)
    · refine ⟨false, miss, members, ?_, ?_, hlists, fun _ ↦ .inl rfl⟩
      · simp [prepareEviction, hmark, hwaiters]
      · simp only [Bool.false_eq_true, false_iff]
        exact fun hunwaited ↦ hwaiters (hunwaited _ _ hmark)

/-- A preparation that succeeds only takes marks away, and is refused only by a waiter. -/
theorem prepareEviction_marks {prepared : Bool} {after : MissTable}
    (h : miss.prepareEviction interests frame = .ok (prepared, after)) :
    (∀ other, after.successFrames other = miss.successFrames other ∨
      after.successFrames other = none) ∧ (miss.Unwaited interests frame → prepared = true) := by
  refine ⟨fun other ↦ ?_, fun hunwaited ↦ ?_⟩
  · rcases prepareEviction_eq_ok h with rfl | ⟨slot, entry, hcleaned⟩
    · exact .inl rfl
    · rw [hcleaned.success]
      split
      · by_cases hother : other = entry.frame
        · exact .inr (hother ▸ Function.update_self ..)
        · exact .inl (Function.update_of_ne hother ..)
      · exact .inl rfl
  · unfold prepareEviction at h
    cases hmark : miss.successFrames frame with
    | none =>
      rw [hmark] at h
      cases h
      rfl
    | some mark =>
      rw [hmark] at h
      simp only [hunwaited _ _ hmark, ne_eq, not_true, if_false, bind_eq_ok, pure_ok,
        Except.ok.injEq, Prod.mk.injEq] at h
      obtain ⟨_, -, _, -, rfl, -⟩ := h
      rfl

end MissTable

/-- The frame is resident, nobody waits for its page, and it is not speculative. -/
structure Eligible (pool : Pool) (frame : ℕ) : Prop where
  resident : (pool.locked.frames frame).state = .resident
  unwaited : pool.locked.miss.Unwaited pool.unlocked.interests frame
  demanded : pool.unlocked.clock.speculation frame = .absent

/-- The bookkeeping that an eviction asserts: the finished reads are listed, a resident frame is
mapped and indexed and fits the queue, and a frame without a marker has no credit. -/
structure Orderly (C : Config) (pool : Pool) : Prop where
  misses : pool.locked.miss.WellFormed
  listed : ∃ members, pool.locked.miss.slots.Lists members
  mapped : ∀ frame, (pool.locked.frames frame).state = .resident →
    pool.locked.table.lookup (pool.locked.frames frame).page = some frame
  indexed : ∀ frame, (pool.locked.frames frame).state = .resident →
    (pool.locked.framePages.get frame).isSome
  queue : ∀ frame, (pool.locked.frames frame).state = .resident →
    pool.locked.evictQueue.length < C.frameCount
  credits : ∀ frame, pool.unlocked.clock.speculation frame = .absent →
    pool.locked.ledger.frameEntries frame = none

/-- An eligible frame was evicted: it is unmapped and waits in the queue, and the other frames are as
they were. -/
structure Evicts (before : Pool) (victim : ℕ) (after : Pool) : Prop where
  eligible : Eligible before victim
  frames : after.locked.frames = Function.update before.locked.frames victim
    { before.locked.frames victim with state := .evicting }
  table : after.locked.table = before.locked.table.erase (before.locked.frames victim).page
  queue : after.locked.evictQueue =
    before.locked.evictQueue ++ [(victim, before.locked.globalEpoch)]

namespace LedgerM

variable {frames frame : ℕ} {memory : Speculative}

theorem run_isSpeculative (hframe : frame < frames) :
    (Clock.isSpeculative clockLens frames frame).run memory =
      .ok (decide (memory.clock.speculation frame ≠ .absent), memory) := by
  rw [Clock.isSpeculative, ensure_true hframe]
  rfl

/-- A frame without credit and marker has nothing to finish. -/
theorem run_finish_of_absent {G : PrefetchGeometry} {terminal : Terminal} (hframe : frame < G.frames)
    (hentry : memory.ledger.frameEntries frame = none)
    (hmarker : memory.clock.speculation frame = .absent) :
    (finish G frame terminal).run memory = .ok ((), memory) := by
  rw [finish, readLedger, Program.run_bind, Program.run_load, ok_bind, hentry]
  dsimp only
  rw [Program.run_bind, run_isSpeculative hframe, ok_bind, hmarker]
  rfl

end LedgerM

section Evictions

variable {C : Config} {pool : Pool} {frame : ℕ}

theorem run_evictVictimShared (hhand : pool.unlocked.clock.hand < C.frameCount) :
    ∃ passed victim clock, pool.unlocked.clock.Swept C.frameCount passed victim clock ∧
      (PoolM.ledger (Clock.evictVictimShared LedgerM.clockLens C.frameCount)).run pool =
        .ok (victim, pool.setClock clock) := by
  obtain ⟨passed, victim, clock, hswept, hrun⟩ :=
    Clock.run_evictVictimShared (speculativeLens.get pool) hhand
  refine ⟨passed, victim, clock, hswept, ?_⟩
  rw [run_ledger, hrun]
  rfl

theorem run_isSpeculative (hframe : frame < C.frameCount) :
    (PoolM.ledger (Clock.isSpeculative LedgerM.clockLens C.frameCount frame)).run pool =
      .ok (decide (pool.unlocked.clock.speculation frame ≠ .absent), pool) := by
  rw [run_ledger, LedgerM.run_isSpeculative hframe]
  rfl

/-- A turn that evicts nothing moves the hand, and may take a mark off that nobody waits for. -/
structure Skips (before after : Pool) : Prop where
  eq : ∃ clock miss, after = { before.setClock clock with locked := { before.locked with miss } }
  speculation : after.unlocked.clock.speculation = before.unlocked.clock.speculation
  marks : ∀ frame, after.locked.miss.successFrames frame = before.locked.miss.successFrames frame ∨
    after.locked.miss.successFrames frame = none ∧
      before.locked.miss.Unwaited before.unlocked.interests frame

namespace Skips

variable {before after last : Pool}

theorem eligible_iff (h : Skips before after) :
    Eligible after frame ↔ Eligible before frame := by
  have hspeculation := h.speculation
  have hmark := h.marks frame
  obtain ⟨clock, miss, rfl⟩ := h.eq
  refine ⟨fun heligible ↦ ⟨heligible.resident, ?_, ?_⟩, fun heligible ↦ ⟨heligible.resident, ?_, ?_⟩⟩
  · rcases hmark with hsame | ⟨-, hunwaited⟩
    · intro slot generation hmark
      exact heligible.unwaited slot generation (hsame.trans hmark)
    · exact hunwaited
  · rw [← hspeculation]
    exact heligible.demanded
  · intro slot generation hmark'
    rcases hmark with hsame | ⟨hnone, -⟩
    · exact heligible.unwaited slot generation (hsame.symm.trans hmark')
    · rw [hnone] at hmark'
      cases hmark'
  · rw [hspeculation]
    exact heligible.demanded

theorem orderly (h : Skips before after) (horderly : Orderly C before)
    (hwf : after.locked.miss.WellFormed)
    (hlists : ∃ members, after.locked.miss.slots.Lists members) : Orderly C after := by
  have hspeculation := h.speculation
  obtain ⟨clock, miss, rfl⟩ := h.eq
  refine ⟨hwf, hlists, horderly.mapped, horderly.indexed, horderly.queue, fun frame hmarker ↦ ?_⟩
  rw [hspeculation] at hmarker
  exact horderly.credits frame hmarker

theorem evicts {victim : ℕ} (h : Skips before after) (hevicts : Evicts after victim last) :
    Evicts before victim last := by
  have heligible := h.eligible_iff.mp hevicts.eligible
  obtain ⟨clock, miss, rfl⟩ := h.eq
  exact ⟨heligible, hevicts.frames, hevicts.table, hevicts.queue⟩

end Skips

/-- A sweep alone. -/
theorem Clock.Swept.skips {passed victim : ℕ} {clock : Clock}
    (h : pool.unlocked.clock.Swept C.frameCount passed victim clock) :
    Skips pool (pool.setClock clock) :=
  ⟨⟨clock, pool.locked.miss, rfl⟩, h.speculation_eq, fun _ ↦ .inl rfl⟩

/-- A sweep, and a victim that was prepared for its eviction or is waited for. -/
theorem run_prepareEviction (h : Orderly C pool) (frame : ℕ) :
    ∃ prepared after, (prepareEviction frame).run pool = .ok (prepared, after) ∧ Skips pool after ∧
      after.unlocked = pool.unlocked ∧ Orderly C after ∧ (prepared = true ↔
        pool.locked.miss.Unwaited pool.unlocked.interests frame) := by
  obtain ⟨members, hlists⟩ := h.listed
  obtain ⟨prepared, miss, members', hprepare, hprepared, hlists', hmarks⟩ :=
    h.misses.prepares hlists pool.unlocked.interests frame
  have hskips : Skips pool { pool with locked := { pool.locked with miss } } :=
    ⟨⟨pool.unlocked.clock, miss, rfl⟩, rfl, hmarks⟩
  refine ⟨prepared, _, ?_, hskips, rfl, hskips.orderly h (h.misses.prepared hprepare) ⟨_, hlists'⟩,
    hprepared⟩
  rw [prepareEviction, Program.run_act, hprepare]
  rfl

/-- An eligible frame is evicted. -/
theorem run_evictResident (h : Orderly C pool) (heligible : Eligible pool frame)
    (hframe : frame < C.frameCount) :
    ∃ after, (evictResident C frame).run pool = .ok ((), after) ∧ Evicts pool frame after := by
  have hresident := heligible.resident
  have hpage : pool.locked.exactPageLocked frame = .ok (pool.locked.frames frame).page := by
    simp [Locked.exactPageLocked, hresident]
  have hremoved : pool.locked.removeShared (pool.locked.frames frame).page =
      (some frame, { pool.locked with
        table := pool.locked.table.erase (pool.locked.frames frame).page }) :=
    Prod.ext (h.mapped frame hresident) rfl
  have hcredit : pool.locked.ledger.frameEntries frame = none := h.credits frame heligible.demanded
  have hfinish (seen : Pool) (hledger : seen.locked.ledger = pool.locked.ledger)
      (hclock : seen.unlocked.clock = pool.unlocked.clock) :
      (PoolM.ledger (LedgerM.finish C.prefetch frame .evicted)).run seen = .ok ((), seen) := by
    have hentry : (speculativeLens.get seen).ledger.frameEntries frame = none :=
      (congrFun (congrArg Ledger.frameEntries hledger) frame).trans hcredit
    have hmarker : (speculativeLens.get seen).clock.speculation frame = .absent :=
      (congrFun (congrArg Clock.speculation hclock) frame).trans heligible.demanded
    have hframes : frame < C.prefetch.frames := hframe
    rw [run_ledger, LedgerM.run_finish_of_absent hframes hentry hmarker]
    rfl
  have hadvance (locked : Locked) (hframes : locked.frames = pool.locked.frames) :
      locked.advance frame .evicting = .ok (locked.setFrame frame
        { locked.frames frame with state := .evicting }) := by
    simp [Locked.advance, hframes, hresident]
  have hroom : pool.locked.evictQueue.length < C.frameCount := h.queue frame hresident
  rw [evictResident, Program.run_bind, PoolM.update, PoolM.locked, Program.run_act, hpage]
  simp only [liftM_ok, ok_bind, hremoved, ensure_true trivial, pure_ok]
  rw [Program.run_bind, hfinish, ok_bind, enqueueEvicting, PoolM.update, PoolM.locked,
    Program.run_act, hadvance]
  · simp only [liftM_ok, ok_bind, Locked.pushEvict, Locked.setFrame, if_pos hroom, pure_ok]
    exact ⟨_, rfl, ⟨heligible, rfl, rfl, rfl⟩⟩
  · rfl
  · rfl
  · rfl

/-- Every turn evicts its victim or brings the hand closer to the frame. -/
theorem run_evictClockVictimFrom (hframe : frame < C.frameCount) (turns : ℕ) :
    ∀ pool, Orderly C pool → pool.unlocked.clock.hand < C.frameCount → Eligible pool frame →
      pool.unlocked.clock.distanceTo C.frameCount frame < turns →
      ∃ victim after, (evictClockVictimFrom C turns).run pool = .ok (true, after) ∧
        Evicts pool victim after := by
  induction turns with
  | zero => exact fun pool _ _ _ hturns ↦ absurd hturns (Nat.not_lt_zero _)
  | succ turns ih =>
    intro pool horderly hhand heligible hturns
    obtain ⟨passed, victim, clock, hswept, hsweep⟩ := run_evictVictimShared (C := C) hhand
    have hskips := hswept.skips
    have horderly' : Orderly C (pool.setClock clock) :=
      hskips.orderly horderly horderly.misses horderly.listed
    -- A turn that skips its victim leaves the rest to the turns that are left.
    have hskip (seen : Pool) (hseen : Skips (pool.setClock clock) seen)
        (hclock : seen.unlocked.clock = clock) (hseen' : Orderly C seen)
        (hother : ¬ Eligible seen victim) :
        ∃ victim after, (evictClockVictimFrom C turns).run seen = .ok (true, after) ∧
          Evicts pool victim after := by
      have heligible' : Eligible seen frame :=
        hseen.eligible_iff.mpr (hskips.eligible_iff.mpr heligible)
      have hcloser := hswept.distanceTo_decreases hhand hframe fun hsame ↦
        hother (hsame ▸ heligible')
      obtain ⟨victim', after, hrun, hevicts⟩ := ih seen hseen' (hclock ▸ hswept.hand_lt hhand)
        heligible' (by rw [hclock]; omega)
      exact ⟨victim', after, hrun, hskips.evicts (hseen.evicts hevicts)⟩
    rw [evictClockVictimFrom, Program.run_bind, hsweep, ok_bind, PoolM.read, Program.run_bind,
      Program.run_load, ok_bind]
    by_cases hresident : ((pool.setClock clock).locked.frames victim).state = .resident
    · obtain ⟨prepared, seen, hprepare, hseen, hunlocked, hseen', hprepared⟩ :=
        run_prepareEviction horderly' victim
      have hclock : seen.unlocked.clock = clock := hunlocked ▸ rfl
      simp only [hresident, ne_eq, not_true, decide_false, Bool.false_eq_true, if_false]
      rw [Program.run_bind, hprepare, ok_bind]
      cases prepared with
      | false =>
        refine hskip seen hseen hclock hseen' fun heligible' ↦ ?_
        exact Bool.false_ne_true (hprepared.mpr (hseen.eligible_iff.mp heligible').unwaited)
      | true =>
        simp only [Bool.not_true, Bool.false_eq_true, if_false]
        rw [Program.run_bind, run_isSpeculative (hswept.victim_lt hhand), ok_bind]
        by_cases hmarker : seen.unlocked.clock.speculation victim = .absent
        · have heligible' : Eligible seen victim :=
            hseen.eligible_iff.mpr ⟨hresident, hprepared.mp rfl, hseen.speculation ▸ hmarker⟩
          obtain ⟨after, hevict, hevicts⟩ :=
            run_evictResident hseen' heligible' (hswept.victim_lt hhand)
          refine ⟨victim, after, ?_, hskips.evicts (hseen.evicts hevicts)⟩
          simp only [hmarker, ne_eq, not_true, decide_false, Bool.false_eq_true, if_false]
          rw [Program.run_bind, PoolM.read, Program.run_load, ok_bind,
            ensure_true (hseen'.indexed victim heligible'.resident), Program.run_bind]
          exact Program.run_bind_eq_ok.mpr ⟨(), after, hevict, rfl⟩
        · simp only [hmarker, ne_eq, not_false_eq_true, decide_true, if_true]
          exact hskip seen hseen hclock hseen' fun heligible' ↦ hmarker heligible'.demanded
    · simp only [hresident, ne_eq, not_false_eq_true, decide_true, if_true]
      exact hskip _ ⟨⟨_, _, rfl⟩, rfl, fun _ ↦ .inl rfl⟩ rfl horderly' fun heligible' ↦
        hresident heligible'.resident

/-- No turn is the last one before the frame was the victim. -/
theorem evictClockVictimFrom_evicted (hframe : frame < C.frameCount) (turns : ℕ) :
    ∀ pool evicted after, pool.unlocked.clock.hand < C.frameCount → Eligible pool frame →
      pool.unlocked.clock.distanceTo C.frameCount frame < turns →
      (evictClockVictimFrom C turns).run pool = .ok (evicted, after) → evicted = true := by
  induction turns with
  | zero => exact fun pool _ _ _ _ hturns ↦ absurd hturns (Nat.not_lt_zero _)
  | succ turns ih =>
    intro pool evicted after hhand heligible hturns hrun
    obtain ⟨passed, victim, clock, hswept, hsweep⟩ := run_evictVictimShared (C := C) hhand
    have heligible' : Eligible (pool.setClock clock) frame :=
      hswept.skips.eligible_iff.mpr heligible
    have hskip (seen : Pool) (hseen : Eligible seen frame) (hclock : seen.unlocked.clock = clock)
        (hother : victim ≠ frame)
        (hrest : (evictClockVictimFrom C turns).run seen = .ok (evicted, after)) :
        evicted = true := by
      have hcloser := hswept.distanceTo_decreases hhand hframe hother
      exact ih seen evicted after (hclock ▸ hswept.hand_lt hhand) hseen (by rw [hclock]; omega) hrest
    rw [evictClockVictimFrom, Program.run_bind, hsweep, ok_bind, PoolM.read, Program.run_bind,
      Program.run_load, ok_bind] at hrun
    dsimp only at hrun
    split at hrun
    · rename_i hstate
      refine hskip _ heligible' rfl (fun hsame ↦ ?_) hrun
      simp [hsame, heligible'.resident] at hstate
    rw [Program.run_bind_eq_ok] at hrun
    obtain ⟨prepared, seen, hprepare, hrun⟩ := hrun
    rw [prepareEviction, Program.run_act, bind_eq_ok] at hprepare
    obtain ⟨⟨_, miss⟩, hmiss, hseen⟩ := hprepare
    rw [liftM_eq_ok] at hmiss
    cases hseen
    obtain ⟨hmarks, hprepared⟩ := MissTable.prepareEviction_marks hmiss
    have hseen : Eligible { pool.setClock clock with
        locked := { (pool.setClock clock).locked with miss } } frame := by
      refine ⟨heligible'.resident, fun slot generation hmark ↦ ?_, heligible'.demanded⟩
      rcases hmarks frame with hsame | hnone
      · exact heligible'.unwaited slot generation (hsame.symm.trans hmark)
      · rw [hnone] at hmark
        cases hmark
    cases prepared with
    | false =>
      refine hskip _ hseen rfl (fun hsame ↦ ?_) hrun
      exact Bool.false_ne_true (hprepared (hsame ▸ heligible'.unwaited))
    | true =>
      simp only [Bool.not_true, Bool.false_eq_true, if_false] at hrun
      rw [Program.run_bind, run_isSpeculative (hswept.victim_lt hhand), ok_bind] at hrun
      split at hrun
      · rename_i hmarker
        refine hskip _ hseen rfl (fun hsame ↦ ?_) hrun
        exact of_decide_eq_true hmarker (hsame ▸ heligible'.demanded)
      · simp only [Program.run_bind_eq_ok] at hrun
        obtain ⟨_, _, -, _, _, -, _, _, -, hrun⟩ := hrun
        cases hrun
        rfl

end Evictions

/-- A sweep finds the first clear bit and clears what it passed. However many frames cannot be
evicted, `evict_clock_victim` never gives up while one can be, and in an orderly pool it evicts. -/
theorem evictClockVictim_finds_victim (C : Config) :
    (∀ (frames : ℕ) (memory : Speculative), memory.clock.hand < frames →
      ∃ passed victim clock, memory.clock.Swept frames passed victim clock ∧
        (Clock.evictVictimShared LedgerM.clockLens frames).run memory =
          .ok (victim, { memory with clock })) ∧
    ∀ (pool : Pool) (frame : ℕ), pool.unlocked.clock.hand < C.frameCount → frame < C.frameCount →
      Eligible pool frame →
      (∀ evicted after, (evictClockVictim C).run pool = .ok (evicted, after) → evicted = true) ∧
      (Orderly C pool → ∃ victim after, (evictClockVictim C).run pool = .ok (true, after) ∧
        Evicts pool victim after) := by
  refine ⟨fun frames memory hhand ↦ Clock.run_evictVictimShared memory hhand, ?_⟩
  intro pool frame hhand hframe heligible
  have hdistance : pool.unlocked.clock.distanceTo C.frameCount frame < 2 * C.frameCount :=
    Clock.distanceTo_lt (Nat.zero_lt_of_lt hhand) frame
  refine ⟨fun evicted after hrun ↦ ?_, fun horderly ↦ ?_⟩
  · exact evictClockVictimFrom_evicted hframe _ pool evicted after hhand heligible
      (Nat.lt_succ_of_lt hdistance) hrun
  · exact run_evictClockVictimFrom hframe _ pool horderly hhand heligible
      (Nat.lt_succ_of_lt hdistance)

/-- One resident frame between free ones, all of them referenced. -/
def loneResident : Pool :=
  let pool := Pool.new fourFrames
  let page : PageId := ⟨⟨0, 0, 1⟩, 0⟩
  { locked := { pool.locked with
      frames := Function.update pool.locked.frames 2 ⟨.resident, 1, page⟩
      table := (∅ : Table.Pages).insert page 2
      framePages := ⟨Function.update (fun _ ↦ .vacant) 2 ⟨3, 3, some ⟨0⟩⟩,
        Function.update (fun _ ↦ 0) 0 3, 4⟩ }
    unlocked := { pool.unlocked with
      clock := { Clock.new with referenceBits := fun _ ↦ true } } }

theorem loneResident_eq_two {frame : ℕ}
    (h : (loneResident.locked.frames frame).state = .resident) : frame = 2 := by
  by_contra hframe
  have hfree : loneResident.locked.frames frame = (Pool.new fourFrames).locked.frames frame :=
    Function.update_of_ne hframe _ _
  rw [hfree] at h
  cases h

theorem loneResident_orderly : Orderly fourFrames loneResident where
  misses := MissTable.WellFormed.new _ _
  listed := ⟨_, FileSlots.new_lists _⟩
  mapped frame h := by
    rw [loneResident_eq_two h]
    exact Finmap.lookup_insert _
  indexed frame h := by
    rw [loneResident_eq_two h]
    rfl
  queue frame h := by decide
  credits frame h := rfl

theorem evictClockVictim_finds_loneResident :
    (∃ passed victim clock, loneResident.unlocked.clock.Swept 4 passed victim clock ∧
      (Clock.evictVictimShared LedgerM.clockLens 4).run (speculativeLens.get loneResident) =
        .ok (victim, { speculativeLens.get loneResident with clock })) ∧
      ∃ victim after, (evictClockVictim fourFrames).run loneResident = .ok (true, after) ∧
        Evicts loneResident victim after := by
  have hfinds := evictClockVictim_finds_victim fourFrames
  have heligible : Eligible loneResident 2 := ⟨rfl, fun _ _ hmark ↦ (by cases hmark), rfl⟩
  exact ⟨hfinds.1 4 (speculativeLens.get loneResident) (by decide),
    (hfinds.2 loneResident 2 (by decide) (by decide) heligible).2 loneResident_orderly⟩

end DiosPool.Pool
