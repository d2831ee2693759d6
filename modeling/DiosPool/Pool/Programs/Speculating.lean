import DiosPool.Pool.Prefetch.Protection
import DiosPool.Pool.Programs.Claiming

/-!
# Speculative reads

A page that nobody waits for is read into a frame of the reserve, alone or in a run of pages that
share one operation. An admission that is refused on the way takes back all it has done; an accepted
one makes exactly its pages pending.
-/

namespace DiosPool.Pool

open Driver Foundation

/-! ## What an admission leaves -/

/-- A refused admission moves frames from the free list to the reserve, forgets what the claimed ones
were claimed for, and counts the refusal. -/
structure Declined (before after : Locked) : Prop where
  kept : after = { before with
    frames := after.frames
    freeFrames := after.freeFrames
    reserve := after.reserve
    refusals := after.refusals
    ledger := { before.ledger with
      stats := { before.ledger.stats with
        submissionRefused := after.ledger.stats.submissionRefused } } }
  moved : ∃ moved, before.freeFrames = moved ++ after.freeFrames ∧
    after.reserve.Perm (moved ++ before.reserve)
  states : ∀ frame, (after.frames frame).state = (before.frames frame).state ∧
    (after.frames frame).generation = (before.frames frame).generation
  words : ∀ frame, (before.frames frame).state ≠ .free → after.frames frame = before.frames frame

/-- An accepted admission makes its pages pending. -/
structure Accepted (pages : List PageId) (before after : Locked) : Prop where
  pending : after.miss.pending.map PendingMiss.page = before.miss.pending.map PendingMiss.page ++ pages
  reads : after.readsInFlight = before.readsInFlight + pages.length
  table : after.table = before.table
  files : after.files = before.files
  words : ∀ frame, (before.frames frame).state ≠ .free → after.frames frame = before.frames frame
  ledger : before.ledger.Evolves after.ledger

/-- What became of the pages of an admission. -/
def Decided (pages : List PageId) (before : Locked) (outcome : Admission) (after : Locked) : Prop :=
  (outcome = .admitted ∧ Accepted pages before after) ∨ (outcome = .deferred ∧ Declined before after)

section Leaves

variable {before middle after : Locked} {pages : List PageId}

theorem Declined.refl (locked : Locked) : Declined locked locked :=
  ⟨rfl, ⟨[], rfl, List.Perm.refl _⟩, fun _ ↦ ⟨rfl, rfl⟩, fun _ _ ↦ rfl⟩

theorem Declined.trans (h : Declined before middle)
    (h' : Declined middle after) : Declined before after := by
  refine ⟨?_, ?_, fun frame ↦ ?_, fun frame hframe ↦ ?_⟩
  · rw [h'.kept, h.kept]
  · obtain ⟨moved, hfree, hreserve⟩ := h.moved
    obtain ⟨moved', hfree', hreserve'⟩ := h'.moved
    refine ⟨moved ++ moved', ?_, ?_⟩
    · rw [hfree, hfree', List.append_assoc]
    · refine (hreserve'.trans (hreserve.append_left moved')).trans ?_
      rw [← List.append_assoc]
      exact List.perm_append_comm.append_right _
  · rw [(h'.states frame).1, (h'.states frame).2]
    exact h.states frame
  · rw [h'.words frame ((h.states frame).1 ▸ hframe), h.words frame hframe]

end Leaves

/-! ## The reserve -/

/-- Frames have moved from the free list to the reserve. -/
def Restocked (before after : Locked) : Prop :=
  ∃ moved freeFrames, before.freeFrames = moved ++ freeFrames ∧
    after = { before with freeFrames, reserve := moved.reverse ++ before.reserve }

section Reserve

variable {C : Config} {c : Custody} {before after : Locked}

theorem Restocked.refl (locked : Locked) : Restocked locked locked := ⟨[], _, rfl, rfl⟩

theorem Restocked.trans {middle : Locked} (h : Restocked before middle)
    (h' : Restocked middle after) : Restocked before after := by
  obtain ⟨moved, freeFrames, hfree, rfl⟩ := h
  obtain ⟨moved', freeFrames', hfree', rfl⟩ := h'
  refine ⟨moved ++ moved', freeFrames', ?_, ?_⟩
  · have hsplit : freeFrames = moved' ++ freeFrames' := hfree'
    rw [hfree, hsplit, List.append_assoc]
  · rw [List.reverse_append, List.append_assoc]

theorem Restocked.declined (h : Restocked before after) : Declined before after := by
  obtain ⟨moved, freeFrames, hfree, rfl⟩ := h
  refine ⟨rfl, ⟨moved, hfree, ?_⟩, fun _ ↦ ⟨rfl, rfl⟩, fun _ _ ↦ rfl⟩
  exact (List.reverse_perm moved).append_right _

theorem fillReserveFrom_outcome (count : ℕ) :
    ∀ locked : Locked, locked.reserve.length + count ≤ C.prefetchCapacity →
      Outcome IsAssertion (fun after ↦ Restocked locked after ∧
        after.reserve.length ≤ C.prefetchCapacity) (Locked.fillReserveFrom C count locked) := by
  induction count with
  | zero => exact fun locked hlength ↦ ⟨.refl locked, hlength⟩
  | succ count ih =>
    intro locked hlength
    unfold Locked.fillReserveFrom
    cases hfree : locked.freeFrames with
    | nil => exact ⟨.refl locked, by omega⟩
    | cons frame freeFrames =>
      have hlt : locked.reserve.length < C.prefetchCapacity := by omega
      have hpush : Locked.pushReserve C { locked with freeFrames } frame =
          .ok { locked with freeFrames, reserve := frame :: locked.reserve } := if_pos hlt
      simp only [hpush]
      refine (ih { locked with freeFrames, reserve := frame :: locked.reserve } ?_).mono ?_
      · rw [List.length_cons]
        omega
      · rintro after ⟨⟨moved, rest, hmoved, rfl⟩, hafter⟩
        refine ⟨⟨frame :: moved, rest, ?_, ?_⟩, hafter⟩
        · rw [hfree, List.cons_append, ← hmoved]
        · rw [List.reverse_cons, List.append_assoc, List.singleton_append]

theorem fillReserve_outcome {pool : Pool} (h : Reach C c pool) :
    Outcome IsAssertion (fun locked ↦ Restocked pool.locked locked ∧ Reach C c { pool with locked })
      (Locked.fillReserve C pool.locked) := by
  have hreserve := h.placed.reserve
  unfold Locked.fillReserve
  split
  · refine outcome_lift_bind fun available havailable ↦ ?_
    have hle : available ≤ C.prefetchCapacity := by
      unfold Ledger.available at havailable
      split at havailable
      · cases havailable
        exact Nat.sub_le _ _
      · cases havailable
    refine (fillReserveFrom_outcome (available - pool.locked.reserve.length) pool.locked
      (by omega)).mono ?_
    rintro locked ⟨hrestocked, hlength⟩
    refine ⟨hrestocked, ?_⟩
    obtain ⟨moved, freeFrames, hfree, rfl⟩ := hrestocked
    refine h.move (.stock (fun frame ↦ ?_) hlength)
    rw [hfree, List.count_append, List.count_append, List.count_reverse]
    omega
  · exact ⟨.refl _, h⟩

end Reserve

/-! ## A page -/

section Pages

variable {C : Config} {c : Custody}

/-- Pages are pending, and the ledger knows of them. -/
structure Added (pages : List PageId) (before after : Locked) : Prop where
  kept : after = { before with miss := after.miss, ledger := after.ledger, history := after.history }
  pending : after.miss.pending.map PendingMiss.page = before.miss.pending.map PendingMiss.page ++ pages
  ledger : before.ledger.Evolves after.ledger

theorem Added.refl (locked : Locked) : Added [] locked locked :=
  ⟨rfl, (List.append_nil _).symm, .refl _⟩

theorem Added.trans {pages more : List PageId} {before middle after : Locked}
    (h : Added pages before middle) (h' : Added more middle after) :
    Added (pages ++ more) before after := by
  refine ⟨?_, ?_, h.ledger.trans h'.ledger⟩
  · rw [h'.kept, h.kept]
  · rw [h'.pending, h.pending, List.append_assoc]

theorem pending_of_admitInitial {miss after : MissTable} {interests interests' : MissInterests}
    {slot frame initial generation : ℕ} {page : PageId} {token : OpToken}
    (h : miss.admitInitial interests slot page frame token initial =
      .ok (generation, after, interests')) :
    after.pending.map PendingMiss.page = miss.pending.map PendingMiss.page ++ [page] := by
  obtain ⟨⟨vacated, hvacated, hfilled⟩, -⟩ := MissTable.fill_of_admitInitial h
  have hpending : vacated.pending = miss.pending := by
    rcases hvacated with rfl | ⟨previous, hcleaned⟩
    · rfl
    · exact hcleaned.pending
  rw [hfilled.pending, hpending, List.map_append, List.map_singleton]

/-- The read of a page is admitted with nobody waiting for it. -/
theorem admitPage_outcome {pool : Pool} {slot frame room : ℕ} {page : PageId} {token : OpToken}
    (source : Source) (h : Reach C c pool) (horphan : (token, frame) ∈ c.orphans)
    (hpage : (pool.locked.frames frame).page = page) (habsent : page ∈ c.absent)
    (hlive : page.file ∈ c.live) (hroom : c.room = room + 1) :
    Outcome IsAssertion (fun outcome : ℕ × Pool ↦
      Reach C { c with
        orphans := c.orphans.erase (token, frame)
        absent := c.absent.erase page
        room
        credits := c.credits + 1 } outcome.2 ∧ Added [page] pool.locked outcome.2.locked)
      (admitPage C pool slot page frame token source) := by
  have hpositive : 0 < c.room := by omega
  refine (admitInitial_outcome (h.pending_room hpositive)).bind fun admitted hadmission ↦ ?_
  obtain ⟨generation, miss, interests⟩ := admitted
  have hread := h.move (.admitRead horphan hpage habsent hlive hroom hadmission)
  refine (runLedger_outcome (LedgerM.admitEntry_evolving page frame source) hread).bind ?_
  rintro ⟨_, admitted⟩ ⟨hadmitted, speculative, rfl, hevolves⟩
  refine ⟨hadmitted.congr ?_, rfl, pending_of_admitInitial hadmission, hevolves⟩
  simp only [Multiset.replicate_zero, zero_add]

end Pages

/-! ## Single pages -/

/-- The reads in flight of a pool are counted on. -/
def addReads (pool : Pool) (count : ℕ) : Pool :=
  { pool with locked := { pool.locked with
    readsInFlight := pool.locked.readsInFlight + count } }

section Points

variable {C : Config} {c : Custody}

/-- The admission of a page does not look at the count of reads. -/
theorem admitPage_addReads (pool : Pool) (count slot : ℕ) (page : PageId) (frame : ℕ)
    (token : OpToken) (source : Source) :
    admitPage C (pool.addReads count) slot page frame token source =
      (admitPage C pool slot page frame token source).map fun outcome ↦
        (outcome.1, outcome.2.addReads count) := by
  simp only [admitPage, addReads]
  cases hadmission : pool.locked.miss.admitSpeculative pool.unlocked.interests slot page frame token with
  | error error => rfl
  | ok admitted =>
    simp only [runLedger, speculativeLens]
    cases hrun : (LedgerM.admitEntry C.prefetch page frame source).run
        ⟨pool.locked.ledger, pool.unlocked.clock⟩ with
    | error error =>
      simp only [Locked.record, hrun]
      rfl
    | ok outcome =>
      simp only [Locked.record, hrun]
      rfl

/-- The page is neither mapped nor pending, and its file is live. -/
structure Missing (locked : Locked) (page : PageId) : Prop where
  lookup : locked.table.lookup page = none
  pending : locked.miss.findPending page = none
  live : locked.fileIsLive page.file

/-- A call that has looked a page up may admit it. -/
theorem Reach.missing {pool : Pool} (h : Reach C c pool) {page : PageId}
    (hmissing : Missing pool.locked page) :
    Reach C { c with live := insert page.file c.live, absent := insert page c.absent } pool :=
  (h.move (.live hmissing.live)).move (.absent hmissing.lookup hmissing.pending)

/-- A call that has looked at the count of reads may admit as many as are left. -/
theorem Reach.roomy {pool : Pool} (h : Reach C c pool) (hcredits : c.credits = 0) {count : ℕ}
    (hreads : pool.locked.readsInFlight + count ≤ C.maxInflightReads) :
    Reach C { c with room := count } pool := by
  refine h.move (.room ?_)
  have hpending := h.credited.credits
  omega

/-- A frame is taken from the reserve. -/
theorem count_reserve (free : List ℕ) (frame : ℕ) (reserve : List ℕ) (other : ℕ) :
    free.count other + (frame :: reserve).count other =
      free.count other + reserve.count other + if other = frame then 1 else 0 := by
  have hcount := count_push frame reserve [] other
  rw [List.count_nil] at hcount
  omega

/-- The frame of a refused read goes back to the reserve. -/
theorem Reach.abortReserve {pool : Pool} {frame : ℕ} (h : Reach C c pool) (hloose : frame ∈ c.loose)
    (hroom : pool.locked.reserve.length < C.prefetchCapacity) :
    Reach C { c with loose := c.loose.erase frame, filled := without c.filled [frame] }
      { pool with locked := { pool.locked with
        frames := Function.update pool.locked.frames frame
          { pool.locked.frames frame with state := .free }
        reserve := frame :: pool.locked.reserve } } :=
  h.move (.abort hloose (count_reserve _ frame _) hroom)

theorem admitPoint_outcome (k : Known) {pool : Pool} {slot : ℕ} {page : PageId} (source : Source)
    (h : Reach C { k.admitted.custody with flushed := true } pool)
    (hmissing : Missing pool.locked page)
    (hreads : pool.locked.readsInFlight < C.maxInflightReads) :
    Outcome IsAssertion (fun outcome : Admission × Pool ↦ Reach C k.admitted.custody outcome.2 ∧
      Decided [page] pool.locked outcome.1 outcome.2.locked) (admitPoint C pool slot page source) := by
  have hone : pool.locked.readsInFlight + 1 ≤ C.maxInflightReads := hreads
  have hknown := (h.missing hmissing).roomy rfl hone
  have hlength := h.placed.reserve
  unfold admitPoint
  cases hreserve : pool.locked.reserve with
  | nil => exact ⟨h.unflush, .inr ⟨rfl, .refl _⟩⟩
  | cons frame reserve =>
    refine outcome_lift_bind fun locked hclaim ↦ ?_
    simp only [Locked.claim, bind_eq_ok, ensure_eq_ok, pure_ok, Except.ok.injEq] at hclaim
    obtain ⟨_, hstate, rfl⟩ := hclaim
    refine outcome_lift_bind fun fd hfd ↦ ?_
    have hcount : ∀ other, pool.locked.freeFrames.count other + reserve.count other +
        (if other = frame then 1 else 0) =
          pool.locked.freeFrames.count other + pool.locked.reserve.count other := by
      intro other
      rw [hreserve, count_reserve]
    have hclaimed : Reach C (Custody.claimed { k.admitted.custody with
        flushed := true
        live := insert page.file ∅
        absent := insert page ∅
        room := 1 } frame)
        { pool with locked := { pool.locked with
          frames := Function.update pool.locked.frames frame
            ⟨.inFlight, (pool.locked.frames frame).generation, page⟩
          reserve } } :=
      hknown.move (.claim hstate hcount (by rw [hreserve]; exact Nat.le_succ _))
    have hfile := hclaimed.fileId_eq hfd
    have hpage : (Function.update pool.locked.frames frame
        ⟨.inFlight, (pool.locked.frames frame).generation, page⟩ frame).page = page := by
      rw [Function.update_self]
    refine outcome_lift_bind fun submitted hsubmit ↦ ?_
    obtain ⟨result, after⟩ := submitted
    rcases hclaimed.submitClaimed rfl one_pos hpage hfile hsubmit with
      ⟨token, rfl, hlocked, hsubmitted⟩ | ⟨error, rfl, rfl, hrefused⟩
    · dsimp only
      have hadmission := @admitPage_outcome C _ after slot frame 0 page token source hsubmitted
        (Multiset.mem_singleton_self _) (hlocked ▸ hpage) (Finset.mem_insert_self _ _)
        (Finset.mem_insert_self _ _) rfl
      change Outcome _ _ (admitPage C (after.addReads 1) slot page frame token source >>= _)
      rw [admitPage_addReads]
      refine (hadmission.map fun outcome ↦ (outcome.1, outcome.2.addReads 1)).bind fun image himage ↦ ?_
      obtain ⟨⟨generation, admitted⟩, rfl, hreach, hadded⟩ := himage
      have hcredit := hreach.move (@Move.takeCredits C _ _ 1 0 rfl)
      refine ⟨hcredit.forgetAdmission.congr ?_, .inl ⟨rfl, ?_⟩⟩
      · simp only [Custody.claimed, Multiset.erase_singleton]
        rfl
      · rw [hlocked] at hadded
        refine ⟨hadded.pending, ?_, ?_, ?_, fun other hother ↦ ?_, hadded.ledger⟩
        · simp only [addReads, List.length_singleton]
          rw [hadded.kept]
        · simp only [addReads]
          rw [hadded.kept]
        · simp only [addReads]
          rw [hadded.kept]
        · have hne : other ≠ frame := by
            intro heq
            exact hother (heq ▸ hstate)
          simp only [addReads]
          rw [hadded.kept]
          simp only [Function.update_of_ne hne]
    · refine outcome_lift_bind fun aborted habort ↦ ?_
      simp only [Locked.abort, bind_eq_ok, ensure_eq_ok, pure_ok, Except.ok.injEq] at habort
      obtain ⟨_, hinFlight, rfl⟩ := habort
      have hlt : reserve.length < C.prefetchCapacity := by
        rw [hreserve, List.length_cons] at hlength
        omega
      rw [Locked.pushReserve, if_pos]
      swap
      · exact hlt
      have haborted := hrefused.abortReserve (Multiset.mem_singleton_self frame) hlt
      have hcounted := haborted.move (@Move.speculative C _ _
        ⟨(countRefused pool.locked).ledger, pool.unlocked.clock⟩ id)
      refine ⟨hcounted.forgetAdmission.congr ?_, .inr ⟨rfl, ?_⟩⟩
      · simp only [Custody.claimed, Multiset.erase_singleton]
        rfl
      · refine ⟨rfl, ⟨[], rfl, ?_⟩, fun other ↦ ?_, fun other hother ↦ ?_⟩
        · rw [hreserve]
          exact List.Perm.refl _
        · by_cases heq : other = frame
          · subst heq
            simp only [countRefused, refuse, Locked.setFrame, Function.update_self]
            exact ⟨hstate.symm, trivial⟩
          · simp only [countRefused, refuse, Locked.setFrame, Function.update_of_ne heq, and_self]
        · have hne : other ≠ frame := by
            intro heq
            exact hother (heq ▸ hstate)
          simp only [countRefused, refuse, Locked.setFrame, Function.update_of_ne hne]

/-- An admission that comes after frames were moved to the reserve. -/
theorem Restocked.decided {before middle after : Locked} {pages : List PageId} {outcome : Admission}
    (h : Restocked before middle) (hdecided : Decided pages middle outcome after) :
    Decided pages before outcome after := by
  rcases hdecided with ⟨rfl, haccepted⟩ | ⟨rfl, hdeclined⟩
  · obtain ⟨moved, freeFrames, -, rfl⟩ := h
    exact .inl ⟨rfl, ⟨haccepted.pending, haccepted.reads, haccepted.table, haccepted.files,
      haccepted.words, haccepted.ledger⟩⟩
  · exact .inr ⟨rfl, h.declined.trans hdeclined⟩

/-- Frames that move to the reserve leave a page missing. -/
theorem Restocked.missing {before after : Locked} {page : PageId} (h : Restocked before after)
    (hmissing : Missing before page) : Missing after page := by
  obtain ⟨moved, freeFrames, -, rfl⟩ := h
  exact ⟨hmissing.lookup, hmissing.pending, hmissing.live⟩

theorem prefetchAdmitPoint_triple (k : Known) {before : Locked} {page : PageId} (source : Source)
    (hmissing : Missing before page) :
    (rules C).Triple (At C k.admitted.custody fun locked ↦ locked = before)
      (prefetchAdmitPoint C page source)
      fun outcome ↦ At C k.admitted.custody (Decided [page] before outcome) := by
  have hdeclined : ∀ pool, At C k.admitted.custody (Restocked before) pool →
      At C k.admitted.custody (Decided [page] before .deferred) pool :=
    fun pool h ↦ ⟨h.1, .inr ⟨rfl, h.2.declined⟩⟩
  have hsame : ∀ pool, At C k.admitted.custody (fun locked ↦ locked = before) pool →
      At C k.admitted.custody (Restocked before) pool := fun pool h ↦ ⟨h.1, h.2 ▸ .refl before⟩
  refine Rules.Triple.through
    (fun _ ↦ At C k.admitted.custody fun locked ↦ locked = before) ?_ fun available ↦ ?_
  · refine locked_triple at_stable fun pool h ↦ outcome_lift_bind fun available _ ↦ ?_
    exact h
  refine (look_triple Locked.readsInFlight).bind fun reads ↦ ?_
  split
  · exact Rules.Triple.done fun pool h ↦ hdeclined pool (hsame pool ⟨h.1, h.2.1⟩)
  rename_i hroom
  obtain ⟨-, hreads⟩ := not_or.mp hroom
  refine (admissionSlot_triple at_stable).bind fun slot ↦ ?_
  cases slot with
  | none => exact Rules.Triple.done fun pool h ↦ hdeclined pool (hsame pool ⟨h.1, h.2.1⟩)
  | some slot =>
    refine Rules.Triple.through (fun _ ↦ At C k.admitted.custody fun locked ↦
      Restocked before locked ∧ locked.readsInFlight < C.maxInflightReads) ?_ fun _ ↦ ?_
    · refine update_triple at_stable fun pool h ↦ (fillReserve_outcome h.1).mono
        fun locked hlocked ↦ ⟨hlocked.2, h.2.1 ▸ hlocked.1, ?_⟩
      obtain ⟨-, hsame, hread⟩ := h
      obtain ⟨moved, freeFrames, -, rfl⟩ := hlocked.1
      exact not_le.mp (hread ▸ hreads)
    refine (look_triple fun locked ↦ locked.reserve.isEmpty).bind fun isEmpty ↦ ?_
    split
    · exact Rules.Triple.done fun pool h ↦ hdeclined pool ⟨h.1, h.2.1.1⟩
    refine flushDeferred_triple.bind fun _ ↦ act_triple at_stable fun pool h ↦ ?_
    obtain ⟨hreach, ⟨hrestocked, hread⟩, -⟩ := h
    refine (admitPoint_outcome k source hreach (hrestocked.missing hmissing) hread).mono
      fun outcome houtcome ↦ ?_
    exact ⟨houtcome.1, hrestocked.decided houtcome.2⟩

end Points

end DiosPool.Pool
