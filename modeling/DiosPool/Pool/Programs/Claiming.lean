import DiosPool.Pool.Invariant.Files
import DiosPool.Pool.Programs.Reaping
import DiosPool.Pool.Programs.Reclaiming

/-!
# Claiming frames

An admission looks for a miss slot, and submits the read of a frame that it claimed. The read finds
room in the driver, and its miss fits the index of pending misses.
-/

namespace DiosPool.Pool

open Driver Foundation

section Claiming

variable {C : Config} {c : Custody} {known : Locked → Prop} {pre : Pool → Prop}

/-! ## Miss slots -/

theorem admissionSlotFrom_triple (hstable : (rules C).Stable pre) (slots : ℕ) :
    ∀ index, (rules C).Triple pre (admissionSlotFrom slots index) fun _ ↦ pre := by
  induction slots with
  | zero => exact fun index ↦ Rules.Triple.done fun pool h ↦ h
  | succ slots ih =>
    intro index
    refine (glance_triple hstable _).bind fun reusable ↦ ?_
    split
    · exact Rules.Triple.done fun pool h ↦ h
    · exact ih (index + 1)

theorem admissionSlot_triple (hstable : (rules C).Stable pre) :
    (rules C).Triple pre (admissionSlot C) fun _ ↦ pre := admissionSlotFrom_triple hstable _ 0

/-- As many slots are found as are wanted, or none. -/
theorem admissionSlotsFrom_triple (hstable : (rules C).Stable pre) (remaining : ℕ) :
    ∀ index wanted found, (rules C).Triple pre (admissionSlotsFrom remaining index wanted found)
      fun slots pool ↦ (∀ chosen, slots = some chosen → chosen.length = found.length + wanted) ∧
        pre pool := by
  induction remaining with
  | zero =>
    intro index wanted found
    cases wanted with
    | zero =>
      refine Rules.Triple.done fun pool h ↦ ⟨fun chosen hchosen ↦ ?_, h⟩
      cases hchosen
      rfl
    | succ wanted => exact Rules.Triple.done fun pool h ↦ ⟨by simp, h⟩
  | succ remaining ih =>
    intro index wanted found
    cases wanted with
    | zero =>
      refine Rules.Triple.done fun pool h ↦ ⟨fun chosen hchosen ↦ ?_, h⟩
      cases hchosen
      rfl
    | succ wanted =>
      refine (glance_triple hstable _).bind fun reusable ↦ ?_
      split
      · refine (ih (index + 1) wanted (found ++ [index])).mono fun slots pool h ↦ ⟨?_, h.2⟩
        intro chosen hchosen
        rw [h.1 chosen hchosen, List.length_append, List.length_singleton]
        omega
      · exact ih (index + 1) (wanted + 1) found

theorem admissionSlots_triple (hstable : (rules C).Stable pre) (wanted : ℕ) :
    (rules C).Triple pre (admissionSlots C wanted) fun slots pool ↦
      (∀ chosen, slots = some chosen → chosen.length = wanted) ∧ pre pool := by
  refine (admissionSlotsFrom_triple hstable C.frameCount 0 wanted []).mono fun slots pool h ↦ ?_
  exact ⟨fun chosen hchosen ↦ (h.1 chosen hchosen).trans (Nat.zero_add _), h.2⟩

/-! ## Ledger programs -/

/-- A program of the ledger changes nothing else, also if its steps are taken at once. -/
theorem runLedger_outcome {α : Type} {pool : Pool} {program : LedgerM α}
    (hprogram : program.Respects LedgerM.Evolving) (h : Reach C c pool) :
    Outcome IsAssertion (fun outcome : α × Pool ↦ Reach C c outcome.2 ∧
      ∃ speculative, outcome.2 = speculativeLens.set speculative pool ∧
        pool.locked.ledger.Evolves speculative.ledger)
      (liftM (runLedger program pool) : Except Panic (α × Pool)) := by
  refine outcome_lift fun outcome hrun ↦ ?_
  simp only [runLedger, bind_eq_ok, pure_ok, Except.ok.injEq] at hrun
  obtain ⟨⟨result, speculative⟩, hrun, rfl⟩ := hrun
  have hevolves : LedgerM.Evolving (speculativeLens.get pool) speculative :=
    hprogram.run LedgerM.Evolving.refl (fun _ _ _ h h' ↦ Ledger.Evolves.trans h h') hrun
  exact ⟨h.move (.speculative hevolves.indexed), speculative, rfl, hevolves⟩

/-! ## Point reads -/

/-- A point read is accepted, or it is refused and nothing else happens. -/
theorem submitPageRead_eq_ok {pool after : Pool} {submission : Submission} {fd : FileHandle}
    {page : PageId} {frame filled : ℕ} {result : Option OpToken}
    (h : submitPageRead C pool submission fd page frame filled = .ok (result, after)) :
    (∃ next driver, result = some next ∧ after = pool.setDriver driver ∧
      pool.unlocked.driver.submitRead C.driver fd frame (page.granuleIdx * C.granule + filled) filled
        (C.granule - filled) = .ok (.ok next, driver)) ∨
      ∃ error, result = none ∧ after = { pool with locked := refuse pool.locked submission error } ∧
        Shared.Refused C.driver pool.unlocked.driver error pool.unlocked.driver := by
  simp only [submitPageRead, readSpan, bind_eq_ok] at h
  obtain ⟨⟨outcome, driver⟩, hsubmit, h⟩ := h
  cases outcome with
  | ok next =>
    cases h
    exact .inl ⟨next, driver, rfl, rfl, hsubmit⟩
  | error refusal =>
    cases h
    have hrefused := Shared.submitRead_eq_ok hsubmit
    obtain ⟨rfl, hfull⟩ := hrefused
    exact .inr ⟨refusal.1, rfl, rfl, rfl, hfull⟩

/-! ## Admissions -/

/-- What a call still knows when it has admitted all it wanted. -/
def Known.admitted (k : Known) : Known := { k with room := 0, absent := ∅, live := ∅ }

theorem Reach.forgetAdmission {pool : Pool} (h : Reach C c pool) :
    Reach C { c with room := 0, absent := ∅, live := ∅, filled := [], flushed := false } pool :=
  h.move (.forget (List.nil_subset _) (Finset.empty_subset _) (Nat.zero_le _)
    (fun _ hheld ↦ hheld) (by simp) id (Finset.empty_subset _) (Finset.Subset.refl _) id)

/-- A computation with no panic but a failed assertion. -/
theorem outcome_self {α : Type} {value : Except Panic α}
    (h : Outcome IsAssertion (fun _ ↦ True) value) :
    Outcome IsAssertion (fun result ↦ value = .ok result) value := by
  cases value with
  | ok result => rfl
  | error error => exact h

/-- The pending index has room for another read. -/
theorem admitInitial_outcome {miss : MissTable} {interests : MissInterests} {slot frame initial : ℕ}
    {page : PageId} {token : OpToken} (hroom : miss.pending.length < miss.pendingCapacity) :
    Outcome IsAssertion
      (fun result ↦ miss.admitInitial interests slot page frame token initial = .ok result)
      (miss.admitInitial interests slot page frame token initial) := by
  apply outcome_self
  have hinsert : ∀ cleaned : MissTable, cleaned.pending = miss.pending →
      cleaned.pendingCapacity = miss.pendingCapacity → Outcome IsAssertion (fun _ ↦ True)
        (do
          ensure (cleaned.slots.get slot).isNone
            "admission reuses only an empty or cleaned terminal slot"
          let begun ← interests.beginInitial slot initial
          let entry : MissEntry :=
            ⟨page, frame, token, begun.1, 0, cleaned.pending.length, .pending⟩
          let miss := { cleaned with slots := ← cleaned.slots.insert slot entry }
          let miss ← miss.pendingPush ⟨page, token, slot⟩
          return (begun.1, miss, begun.2) : Except Panic (ℕ × MissTable × MissInterests)) := by
    intro cleaned hpending hcapacity
    refine outcome_lift_bind fun _ _ ↦ outcome_lift_bind fun begun _ ↦ ?_
    refine outcome_lift_bind fun slots _ ↦ ?_
    have hlt : cleaned.pending.length < cleaned.pendingCapacity := by rwa [hpending, hcapacity]
    have hpush : MissTable.pendingPush { cleaned with slots } ⟨page, token, slot⟩ =
        .ok { cleaned with slots, pending := cleaned.pending ++ [⟨page, token, slot⟩] } := if_pos hlt
    simp only [hpush]
    trivial
  unfold MissTable.admitInitial
  cases hget : miss.slots.get slot with
  | none => exact hinsert miss rfl rfl
  | some previous =>
    refine outcome_lift_bind fun cleaned hclean ↦ ?_
    rcases MissTable.cleanTerminalZero_eq_ok hclean with rfl | ⟨entry, -, hcleaned⟩
    · exact hinsert cleaned rfl rfl
    · exact hinsert cleaned hcleaned.pending hcleaned.capacity

/-- As long as another read may be admitted, the driver has room for it. -/
theorem Reach.not_full_of_room {pool : Pool} (h : Reach C c pool) (hflushed : c.flushed)
    (horphans : c.orphans = 0) (hleases : c.leases = 0) (hroom : 0 < c.room)
    {error : SubmitError} {driver : Shared}
    (hrefused : Shared.Refused C.driver pool.unlocked.driver error driver) : error ≠ .full := by
  refine h.not_full hflushed ?_ hrefused
  have hcredited := h.credited.room
  have hproducts := card_productTokens_le C pool.locked.productOps
  have hcapacity : C.maxInflightReads + C.maxInflightProductOps ≤ C.queueCapacity := le_max_left _ _
  simp only [horphans, hleases, Multiset.card_zero]
  omega

/-- The pending index has room as long as another read may be admitted. -/
theorem Reach.pending_room {pool : Pool} (h : Reach C c pool) (hroom : 0 < c.room) :
    pool.locked.miss.pending.length < pool.locked.miss.pendingCapacity := by
  have hcredited := h.credited.room
  rw [h.credited.capacity]
  omega

/-- A claimed frame is in the hands of the call. -/
def Custody.claimed (c : Custody) (frame : ℕ) : Custody :=
  { c with loose := {frame}, orphans := 0, owed := 0, leases := 0, filled := [] }

/-- The refused read of a claimed frame leaves the frame in the hands of the call. -/
theorem Reach.submitClaimed {pool after : Pool} {submission : Submission} {fd : FileHandle}
    {page : PageId} {frame : ℕ} {result : Option OpToken} (h : Reach C (c.claimed frame) pool)
    (hflushed : c.flushed) (hroom : 0 < c.room) (hpage : (pool.locked.frames frame).page = page)
    (hfile : fd.fileId = page.file)
    (hsubmit : submitPageRead C pool submission fd page frame 0 = .ok (result, after)) :
    (∃ token, result = some token ∧ after.locked = pool.locked ∧
      Reach C { c.claimed frame with loose := 0, orphans := {(token, frame)} } after) ∨
    ∃ error, result = none ∧ after = { pool with locked := refuse pool.locked submission error } ∧
      Reach C (c.claimed frame) after := by
  rcases submitPageRead_eq_ok hsubmit with ⟨token, driver, rfl, rfl, hread⟩ |
    ⟨error, rfl, rfl, hrefused⟩
  · rw [Nat.add_zero, Nat.sub_zero] at hread
    refine .inl ⟨token, rfl, rfl, ?_⟩
    refine (h.move (.submit (Multiset.mem_singleton_self frame) hpage hfile hread)).congr ?_
    simp only [Custody.claimed, Multiset.erase_singleton]
    rfl
  · have hfull := h.not_full_of_room hflushed rfl rfl hroom hrefused
    exact .inr ⟨error, rfl, rfl, h.move (.refuse fun heq ↦ absurd heq hfull)⟩

end Claiming

end DiosPool.Pool
