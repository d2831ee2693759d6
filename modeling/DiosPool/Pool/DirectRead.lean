import DiosPool.Pool.ReadOutcome

/-!
# Alignment of direct reads

Every attempt of a read on a direct file is aligned. A short count that would leave a misaligned rest
ends the read, with an error for the pages it leaves.
-/

namespace DiosPool.Pool

open Driver

/-- The offsets, the length and every destination of an attempt are multiples of the alignment. -/
structure ReadAttempt.Aligned (alignment : Driver.Alignment) (attempt : ReadAttempt) : Prop where
  fileOffset : alignment.check attempt.fileOffset
  destinationOffset : alignment.check attempt.destinationOffset
  length : alignment.check attempt.length
  descriptors : ∀ descriptor ∈ attempt.descriptors,
    alignment.check descriptor.offset ∧ alignment.check descriptor.len

theorem mem_buildDescriptors {granule offset : ℕ} {descriptor : Iovec} {frames : List ℕ} :
    ∀ {index}, descriptor ∈ ReadVector.buildDescriptors granule offset index frames →
      (descriptor.offset = offset ∨ descriptor.offset = 0) ∧
        descriptor.len = granule - descriptor.offset := by
  induction frames with
  | nil => simp [ReadVector.buildDescriptors]
  | cons frame frames ih =>
    intro index hmem
    rw [ReadVector.buildDescriptors, List.mem_cons] at hmem
    rcases hmem with rfl | hmem
    · refine ⟨?_, rfl⟩
      simp only
      split
      · exact .inl rfl
      · exact .inr rfl
    · exact ih hmem

section Aligned

variable {alignment : Driver.Alignment}

theorem check_zero : alignment.check 0 := alignment.check_iff.mpr (Nat.dvd_zero _)

/-- The attempts of a vector read in flight are aligned. -/
theorem SpanPlan.attempt_aligned (plan : SpanPlan) (hmode : plan.ioMode = .direct alignment)
    {state : SpanRun} {entry : OpEntry} (hrunning : plan.Running state entry) :
    (readAttempt entry).Aligned alignment := by
  obtain ⟨done, retries, hdone, haligned, rfl, rfl⟩ := hrunning
  have hgranule := plan.granule_aligned
  have hbase := plan.check_base
  have htotal := plan.check_total
  rw [plan.aligned_eq hdone.le] at haligned
  have hmod := (check_mod hgranule).trans haligned
  rw [hmode] at hgranule hbase htotal haligned hmod
  refine ⟨alignment.check_add hbase haligned, hmod, alignment.check_sub htotal haligned, ?_⟩
  intro descriptor hmem
  obtain ⟨hoffset, hlen⟩ := mem_buildDescriptors hmem
  have hcheck : alignment.check descriptor.offset := by
    rcases hoffset with hoffset | hoffset
    · rw [hoffset]
      exact hmod
    · rw [hoffset]
      exact check_zero
  refine ⟨hcheck, ?_⟩
  rw [hlen]
  exact alignment.check_sub hgranule hcheck

/-- The attempts of a point read in flight are aligned. -/
theorem PointPlan.attempt_aligned (plan : PointPlan) (hmode : plan.fd.ioMode = .direct alignment)
    {state : PointRun} {entry : OpEntry} (hrunning : plan.Running state entry) :
    (readAttempt entry).Aligned alignment := by
  obtain ⟨filled, retries, hfilled, haligned, rfl, rfl⟩ := hrunning
  have hgranule := plan.granule_aligned
  have hbase := plan.check_base
  rw [hmode] at hgranule hbase haligned
  have hrest := alignment.check_sub hgranule haligned
  refine ⟨alignment.check_add hbase haligned, haligned, hrest, ?_⟩
  intro descriptor hmem
  cases List.mem_singleton.mp hmem
  exact ⟨haligned, hrest⟩

/-- A misaligned count ends a vector read. -/
theorem SpanPlan.ended_of_misaligned (plan : SpanPlan) (hmode : plan.ioMode = .direct alignment)
    {final : SpanRun} {outcome : Option Cause}
    (hended : ∀ cause, outcome = some cause → plan.Ended final cause)
    (hrunning : outcome = none → ∃ entry, plan.Running final entry)
    (hlength : final.received.length < plan.total)
    (hmisaligned : ¬alignment.bytes ∣ final.received.length) :
    outcome = some .misaligned ∧
      ∃ errno, final.endOf (plan.stopPage final) = some (.failed errno) := by
  have hoff : ∀ done ≤ plan.total, final.received = plan.image.take done →
      ¬plan.aligned done = true := by
    intro done hdone hreceived haligned
    rw [hreceived, plan.length_image_take hdone] at hmisaligned
    rw [plan.aligned_eq hdone, hmode] at haligned
    exact hmisaligned (alignment.check_iff.mp haligned)
  cases outcome with
  | none =>
    obtain ⟨entry, done, retries, hdone, haligned, rfl, rfl⟩ := hrunning rfl
    exact absurd haligned (hoff done hdone.le rfl)
  | some cause =>
    obtain ⟨done, hstops, rfl⟩ := hended cause rfl
    have hdone := hstops.le_total
    cases cause with
    | full =>
      rw [plan.length_received hdone] at hlength
      exact absurd hstops hlength.ne
    | endOfFile => exact absurd hstops.2 (hoff done hdone rfl)
    | device errno => exact absurd hstops.2 (hoff done hdone rfl)
    | misaligned =>
      refine ⟨rfl, Cause.misaligned.spanErrno, ?_⟩
      rw [stopPage, plan.length_received hdone,
        plan.endOf_endAt ((Nat.div_lt_iff_lt_mul plan.granule_pos).mpr hstops.1)]
      exact congrArg some (if_neg (lt_irrefl _))

/-- A misaligned count ends a point read. -/
theorem PointPlan.ended_of_misaligned (plan : PointPlan)
    (hmode : plan.fd.ioMode = .direct alignment) {final : PointRun} {outcome : Option Cause}
    (hended : ∀ cause, outcome = some cause → plan.Ended final cause)
    (hrunning : outcome = none → ∃ entry, plan.Running final entry)
    (hlength : final.received.length < plan.granule)
    (hmisaligned : ¬alignment.bytes ∣ final.received.length) :
    outcome = some .misaligned ∧ ∃ errno, final.settled = some (.failed errno) := by
  have hoff : ∀ done ≤ plan.granule, final.received = plan.image.take done →
      ¬plan.fd.ioMode.check done = true := by
    intro done hdone hreceived haligned
    rw [hreceived, plan.length_image_take hdone] at hmisaligned
    rw [hmode] at haligned
    exact hmisaligned (alignment.check_iff.mp haligned)
  cases outcome with
  | none =>
    obtain ⟨entry, filled, retries, hfilled, haligned, rfl, rfl⟩ := hrunning rfl
    exact absurd haligned (hoff filled hfilled.le rfl)
  | some cause =>
    obtain ⟨filled, done, hstops, rfl⟩ := hended cause rfl
    cases cause with
    | full =>
      rw [plan.length_received (Nat.le_of_eq hstops)] at hlength
      exact absurd hstops hlength.ne
    | endOfFile => exact absurd hstops.2 (hoff done hstops.1.le rfl)
    | device errno => exact absurd hstops.2 (hoff done hstops.1.le rfl)
    | misaligned => exact ⟨rfl, eio, rfl⟩

end Aligned

/-- On a direct file, every attempt of a vector read or of a point read is aligned. When the bytes
that arrived leave a misaligned rest, the read is over and the page it stopped at failed. -/
theorem directRead_aligned (alignment : Driver.Alignment) :
    (∀ plan : SpanPlan, plan.ioMode = .direct alignment → ∀ script,
      ∃ attempts final outcome, plan.fetch script = .ok (attempts, final, outcome) ∧
        (∀ attempt ∈ attempts, attempt.Aligned alignment) ∧
        (final.received.length < plan.total → ¬alignment.bytes ∣ final.received.length →
          outcome = some .misaligned ∧
            ∃ errno, final.endOf (plan.stopPage final) = some (.failed errno))) ∧
    (∀ plan : PointPlan, plan.fd.ioMode = .direct alignment → ∀ script,
      ∃ attempts final outcome, plan.fetch script = .ok (attempts, final, outcome) ∧
        (∀ attempt ∈ attempts, attempt.Aligned alignment) ∧
        (final.received.length < plan.granule → ¬alignment.bytes ∣ final.received.length →
          outcome = some .misaligned ∧ ∃ errno, final.settled = some (.failed errno))) := by
  constructor
  · intro plan hmode script
    obtain ⟨attempts, final, outcome, hfetch, hattempts, hended, hrunning⟩ := plan.fetch_ends script
    refine ⟨attempts, final, outcome, hfetch, ?_, plan.ended_of_misaligned hmode hended hrunning⟩
    intro attempt hmem
    obtain ⟨state, entry, hstate, rfl⟩ := hattempts attempt hmem
    exact plan.attempt_aligned hmode hstate
  · intro plan hmode script
    obtain ⟨attempts, final, outcome, hfetch, hattempts, hended, hrunning⟩ := plan.fetch_ends script
    refine ⟨attempts, final, outcome, hfetch, ?_, plan.ended_of_misaligned hmode hended hrunning⟩
    intro attempt hmem
    obtain ⟨state, entry, hstate, rfl⟩ := hattempts attempt hmem
    exact plan.attempt_aligned hmode hstate

end DiosPool.Pool
