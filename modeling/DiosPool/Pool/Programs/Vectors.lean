import DiosPool.Pool.Programs.Speculating

/-!
# Runs of pages

Consecutive pages are read into a bundle of frames by one operation. The bundle is claimed before the
operation is submitted and given up if the driver refuses it; the route of the operation is reserved
first and given back in that case.
-/

namespace DiosPool.Pool

open Driver Foundation

/-! ## Claimed bundles -/

/-- The first frames of the reserve are claimed, each for its page. -/
structure Claimed (pages : List PageId) (frames : List ℕ) (before after : Locked) : Prop where
  kept : after = { before with frames := after.frames, reserve := after.reserve }
  reserve : before.reserve = frames ++ after.reserve
  free : ∀ frame ∈ frames, (before.frames frame).state = .free
  claimed : List.Forall₂ (fun frame page ↦
    after.frames frame = ⟨.inFlight, (before.frames frame).generation, page⟩) frames pages
  other : ∀ frame ∉ frames, after.frames frame = before.frames frame

/-- Frames are free again, the last one first in the reserve. -/
structure Aborted (frames : List ℕ) (before after : Locked) : Prop where
  kept : after = { before with
    frames := after.frames
    reserve := frames.reverse ++ before.reserve }
  free : ∀ frame ∈ frames, after.frames frame = { before.frames frame with state := .free }
  other : ∀ frame ∉ frames, after.frames frame = before.frames frame

section Bundles

variable {C : Config} {c : Custody}

/-- A bundle that was claimed and given up. -/
theorem Claimed.declined {pages : List PageId} {frames : List ℕ} {before middle after : Locked}
    (h : Claimed pages frames before middle) (h' : Aborted frames middle after) :
    Declined before after := by
  have hclaimed : ∀ frame ∈ frames,
      (after.frames frame).state = .free ∧
        (after.frames frame).generation = (before.frames frame).generation := by
    intro frame hframe
    obtain ⟨index, hlt, rfl⟩ := List.getElem_of_mem hframe
    have hpage := (List.forall₂_iff_get.mp h.claimed).2 index hlt (h.claimed.length_eq ▸ hlt)
    rw [List.get_eq_getElem] at hpage
    rw [h'.free _ hframe, hpage]
    exact ⟨rfl, rfl⟩
  have hother : ∀ frame ∉ frames, after.frames frame = before.frames frame := by
    intro frame hframe
    rw [h'.other frame hframe, h.other frame hframe]
  refine ⟨?_, ⟨[], ?_, ?_⟩, fun frame ↦ ?_, fun frame hframe ↦ ?_⟩
  · rw [h'.kept, h.kept]
  · rw [h'.kept, h.kept, List.nil_append]
  · rw [h'.kept, h.reserve, List.nil_append]
    exact (List.reverse_perm frames).append_right _
  · by_cases hmem : frame ∈ frames
    · rw [(hclaimed frame hmem).1, (hclaimed frame hmem).2, h.free frame hmem]
      exact ⟨rfl, rfl⟩
    · rw [hother frame hmem]
      exact ⟨rfl, rfl⟩
  · exact hother frame fun hmem ↦ hframe (h.free frame hmem)

/-- A bundle that was claimed and whose pages were admitted. -/
theorem Claimed.accepted {pages : List PageId} {frames : List ℕ} {before middle after : Locked}
    (h : Claimed pages frames before middle) (h' : Added pages middle after)
    (spans readSpans : ReadSpans) :
    Accepted pages { before with readSpans := spans } { after with
      readsInFlight := after.readsInFlight + pages.length, readSpans } := by
  have hkept : middle.miss = before.miss ∧ middle.table = before.table ∧
      middle.files = before.files ∧ middle.ledger = before.ledger ∧
      middle.readsInFlight = before.readsInFlight := by
    rw [h.kept]
    exact ⟨rfl, rfl, rfl, rfl, rfl⟩
  have hkept' : after.table = middle.table ∧ after.files = middle.files ∧
      after.frames = middle.frames ∧ after.readsInFlight = middle.readsInFlight := by
    rw [h'.kept]
    exact ⟨rfl, rfl, rfl, rfl⟩
  obtain ⟨hmiss, htable, hfiles, hledger, hreads⟩ := hkept
  obtain ⟨htable', hfiles', hframes', hreads'⟩ := hkept'
  refine ⟨hmiss ▸ h'.pending, ?_, htable'.trans htable, hfiles'.trans hfiles,
    fun frame hframe ↦ ?_, hledger ▸ h'.ledger⟩
  · rw [hreads', hreads]
  · rw [hframes']
    exact h.other frame fun hmem ↦ hframe (h.free frame hmem)

theorem Declined.respan {before after : Locked} (h : Declined before after) (readSpans : ReadSpans) :
    Declined { before with readSpans } { after with readSpans } := by
  refine ⟨?_, h.moved, h.states, h.words⟩
  rw [h.kept]

/-- The refusal is counted. -/
theorem Declined.refused {before after : Locked} (h : Declined before after)
    (submission : Submission) (error : SubmitError) :
    Declined before (countRefused (refuse after submission error)) := by
  refine ⟨?_, h.moved, h.states, h.words⟩
  rw [countRefused, refuse, h.kept]

theorem Claimed.cons {pages : List PageId} {frames reserve : List ℕ} {page : PageId} {frame : ℕ}
    {before after : Locked} (hreserve : before.reserve = frame :: reserve)
    (hstate : (before.frames frame).state = .free)
    (h : Claimed pages frames { before with
      reserve
      frames := Function.update before.frames frame
        ⟨.inFlight, (before.frames frame).generation, page⟩ } after) :
    Claimed (page :: pages) (frame :: frames) before after := by
  obtain ⟨hkept, hrest, hfree, hclaimed, hkeep⟩ := h
  dsimp only at hrest hfree hclaimed hkeep
  have hne : ∀ other ∈ frames, other ≠ frame := by
    intro other hother heq
    have hinFlight := hfree other hother
    rw [heq, Function.update_self] at hinFlight
    cases hinFlight
  have hnotMem : frame ∉ frames := fun hmem ↦ hne frame hmem rfl
  refine ⟨?_, ?_, fun other hother ↦ ?_, .cons ?_ ?_, fun other hother ↦ ?_⟩
  · rw [hkept]
  · rw [hreserve, hrest, List.cons_append]
  · rcases List.mem_cons.mp hother with rfl | hother
    · exact hstate
    · have hunclaimed := hfree other hother
      rwa [Function.update_of_ne (hne other hother)] at hunclaimed
  · rw [hkeep frame hnotMem, Function.update_self]
  · refine List.forall₂_iff_zip.mpr ⟨hclaimed.length_eq, fun {other} {found} hmem ↦ ?_⟩
    have hframe := (List.forall₂_iff_zip.mp hclaimed).2 hmem
    rwa [Function.update_of_ne (hne other (List.of_mem_zip hmem).1)] at hframe
  · obtain ⟨hframe, hframes⟩ := not_or.mp (List.mem_cons.not.mp hother)
    rw [hkeep other hframes, Function.update_of_ne hframe]

/-- The frames of a bundle are claimed one after another. -/
theorem claimVector_eq_ok {pages : List PageId} :
    ∀ {c : Custody} {pool : Pool} {vector bundle : ReadVector} {after : Locked}, Reach C c pool →
      claimVector pages pool.locked vector = .ok (bundle, after) →
      ∃ frames, Claimed pages frames pool.locked after ∧
        bundle = { vector with
          frames := vector.frames ++ frames
          total := vector.total + frames.length * vector.granule } ∧
        Reach C { c with loose := Multiset.ofList frames + c.loose } { pool with locked := after } := by
  induction pages with
  | nil =>
    intro c pool vector bundle after hreach h
    cases h
    refine ⟨[], ⟨rfl, rfl, ?_, .nil, fun _ _ ↦ rfl⟩, ?_, ?_⟩
    · exact fun frame hframe ↦ absurd hframe List.not_mem_nil
    · simp
    · exact hreach.congr (by simp)
  | cons page pages ih =>
    intro c pool vector bundle after hreach h
    simp only [claimVector, bind_eq_ok, ensure_eq_ok] at h
    obtain ⟨_, -, _, -, h⟩ := h
    cases hreserve : pool.locked.reserve with
    | nil =>
      rw [hreserve] at h
      cases h
    | cons frame reserve =>
      rw [hreserve] at h
      simp only [Locked.claim, ReadVector.push, bind_eq_ok, ensure_eq_ok, pure_ok,
        Except.ok.injEq] at h
      obtain ⟨_, ⟨_, hstate, rfl⟩, grown, ⟨_, -, _, -, _, -, _, -, _, -, rfl⟩, h⟩ := h
      have hclaim : Reach C { c with loose := frame ::ₘ c.loose } { pool with locked :=
          { pool.locked with
            frames := Function.update pool.locked.frames frame
              ⟨.inFlight, (pool.locked.frames frame).generation, page⟩
            reserve } } := by
        refine hreach.move (.claim hstate (fun other ↦ ?_) ?_)
        · rw [hreserve, count_reserve]
        · rw [hreserve]
          exact Nat.le_succ _
      obtain ⟨frames, hclaimed, rfl, hreach⟩ := ih hclaim h
      refine ⟨frame :: frames, hclaimed.cons hreserve hstate, ?_, hreach.congr ?_⟩
      · simp only [List.append_assoc, List.singleton_append, List.length_cons, Nat.add_mul, one_mul,
          ReadVector.mk.injEq, true_and, and_true]
        omega
      · simp only [Multiset.add_cons, ← Multiset.cons_coe, Multiset.cons_add]

/-- The frames of a refused bundle go back to the reserve. -/
theorem abortVector_outcome {frames : List ℕ} :
    ∀ {c : Custody} {pool : Pool}, Reach C c pool → Multiset.ofList frames ≤ c.loose →
      c.filled = [] → frames.length + pool.locked.reserve.length ≤ C.prefetchCapacity →
      Outcome IsAssertion (fun locked ↦ Aborted frames pool.locked locked ∧
        Reach C { c with loose := c.loose - Multiset.ofList frames } { pool with locked })
        (abortVector C frames pool.locked) := by
  induction frames with
  | nil =>
    intro c pool h _ _ _
    refine ⟨⟨rfl, ?_, fun _ _ ↦ rfl⟩, h.congr (by simp)⟩
    exact fun frame hframe ↦ absurd hframe List.not_mem_nil
  | cons frame frames ih =>
    intro c pool h hloose hfilled hlength
    rw [List.length_cons] at hlength
    refine outcome_lift_bind fun locked habort ↦ ?_
    simp only [Locked.abort, bind_eq_ok, ensure_eq_ok, pure_ok, Except.ok.injEq] at habort
    obtain ⟨_, -, rfl⟩ := habort
    have hlt : pool.locked.reserve.length < C.prefetchCapacity := by omega
    rw [Locked.pushReserve, if_pos]
    swap
    · exact hlt
    have hmem : frame ∈ c.loose := Multiset.mem_of_le hloose (List.mem_cons_self ..)
    have haborted := (h.abortReserve hmem hlt).congr
      (show _ = { c with loose := c.loose.erase frame } by rw [hfilled]; rfl)
    rw [← Multiset.cons_coe] at hloose ⊢
    have hrest := Multiset.erase_le_erase frame hloose
    rw [Multiset.erase_cons_head] at hrest
    refine (ih haborted hrest hfilled ?_).mono ?_
    · simp only [List.length_cons]
      omega
    · rintro locked ⟨⟨hkept, hfree, hother⟩, hreach⟩
      dsimp only at hkept hfree hother
      refine ⟨⟨?_, fun other hmem ↦ ?_, fun other hmem ↦ ?_⟩, hreach.congr ?_⟩
      · rw [hkept]
        simp
      · by_cases heq : other = frame
        · subst heq
          by_cases hagain : other ∈ frames
          · rw [hfree other hagain, Function.update_self]
          · rw [hother other hagain, Function.update_self]
        · have hagain := (List.mem_cons.mp hmem).resolve_left heq
          rw [hfree other hagain, Function.update_of_ne heq]
      · obtain ⟨hframe, hframes⟩ := not_or.mp (List.mem_cons.not.mp hmem)
        rw [hother other hframes, Function.update_of_ne hframe]
      · simp only [Multiset.sub_cons]

end Bundles

/-! ## Runs of pages -/

section Runs

variable {C : Config} {c : Custody}

/-- A route that is given back leaves the routes as they were. -/
theorem ReadSpans.cancel_reserve {spans reserved after : ReadSpans} {slot : ℕ}
    (hreserve : spans.reserve = .ok (some slot, reserved)) (hcancel : reserved.cancel slot = .ok after) :
    after = spans := by
  unfold ReadSpans.reserve at hreserve
  cases hfree : spans.free with
  | none =>
    rw [hfree] at hreserve
    cases hreserve
  | some found =>
    rw [hfree] at hreserve
    dsimp only at hreserve
    split at hreserve
    · rename_i next hslot
      cases hreserve
      simp only [ReadSpans.cancel, bind_eq_ok, ensure_eq_ok, pure_ok, Except.ok.injEq] at hcancel
      obtain ⟨_, -, rfl⟩ := hcancel
      obtain ⟨hlt, hget⟩ := List.getElem?_eq_some_iff.mp hslot
      simp only [ReadSpans.release, List.set_set, ← hfree, ← hget, List.set_getElem_self]
    · cases hreserve

/-- The pages of a run lie one after another. -/
theorem consecutive_getElem {first : PageId} {pages : List PageId}
    (h : consecutive (first :: pages) = true) :
    ∀ {index : ℕ} {page : PageId}, (first :: pages)[index]? = some page →
      page = ⟨first.file, first.granuleIdx + index⟩ := by
  induction pages generalizing first with
  | nil =>
    intro index page hpage
    cases index with
    | zero =>
      cases hpage
      rfl
    | succ index => simp at hpage
  | cons second pages ih =>
    intro index page hpage
    simp only [consecutive, Pattern.follows, Bool.and_eq_true, beq_iff_eq] at h
    obtain ⟨⟨hfile, hsucc⟩, hrest⟩ := h
    cases index with
    | zero =>
      cases hpage
      rfl
    | succ index =>
      rw [List.getElem?_cons_succ] at hpage
      rw [ih hrest hpage, ← hfile]
      have hnext : second.granuleIdx = first.granuleIdx + 1 := by
        unfold checkedSucc at hsucc
        split at hsucc
        · exact (Option.some.inj hsucc).symm
        · cases hsucc
      rw [hnext]
      congr 1
      omega

/-- The pages of a run differ. -/
theorem consecutive_nodup {first : PageId} {pages : List PageId}
    (h : consecutive (first :: pages) = true) : (first :: pages).Nodup := by
  refine List.nodup_iff_getElem?_ne_getElem?.mpr fun low high hlt hhigh heq ↦ ?_
  have hlow : low < (first :: pages).length := hlt.trans hhigh
  have hfirst := consecutive_getElem h (List.getElem?_eq_getElem hlow)
  have hsecond := consecutive_getElem h (List.getElem?_eq_getElem hhigh)
  rw [List.getElem?_eq_getElem hlow, List.getElem?_eq_getElem hhigh, hfirst, hsecond] at heq
  simp only [Option.some.injEq, PageId.mk.injEq, true_and] at heq
  omega

/-- A call that has looked pages up may admit them. -/
theorem Reach.missingAll {pages : List PageId} {pool : Pool} (h : Reach C c pool)
    (hmissing : ∀ page ∈ pages, Missing pool.locked page) :
    ∃ live absent, (∀ page ∈ pages, page.file ∈ live ∧ page ∈ absent) ∧
      Reach C { c with live, absent } pool := by
  induction pages with
  | nil => exact ⟨c.live, c.absent, fun page hpage ↦ absurd hpage List.not_mem_nil, h⟩
  | cons page pages ih =>
    obtain ⟨live, absent, hpages, hreach⟩ :=
      ih fun other hother ↦ hmissing other (List.mem_cons_of_mem _ hother)
    refine ⟨insert page.file live, insert page absent, fun other hother ↦ ?_,
      hreach.missing (hmissing page (List.mem_cons_self ..))⟩
    rcases List.mem_cons.mp hother with rfl | hother
    · exact ⟨Finset.mem_insert_self _ _, Finset.mem_insert_self _ _⟩
    · exact ⟨Finset.mem_insert_of_mem (hpages other hother).1,
        Finset.mem_insert_of_mem (hpages other hother).2⟩

/-- The pages of a submitted bundle are admitted one after another. -/
theorem admitVectorPages_outcome (token : OpToken) (source : Source)
    {items : List (PageId × ℕ × ℕ)} :
    ∀ {c : Custody} {pool : Pool} {ordinal : ℕ} {span : ReadSpan}, Reach C c pool →
      c.orphans = Multiset.ofList (items.map fun item ↦ (token, item.2.1)) →
      c.room = items.length → (items.map Prod.fst).Nodup →
      (∀ item ∈ items, (pool.locked.frames item.2.1).page = item.1 ∧ item.1.file ∈ c.live ∧
        item.1 ∈ c.absent) →
      Outcome IsAssertion (fun outcome : ReadSpan × Pool ↦
        outcome.1 = { span with pages := outcome.1.pages } ∧
        Added (items.map Prod.fst) pool.locked outcome.2.locked ∧
        ∃ absent, Reach C { c with
          orphans := 0
          absent
          room := 0
          credits := c.credits + items.length } outcome.2)
        (admitVectorPages C token source ordinal items span pool) := by
  induction items with
  | nil =>
    intro c pool ordinal span h horphans hroom _ _
    refine ⟨rfl, .refl _, c.absent, h.congr ?_⟩
    obtain ⟨⟩ := c
    cases horphans
    cases hroom
    rfl
  | cons item items ih =>
    intro c pool ordinal span h horphans hroom hnodup hitems
    obtain ⟨page, frame, slot⟩ := item
    obtain ⟨hpage, hlive, habsent⟩ := hitems _ (List.mem_cons_self ..)
    rw [List.map_cons, ← Multiset.cons_coe] at horphans
    have horphan : (token, frame) ∈ c.orphans := by
      rw [horphans]
      exact Multiset.mem_cons_self _ _
    rw [List.map_cons, List.nodup_cons] at hnodup
    refine (admitPage_outcome source h horphan hpage habsent hlive hroom).bind ?_
    rintro ⟨generation, admitted⟩ ⟨hreach, hadded⟩
    refine outcome_lift_bind fun installed hinstalled ↦ ?_
    simp only [ReadSpan.install, bind_eq_ok, ensure_eq_ok, pure_ok, Except.ok.injEq] at hinstalled
    obtain ⟨_, -, _, -, rfl⟩ := hinstalled
    refine (ih hreach ?_ rfl hnodup.2 fun item hitem ↦ ?_).mono ?_
    · simp only [horphans, Multiset.erase_cons_head]
    · obtain ⟨hframe, hfile, hmissing⟩ := hitems item (List.mem_cons_of_mem _ hitem)
      have hne : item.1 ≠ page := by
        intro heq
        exact hnodup.1 (List.mem_map.mpr ⟨item, hitem, heq⟩)
      refine ⟨?_, hfile, Finset.mem_erase.mpr ⟨hne, hmissing⟩⟩
      rw [hadded.kept]
      exact hframe
    · rintro ⟨result, after⟩ ⟨hspan, hadded', absent, hreach⟩
      refine ⟨hspan, hadded.trans hadded', absent, hreach.congr ?_⟩
      simp only [List.length_cons, Nat.add_assoc, Nat.add_comm 1]

/-- A bundle is submitted whole, or each of its frames is free again. -/
theorem admitVector_outcome (k : Known) {pool : Pool} {route : ℕ} {slots : List ℕ}
    {first : PageId} {pages : List PageId} (source : Source) {spans : ReadSpans}
    (h : Reach C k.admitted.custody pool)
    (hreserved : spans.reserve = .ok (some route, pool.locked.readSpans))
    (hmissing : ∀ page ∈ first :: pages, Missing pool.locked page)
    (hreads : pool.locked.readsInFlight + (first :: pages).length ≤ C.maxInflightReads)
    (hslots : slots.length = (first :: pages).length)
    (hconsecutive : consecutive (first :: pages) = true) :
    Outcome IsAssertion (fun outcome : Admission × Pool ↦ Reach C k.admitted.custody outcome.2 ∧
      Decided (first :: pages) { pool.locked with readSpans := spans } outcome.1 outcome.2.locked)
      (admitVector C pool route slots (first :: pages) first source) := by
  obtain ⟨live, absent, hpages, hknown⟩ := h.missingAll hmissing
  have hroomy := hknown.roomy rfl hreads
  unfold admitVector
  refine outcome_lift_bind fun claimed hclaim ↦ ?_
  obtain ⟨vector, locked⟩ := claimed
  obtain ⟨frames, hclaimed, rfl, hreach⟩ := claimVector_eq_ok hroomy hclaim
  refine outcome_lift_bind fun fd hfd ↦ ?_
  have hfile := hreach.fileId_eq hfd
  refine outcome_lift_bind fun submitted hsubmit ↦ ?_
  obtain ⟨result, driver⟩ := submitted
  cases result with
  | error refusal =>
    obtain ⟨error, returned⟩ := refusal
    have hrefused := Shared.submitReadVector_eq_ok hsubmit
    obtain ⟨rfl, rfl, -⟩ := hrefused
    dsimp only
    have hlength : frames.length + locked.reserve.length ≤ C.prefetchCapacity := by
      have hreserve := h.placed.reserve
      rwa [hclaimed.reserve, List.length_append] at hreserve
    refine (abortVector_outcome hreach (Multiset.le_add_right _ _) rfl hlength).bind ?_
    rintro aborted ⟨haborted, habort⟩
    refine outcome_lift_bind fun readSpans hcancel ↦ ?_
    have hspans : aborted.readSpans = pool.locked.readSpans := by
      rw [haborted.kept, hclaimed.kept]
    rw [hspans] at hcancel
    have hrestored := ReadSpans.cancel_reserve hreserved hcancel
    subst hrestored
    have hcancelled := habort.move (@Move.spans C _ { pool with locked := aborted } readSpans
      fun token span hrouted ↦ ReadSpans.cancel_routed hcancel (hspans ▸ hrouted))
    have hcounted := (hcancelled.move (@Move.refuse C _ _ .vector error fun _ ↦ rfl)).move
      (@Move.speculative C _ _ ⟨(countRefused aborted).ledger, pool.unlocked.clock⟩ id)
    refine ⟨hcounted.forgetAdmission.congr ?_, .inr ⟨rfl, ?_⟩⟩
    · simp only [add_tsub_cancel_left]
      rfl
    · exact ((hclaimed.declined haborted).respan readSpans).refused .vector error
  | ok token =>
    have hlengths : frames.length = (first :: pages).length := hclaimed.claimed.length_eq
    have hframes : Consecutive locked.frames first frames := by
      intro index frame hframe
      obtain ⟨hlt, rfl⟩ := List.getElem?_eq_some_iff.mp hframe
      have hlt' : index < (first :: pages).length := hlengths ▸ hlt
      have hpage := (List.forall₂_iff_get.mp hclaimed.claimed).2 index hlt hlt'
      rw [List.get_eq_getElem] at hpage
      rw [hpage]
      exact consecutive_getElem hconsecutive (List.getElem?_eq_getElem hlt')
    have hsubmitted := hreach.move (.submitVector (Multiset.le_add_right _ _) rfl rfl
      (Nat.zero_add _) rfl hframes hfile hsubmit)
    dsimp only
    refine outcome_lift_bind fun span hspan ↦ ?_
    simp only [ReadSpan.new, bind_eq_ok, ensure_eq_ok, pure_ok, Except.ok.injEq] at hspan
    obtain ⟨_, -, _, -, _, -, rfl⟩ := hspan
    have hpairs : (frames.zip slots).length = (first :: pages).length := by
      rw [List.length_zip, hlengths, hslots, Nat.min_self]
    have hfst : ((first :: pages).zip (frames.zip slots)).map Prod.fst = first :: pages :=
      List.map_fst_zip hpairs.ge
    have hsnd : ((first :: pages).zip (frames.zip slots)).map (fun item ↦ item.2.1) = frames := by
      calc ((first :: pages).zip (frames.zip slots)).map (fun item ↦ item.2.1)
        _ = (((first :: pages).zip (frames.zip slots)).map Prod.snd).map Prod.fst := by
          rw [List.map_map]
          rfl
        _ = frames := by
          rw [List.map_snd_zip hpairs.le, List.map_fst_zip (hlengths.trans hslots.symm).le]
    have hadmission := @admitVectorPages_outcome C token source
      ((first :: pages).zip (frames.zip slots)) _ _ 0 ⟨List.replicate vectorFramesMax none, first,
        token, (first :: pages).length, (first :: pages).length * C.granule, 0, 0⟩ hsubmitted ?_ ?_ ?_
        fun item hitem ↦ ?_
    · refine hadmission.bind ?_
      rintro ⟨installed, admitted⟩ ⟨hspan, hadded, left, hadmitted⟩
      rw [hfst] at hadded
      refine outcome_lift_bind fun readSpans hcommit ↦ ?_
      dsimp only at hspan hcommit hadmitted
      obtain ⟨hrouted, hkeep⟩ := ReadSpans.commit_routed hcommit
      have htoken : installed.token = token := by rw [hspan]
      have hunrouted : some (token, 0 + frames.length * C.granule, 0) =
          some (token, installed.bytes, installed.filled) := by
        rw [hspan, hlengths, Nat.zero_add]
      rw [htoken] at hrouted
      have hroute := hadmitted.move (.route hunrouted hrouted hkeep)
      have hcredit := hroute.move (@Move.takeCredits C _ _ (first :: pages).length 0 ?_)
      · refine ⟨hcredit.forgetAdmission.congr ?_, .inl ⟨rfl, ?_⟩⟩
        · change { k.admitted.custody with
            loose := Multiset.ofList frames + 0 - Multiset.ofList frames } = k.admitted.custody
          rw [add_zero, tsub_self]
          rfl
        · exact hclaimed.accepted hadded spans readSpans
      · change 0 + ((first :: pages).zip (frames.zip slots)).length = 0 + (first :: pages).length
        rw [List.length_zip, hpairs, Nat.min_self]
    · calc Multiset.ofList (frames.map fun frame ↦ (token, frame)) + 0
        _ = Multiset.ofList ((((first :: pages).zip (frames.zip slots)).map
            fun item ↦ item.2.1).map fun frame ↦ (token, frame)) := by rw [hsnd, add_zero]
        _ = _ := by
          rw [List.map_map]
          rfl
    · dsimp only
      rw [List.length_zip, hpairs, Nat.min_self]
    · rw [hfst]
      exact consecutive_nodup hconsecutive
    · obtain ⟨hpage, hpair⟩ := List.of_mem_zip hitem
      refine ⟨?_, (hpages item.1 hpage).1, (hpages item.1 hpage).2⟩
      obtain ⟨index, hlt, rfl⟩ := List.getElem_of_mem hitem
      rw [List.length_zip, hpairs, Nat.min_self] at hlt
      have hclaim := (List.forall₂_iff_get.mp hclaimed.claimed).2 index (hlengths ▸ hlt) hlt
      simp only [List.get_eq_getElem] at hclaim
      simp only [List.getElem_zip]
      exact congrArg Frame.page hclaim

/-- A route is reserved, and frames have moved to the reserve. -/
def Prepared (before : Locked) (route : ℕ) (after : Locked) : Prop :=
  ∃ reserved, before.readSpans.reserve = .ok (some route, reserved) ∧
    Restocked { before with readSpans := reserved } after

theorem cancelRoute_triple (k : Known) {before : Locked} {route : ℕ} :
    (rules C).Triple (At C k.admitted.custody (Prepared before route)) (cancelRoute route)
      fun _ ↦ At C k.admitted.custody (Restocked before) := by
  refine update_triple at_stable fun pool h ↦ outcome_lift_bind fun readSpans hcancel ↦ ?_
  obtain ⟨hreach, reserved, hreserve, moved, freeFrames, hfree, hlocked⟩ := h
  refine ⟨hreach.move (.spans fun token span hrouted ↦ ReadSpans.cancel_routed hcancel hrouted), ?_⟩
  rw [hlocked] at hcancel ⊢
  have hrestored := ReadSpans.cancel_reserve hreserve hcancel
  exact ⟨moved, freeFrames, hfree, by rw [hrestored]⟩

theorem prefetchAdmitVector_triple (k : Known) {before : Locked} {first : PageId}
    {pages : List PageId} (source : Source)
    (hmissing : ∀ page ∈ first :: pages, Missing before page) :
    (rules C).Triple (At C k.admitted.custody fun locked ↦ locked = before)
      (prefetchAdmitVector C (first :: pages) first source)
      fun outcome ↦ At C k.admitted.custody (Decided (first :: pages) before outcome) := by
  have hdeclined : ∀ pool, At C k.admitted.custody (Restocked before) pool →
      At C k.admitted.custody (Decided (first :: pages) before .deferred) pool :=
    fun pool h ↦ ⟨h.1, .inr ⟨rfl, h.2.declined⟩⟩
  refine (ensure_triple at_stable).bind fun _ ↦ Rules.Triple.assume fun _ ↦ ?_
  refine (ensure_triple at_stable).bind fun _ ↦ Rules.Triple.assume fun _ ↦ ?_
  refine (ensure_triple at_stable).bind fun _ ↦ Rules.Triple.assume fun hconsecutive ↦ ?_
  refine Rules.Triple.through
    (fun _ ↦ At C k.admitted.custody fun locked ↦ locked = before) ?_ fun available ↦ ?_
  · exact locked_triple at_stable fun pool h ↦ outcome_lift_bind fun available _ ↦ h
  refine (look_triple Locked.readsInFlight).bind fun reads ↦ ?_
  split
  · refine Rules.Triple.done fun pool h ↦ hdeclined pool ⟨h.1, ?_⟩
    exact h.2.1 ▸ .refl before
  rename_i hroom
  have hreads := not_lt.mp (not_or.mp hroom).2
  refine Rules.Triple.through (fun reserved ↦ At C k.admitted.custody fun locked ↦
    reads = before.readsInFlight ∧ reserved.elim (Restocked before locked) fun route ↦
      Prepared before route locked) ?_ fun reserved ↦ ?_
  · refine locked_triple at_stable fun pool h ↦ outcome_lift_bind fun outcome hreserve ↦ ?_
    obtain ⟨reserved, readSpans⟩ := outcome
    obtain ⟨hreach, hsame, hread⟩ := h
    refine ⟨hreach.move (.spans fun token span hrouted ↦
      ReadSpans.reserve_routed hreserve hrouted), hsame ▸ hread, ?_⟩
    rw [hsame] at hreserve ⊢
    cases reserved with
    | none =>
      have hkept : readSpans = before.readSpans := by
        unfold ReadSpans.reserve at hreserve
        split at hreserve
        · cases hreserve
          rfl
        · split at hreserve <;> cases hreserve
      exact ⟨[], _, rfl, by rw [hkept]; rfl⟩
    | some route => exact ⟨readSpans, hreserve, .refl _⟩
  cases reserved with
  | none => exact Rules.Triple.done fun pool h ↦ hdeclined pool ⟨h.1, h.2.2⟩
  | some route =>
    have hcancel : (rules C).Triple (At C k.admitted.custody (Prepared before route))
        (do cancelRoute route; return Admission.deferred)
        fun outcome ↦ At C k.admitted.custody (Decided (first :: pages) before outcome) :=
      (cancelRoute_triple k).bind fun _ ↦ Rules.Triple.done hdeclined
    refine (admissionSlots_triple at_stable (first :: pages).length).bind fun found ↦
      Rules.Triple.assume fun hslots ↦ ?_
    cases found with
    | none => exact hcancel.weaken fun pool h ↦ ⟨h.1, h.2.2⟩
    | some slots =>
      have hlength := hslots slots rfl
      refine Rules.Triple.through (fun _ ↦ At C k.admitted.custody fun locked ↦
        reads = before.readsInFlight ∧ Prepared before route locked) ?_ fun _ ↦ ?_
      · refine update_triple at_stable fun pool h ↦ (fillReserve_outcome h.1).mono
          fun locked hlocked ↦ ⟨hlocked.2, h.2.1, ?_⟩
        obtain ⟨-, -, reserved, hreserve, hrestocked⟩ := h
        exact ⟨reserved, hreserve, hrestocked.trans hlocked.1⟩
      refine (look_triple fun locked ↦ decide (locked.reserve.length < (first :: pages).length)).bind
        fun short ↦ ?_
      split
      · exact hcancel.weaken fun pool h ↦ ⟨h.1, h.2.1.2⟩
      refine act_triple at_stable fun pool h ↦ ?_
      obtain ⟨hreach, ⟨hread, reserved, hreserve, moved, freeFrames, hfree, hlocked⟩, -⟩ := h
      have hspans : before.readSpans.reserve = .ok (some route, pool.locked.readSpans) := by
        rw [hlocked]
        exact hreserve
      have hrestocked : Restocked before { pool.locked with readSpans := before.readSpans } := by
        rw [hlocked]
        exact ⟨moved, freeFrames, hfree, rfl⟩
      have hstill : ∀ page ∈ first :: pages, Missing pool.locked page := by
        intro page hpage
        obtain ⟨hlookup, hpending, hlive⟩ := hmissing page hpage
        rw [hlocked]
        exact ⟨hlookup, hpending, hlive⟩
      have hroomy : pool.locked.readsInFlight + (first :: pages).length ≤ C.maxInflightReads := by
        rw [hlocked]
        rw [hread, List.length_cons] at hreads
        simp only [List.length_cons]
        omega
      refine (admitVector_outcome k source hreach hspans hstill hroomy hlength hconsecutive).mono
        fun outcome houtcome ↦ ?_
      exact ⟨houtcome.1, hrestocked.decided houtcome.2⟩

/-- A run is admitted whole or not at all. -/
theorem prefetchAdmitRun_triple (k : Known) {before : Locked} {pages : List PageId} (source : Source)
    (hmissing : ∀ page ∈ pages, Missing before page) :
    (rules C).Triple (At C k.admitted.custody fun locked ↦ locked = before)
      (prefetchAdmitRun C pages source)
      fun outcome ↦ At C k.admitted.custody (Decided pages before outcome) := by
  cases pages with
  | nil => exact fail_triple at_stable _
  | cons first pages =>
    cases pages with
    | nil => exact prefetchAdmitPoint_triple k source (hmissing first (List.mem_cons_self ..))
    | cons second pages => exact prefetchAdmitVector_triple k source hmissing

end Runs

end DiosPool.Pool
