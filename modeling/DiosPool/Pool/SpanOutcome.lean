import DiosPool.Pool.SpanRead

/-!
# How vector reads and point reads end

The state of a read in flight is a function of the bytes that arrived, and its last state a function
of these bytes and of the reason it stopped. So it does not matter how the device split the transfer.
-/

namespace DiosPool.Pool

open Driver Foundation

/-! ## Alignment -/

section Alignment

variable {mode : IoMode} {granule offset : ℕ}

theorem check_add_right (hgranule : mode.check granule = true) :
    mode.check (granule + offset) = mode.check offset := by
  cases mode with
  | buffered => rfl
  | direct alignment =>
    rw [Bool.eq_iff_iff]
    simp only [IoMode.check, Alignment.check_iff] at hgranule ⊢
    exact Nat.dvd_add_right hgranule

theorem check_mod (hgranule : mode.check granule = true) :
    mode.check (offset % granule) = mode.check offset := by
  cases mode with
  | buffered => rfl
  | direct alignment =>
    rw [Bool.eq_iff_iff]
    simp only [IoMode.check, Alignment.check_iff] at hgranule ⊢
    exact Nat.dvd_mod_iff hgranule

theorem check_sub_left (hgranule : mode.check granule = true) (hoffset : offset ≤ granule) :
    mode.check (granule - offset) = mode.check offset := by
  cases mode with
  | buffered => rfl
  | direct alignment =>
    rw [Bool.eq_iff_iff]
    simp only [IoMode.check, Alignment.check_iff] at hgranule ⊢
    exact Nat.dvd_sub_iff_right hoffset hgranule

end Alignment

namespace SpanPlan

variable (plan : SpanPlan)

/-! ## The states of a vector read -/

/-- The misses of a span with the first `count` of them installed. -/
def installed (count : ℕ) : List (Option SpanPage) :=
  (List.range vectorFramesMax).map fun ordinal ↦
    if ordinal < count then some (plan.misses ordinal) else none

/-- The span after `done` bytes. -/
def committedAt (done : ℕ) : ReadSpan :=
  { plan.spanAt done with pages := plan.installed plan.frames.length }

/-- The routes while the span is in the given state. -/
def routesWith (state : SpanState) : ReadSpans where
  slots := plan.routes.slots.set plan.route state
  operations := plan.routes.operations.set plan.token.slot (some ⟨plan.token, plan.route⟩)
  free := plan.routes.free

/-- The first pages with their ends. -/
def pagesEnded (ends : ℕ → PageEnd) (count : ℕ) : List SettledPage :=
  (List.range count).map fun ordinal ↦ ⟨ordinal, plan.frames.getD ordinal 0, ends ordinal⟩

/-- The credits in flight while the first `count` pages are over. -/
def credits (count : ℕ) : ℕ := plan.reads + (plan.frames.length - count)

/-- A read whose completion is being routed, after `done` bytes. -/
def routingAt (payload : Option OpEntry) (received : List Request) (done : ℕ) : SpanRun where
  payload := payload
  spans := plan.routesWith .completing
  readsInFlight := plan.credits (done / plan.granule)
  settled := plan.pagesEnded (fun _ ↦ .resident) (done / plan.granule)
  received := received

/-- The queued entry after `done` bytes and some retries. -/
def attemptAt (done retries : ℕ) : OpEntry := { plan.entryAt done with retries }

/-- A read in flight after `done` bytes. -/
def runAt (done retries : ℕ) : SpanRun :=
  { plan.routingAt (some (plan.attemptAt done retries)) (plan.image.take done) done with
    spans := plan.routesWith (.inFlight (plan.committedAt done)) }

/-- The end of a page when the read stops after `done` bytes with an error number. -/
def pageEnd (done errno ordinal : ℕ) : PageEnd :=
  if ordinal < done / plan.granule then .resident else .failed errno

/-- A read that is over after `done` bytes. -/
def endAt (done errno : ℕ) : SpanRun where
  payload := none
  spans := plan.routes.release plan.route
  readsInFlight := plan.reads
  settled := plan.pagesEnded (plan.pageEnd done errno) plan.frames.length
  received := plan.image.take done

theorem payload_runAt (done retries : ℕ) :
    (plan.runAt done retries).payload = some (plan.attemptAt done retries) := rfl

/-! ## Routes -/

theorem route_lt : plan.route < plan.routes.slots.length :=
  (List.getElem?_eq_some_iff.mp plan.prepared).1

theorem slot_lt_operations : plan.token.slot < plan.routes.operations.length :=
  (List.getElem?_eq_some_iff.mp plan.vacant).1

theorem installPages_eq {count : ℕ} (hcount : count ≤ plan.frames.length) :
    plan.installPages count (plan.spanAt 0) =
      .ok { plan.spanAt 0 with pages := plan.installed count } := by
  have hlength := plan.length_le
  induction count with
  | zero =>
    have hnone : plan.installed 0 = List.replicate vectorFramesMax none := by
      apply List.ext_getElem <;> simp [installed]
    simp [installPages, hnone, VectorPlan.spanAt]
  | succ count ih =>
    have hlt : count < vectorFramesMax := by omega
    have hvacant : (plan.installed count)[count]? = some none := by
      simp [installed, hlt]
    have hset : (plan.installed count).set count (some (plan.misses count)) =
        plan.installed (count + 1) := by
      apply List.ext_getElem
      · simp [installed]
      · intro index hindex hindex'
        rw [List.getElem_set]
        split
        · rename_i heq
          subst heq
          simp [installed]
        · rename_i hne
          have hiff : index < count ↔ index < count + 1 := by omega
          simp [installed, hiff]
    have hspan : count < (plan.spanAt 0).count := by
      simp only [VectorPlan.spanAt]
      omega
    simp only [installPages, ih (by omega), ok_bind, ReadSpan.install, ensure_true hspan,
      ensure_true hvacant, hset, pure_ok]

theorem commit_eq : plan.commit = .ok (plan.runAt 0 0) := by
  have hbytes := plan.bytes_le
  have hlimit : vectorBytesMax < 2 ^ 32 := by decide
  have hspan : ReadSpan.new plan.first plan.token plan.frames.length plan.granule =
      .ok (plan.spanAt 0) := by
    have hcount : 2 ≤ plan.frames.length ∧ plan.frames.length ≤ vectorFramesMax :=
      ⟨plan.two_le, plan.length_le⟩
    simp only [ReadSpan.new, ensure_true hcount, ensure_true (Nat.lt_of_le_of_lt hbytes hlimit),
      ensure_true hbytes, ok_bind]
    simp [VectorPlan.spanAt, VectorPlan.total]
  have hpages : ∀ page ∈ (plan.committedAt 0).pages.take (plan.committedAt 0).count,
      page.isSome := by
    intro page hmem
    obtain ⟨index, hindex, rfl⟩ := List.mem_take_iff_getElem.mp hmem
    have hlt : index < plan.frames.length := by
      simp only [committedAt, VectorPlan.spanAt] at hindex
      omega
    simp [committedAt, installed, hlt]
  have hcommit : plan.routes.commit plan.route (plan.committedAt 0) =
      .ok (plan.routesWith (.inFlight (plan.committedAt 0))) := by
    have hvacant : plan.routes.operations[(plan.committedAt 0).token.slot]? = some none :=
      plan.vacant
    simp only [ReadSpans.commit, ensure_true plan.prepared, ensure_true hpages,
      ensure_true hvacant, ok_bind]
    rfl
  have hinstall := plan.installPages_eq le_rfl
  simp only [commit, plan.submit_eq, hspan, hinstall, ok_bind]
  have hcommit' : plan.routes.commit plan.route
      { plan.spanAt 0 with pages := plan.installed plan.frames.length } =
      .ok (plan.routesWith (.inFlight (plan.committedAt 0))) := hcommit
  rw [hcommit', ok_bind]
  simp [runAt, routingAt, credits, pagesEnded]
  rfl

theorem completing_routesWith (done : ℕ) :
    (plan.routesWith (.inFlight (plan.committedAt done))).completing plan.token =
      .ok (plan.route, plan.committedAt done, plan.routesWith .completing) := by
  have hslot := plan.slot_lt_operations
  have hroute := plan.route_lt
  have htoken : (plan.committedAt done).token = plan.token := rfl
  simp [ReadSpans.completing, routesWith, hslot, hroute, htoken]

theorem resume_routesWith {done : ℕ} (hdone : done < plan.total) :
    (plan.routesWith .completing).resume plan.route (plan.committedAt done) =
      .ok (plan.routesWith (.inFlight (plan.committedAt done))) := by
  have hroute := plan.route_lt
  have hfilled : (plan.committedAt done).filled < (plan.committedAt done).bytes := hdone
  simp [ReadSpans.resume, routesWith, hroute, hfilled]

theorem finish_routesWith :
    (plan.routesWith .completing).finish plan.route plan.token =
      .ok (plan.routes.release plan.route) := by
  have hslot := plan.slot_lt_operations
  have hroute := plan.route_lt
  have hvacant : plan.routes.operations.set plan.token.slot none = plan.routes.operations := by
    have hget := (List.getElem?_eq_some_iff.mp plan.vacant).2
    conv_lhs => rw [← hget]
    exact List.set_getElem_self hslot
  simp [ReadSpans.finish, ReadSpans.release, routesWith, hslot, hroute, hvacant]

/-! ## Pages -/

theorem pagesEnded_succ (ends : ℕ → PageEnd) (count : ℕ) :
    plan.pagesEnded ends (count + 1) =
      plan.pagesEnded ends count ++ [⟨count, plan.frames.getD count 0, ends count⟩] := by
  simp [pagesEnded, List.range_succ]

theorem pagesEnded_congr {ends ends' : ℕ → PageEnd} {count : ℕ}
    (h : ∀ ordinal < count, ends ordinal = ends' ordinal) :
    plan.pagesEnded ends count = plan.pagesEnded ends' count := by
  refine List.map_congr_left fun ordinal hmem ↦ ?_
  rw [h ordinal (List.mem_range.mp hmem)]

/-- The next page of a span ends and gives its credit back. -/
theorem run_settle (ends : ℕ → PageEnd) {count : ℕ} {span : ReadSpan} {pageEnd : PageEnd}
    (hcount : count < plan.frames.length) (hspan : span.count = plan.frames.length)
    (hpages : span.pages = plan.installed plan.frames.length) (hend : ends count = pageEnd)
    (state : SpanRun) :
    (SpanM.settle span pageEnd count (plan.frames.getD count 0)).run
        { state with
          readsInFlight := plan.credits count
          settled := plan.pagesEnded ends count } =
      .ok ((), { state with
        readsInFlight := plan.credits (count + 1)
        settled := plan.pagesEnded ends (count + 1) }) := by
  have hlength := plan.length_le
  have hlt : count < span.count := by omega
  have hinstalled : span.pages[count]?.join.isSome := by
    have hmax : count < vectorFramesMax := by omega
    simp [hpages, installed, hmax, hcount]
  have hfresh : ∀ page ∈ plan.pagesEnded ends count, ¬page.ordinal = count := by
    intro page hmem
    obtain ⟨ordinal, hordinal, rfl⟩ := List.mem_map.mp hmem
    exact (List.mem_range.mp hordinal).ne
  have hcredit : 1 ≤ plan.credits count := by
    simp only [credits]
    omega
  have hrest : plan.credits count - 1 = plan.credits (count + 1) := by
    simp only [credits]
    omega
  simp [SpanM.settle, SpanM.releaseReadCredit, hlt, hinstalled, ensure_true hfresh, hcredit, hrest,
    pagesEnded_succ, hend]

theorem take_drop_succ {start count : ℕ} (hstart : start < plan.frames.length) :
    (plan.frames.drop start).take (count + 1) =
      plan.frames.getD start 0 :: (plan.frames.drop (start + 1)).take count := by
  rw [List.drop_eq_getElem_cons hstart, List.take_succ_cons, List.getD_eq_getElem _ _ hstart]

/-- Complete pages are published one after another. -/
theorem run_publish (count : ℕ) (state : SpanRun) :
    ∀ (start : ℕ) (span : ReadSpan), start + count ≤ plan.frames.length → span.published = start →
      span.count = plan.frames.length → span.pages = plan.installed plan.frames.length →
      (ReadVector.consumeFrames (ReadSpan.publishNext fun span ordinal frame ↦
          SpanM.settle span .resident ordinal frame) span start
          ((plan.frames.drop start).take count)).run
          { state with
            readsInFlight := plan.credits start
            settled := plan.pagesEnded (fun _ ↦ .resident) start } =
        .ok ({ span with published := start + count }, { state with
          readsInFlight := plan.credits (start + count)
          settled := plan.pagesEnded (fun _ ↦ .resident) (start + count) }) := by
  induction count with
  | zero =>
    intro start span hstart hpublished hcount hpages
    subst hpublished
    simp [ReadVector.consumeFrames]
  | succ count ih =>
    intro start span hstart hpublished hcount hpages
    have hlt : start < plan.frames.length := by omega
    have hsettle := plan.run_settle (fun _ ↦ .resident) hlt hcount hpages rfl state
    have hrest := ih (start + 1) { span with published := start + 1 } (by omega) rfl hcount hpages
    have hnext : start + 1 + count = start + (count + 1) := by omega
    rw [hnext] at hrest
    rw [plan.take_drop_succ hlt, ReadVector.consumeFrames, StateT.run_bind]
    have hpublish : (ReadSpan.publishNext (fun span ordinal frame ↦
          SpanM.settle span .resident ordinal frame) span start (plan.frames.getD start 0)).run
        { state with
          readsInFlight := plan.credits start
          settled := plan.pagesEnded (fun _ ↦ .resident) start } =
        .ok ({ span with published := start + 1 }, { state with
          readsInFlight := plan.credits (start + 1)
          settled := plan.pagesEnded (fun _ ↦ .resident) (start + 1) }) := by
      simp only [ReadSpan.publishNext, hpublished]
      simp [-List.getD_eq_getElem?_getD, hsettle]
    rw [hpublish, ok_bind]
    exact hrest

/-- The pages that are left fail one after another. -/
theorem run_fail (errno : ℕ) (count : ℕ) (state : SpanRun) {span : ReadSpan} {ends : ℕ → PageEnd}
    (hcount : span.count = plan.frames.length)
    (hpages : span.pages = plan.installed plan.frames.length)
    (hends : ∀ ordinal, span.published ≤ ordinal → ends ordinal = .failed errno) :
    ∀ failed, span.published + failed + count = plan.frames.length →
      (ReadVector.consumeFrames (failPage span errno) failed (span.published + failed)
          (plan.frames.drop (span.published + failed))).run
          { state with
            readsInFlight := plan.credits (span.published + failed)
            settled := plan.pagesEnded ends (span.published + failed) } =
        .ok (failed + count, { state with
          readsInFlight := plan.reads
          settled := plan.pagesEnded ends plan.frames.length }) := by
  induction count with
  | zero =>
    intro failed hfailed
    rw [Nat.add_zero] at hfailed
    have hnone : plan.frames.drop (span.published + failed) = [] := by
      rw [hfailed, List.drop_length]
    simp only [hfailed]
    simp [ReadVector.consumeFrames, credits]
  | succ count ih =>
    intro failed hfailed
    have hlt : span.published + failed < plan.frames.length := by omega
    have hsettle := plan.run_settle ends hlt hcount hpages (hends _ (Nat.le_add_right _ _)) state
    have hrest := ih (failed + 1) (by omega)
    have hdrop : plan.frames.drop (span.published + failed) =
        plan.frames.getD (span.published + failed) 0 ::
          plan.frames.drop (span.published + (failed + 1)) := by
      rw [List.drop_eq_getElem_cons hlt, List.getD_eq_getElem _ _ hlt, Nat.add_assoc]
    have hfail : (failPage span errno failed (span.published + failed)
          (plan.frames.getD (span.published + failed) 0)).run
        { state with
          readsInFlight := plan.credits (span.published + failed)
          settled := plan.pagesEnded ends (span.published + failed) } =
        .ok (failed + 1, { state with
          readsInFlight := plan.credits (span.published + (failed + 1))
          settled := plan.pagesEnded ends (span.published + (failed + 1)) }) := by
      rw [Nat.add_assoc] at hsettle
      simp [-List.getD_eq_getElem?_getD, failPage, hsettle]
    rw [hdrop, ReadVector.consumeFrames, StateT.run_bind, hfail, ok_bind, Nat.add_assoc, hrest]
    congr 2
    omega

/-! ## Completions -/

/-- A completion publishes exactly the pages it completes. -/
theorem run_publishCompleted {done bytes : ℕ} (hbytes : done + bytes ≤ plan.total)
    (payload : Option OpEntry) (received : List Request) :
    ((plan.committedAt done).publishCompleted { plan.vectorAt done with filled := done + bytes }
        bytes plan.granule fun span ordinal frame ↦ SpanM.settle span .resident ordinal frame).run
        (plan.routingAt payload received done) =
      .ok ((plan.committedAt (done + bytes), plan.vectorAt (done + bytes)),
        plan.routingAt payload received (done + bytes)) := by
  have hle : done / plan.granule ≤ (done + bytes) / plan.granule :=
    Nat.div_le_div_right (Nat.le_add_right _ _)
  have hlast : (done + bytes) / plan.granule ≤ plan.frames.length :=
    Nat.div_le_of_le_mul (by rw [Nat.mul_comm]; exact hbytes)
  have hsuffix : bytes ≤ plan.total - done := by omega
  have hnext : done / plan.granule + ((done + bytes) / plan.granule - done / plan.granule) =
      (done + bytes) / plan.granule := by omega
  have hrun := plan.run_publish ((done + bytes) / plan.granule - done / plan.granule)
    (plan.routingAt payload received done) (done / plan.granule)
    { plan.committedAt done with filled := done + bytes } (by omega) rfl rfl rfl
  have hwithin : (done + bytes) / plan.granule ≤
      plan.frames.length - done / plan.granule + done / plan.granule := by omega
  simp only [hnext, routingAt, committedAt, VectorPlan.spanAt] at hrun
  simp [ReadSpan.publishCompleted, ReadVector.takeCompleted, VectorPlan.spanAt,
    VectorPlan.vectorAt, routingAt, committedAt, hsuffix, hle, hwithin, hrun, hnext]

/-- The pages that are not complete fail together and the route is free. -/
theorem run_routeSpanFailure (errno : ℕ) {done : ℕ} (hdone : done < plan.total)
    (payload : Option OpEntry) (received : List Request) :
    (routeSpanFailure plan.route (plan.committedAt done) (plan.vectorAt done) errno).run
        (plan.routingAt payload received done) =
      .ok ((), { plan.endAt done errno with payload, received }) := by
  have hframe : done / plan.granule < plan.frames.length :=
    (Nat.div_lt_iff_lt_mul plan.granule_pos).mpr hdone
  have hstart : plan.pagesEnded (fun _ ↦ .resident) (done / plan.granule) =
      plan.pagesEnded (plan.pageEnd done errno) (done / plan.granule) :=
    plan.pagesEnded_congr fun ordinal hordinal ↦ (if_pos hordinal).symm
  have hends : ∀ ordinal, (plan.committedAt done).published ≤ ordinal →
      plan.pageEnd done errno ordinal = .failed errno :=
    fun ordinal hordinal ↦ if_neg (Nat.not_lt.mpr hordinal)
  have hall : (plan.committedAt done).published + 0 +
      (plan.frames.length - done / plan.granule) = plan.frames.length := by
    simp only [committedAt, VectorPlan.spanAt]
    omega
  have hrun := plan.run_fail errno _ (plan.routingAt payload received done) rfl rfl hends 0 hall
  have hsum : done / plan.granule + (plan.frames.length - done / plan.granule) =
      plan.frames.length := by omega
  have hfinish := plan.finish_routesWith
  simp only [routingAt, committedAt, VectorPlan.spanAt, Nat.add_zero, Nat.zero_add] at hrun
  simp [routeSpanFailure, ReadVector.takeRemaining, VectorPlan.vectorAt, SpanM.route, routingAt,
    committedAt, VectorPlan.spanAt, hstart, hrun, hsum, hfinish, endAt]

theorem received_at (done retries : ℕ) (result : IoResult) :
    (readAttempt (plan.attemptAt done retries)).received result =
      (plan.image.drop done).take (transferred result) := by
  have hdescriptors : (readAttempt (plan.attemptAt done retries)).descriptors =
      ReadVector.buildDescriptors plan.granule (done % plan.granule) 0
        (plan.frames.drop (done / plan.granule)) := rfl
  have hoffset : (readAttempt (plan.attemptAt done retries)).fileOffset =
      plan.base + done := rfl
  rw [ReadAttempt.received, hdescriptors, hoffset, plan.descriptorTargets_at,
    plan.requestsAt_drop]

theorem finishVector_nothing {done : ℕ} {result : IoResult} (hnone : transferred result = 0) :
    (plan.entryAt done).finishVector (plan.preparedAt done) result =
      .ok (some { plan.entryAt done with frame := none, state := .terminal result },
        { plan.vectorAt done with filled := done + transferred result }) := by
  simp [OpEntry.finishVector, hnone, VectorPlan.entryAt, VectorPlan.preparedAt,
    VectorPlan.vectorAt, OpEntry.ofVector, ReadVector.recordCompletion, ReadVector.remaining]

/-- The number of retries plays no role when an attempt is over. -/
theorem finishVector_retries {entry held : OpEntry} {vector rest : ReadVector} {result : IoResult}
    (h : entry.finishVector vector result = .ok (some held, rest)) (retries : ℕ) :
    OpEntry.finishVector { entry with retries } vector result =
      .ok (some { held with retries }, rest) := by
  simp only [OpEntry.finishVector, bind_eq_ok, ensure_eq_ok] at h ⊢
  obtain ⟨-, hfits, after, hafter, h⟩ := h
  refine ⟨(), hfits, after, hafter, ?_⟩
  split at h
  · rename_i hshort
    rw [if_pos hshort]
    obtain ⟨_, hrange, h⟩ := bind_eq_ok.mp h
    simp only [pure_ok, Except.ok.injEq, Prod.mk.injEq, Option.some.injEq] at h
    obtain ⟨rfl, rfl⟩ := h
    rw [ensure_true (ensure_eq_ok.mp hrange)]
    rfl
  · rename_i hshort
    rw [if_neg hshort]
    split at h
    · rename_i hlease
      rw [if_pos hlease]
      simp only [pure_ok, Except.ok.injEq, Prod.mk.injEq, Option.some.injEq] at h
      obtain ⟨rfl, rfl⟩ := h
      rfl
    · simp at h

/-- Why a vector read can be over after `done` bytes. -/
def Stops (done : ℕ) : Cause → Prop
  | .full => done = plan.total
  | .endOfFile => done < plan.total ∧ plan.aligned done = true
  | .device _ => done < plan.total ∧ plan.aligned done = true
  | .misaligned => done < plan.total ∧ plan.aligned done = false

end SpanPlan

/-- The error number of the pages that a vector read leaves. -/
def Cause.spanErrno : Cause → ℕ
  | .full => 0
  | .endOfFile => eio
  | .device errno => errno
  | .misaligned => einval

namespace SpanPlan

variable (plan : SpanPlan)

/-- What is left of a read whose slot is held back is released. -/
theorem run_releaseReadLease {state : SpanRun} {entry : OpEntry} {outcome : IoResult}
    (hpayload : state.payload = some entry) (hframe : entry.frame = none)
    (houtcome : Shared.leaseOutcome entry = .ok outcome) :
    SpanM.releaseReadLease.run state = .ok ((), { state with payload := none }) := by
  simp [SpanM.releaseReadLease, hpayload, hframe, houtcome]

/-- The entry of a read that waits for its route after `done` bytes. -/
theorem run_complete_of_finish {done retries : ℕ} {result : IoResult} {held : OpEntry}
    {vector : ReadVector}
    (hring : ringTurn plan.driver (plan.attemptAt done retries) result = .ok (.inr result))
    (hfinish : (plan.entryAt done).finishVector (plan.preparedAt done) result =
      .ok (some held, vector)) :
    (plan.complete result).run (plan.runAt done retries) =
      (plan.routeSpanCompletion vector true result).run
        { plan.runAt done retries with
          payload := some { held with retries }
          received := plan.image.take (done + transferred result) } := by
  have hpayload := plan.payload_runAt done retries
  have hreceived : (plan.runAt done retries).received ++
      (readAttempt (plan.attemptAt done retries)).received result =
        plan.image.take (done + transferred result) := by
    rw [received_at, List.take_add]
    rfl
  have hframe : (plan.attemptAt done retries).frame =
      some (.vector (plan.preparedAt done)) := rfl
  have hheld : (plan.attemptAt done retries).finishVector (plan.preparedAt done) result =
      .ok (some { held with retries }, vector) := finishVector_retries hfinish retries
  simp [complete, hpayload, hring, hframe, hheld, hreceived]

/-- An attempt that failed for a passing reason is repeated. -/
theorem run_complete_of_again {done retries : ℕ} {result : IoResult}
    (hring : ringTurn plan.driver (plan.attemptAt done retries) result =
      .ok (.inl (plan.attemptAt done (retries + 1)))) :
    (plan.complete result).run (plan.runAt done retries) =
      .ok (none, plan.runAt done (retries + 1)) := by
  have hpayload := plan.payload_runAt done retries
  simp only [complete, StateT.run_bind, StateT.run_get, pure_ok, ok_bind, hpayload]
  simp [hring]
  rfl

/-- A completion finds its span and publishes what it completes. -/
theorem run_routeSpanCompletion (retries : ℕ) {done : ℕ} {result : IoResult}
    (hbytes : done + transferred result ≤ plan.total) (payload : Option OpEntry)
    (received : List Request) :
    (plan.routeSpanCompletion { plan.vectorAt done with filled := done + transferred result } true
        result).run { plan.runAt done retries with payload, received } =
      (plan.routeSpanProgress plan.route (plan.committedAt (done + transferred result))
        (plan.vectorAt (done + transferred result)) true result).run
        (plan.routingAt payload received (done + transferred result)) := by
  have hcompleting := plan.completing_routesWith done
  have hpublish := plan.run_publishCompleted hbytes payload received
  have hspans : (plan.runAt done retries).spans =
      plan.routesWith (.inFlight (plan.committedAt done)) := rfl
  have hrouting : ({ plan.runAt done retries with
      payload, received, spans := plan.routesWith .completing } : SpanRun) =
      plan.routingAt payload received done := rfl
  simp only [routeSpanCompletion, StateT.run_bind, StateT.run_get, pure_ok, ok_bind, hspans]
  simp [hcompleting]
  simp only [hrouting, hpublish, ok_bind]

theorem isComplete_total : (plan.committedAt plan.total).isComplete = .ok true := by
  simp [ReadSpan.isComplete, committedAt, VectorPlan.spanAt, VectorPlan.total, plan.granule_pos]

theorem isComplete_of_lt {done : ℕ} (hdone : done < plan.total) :
    (plan.committedAt done).isComplete = .ok false := by
  simp [ReadSpan.isComplete, committedAt, VectorPlan.spanAt, hdone.ne]

/-- A completion without bytes fails every page that is left. -/
theorem run_complete_of_nothing {done retries : ℕ} {result : IoResult} (hdone : done < plan.total)
    (hnone : transferred result = 0)
    (hring : ringTurn plan.driver (plan.attemptAt done retries) result = .ok (.inr result)) :
    (plan.complete result).run (plan.runAt done retries) =
      .ok (some (.ofResult result), plan.endAt done (Cause.ofResult result).spanErrno) := by
  have herrno : failureErrno result = (Cause.ofResult result).spanErrno := by
    cases result <;> rfl
  rw [plan.run_complete_of_finish hring (plan.finishVector_nothing hnone),
    plan.run_routeSpanCompletion retries (by omega)]
  have hfail := plan.run_routeSpanFailure (Cause.ofResult result).spanErrno hdone
  simp only [hnone, Nat.add_zero]
  simp [routeSpanProgress, plan.isComplete_of_lt hdone, hnone, herrno, hfail,
    SpanM.releaseReadLease, Shared.leaseOutcome, endAt]

/-- The last bytes end the read, and every page is resident. -/
theorem run_complete_of_full {done retries bytes : ℕ} (hbytes : done + bytes = plan.total)
    (hring : ringTurn plan.driver (plan.attemptAt done retries) (.ok bytes) =
      .ok (.inr (.ok bytes))) :
    (plan.complete (.ok bytes)).run (plan.runAt done retries) =
      .ok (some .full, plan.endAt plan.total Cause.full.spanErrno) := by
  have hfits : done + transferred (.ok bytes) ≤ plan.total := hbytes.le
  have hall : plan.total / plan.granule = plan.frames.length :=
    Nat.mul_div_cancel _ plan.granule_pos
  have hends : plan.pagesEnded (fun _ ↦ .resident) plan.frames.length =
      plan.pagesEnded (plan.pageEnd plan.total Cause.full.spanErrno) plan.frames.length := by
    refine plan.pagesEnded_congr fun ordinal hordinal ↦ ?_
    rw [pageEnd, hall, if_pos hordinal]
  have hfinish := plan.finish_routesWith
  rw [plan.run_complete_of_finish hring (plan.finishVector_full hbytes)]
  have hroute := plan.run_routeSpanCompletion retries hfits
  simp only [transferred, hbytes] at hroute
  simp only [transferred, hbytes, hroute]
  simp [routeSpanProgress, plan.isComplete_total, SpanM.route, routingAt, hfinish,
    SpanM.releaseReadLease, Shared.leaseOutcome, endAt, hall, hends, credits]

/-- The entry of a read that waits for its continuation does not depend on its retries. -/
theorem continueVector_retries {done : ℕ} (hdone : done < plan.total) (retries : ℕ) :
    ∃ held : OpEntry, { plan.heldAt done with retries } = held ∧ held.frame = none ∧
      Shared.leaseOutcome held = .ok (.error eio) ∧
      held.continueVector plan.slots plan.token (plan.vectorAt done) =
        .ok (if plan.aligned done then some (plan.entryAt done) else none) :=
  ⟨_, rfl, rfl, rfl, plan.continueVector_at hdone⟩

/-- A short completion: the read goes on after it if the rest is aligned, and ends otherwise. -/
theorem run_complete_of_short {done retries bytes : ℕ} (hpos : 0 < bytes)
    (hbytes : done + bytes < plan.total)
    (hring : ringTurn plan.driver (plan.attemptAt done retries) (.ok bytes) =
      .ok (.inr (.ok bytes))) :
    (plan.complete (.ok bytes)).run (plan.runAt done retries) =
      if plan.aligned (done + bytes) then .ok (none, plan.runAt (done + bytes) 0)
      else .ok (some .misaligned, plan.endAt (done + bytes) Cause.misaligned.spanErrno) := by
  have hfits : done + transferred (.ok bytes) ≤ plan.total := hbytes.le
  obtain ⟨held, hheld, hframe, houtcome, hcontinue⟩ := plan.continueVector_retries hbytes retries
  rw [plan.run_complete_of_finish hring (plan.finishVector_short hpos hbytes), hheld]
  have hroute := plan.run_routeSpanCompletion retries hfits
  simp only [transferred] at hroute
  simp only [transferred, hroute]
  have hresume := plan.resume_routesWith hbytes
  have hfail := plan.run_routeSpanFailure einval hbytes
  by_cases haligned : plan.aligned (done + bytes) = true
  · rw [if_pos haligned] at hcontinue ⊢
    simp [routeSpanProgress, plan.isComplete_of_lt hbytes, hpos, transferred, routingAt, hcontinue,
      SpanM.route, hresume, runAt]
    rfl
  · rw [if_neg haligned] at hcontinue ⊢
    have hrelease : SpanM.releaseReadLease.run (plan.routingAt (some held)
        (plan.image.take (done + bytes)) (done + bytes)) =
        .ok ((), plan.routingAt none (plan.image.take (done + bytes)) (done + bytes)) :=
      run_releaseReadLease rfl hframe houtcome
    have hpayload : (plan.routingAt (some held) (plan.image.take (done + bytes))
        (done + bytes)).payload = some held := rfl
    simp [routeSpanProgress, plan.isComplete_of_lt hbytes, hpos, transferred, hpayload, hcontinue,
      hrelease, hfail]
    rfl

/-! ## The whole read -/

theorem check_base : plan.ioMode.check plan.base = true :=
  VectorPlan.check_mul plan.ioMode plan.granule_aligned _

theorem check_total : plan.ioMode.check plan.total = true :=
  VectorPlan.check_mul plan.ioMode plan.granule_aligned _

/-- The read may go on from the multiples of the alignment. -/
theorem aligned_eq {done : ℕ} (hdone : done ≤ plan.total) :
    plan.aligned done = plan.ioMode.check done := by
  have hfile : (plan.heldAt done).fileOffset = plan.base + done := rfl
  have hmode : (plan.heldAt done).ioMode = plan.ioMode := rfl
  have hdestination : (plan.vectorAt done).destinationOffset = done % plan.granule := rfl
  have hremaining : (plan.vectorAt done).remaining = plan.total - done := rfl
  rw [VectorPlan.aligned, OpEntry.continuationAligned, hfile, hmode, hdestination, hremaining,
    check_add_right plan.check_base, check_mod plan.granule_aligned,
    check_sub_left plan.check_total hdone, Bool.and_self, Bool.and_self]

/-- A vector read in flight. -/
def Running (state : SpanRun) (entry : OpEntry) : Prop :=
  ∃ done retries, done < plan.total ∧ plan.aligned done = true ∧
    state = plan.runAt done retries ∧ entry = plan.attemptAt done retries

/-- A vector read that is over. -/
def Ended (state : SpanRun) (cause : Cause) : Prop :=
  ∃ done, plan.Stops done cause ∧ state = plan.endAt done cause.spanErrno

theorem completes : Completes plan.complete plan.Running plan.Ended := by
  rintro state entry ⟨done, retries, hdone, haligned, rfl, rfl⟩ result hfits
  have hlen : (plan.attemptAt done retries).requestedLen = plan.total - done := rfl
  rw [hlen] at hfits
  have hkind : (plan.attemptAt done retries).kind = .read := rfl
  rcases ringTurn_read hkind result with hring | hring
  · exact .inl ⟨_, _, plan.run_complete_of_again hring, done, retries + 1, hdone, haligned, rfl, rfl⟩
  by_cases hnone : transferred result = 0
  · refine .inr ⟨_, _, plan.run_complete_of_nothing hdone hnone hring, done, ?_, rfl⟩
    cases result <;> exact ⟨hdone, haligned⟩
  cases result with
  | error errno => exact absurd rfl hnone
  | ok bytes =>
    rw [transferred] at hfits hnone
    by_cases hfull : done + bytes = plan.total
    · exact .inr ⟨_, _, plan.run_complete_of_full hfull hring, _, rfl, rfl⟩
    · have hshort : done + bytes < plan.total := by omega
      have hrun := plan.run_complete_of_short (Nat.pos_of_ne_zero hnone) hshort hring
      split at hrun
      · rename_i hnext
        exact .inl ⟨_, _, hrun, done + bytes, 0, hshort, hnext, rfl, rfl⟩
      · rename_i hnext
        exact .inr ⟨_, _, hrun, done + bytes, ⟨hshort, Bool.eq_false_iff.mpr hnext⟩, rfl⟩

theorem total_pos : 0 < plan.total :=
  Nat.mul_pos (Nat.lt_of_lt_of_le (by decide) plan.two_le) plan.granule_pos

/-- No assertion fails in a vector read, and a read that is over has ended as it may end. -/
theorem fetch_ends (script : List DeviceTurn) :
    ∃ attempts final outcome, plan.fetch script = .ok (attempts, final, outcome) ∧
      (∀ attempt ∈ attempts, ∃ state entry, plan.Running state entry ∧
        attempt = readAttempt entry) ∧
      (∀ cause, outcome = some cause → plan.Ended final cause) ∧
      (outcome = none → ∃ entry, plan.Running final entry) := by
  have haligned : plan.aligned 0 = true := by
    rw [plan.aligned_eq (Nat.zero_le _), ← check_sub_left plan.check_total (Nat.zero_le _)]
    exact plan.check_total
  have hserve := serve_of_completes SpanRun.payload plan.completes ?_ script
    (plan.runAt 0 0) (plan.attemptAt 0 0) ⟨0, 0, plan.total_pos, haligned, rfl, rfl⟩
  · rw [fetch, plan.commit_eq]
    exact hserve
  · rintro _ _ ⟨done, retries, _, _, rfl, rfl⟩
    rfl

end SpanPlan

end DiosPool.Pool
