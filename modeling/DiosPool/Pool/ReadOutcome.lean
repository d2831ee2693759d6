import DiosPool.Pool.SpanOutcome

/-!
# Vector reads against point reads

A point read ends in a state that depends on the bytes that arrived and on the reason it stopped, as
a vector read does. Comparing the two says when a page fares alike on both paths. The paths differ in
one case: when the rest of a direct read is not aligned, the vector path reports `EINVAL` and the
point path `EIO`.
-/

namespace DiosPool.Pool

open Driver Foundation

/-- The end of the miss of a point read. -/
def Cause.pointEnd : Cause → PageEnd
  | .full => .resident
  | .endOfFile => .failed eio
  | .device errno => .failed errno
  | .misaligned => .failed eio

namespace PointPlan

variable (plan : PointPlan)

/-! ## The states of a point read -/

/-- The file offset of the page. -/
def base : ℕ := plan.page.granuleIdx * plan.granule

/-- All requests of the read, in file order. -/
def image : List Request :=
  (List.range plan.granule).map fun index ↦ ⟨plan.base + index, plan.frame, index⟩

/-- The queued entry after `filled` bytes and some retries. -/
def attemptAt (filled retries : ℕ) : OpEntry := { plan.entry filled with retries }

/-- A read in flight after `filled` bytes. -/
def runAt (filled retries : ℕ) : PointRun :=
  ⟨some (plan.attemptAt filled retries), filled, plan.reads + 1, none, plan.image.take filled⟩

/-- A read whose completion is being routed: its miss remembers `filled` bytes, and `done` bytes
arrived. -/
def routingAt (filled done : ℕ) : PointRun :=
  ⟨none, filled, plan.reads + 1, none, plan.image.take done⟩

/-- A read that is over. -/
def endAt (filled done : ℕ) (pageEnd : PageEnd) : PointRun :=
  ⟨none, filled, plan.reads, some pageEnd, plan.image.take done⟩

/-- Why a point read can be over after `done` bytes. -/
def Stops (done : ℕ) : Cause → Prop
  | .full => done = plan.granule
  | .endOfFile => done < plan.granule ∧ plan.fd.ioMode.check done = true
  | .device _ => done < plan.granule ∧ plan.fd.ioMode.check done = true
  | .misaligned => done < plan.granule ∧ plan.fd.ioMode.check done = false

/-- A point read that is over. -/
def Ended (state : PointRun) (cause : Cause) : Prop :=
  ∃ filled done, plan.Stops done cause ∧ state = plan.endAt filled done cause.pointEnd

/-- A point read in flight. -/
def Running (state : PointRun) (entry : OpEntry) : Prop :=
  ∃ filled retries, filled < plan.granule ∧ plan.fd.ioMode.check filled = true ∧
    state = plan.runAt filled retries ∧ entry = plan.attemptAt filled retries

theorem commit_eq : plan.commit = plan.runAt 0 0 := rfl

theorem payload_runAt (filled retries : ℕ) :
    (plan.runAt filled retries).payload = some (plan.attemptAt filled retries) := rfl

theorem check_base : plan.fd.ioMode.check plan.base = true :=
  VectorPlan.check_mul plan.fd.ioMode plan.granule_aligned _

/-- The read may go on from the multiples of the alignment. -/
theorem remainderSatisfiesIoMode_eq {filled : ℕ} (hfilled : filled ≤ plan.granule) :
    remainderSatisfiesIoMode plan.fd.ioMode (plan.base + filled) filled (plan.granule - filled) =
      plan.fd.ioMode.check filled := by
  rw [remainderSatisfiesIoMode, check_add_right plan.check_base,
    check_sub_left plan.granule_aligned hfilled, Bool.and_self, Bool.and_self]

theorem received_at (filled retries : ℕ) (result : IoResult) :
    (readAttempt (plan.attemptAt filled retries)).received result =
      (plan.image.drop filled).take (transferred result) := by
  have hdescriptors : (readAttempt (plan.attemptAt filled retries)).descriptors =
      [⟨plan.frame, filled, plan.granule - filled⟩] := rfl
  have hoffset : (readAttempt (plan.attemptAt filled retries)).fileOffset =
      plan.base + filled := rfl
  rw [ReadAttempt.received, hdescriptors, hoffset, descriptorTargets_cons, requestsAt_append,
    requestsAt_range]
  congr 1
  apply List.ext_getElem
  · simp [image, descriptorTargets]
  · intro index hindex hindex'
    simp [image, descriptorTargets, requestsAt, Nat.add_assoc]

/-! ## Completions -/

theorem run_settle (pageEnd : PageEnd) (filled done : ℕ) :
    (settle pageEnd).run (plan.routingAt filled done) =
      .ok ((), plan.endAt filled done pageEnd) := by
  simp [settle, routingAt, endAt]

theorem run_complete_of_again {filled retries : ℕ} {result : IoResult}
    (hring : ringTurn plan.driver (plan.attemptAt filled retries) result =
      .ok (.inl (plan.attemptAt filled (retries + 1)))) :
    (plan.complete result).run (plan.runAt filled retries) =
      .ok (none, plan.runAt filled (retries + 1)) := by
  have hpayload := plan.payload_runAt filled retries
  simp only [complete, StateT.run_bind, StateT.run_get, pure_ok, ok_bind, hpayload]
  simp [hring]
  rfl

/-- A completion that is not retried goes to the pool, with its bytes. -/
theorem run_complete_of_finish {filled retries : ℕ} {result : IoResult}
    (hring : ringTurn plan.driver (plan.attemptAt filled retries) result = .ok (.inr result)) :
    (plan.complete result).run (plan.runAt filled retries) =
      (plan.routeReadCompletion result).run
        (plan.routingAt filled (filled + transferred result)) := by
  have hpayload := plan.payload_runAt filled retries
  have hreceived : (plan.runAt filled retries).received ++
      (readAttempt (plan.attemptAt filled retries)).received result =
        plan.image.take (filled + transferred result) := by
    rw [received_at, List.take_add]
    rfl
  simp [complete, hpayload, hring, hreceived]
  rfl

theorem run_routeReadCompletion_of_nothing {filled done : ℕ} {result : IoResult}
    (hnone : transferred result = 0) :
    (plan.routeReadCompletion result).run (plan.routingAt filled done) =
      .ok (some (.ofResult result),
        plan.endAt filled done (Cause.ofResult result).pointEnd) := by
  cases result with
  | ok bytes =>
    rw [transferred] at hnone
    subst hnone
    simp [routeReadCompletion, run_settle, Cause.ofResult, Cause.pointEnd]
  | error errno => simp [routeReadCompletion, run_settle, Cause.ofResult, Cause.pointEnd]

theorem run_routeReadCompletion_of_full {filled bytes : ℕ} (hpos : 0 < bytes)
    (hfull : filled + bytes = plan.granule) :
    (plan.routeReadCompletion (.ok bytes)).run (plan.routingAt filled (filled + bytes)) =
      .ok (some .full, plan.endAt filled (filled + bytes) .resident) := by
  obtain ⟨bytes, rfl⟩ := Nat.exists_eq_add_one.mpr hpos
  have hfilled : (plan.routingAt filled (filled + (bytes + 1))).filled = filled := rfl
  simp [routeReadCompletion, hfilled, hfull.ge, run_settle]

theorem run_routeReadCompletion_of_short {filled bytes : ℕ} (hpos : 0 < bytes)
    (hshort : filled + bytes < plan.granule) :
    (plan.routeReadCompletion (.ok bytes)).run (plan.routingAt filled (filled + bytes)) =
      if plan.fd.ioMode.check (filled + bytes) then .ok (none, plan.runAt (filled + bytes) 0)
      else .ok (some .misaligned, plan.endAt filled (filled + bytes) (.failed eio)) := by
  have hcheck := plan.remainderSatisfiesIoMode_eq hshort.le
  rw [base] at hcheck
  obtain ⟨bytes, rfl⟩ := Nat.exists_eq_add_one.mpr hpos
  have hfilled : (plan.routingAt filled (filled + (bytes + 1))).filled = filled := rfl
  have hroute : (plan.routeReadCompletion (.ok (bytes + 1))).run
      (plan.routingAt filled (filled + (bytes + 1))) =
      (plan.routeReadCompletionRemainder (filled + (bytes + 1))).run
        (plan.routingAt filled (filled + (bytes + 1))) := by
    simp [routeReadCompletion, hfilled, hshort.not_ge]
  rw [hroute]
  by_cases haligned : plan.fd.ioMode.check (filled + (bytes + 1)) = true
  · rw [if_pos haligned]
    rw [haligned] at hcheck
    simp [routeReadCompletionRemainder, readSpan, hcheck]
    rfl
  · rw [if_neg haligned]
    rw [Bool.eq_false_iff.mpr haligned] at hcheck
    simp [routeReadCompletionRemainder, readSpan, hcheck, run_settle]

theorem completes : Completes plan.complete plan.Running plan.Ended := by
  rintro state entry ⟨filled, retries, hfilled, haligned, rfl, rfl⟩ result hfits
  have hlen : (plan.attemptAt filled retries).requestedLen = plan.granule - filled := rfl
  rw [hlen] at hfits
  have hkind : (plan.attemptAt filled retries).kind = .read := rfl
  rcases ringTurn_read hkind result with hring | hring
  · exact .inl ⟨_, _, plan.run_complete_of_again hring, filled, retries + 1, hfilled, haligned,
      rfl, rfl⟩
  rw [plan.run_complete_of_finish hring]
  by_cases hnone : transferred result = 0
  · rw [plan.run_routeReadCompletion_of_nothing hnone, hnone, Nat.add_zero]
    refine .inr ⟨_, _, rfl, filled, filled, ?_, rfl⟩
    cases result <;> exact ⟨hfilled, haligned⟩
  cases result with
  | error errno => exact absurd rfl hnone
  | ok bytes =>
    rw [transferred] at hfits hnone
    have hpos := Nat.pos_of_ne_zero hnone
    by_cases hfull : filled + bytes = plan.granule
    · rw [transferred, plan.run_routeReadCompletion_of_full hpos hfull]
      exact .inr ⟨_, _, rfl, filled, filled + bytes, hfull, rfl⟩
    · have hshort : filled + bytes < plan.granule := by omega
      rw [transferred, plan.run_routeReadCompletion_of_short hpos hshort]
      split
      · rename_i hnext
        exact .inl ⟨_, _, rfl, filled + bytes, 0, hshort, hnext, rfl, rfl⟩
      · rename_i hnext
        exact .inr ⟨_, _, rfl, filled, filled + bytes, ⟨hshort, Bool.eq_false_iff.mpr hnext⟩, rfl⟩

/-- No assertion fails in a point read, and a read that is over has ended as it may end. -/
theorem fetch_ends (script : List DeviceTurn) :
    ∃ attempts final outcome, plan.fetch script = .ok (attempts, final, outcome) ∧
      (∀ attempt ∈ attempts, ∃ state entry, plan.Running state entry ∧
        attempt = readAttempt entry) ∧
      (∀ cause, outcome = some cause → plan.Ended final cause) ∧
      (outcome = none → ∃ entry, plan.Running final entry) := by
  have haligned : plan.fd.ioMode.check 0 = true := by
    rw [← check_sub_left plan.granule_aligned (Nat.zero_le _)]
    exact plan.granule_aligned
  have hstart : plan.Running plan.commit (plan.attemptAt 0 0) :=
    ⟨0, 0, plan.granule_pos, haligned, rfl, rfl⟩
  refine serve_of_completes PointRun.payload plan.completes ?_ script _ _ hstart
  rintro _ _ ⟨filled, retries, _, _, rfl, rfl⟩
  rfl

end PointPlan

/-! ## What arrives in the frames -/

/-- The memory after one byte of a file arrived. -/
def store (file : ℕ → UInt8) (memory : ℕ → ℕ → UInt8) (request : Request) : ℕ → ℕ → UInt8 :=
  Function.update memory request.frame
    (Function.update (memory request.frame) request.offset (file request.fileByte))

theorem store_other (file : ℕ → UInt8) (memory : ℕ → ℕ → UInt8) {request : Request}
    {frame offset : ℕ} (hother : ¬(request.frame = frame ∧ request.offset = offset)) :
    store file memory request frame offset = memory frame offset := by
  by_cases hframe : request.frame = frame
  · subst hframe
    rw [store, Function.update_self, Function.update_of_ne fun h ↦ hother ⟨rfl, h.symm⟩]
  · rw [store, Function.update_of_ne (Ne.symm hframe)]

/-- The memory after some bytes of a file arrived; a later byte replaces an earlier one. -/
def deliver (file : ℕ → UInt8) (memory : ℕ → ℕ → UInt8) (received : List Request) :
    ℕ → ℕ → UInt8 := received.foldl (store file) memory

/-- A byte of a frame that is only filled from one byte of the file has its value. -/
theorem deliver_eq (file : ℕ → UInt8) {frame offset fileByte : ℕ} (received : List Request) :
    ∀ memory : ℕ → ℕ → UInt8,
      (∀ request ∈ received, request.frame = frame → request.offset = offset →
        request.fileByte = fileByte) →
      (memory frame offset = file fileByte ∨
        ∃ request ∈ received, request.frame = frame ∧ request.offset = offset) →
      deliver file memory received frame offset = file fileByte := by
  induction received with
  | nil =>
    intro memory _ hfilled
    rcases hfilled with hfilled | ⟨request, hmem, _⟩
    · exact hfilled
    · exact absurd hmem List.not_mem_nil
  | cons request received ih =>
    intro memory honly hfilled
    refine ih _ (fun request hmem ↦ honly request (List.mem_cons_of_mem _ hmem)) ?_
    by_cases hhere : request.frame = frame ∧ request.offset = offset
    · have hbyte := honly request List.mem_cons_self hhere.1 hhere.2
      obtain ⟨rfl, rfl⟩ := hhere
      left
      simp [store, hbyte]
    · rcases hfilled with hfilled | ⟨later, hmem, hlater⟩
      · exact .inl ((store_other file memory hhere).trans hfilled)
      · rcases List.mem_cons.mp hmem with rfl | hmem
        · exact absurd hlater hhere
        · exact .inr ⟨later, hmem, hlater⟩

/-- The frame of a point read holds the bytes of its page. -/
theorem PointPlan.deliver_image (plan : PointPlan) (file : ℕ → UInt8) (memory : ℕ → ℕ → UInt8)
    {done offset : ℕ} (hoffset : offset < done) (hdone : done ≤ plan.granule) :
    deliver file memory (plan.image.take done) plan.frame offset = file (plan.base + offset) := by
  refine deliver_eq file _ memory ?_ (.inr ?_)
  · intro request hmem _ hrequest
    obtain ⟨index, hindex, rfl⟩ := List.mem_map.mp (List.mem_of_mem_take hmem)
    simp only at hrequest
    rw [hrequest]
  · refine ⟨⟨plan.base + offset, plan.frame, offset⟩, ?_, rfl, rfl⟩
    rw [List.mem_take_iff_getElem]
    refine ⟨offset, ?_, ?_⟩
    · simp only [image, List.length_map, List.length_range]
      omega
    · simp [image]

/-- The frame of a complete page of a vector read holds the bytes of the page. -/
theorem SpanPlan.deliver_image (plan : SpanPlan) (file : ℕ → UInt8) (memory : ℕ → ℕ → UInt8)
    {done ordinal offset : ℕ} (hordinal : ordinal < plan.frames.length)
    (hdone : (ordinal + 1) * plan.granule ≤ done) (hoffset : offset < plan.granule) :
    deliver file memory (plan.image.take done) (plan.frames.getD ordinal 0) offset =
      file (plan.base + (ordinal * plan.granule + offset)) := by
  have hplace : plan.place (ordinal * plan.granule + offset) =
      ⟨plan.base + (ordinal * plan.granule + offset), plan.frames.getD ordinal 0, offset⟩ := by
    have hdiv : (ordinal * plan.granule + offset) / plan.granule = ordinal := by
      rw [Nat.mul_comm, Nat.mul_add_div plan.granule_pos, Nat.div_eq_of_lt hoffset, Nat.add_zero]
    have hmod : (ordinal * plan.granule + offset) % plan.granule = offset := by
      rw [Nat.mul_comm, Nat.mul_add_mod, Nat.mod_eq_of_lt hoffset]
    rw [VectorPlan.place, hdiv, hmod]
  refine deliver_eq file _ memory ?_ (.inr ?_)
  · intro request hmem hframe hrequest
    obtain ⟨index, hindex, rfl⟩ := List.mem_map.mp (List.mem_of_mem_take hmem)
    have hlt : index / plan.granule < plan.frames.length :=
      (Nat.div_lt_iff_lt_mul plan.granule_pos).mpr (List.mem_range.mp hindex)
    simp only [VectorPlan.place] at hframe hrequest ⊢
    rw [List.getD_eq_getElem _ _ hlt, List.getD_eq_getElem _ _ hordinal] at hframe
    have hsame : index / plan.granule = ordinal := (plan.nodup.getElem_inj_iff).mp hframe
    have hindex := Nat.div_add_mod' index plan.granule
    rw [hsame, hrequest] at hindex
    rw [hindex]
  · refine ⟨_, ?_, congrArg Request.frame hplace, congrArg Request.offset hplace⟩
    have hlt : ordinal * plan.granule + offset < (ordinal + 1) * plan.granule := by
      rw [Nat.succ_mul]
      omega
    have htotal : (ordinal + 1) * plan.granule ≤ plan.total :=
      Nat.mul_le_mul_right _ hordinal
    rw [List.mem_take_iff_getElem]
    refine ⟨ordinal * plan.granule + offset, ?_, ?_⟩
    · simp only [VectorPlan.image, List.length_map, List.length_range]
      omega
    · simp [VectorPlan.image]

/-! ## How a vector read ends -/

namespace SpanPlan

variable (plan : SpanPlan)

/-- What a vector read leaves behind when it stops after `done` bytes: every page has one end, the
complete ones are resident and the others failed alike, in order; the credits of the pages, the route
and the slot are given back. -/
structure Settled (final : SpanRun) (done : ℕ) (cause : Cause) : Prop where
  pages : final.settled = (List.range plan.frames.length).map fun ordinal ↦
    ⟨ordinal, plan.frames.getD ordinal 0,
      if (ordinal + 1) * plan.granule ≤ done then .resident else .failed cause.spanErrno⟩
  credits : final.readsInFlight = plan.reads
  route : final.spans = plan.routes.release plan.route
  slot : final.payload = none
  received : final.received = plan.image.take done

theorem Stops.le_total {done : ℕ} {cause : Cause} (h : plan.Stops done cause) :
    done ≤ plan.total := by
  cases cause with
  | full => exact Nat.le_of_eq h
  | endOfFile => exact h.1.le
  | device errno => exact h.1.le
  | misaligned => exact h.1.le

theorem length_image_take {done : ℕ} (hdone : done ≤ plan.total) :
    (plan.image.take done).length = done := by
  rw [List.length_take, VectorPlan.image, List.length_map, List.length_range, min_eq_left hdone]

theorem length_received {done : ℕ} (hdone : done ≤ plan.total) (errno : ℕ) :
    (plan.endAt done errno).received.length = done := plan.length_image_take hdone

theorem ended_of_fetch {script : List DeviceTurn} {attempts : List ReadAttempt} {final : SpanRun}
    {cause : Cause} (hfetch : plan.fetch script = .ok (attempts, final, some cause)) :
    plan.Ended final cause := by
  obtain ⟨attempts', final', outcome, hfetch', -, hended, -⟩ := plan.fetch_ends script
  cases hfetch.symm.trans hfetch'
  exact hended cause rfl

/-! ## The same page on both paths -/

/-- The point read of a page of a vector read. -/
def pointRead (ordinal : ℕ) : PointPlan where
  granule := plan.granule
  page := ⟨plan.first.file, plan.first.granuleIdx + ordinal⟩
  frame := plan.frames.getD ordinal 0
  fd := ⟨plan.first.file, plan.ioMode⟩
  driver := plan.driver
  reads := plan.reads
  granule_pos := plan.granule_pos
  granule_aligned := plan.granule_aligned

end SpanPlan

/-- The end of a page of a vector read. -/
def SpanRun.endOf (state : SpanRun) (ordinal : ℕ) : Option PageEnd :=
  (state.settled.find? fun page ↦ page.ordinal == ordinal).map SettledPage.pageEnd

/-- The page where a transfer of the received bytes stopped. -/
def SpanPlan.stopPage (plan : SpanPlan) (state : SpanRun) : ℕ :=
  state.received.length / plan.granule

namespace SpanPlan

variable (plan : SpanPlan)

theorem endOf_endAt {done errno ordinal : ℕ} (hordinal : ordinal < plan.frames.length) :
    (plan.endAt done errno).endOf ordinal = some (plan.pageEnd done errno ordinal) := by
  have hfind : (plan.endAt done errno).settled.find? (fun page ↦ page.ordinal == ordinal) =
      some ⟨ordinal, plan.frames.getD ordinal 0, plan.pageEnd done errno ordinal⟩ := by
    rw [endAt, pagesEnded, List.find?_map]
    have hrange : (List.range plan.frames.length).find? (fun index ↦ index == ordinal) =
        some ordinal := by
      rw [List.find?_range_eq_some]
      refine ⟨by simp, List.mem_range.mpr hordinal, ?_⟩
      intro index hindex
      simpa using hindex.ne
    exact congrArg (Option.map _) hrange
  rw [SpanRun.endOf, hfind]
  rfl

end SpanPlan

theorem PointPlan.ended_of_fetch (plan : PointPlan) {script : List DeviceTurn}
    {attempts : List ReadAttempt} {final : PointRun} {cause : Cause}
    (hfetch : plan.fetch script = .ok (attempts, final, some cause)) :
    plan.Ended final cause := by
  obtain ⟨attempts', final', outcome, hfetch', -, hended, -⟩ := plan.fetch_ends script
  cases hfetch.symm.trans hfetch'
  exact hended cause rfl

theorem PointPlan.length_image_take (plan : PointPlan) {done : ℕ} (hdone : done ≤ plan.granule) :
    (plan.image.take done).length = done := by
  rw [List.length_take, image, List.length_map, List.length_range, min_eq_left hdone]

theorem PointPlan.length_received (plan : PointPlan) {done : ℕ} (hdone : done ≤ plan.granule)
    (filled : ℕ) (pageEnd : PageEnd) : (plan.endAt filled done pageEnd).received.length = done :=
  plan.length_image_take hdone

/-- Two pages of a direct file with sectors of 512 bytes. -/
def twoPages : SpanPlan where
  granule := 4096
  frames := [3, 5]
  first := ⟨⟨0, 0, 1⟩, 7⟩
  ioMode := .direct sector
  token := ⟨0, 1⟩
  slots := 1
  granule_pos := by decide
  two_le := by decide
  length_le := by decide
  nodup := by decide
  bytes_le := by decide
  pages_fit := by decide
  granule_aligned := by decide
  slot_lt := by decide
  driver := ⟨0, 1, 1, 2, 8, 4096⟩
  routes := ⟨[.preparing], [none], none⟩
  route := 0
  misses ordinal := ⟨ordinal, 1⟩
  reads := 0
  prepared := rfl
  vacant := rfl

/-- A device that fills at most `bytes` bytes. -/
def DeviceTurn.fills (bytes : ℕ) : DeviceTurn where
  answer attempt := .ok (min bytes attempt.length)
  fits attempt := min_le_right bytes attempt.length

/-- A device that fails. -/
def DeviceTurn.fails (errno : ℕ) : DeviceTurn where
  answer _ := .error errno
  fits attempt := Nat.zero_le attempt.length

end DiosPool.Pool
