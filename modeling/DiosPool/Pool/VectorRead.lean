import DiosPool.Pool.ReadSpans

/-!
# One vector read from admission to its last completion

A vector read is served by attempts. Each attempt hands the kernel the descriptors of the missing
suffix; the kernel fills a positive prefix of them; the complete frames are published and the rest
is submitted again. The trace of a read records these three kinds of events in order, and the
theorems say which file byte each of them places where.
-/

namespace DiosPool.Pool

open Driver

/-- The request to place one byte of the file at one offset of a frame. -/
structure Request where
  fileByte : ℕ
  frame : ℕ
  offset : ℕ
  deriving DecidableEq, Repr

inductive VectorEvent
  /-- Descriptors and file offset are handed to the kernel. -/
  | attempt (requests : List Request)
  /-- The kernel reports a prefix of the attempt. -/
  | transfer (requests : List Request)
  | publish (ordinal frame : ℕ)
  deriving DecidableEq, Repr

abbrev TraceM := StateT (List VectorEvent) (Except Assertion)

def record (event : VectorEvent) : TraceM Unit := modify (· ++ [event])

def recordPublish (_ : ReadSpan) (ordinal frame : ℕ) : TraceM Unit :=
  record (.publish ordinal frame)

/-- The requests of a run of consecutive bytes: the `i`th goes to the file byte `fileOffset + i`. -/
def requestsAt (fileOffset : ℕ) (targets : List (ℕ × ℕ)) : List Request :=
  targets.mapIdx fun index target ↦ ⟨fileOffset + index, target.1, target.2⟩

/-- The requests that a transfer's pieces serve, in order. -/
def pieceRequests (fileOffset : ℕ) (pieces : List Piece) : List Request :=
  pieces.flatMap fun piece ↦ (List.range piece.length).map fun index ↦
    ⟨fileOffset + piece.transferred + index, piece.frame, piece.offset + index⟩

/-- A vector read that meets the assertions of its admission. -/
structure VectorPlan where
  granule : ℕ
  frames : List ℕ
  first : PageId
  ioMode : IoMode
  token : OpToken
  slots : ℕ
  granule_pos : 0 < granule
  two_le : 2 ≤ frames.length
  length_le : frames.length ≤ vectorFramesMax
  nodup : frames.Nodup
  bytes_le : frames.length * granule ≤ vectorBytesMax
  pages_fit : first.granuleIdx + frames.length ≤ 2 ^ 32
  granule_aligned : ioMode.check granule = true
  slot_lt : token.slot < slots

namespace VectorPlan

variable (plan : VectorPlan)

/-- The file offset of the first page. -/
def base : ℕ := plan.first.granuleIdx * plan.granule

/-- The length of the whole read. -/
def total : ℕ := plan.frames.length * plan.granule

/-- The bundle as `prefetch_admit_vector_claim` builds it. -/
def bundle : Except Assertion ReadVector :=
  plan.frames.foldlM ReadVector.push (ReadVector.new plan.granule)

/-- Admission: the bundle is checked, gets its descriptors and is bound to its operation. -/
def submit : Except Assertion OpEntry := do
  let vector ← plan.bundle
  OpEntry.checkVector plan.ioMode vector plan.base
  let vector ← vector.prepare plan.slots plan.token.slot
  let vector ← vector.bind plan.token
  return OpEntry.ofVector plan.first.file plan.ioMode vector plan.base .pool

/-- The attempts of a read whose completions report the given numbers of bytes. The read stops when
it is complete, when its continuation is refused or when it waits for a completion. -/
def serve : List ℕ → OpEntry → ReadSpan → TraceM Unit
  | completions, entry, span =>
    match entry.frame with
    | some (.vector vector) => do
      let io ← (expect vector.descriptors "admission prepared stable descriptors" :
        Except Assertion VectorIo)
      record (.attempt (requestsAt entry.fileOffset (descriptorTargets io.descriptors)))
      match completions with
      | [] => return ()
      | bytes :: completions => do
        let pieces ← (io.transferPrefix bytes : Except Assertion (List Piece))
        record (.transfer (pieceRequests entry.fileOffset pieces))
        let (entry, vector) ← (entry.finishVector vector (.ok bytes) :
          Except Assertion (Option OpEntry × ReadVector))
        let (span, vector) ← span.publishCompleted vector bytes plan.granule
          recordPublish
        if ← (span.isComplete : Except Assertion Bool) then
          return ()
        else
          let entry ← (expect entry "positive short progress retains the original slot" :
            Except Assertion OpEntry)
          match ← (entry.continueVector plan.slots plan.token vector :
            Except Assertion (Option OpEntry)) with
          | some entry => serve completions entry span
          | none => return ()
    | _ => throw ⟨"queued read destination"⟩

/-- The trace of the whole read. -/
def trace (completions : List ℕ) : Except Assertion (List VectorEvent) := do
  let entry ← plan.submit
  let span ← ReadSpan.new plan.first plan.token plan.frames.length plan.granule
  let ((), events) ← (plan.serve completions entry span).run []
  return events

end VectorPlan

theorem requestsAt_append (fileOffset : ℕ) (targets rest : List (ℕ × ℕ)) :
    requestsAt fileOffset (targets ++ rest) =
      requestsAt fileOffset targets ++ requestsAt (fileOffset + targets.length) rest := by
  simp [requestsAt, List.mapIdx_append, Nat.add_left_comm, Nat.add_comm]

@[simp] theorem length_requestsAt (fileOffset : ℕ) (targets : List (ℕ × ℕ)) :
    (requestsAt fileOffset targets).length = targets.length := List.length_mapIdx

theorem requestsAt_range (fileOffset frame offset len : ℕ) :
    requestsAt fileOffset ((List.range len).map fun index ↦ (frame, offset + index)) =
      (List.range len).map fun index ↦ ⟨fileOffset + index, frame, offset + index⟩ := by
  apply List.ext_getElem <;> simp [requestsAt]

theorem descriptorTargets_cons (descriptor : Iovec) (rest : List Iovec) :
    descriptorTargets (descriptor :: rest) =
      ((List.range descriptor.len).map fun index ↦ (descriptor.frame, descriptor.offset + index)) ++
        descriptorTargets rest := rfl

/-- The loop of `transfer_prefix` serves the requests of the descriptors in order, up to the bytes
it was asked for. -/
theorem pieceRequests_transferPieces (fileOffset bytes : ℕ) (descriptors : List Iovec) :
    ∀ moved ≤ bytes,
      pieceRequests fileOffset (transferPieces bytes moved descriptors).1 =
        (requestsAt (fileOffset + moved) (descriptorTargets descriptors)).take (bytes - moved) ∧
      (transferPieces bytes moved descriptors).2 =
        min bytes (moved + (descriptorTargets descriptors).length) := by
  induction descriptors with
  | nil =>
    intro moved hmoved
    simp [transferPieces, pieceRequests, requestsAt, descriptorTargets, hmoved]
  | cons descriptor rest ih =>
    intro moved hmoved
    by_cases hdone : moved = bytes
    · simp [transferPieces, pieceRequests, hdone]
    · have hlength : moved + min (bytes - moved) descriptor.len ≤ bytes := by omega
      obtain ⟨hrequests, htotal⟩ := ih _ hlength
      rw [descriptorTargets_cons, requestsAt_append, requestsAt_range, List.take_append]
      simp only [transferPieces, hdone, if_false]
      constructor
      · rw [pieceRequests, List.flatMap_cons, ← pieceRequests, hrequests]
        simp only [← List.map_take, List.take_range, List.length_map, List.length_range]
        congr 1
        by_cases hshort : bytes - moved ≤ descriptor.len
        · have hnone : bytes - (moved + min (bytes - moved) descriptor.len) = 0 := by omega
          have hnone' : bytes - moved - descriptor.len = 0 := by omega
          simp [hnone, hnone']
        · have hall : min (bytes - moved) descriptor.len = descriptor.len := by omega
          rw [hall, Nat.add_assoc, Nat.sub_add_eq]
      · rw [htotal, List.length_append, List.length_map, List.length_range]
        omega

/-- The destination bytes of whole frames, in order. -/
def frameTargets (granule : ℕ) (frames : List ℕ) : List (ℕ × ℕ) :=
  frames.flatMap fun frame ↦ (List.range granule).map fun index ↦ (frame, index)

theorem frameTargets_cons (granule frame : ℕ) (frames : List ℕ) :
    frameTargets granule (frame :: frames) =
      ((List.range granule).map fun index ↦ (frame, index)) ++ frameTargets granule frames := rfl

@[simp] theorem length_frameTargets (granule : ℕ) (frames : List ℕ) :
    (frameTargets granule frames).length = frames.length * granule := by
  induction frames with
  | nil => simp [frameTargets]
  | cons frame frames ih =>
    rw [frameTargets_cons, List.length_append, ih, List.length_map, List.length_range,
      List.length_cons]
    ring

theorem frameTargets_drop (granule : ℕ) (frames : List ℕ) :
    ∀ count, frameTargets granule (frames.drop count) =
      (frameTargets granule frames).drop (count * granule) := by
  induction frames with
  | nil => simp [frameTargets]
  | cons frame frames ih =>
    intro count
    cases count with
    | zero => simp
    | succ count =>
      have hlength : (count + 1) * granule =
          ((List.range granule).map fun index ↦ (frame, index)).length + count * granule := by
        simp only [List.length_map, List.length_range]
        ring
      rw [List.drop_succ_cons, ih, frameTargets_cons, hlength, List.drop_length_add_append]

theorem getElem?_frameTargets {granule : ℕ} (hgranule : 0 < granule) (frames : List ℕ) :
    ∀ index, (frameTargets granule frames)[index]? =
      frames[index / granule]?.map fun frame ↦ (frame, index % granule) := by
  induction frames with
  | nil => simp [frameTargets]
  | cons frame frames ih =>
    intro index
    rw [frameTargets_cons, List.getElem?_append]
    simp only [List.length_map, List.length_range]
    by_cases hindex : index < granule
    · simp [hindex, Nat.div_eq_of_lt hindex, Nat.mod_eq_of_lt hindex]
    · have hle : granule ≤ index := Nat.le_of_not_lt hindex
      rw [if_neg hindex, ih, Nat.div_eq_sub_div hgranule hle, Nat.mod_eq_sub_mod hle,
        List.getElem?_cons_succ]

theorem descriptorTargets_buildDescriptors_succ (granule offset : ℕ) (frames : List ℕ) :
    ∀ index, descriptorTargets (ReadVector.buildDescriptors granule offset (index + 1) frames) =
      frameTargets granule frames := by
  induction frames with
  | nil =>
    intro index
    rfl
  | cons frame frames ih =>
    intro index
    rw [frameTargets_cons, ← ih (index + 1)]
    simp [ReadVector.buildDescriptors, descriptorTargets_cons]

/-- The descriptors of a bundle name its frames' bytes in order, without those that the first frame
has already received. -/
theorem descriptorTargets_buildDescriptors {granule offset : ℕ} (hoffset : offset ≤ granule)
    (frames : List ℕ) :
    descriptorTargets (ReadVector.buildDescriptors granule offset 0 frames) =
      (frameTargets granule frames).drop offset := by
  cases frames with
  | nil => simp [ReadVector.buildDescriptors, descriptorTargets, frameTargets]
  | cons frame frames =>
    rw [ReadVector.buildDescriptors, descriptorTargets_cons,
      descriptorTargets_buildDescriptors_succ, frameTargets_cons,
      List.drop_append_of_le_length (by simpa using hoffset)]
    congr 1
    apply List.ext_getElem <;> simp

/-- The publications of consecutive frames. -/
def publications (ordinal : ℕ) (frames : List ℕ) : List VectorEvent :=
  frames.mapIdx fun index frame ↦ .publish (ordinal + index) frame

theorem publications_cons (ordinal frame : ℕ) (frames : List ℕ) :
    publications ordinal (frame :: frames) =
      .publish ordinal frame :: publications (ordinal + 1) frames := by
  simp [publications, Nat.add_comm, Nat.add_left_comm]

theorem run_publishNext (span : ReadSpan) (frame : ℕ) (events : List VectorEvent) :
    (span.publishNext recordPublish span.published frame).run events =
      .ok ({ span with published := span.published + 1 },
        events ++ [.publish span.published frame]) := by
  simp [ReadSpan.publishNext, recordPublish, record]

theorem run_consumeFrames (frames : List ℕ) :
    ∀ (span : ReadSpan) (events : List VectorEvent),
      (ReadVector.consumeFrames (ReadSpan.publishNext recordPublish) span span.published
        frames).run events =
      .ok ({ span with published := span.published + frames.length },
        events ++ publications span.published frames) := by
  induction frames with
  | nil =>
    intro span events
    simp [ReadVector.consumeFrames, publications]
  | cons frame frames ih =>
    intro span events
    have hrest := ih { span with published := span.published + 1 }
      (events ++ [.publish span.published frame])
    rw [ReadVector.consumeFrames, StateT.run_bind, run_publishNext, ok_bind]
    simpa [publications_cons, Nat.add_assoc, Nat.add_comm, Nat.add_left_comm] using hrest

namespace VectorPlan

variable (plan : VectorPlan)

/-- The bundle after `done` bytes, with its complete frames taken out. -/
def vectorAt (done : ℕ) : ReadVector where
  frames := plan.frames.drop (done / plan.granule)
  ordinal := done / plan.granule
  filled := done
  total := plan.total
  granule := plan.granule
  descriptors := none
  operation := some plan.token

def preparedAt (done : ℕ) : ReadVector :=
  { plan.vectorAt done with
    descriptors := some
      ⟨ReadVector.buildDescriptors plan.granule (done % plan.granule) 0
        (plan.frames.drop (done / plan.granule)), plan.total - done⟩ }

/-- The queued entry after `done` bytes. -/
def entryAt (done : ℕ) : OpEntry :=
  { OpEntry.ofVector plan.first.file plan.ioMode (plan.preparedAt done) plan.base .pool with
    fileOffset := plan.base + done
    destinationOffset := done % plan.granule
    requestedLen := plan.total - done }

def spanAt (done : ℕ) : ReadSpan where
  pages := List.replicate vectorFramesMax none
  first := plan.first
  token := plan.token
  count := plan.frames.length
  bytes := plan.total
  filled := done
  published := done / plan.granule

theorem foldlM_push (rest : List ℕ) :
    ∀ frames, frames ++ rest = plan.frames →
      rest.foldlM ReadVector.push
          { ReadVector.new plan.granule with
            frames := frames, total := frames.length * plan.granule } =
        .ok { ReadVector.new plan.granule with frames := plan.frames, total := plan.total } := by
  induction rest with
  | nil =>
    intro frames hframes
    rw [List.append_nil] at hframes
    simp [hframes, total]
  | cons frame rest ih =>
    intro frames hframes
    have hlength : frames.length + (rest.length + 1) = plan.frames.length := by
      rw [← hframes, List.length_append, List.length_cons]
    have hcount : frames.length < vectorFramesMax :=
      Nat.lt_of_lt_of_le (by omega) plan.length_le
    have hfresh : frame ∉ frames := by
      have hnodup := plan.nodup
      rw [← hframes] at hnodup
      intro hmem
      exact (List.disjoint_of_nodup_append hnodup) hmem List.mem_cons_self
    have hbytes : plan.granule ≤ vectorBytesMax - frames.length * plan.granule := by
      have hmul : (frames.length + 1) * plan.granule ≤ plan.frames.length * plan.granule :=
        Nat.mul_le_mul_right _ (by omega)
      have hmax := plan.bytes_le
      rw [Nat.add_mul, Nat.one_mul] at hmul
      omega
    have hpush : ReadVector.push
        { ReadVector.new plan.granule with
          frames := frames, total := frames.length * plan.granule } frame =
        .ok { ReadVector.new plan.granule with
          frames := frames ++ [frame], total := (frames ++ [frame]).length * plan.granule } := by
      simp [ReadVector.push, ReadVector.new, hcount, hfresh, hbytes, Nat.add_mul]
    rw [List.foldlM_cons, hpush, ok_bind]
    exact ih (frames ++ [frame]) (by simpa using hframes)

theorem bundle_eq :
    plan.bundle = .ok
      { ReadVector.new plan.granule with frames := plan.frames, total := plan.total } := by
  have hfold := plan.foldlM_push plan.frames [] rfl
  simpa [bundle, ReadVector.new] using hfold

theorem check_mul (ioMode : IoMode) {granule : ℕ} (h : ioMode.check granule = true) (count : ℕ) :
    ioMode.check (count * granule) = true := by
  cases ioMode with
  | buffered => rfl
  | direct alignment =>
    simp only [IoMode.check, Alignment.check, beq_iff_eq] at h ⊢
    rw [Nat.mul_mod, h, Nat.mul_zero, Nat.zero_mod]

theorem base_add_total_lt : plan.base + plan.total < 2 ^ 64 := by
  have hpages := plan.pages_fit
  have hbytes := plan.bytes_le
  have htwo := plan.two_le
  have hgranule : plan.granule ≤ vectorBytesMax :=
    Nat.le_trans (Nat.le_mul_of_pos_left _ (by omega)) hbytes
  have hsum : plan.base + plan.total = (plan.first.granuleIdx + plan.frames.length) * plan.granule := by
    rw [base, total, Nat.add_mul]
  have hmul : (plan.first.granuleIdx + plan.frames.length) * plan.granule ≤
      2 ^ 32 * vectorBytesMax := Nat.mul_le_mul hpages hgranule
  have hmax : 2 ^ 32 * vectorBytesMax < 2 ^ 64 := by decide
  omega

theorem submit_eq : plan.submit = .ok (plan.entryAt 0) := by
  have hpos : 0 < plan.frames.length := Nat.lt_of_lt_of_le (by decide) plan.two_le
  have hbase := check_mul plan.ioMode plan.granule_aligned plan.first.granuleIdx
  have hfits : plan.first.granuleIdx * plan.granule + plan.total < 18446744073709551616 :=
    plan.base_add_total_lt
  simp only [submit, bundle_eq, ok_bind]
  simp [OpEntry.checkVector, ReadVector.new, ReadVector.remaining, ReadVector.prepare,
    ReadVector.bind, plan.two_le, plan.length_le, hfits, hbase, plan.granule_aligned, plan.slot_lt,
    hpos, base, entryAt, preparedAt, vectorAt, OpEntry.ofVector, ReadVector.destinationOffset]

/-- Where the byte `index` of the read belongs. -/
def place (index : ℕ) : Request :=
  ⟨plan.base + index, plan.frames.getD (index / plan.granule) 0, index % plan.granule⟩

/-- All requests of the read, in file order. -/
def image : List Request := (List.range plan.total).map plan.place

/-- The attempt after `done` bytes asks for exactly the missing suffix. -/
theorem requestsAt_drop (done : ℕ) :
    requestsAt (plan.base + done) ((frameTargets plan.granule plan.frames).drop done) =
      plan.image.drop done := by
  apply List.ext_getElem?
  intro index
  simp only [requestsAt, List.getElem?_mapIdx, List.getElem?_drop,
    getElem?_frameTargets plan.granule_pos, image, List.getElem?_map, Option.map_map]
  by_cases hindex : done + index < plan.total
  · have hframe : (done + index) / plan.granule < plan.frames.length :=
      (Nat.div_lt_iff_lt_mul plan.granule_pos).mpr hindex
    simp [hindex, hframe, place, Nat.add_assoc]
  · have hframe : plan.frames.length ≤ (done + index) / plan.granule :=
      (Nat.le_div_iff_mul_le plan.granule_pos).mpr (Nat.le_of_not_lt hindex)
    simp [hindex, hframe]

theorem descriptorTargets_at (done : ℕ) :
    descriptorTargets (ReadVector.buildDescriptors plan.granule (done % plan.granule) 0
        (plan.frames.drop (done / plan.granule))) =
      (frameTargets plan.granule plan.frames).drop done := by
  rw [descriptorTargets_buildDescriptors (Nat.le_of_lt (Nat.mod_lt _ plan.granule_pos)),
    frameTargets_drop, List.drop_drop, Nat.div_add_mod']

/-- A transfer after `done` bytes serves the next requests. -/
theorem transferPrefix_at {done bytes : ℕ} (hbytes : done + bytes ≤ plan.total) :
    ∃ pieces, VectorIo.transferPrefix
        ⟨ReadVector.buildDescriptors plan.granule (done % plan.granule) 0
          (plan.frames.drop (done / plan.granule)), plan.total - done⟩ bytes = .ok pieces ∧
      pieceRequests (plan.base + done) pieces = (plan.image.drop done).take bytes := by
  obtain ⟨hrequests, htotal⟩ := pieceRequests_transferPieces (plan.base + done) bytes
    (ReadVector.buildDescriptors plan.granule (done % plan.granule) 0
      (plan.frames.drop (done / plan.granule))) 0 (Nat.zero_le _)
  rw [descriptorTargets_at] at hrequests htotal
  rw [List.length_drop, length_frameTargets, ← total] at htotal
  rw [Nat.add_zero, requestsAt_drop, Nat.sub_zero] at hrequests
  have hsuffix : bytes ≤ plan.total - done := by omega
  refine ⟨_, ?_, hrequests⟩
  simp [VectorIo.transferPrefix, hsuffix, htotal]

/-- A completion publishes exactly the frames it completes. -/
theorem publishCompleted_at {done bytes : ℕ} (hbytes : done + bytes ≤ plan.total)
    (events : List VectorEvent) :
    ((plan.spanAt done).publishCompleted
        { plan.vectorAt done with filled := done + bytes } bytes plan.granule recordPublish).run
        events =
      .ok ((plan.spanAt (done + bytes), plan.vectorAt (done + bytes)),
        events ++ publications (done / plan.granule)
          ((plan.frames.drop (done / plan.granule)).take
            ((done + bytes) / plan.granule - done / plan.granule))) := by
  have hle : done / plan.granule ≤ (done + bytes) / plan.granule :=
    Nat.div_le_div_right (Nat.le_add_right _ _)
  have hlast : (done + bytes) / plan.granule ≤ plan.frames.length :=
    Nat.div_le_of_le_mul (by rw [Nat.mul_comm]; exact hbytes)
  have hsuffix : bytes ≤ plan.total - done := by omega
  have howned : (done + bytes) / plan.granule - done / plan.granule ≤
      (plan.frames.drop (done / plan.granule)).length := by
    rw [List.length_drop]
    omega
  have hnext : done / plan.granule + ((done + bytes) / plan.granule - done / plan.granule) =
      (done + bytes) / plan.granule := by omega
  have hrun := run_consumeFrames ((plan.frames.drop (done / plan.granule)).take
    ((done + bytes) / plan.granule - done / plan.granule))
    { plan.spanAt done with filled := done + bytes } events
  rw [List.length_take, Nat.min_eq_left howned] at hrun
  simp only [spanAt, hnext] at hrun
  have hwithin : (done + bytes) / plan.granule ≤
      plan.frames.length - done / plan.granule + done / plan.granule := by omega
  simp [ReadSpan.publishCompleted, ReadVector.takeCompleted, spanAt, vectorAt, hsuffix, hle,
    hwithin, hrun, hnext]

/-- The entry of a read that waits for its continuation after `done` bytes. -/
def heldAt (done : ℕ) : OpEntry :=
  { plan.entryAt done with frame := none, state := .continuation }

theorem finishVector_short {done bytes : ℕ} (hpos : 0 < bytes)
    (hbytes : done + bytes < plan.total) :
    (plan.entryAt done).finishVector (plan.preparedAt done) (.ok bytes) =
      .ok (some (plan.heldAt (done + bytes)),
        { plan.vectorAt done with filled := done + bytes }) := by
  have hfits := plan.base_add_total_lt
  have hsuffix : bytes ≤ plan.total - done := by omega
  have hshort : bytes < plan.total - done := by omega
  have hoffset : plan.base + (done + bytes) < 18446744073709551616 := by omega
  have hrest : plan.total - done - bytes = plan.total - (done + bytes) := by omega
  simp [OpEntry.finishVector, transferred, entryAt, preparedAt, vectorAt, heldAt, OpEntry.ofVector,
    ReadVector.recordCompletion, ReadVector.remaining, ReadVector.destinationOffset, hpos, hsuffix,
    hshort, hoffset, hrest, Nat.add_assoc]

theorem finishVector_full {done bytes : ℕ} (hbytes : done + bytes = plan.total) :
    (plan.entryAt done).finishVector (plan.preparedAt done) (.ok bytes) =
      .ok (some { plan.entryAt done with frame := none, state := .terminal (.ok bytes) },
        { plan.vectorAt done with filled := done + bytes }) := by
  have hsuffix : bytes = plan.total - done := by omega
  simp [OpEntry.finishVector, transferred, entryAt, preparedAt, vectorAt, OpEntry.ofVector,
    ReadVector.recordCompletion, ReadVector.remaining, hsuffix]

/-- Whether the read may go on after `done` bytes. -/
def aligned (done : ℕ) : Bool := (plan.heldAt done).continuationAligned (plan.vectorAt done)

theorem prepare_at {done : ℕ} (hdone : done < plan.total) :
    (plan.vectorAt done).prepare plan.slots plan.token.slot = .ok (plan.preparedAt done) := by
  have hframe : done / plan.granule < plan.frames.length :=
    (Nat.div_lt_iff_lt_mul plan.granule_pos).mpr hdone
  simp [ReadVector.prepare, vectorAt, preparedAt, ReadVector.remaining,
    ReadVector.destinationOffset, hframe, plan.slot_lt]

theorem continueVector_at {done : ℕ} (hdone : done < plan.total) :
    (plan.heldAt done).continueVector plan.slots plan.token (plan.vectorAt done) =
      .ok (if plan.aligned done then some (plan.entryAt done) else none) := by
  have hoperation : (plan.vectorAt done).operation = some plan.token := rfl
  have hstate : (plan.heldAt done).state = .continuation := rfl
  have hlen : (plan.heldAt done).requestedLen = (plan.vectorAt done).remaining := rfl
  rw [OpEntry.continueVector, ensure_true hoperation, ensure_true hstate, ensure_true hlen]
  have hcheck : (plan.heldAt done).continuationAligned (plan.vectorAt done) =
    plan.aligned done := rfl
  simp only [ok_bind, hcheck, plan.prepare_at hdone]
  split <;> rfl

/-- The events of the read after `done` bytes. -/
def story : ℕ → List ℕ → List VectorEvent
  | done, [] => [.attempt (plan.image.drop done)]
  | done, bytes :: completions =>
    .attempt (plan.image.drop done) :: .transfer ((plan.image.drop done).take bytes) ::
      (publications (done / plan.granule)
        ((plan.frames.drop (done / plan.granule)).take
          ((done + bytes) / plan.granule - done / plan.granule)) ++
        if done + bytes < plan.total ∧ plan.aligned (done + bytes) then
          story (done + bytes) completions
        else [])

theorem run_serve (completions : List ℕ) :
    ∀ (done : ℕ) (events : List VectorEvent), done < plan.total →
      (∀ bytes ∈ completions, 0 < bytes) → done + completions.sum ≤ plan.total →
      (plan.serve completions (plan.entryAt done) (plan.spanAt done)).run events =
        .ok ((), events ++ plan.story done completions) := by
  induction completions with
  | nil =>
    intro done events hdone _ _
    simp [serve, entryAt, OpEntry.ofVector, preparedAt, record, descriptorTargets_at,
      requestsAt_drop, story]
  | cons bytes completions ih =>
    intro done events hdone hpositive hsum
    rw [List.sum_cons, ← Nat.add_assoc] at hsum
    have hpos : 0 < bytes := hpositive bytes List.mem_cons_self
    have hbytes : done + bytes ≤ plan.total := by omega
    obtain ⟨pieces, hpieces, hrequests⟩ := plan.transferPrefix_at hbytes
    have hattempt : requestsAt (plan.base + done) (descriptorTargets
        (ReadVector.buildDescriptors plan.granule (done % plan.granule) 0
          (plan.frames.drop (done / plan.granule)))) = plan.image.drop done := by
      rw [descriptorTargets_at, requestsAt_drop]
    have hpublish := plan.publishCompleted_at hbytes
    have hframe : (plan.entryAt done).frame = some (.vector (plan.preparedAt done)) := rfl
    have hfile : (plan.entryAt done).fileOffset = plan.base + done := rfl
    have hio : (plan.preparedAt done).descriptors = some
      ⟨ReadVector.buildDescriptors plan.granule (done % plan.granule) 0
        (plan.frames.drop (done / plan.granule)), plan.total - done⟩ := rfl
    by_cases hfull : done + bytes = plan.total
    · have hover : ¬done + bytes < plan.total := by omega
      have hfinish := plan.finishVector_full hfull
      have hcomplete : (plan.spanAt (done + bytes)).isComplete = .ok true := by
        simp [ReadSpan.isComplete, spanAt, hfull, total, plan.granule_pos]
      unfold serve
      simp [hframe, hfile, hio, hattempt, hpieces, hrequests, hfinish, hpublish, hcomplete, record,
        story, hover]
    · have hshort : done + bytes < plan.total := by omega
      have hfinish := plan.finishVector_short hpos hshort
      have hcontinue := plan.continueVector_at hshort
      have hcomplete : (plan.spanAt (done + bytes)).isComplete = .ok false := by
        simp [ReadSpan.isComplete, spanAt, hfull]
      have hrest := fun events ↦ ih (done + bytes) events hshort
        (fun bytes hmem ↦ hpositive bytes (List.mem_cons_of_mem _ hmem)) hsum
      unfold serve
      simp [hframe, hfile, hio, hattempt, hpieces, hrequests, hfinish, hpublish, hcomplete, record,
        story, hcontinue, hshort]
      by_cases haligned : plan.aligned (done + bytes) = true <;> simp [haligned, hrest]

theorem trace_eq {completions : List ℕ} (hpositive : ∀ bytes ∈ completions, 0 < bytes)
    (hsum : completions.sum ≤ plan.total) :
    plan.trace completions = .ok (plan.story 0 completions) := by
  have hcount : 2 ≤ plan.frames.length ∧ plan.frames.length ≤ vectorFramesMax :=
    ⟨plan.two_le, plan.length_le⟩
  have hbytes := plan.bytes_le
  have hlimit : vectorBytesMax < 2 ^ 32 := by decide
  have hspan : ReadSpan.new plan.first plan.token plan.frames.length plan.granule =
      .ok (plan.spanAt 0) := by
    simp only [ReadSpan.new, ensure_true hcount, ensure_true (Nat.lt_of_le_of_lt hbytes hlimit),
      ensure_true hbytes, ok_bind]
    simp [spanAt, total]
  have htotal : 0 < plan.total :=
    Nat.mul_pos (Nat.lt_of_lt_of_le (by decide) plan.two_le) plan.granule_pos
  have hserve := plan.run_serve completions 0 [] htotal hpositive (by omega)
  simp [trace, submit_eq, hspan, hserve]

/-- What a read may do next when `done` bytes have arrived and `published` pages are published: ask
for all missing bytes, receive the next of them, or publish the next page once it is complete. -/
def monitor : ℕ × ℕ → VectorEvent → Option (ℕ × ℕ)
  | (done, published), .attempt requests =>
    if requests = plan.image.drop done then some (done, published) else none
  | (done, published), .transfer requests =>
    if requests ≠ [] ∧ requests = (plan.image.drop done).take requests.length then
      some (done + requests.length, published)
    else none
  | (done, published), .publish ordinal frame =>
    if ordinal = published ∧ plan.frames[ordinal]? = some frame ∧
        (ordinal + 1) * plan.granule ≤ done then
      some (done, published + 1)
    else none

/-- The monitor follows the publications of complete frames. -/
theorem monitor_publications (done count : ℕ) :
    ∀ published, (published + count) * plan.granule ≤ done →
      published + count ≤ plan.frames.length →
      (publications published ((plan.frames.drop published).take count)).foldlM plan.monitor
          (done, published) =
        some (done, published + count) := by
  induction count with
  | zero =>
    intro published _ _
    simp [publications]
  | succ count ih =>
    intro published hdone hcount
    have hnext : (published + 1) * plan.granule ≤ done :=
      Nat.le_trans (Nat.mul_le_mul_right _ (by omega)) hdone
    have hpublished : published < plan.frames.length := by omega
    have hrest := ih (published + 1) (by rwa [Nat.add_right_comm]) (by omega)
    have hstep : plan.monitor (done, published) (.publish published plan.frames[published]) =
        some (done, published + 1) := by
      simp [monitor, hpublished, hnext]
    rw [List.drop_eq_getElem_cons hpublished, List.take_succ_cons, publications_cons,
      List.foldlM_cons, hstep, Option.bind_eq_bind, Option.bind_some, hrest, Nat.add_assoc,
      Nat.add_comm 1]

theorem monitor_attempt (done published : ℕ) :
    plan.monitor (done, published) (.attempt (plan.image.drop done)) = some (done, published) :=
  if_pos rfl

theorem monitor_transfer {done bytes : ℕ} (published : ℕ) (hpos : 0 < bytes)
    (hbytes : done + bytes ≤ plan.total) :
    plan.monitor (done, published) (.transfer ((plan.image.drop done).take bytes)) =
      some (done + bytes, published) := by
  have hlength : ((plan.image.drop done).take bytes).length = bytes := by
    simp only [image, List.length_take, List.length_drop, List.length_map, List.length_range]
    omega
  have hsome : (plan.image.drop done).take bytes ≠ [] := by
    rw [← List.length_pos_iff, hlength]
    exact hpos
  rw [monitor, hlength, if_pos ⟨hsome, rfl⟩]

/-- How the completions of a read that starts at `done` add up to `last` bytes: all of them arrive,
or the read stops at an offset from which a direct file refuses to go on. -/
def Ends (completions : List ℕ) (done last : ℕ) : Prop :=
  last = done + completions.sum ∨
    ∃ arrived, arrived <+: completions ∧ last = done + arrived.sum ∧ plan.aligned last = false

theorem monitor_story (completions : List ℕ) :
    ∀ done, done < plan.total → (∀ bytes ∈ completions, 0 < bytes) →
      done + completions.sum ≤ plan.total →
      ∃ last, (plan.story done completions).foldlM plan.monitor (done, done / plan.granule) =
        some (last, last / plan.granule) ∧ plan.Ends completions done last := by
  induction completions with
  | nil =>
    intro done _ _ _
    refine ⟨done, ?_, Or.inl rfl⟩
    rw [story, List.foldlM_cons, monitor_attempt]
    rfl
  | cons bytes completions ih =>
    intro done hdone hpositive hsum
    rw [List.sum_cons, ← Nat.add_assoc] at hsum
    have hpos : 0 < bytes := hpositive bytes List.mem_cons_self
    have hbytes : done + bytes ≤ plan.total := by omega
    have hle : done / plan.granule ≤ (done + bytes) / plan.granule :=
      Nat.div_le_div_right (Nat.le_add_right _ _)
    have hnext : done / plan.granule + ((done + bytes) / plan.granule - done / plan.granule) =
        (done + bytes) / plan.granule := by omega
    have hpublish := plan.monitor_publications (done + bytes)
      ((done + bytes) / plan.granule - done / plan.granule) (done / plan.granule)
      (by rw [hnext]; exact Nat.div_mul_le_self _ _)
      (by rw [hnext]; exact Nat.div_le_of_le_mul (by rwa [Nat.mul_comm]))
    rw [hnext] at hpublish
    rw [story, List.foldlM_cons, monitor_attempt, Option.bind_eq_bind, Option.bind_some,
      List.foldlM_cons, plan.monitor_transfer _ hpos hbytes, Option.bind_eq_bind, Option.bind_some,
      List.foldlM_append, hpublish, Option.bind_eq_bind, Option.bind_some]
    by_cases hmore : done + bytes < plan.total ∧ plan.aligned (done + bytes)
    · obtain ⟨last, hmonitor, hends⟩ := ih (done + bytes) hmore.1
        (fun count hmem ↦ hpositive count (List.mem_cons_of_mem _ hmem)) hsum
      refine ⟨last, by rw [if_pos hmore, hmonitor], ?_⟩
      rcases hends with hall | ⟨arrived, hinitial, hlast, hrefused⟩
      · exact Or.inl (by rw [hall, List.sum_cons, Nat.add_assoc])
      · exact Or.inr ⟨bytes :: arrived, List.cons_prefix_cons.mpr ⟨rfl, hinitial⟩,
          by rw [hlast, List.sum_cons, Nat.add_assoc], hrefused⟩
    · refine ⟨done + bytes, by rw [if_neg hmore]; rfl, ?_⟩
      by_cases hfull : done + bytes = plan.total
      · exact Or.inl (by rw [List.sum_cons]; omega)
      · refine Or.inr ⟨[bytes], by simp, by simp, ?_⟩
        by_contra haligned
        exact hmore ⟨by omega, by simpa using haligned⟩

/-- The completions of a vector read: positive and within the read. -/
structure Completions where
  bytes : List ℕ
  positive : ∀ count ∈ bytes, 0 < count
  sum_le : bytes.sum ≤ plan.total

/-- Every vector read runs through without a panic. Its attempts ask for the missing bytes and for
nothing else, each byte goes to its frame and offset once and in file order, and the pages are
published in order, each after its last byte. -/
theorem trace_monitored (completions : plan.Completions) :
    ∃ events last, plan.trace completions.bytes = .ok events ∧
      events.foldlM plan.monitor (0, 0) = some (last, last / plan.granule) ∧
      plan.Ends completions.bytes 0 last := by
  have htotal : 0 < plan.total :=
    Nat.mul_pos (Nat.lt_of_lt_of_le (by decide) plan.two_le) plan.granule_pos
  obtain ⟨last, hmonitor, hends⟩ := plan.monitor_story completions.bytes 0 htotal
    completions.positive (by rw [Nat.zero_add]; exact completions.sum_le)
  rw [Nat.zero_div] at hmonitor
  exact ⟨_, last, plan.trace_eq completions.positive completions.sum_le, hmonitor, hends⟩

end VectorPlan

end DiosPool.Pool
