import DiosPool.Driver.Eager
import DiosPool.Driver.EagerCore
import DiosPool.Pool.VectorRead

/-!
# One eager attempt at a vector read

The eager backend reads the descriptors of a bundle one after the other. The walk over the descriptors
goes on to its end, also when the attempt has stopped at a short read or an error, and then asks for
nothing more. An attempt reports the bytes that arrived, or an error if there are none.
-/

namespace DiosPool.Pool

open Driver

/-- `ControlFlow<Attempt, u32>`. -/
inductive VectorProgress
  | proceed (transferred : ℕ)
  | stop (attempt : Attempt)
  deriving DecidableEq, Repr

/-- The bytes of the frames, by frame and offset. -/
abbrev FrameBytes := ℕ × ℕ → UInt8

/-- An attempt in progress. The bytes that arrived and the reads that were made are noted in order. -/
structure VectorAttempt where
  progress : VectorProgress
  memory : FrameBytes
  placed : List Request
  reads : List (Piece × IoResult)

/-- A byte of the file arrives in a frame. -/
def Request.place (content : ℕ → UInt8) (memory : FrameBytes) (request : Request) : FrameBytes :=
  Function.update memory (request.frame, request.offset) (content request.fileByte)

/-- The first bytes of one destination, at its place in the file. -/
def firstRequests (fileOffset : ℕ) (piece : Piece) (bytes : ℕ) : List Request :=
  (List.range bytes).map fun index ↦
    ⟨fileOffset + piece.transferred + index, piece.frame, piece.offset + index⟩

namespace VectorAttempt

/-- The closure that `attempt_read_vector` hands to the walk. `outcome` is what the reads of the file
answer, one after the other. -/
def fill (content : ℕ → UInt8) (outcome : ℕ → IoResult) (fileOffset : ℕ) (attempt : VectorAttempt)
    (piece : Piece) : Except Assertion VectorAttempt :=
  match attempt.progress with
  | .stop _ => return attempt
  | .proceed transferred =>
    let result := outcome attempt.reads.length
    let reads := attempt.reads ++ [(piece, result)]
    match result with
    | .ok bytes => do
      ensure (bytes ≤ piece.length) "pread respects its destination"
      let arrived := firstRequests fileOffset piece bytes
      return {
        progress := if bytes < piece.length then .stop (.done (transferred + bytes))
          else .proceed (transferred + bytes)
        memory := arrived.foldl (Request.place content) attempt.memory
        placed := attempt.placed ++ arrived
        reads }
    | .error errno =>
      return { attempt with
        progress := .stop (if 0 < transferred then .done transferred else classify errno)
        reads }

/-- What the attempt reports. -/
def report (attempt : VectorAttempt) : Attempt :=
  match attempt.progress with
  | .proceed bytes => .done bytes
  | .stop report => report

end VectorAttempt

/-- `attempt_read_vector`, with the bytes of the frames before it. -/
def attemptReadVector (content : ℕ → UInt8) (outcome : ℕ → IoResult) (vector : ReadVector)
    (fileOffset : ℕ) (memory : FrameBytes) : Except Assertion VectorAttempt := do
  let requested := vector.remaining
  let io ← expect vector.descriptors "admission prepared stable descriptors"
  let pieces ← io.transferPrefix requested
  pieces.foldlM (VectorAttempt.fill content outcome fileOffset) ⟨.proceed 0, memory, [], []⟩

/-! ## The bytes that arrive -/

/-- Where a byte goes. -/
def Request.destination (request : Request) : ℕ × ℕ := (request.frame, request.offset)

theorem map_destination_requestsAt (fileOffset : ℕ) (targets : List (ℕ × ℕ)) :
    (requestsAt fileOffset targets).map Request.destination = targets := by
  apply List.ext_getElem <;> simp [requestsAt, Request.destination]

theorem pieceRequests_append (fileOffset : ℕ) (pieces rest : List Piece) :
    pieceRequests fileOffset (pieces ++ rest) =
      pieceRequests fileOffset pieces ++ pieceRequests fileOffset rest := List.flatMap_append

theorem pieceRequests_singleton (fileOffset : ℕ) (piece : Piece) :
    pieceRequests fileOffset [piece] = firstRequests fileOffset piece piece.length := by
  simp [pieceRequests, firstRequests]

theorem firstRequests_isPrefix (fileOffset : ℕ) (piece : Piece) {bytes : ℕ}
    (hbytes : bytes ≤ piece.length) :
    firstRequests fileOffset piece bytes <+: pieceRequests fileOffset [piece] := by
  rw [pieceRequests_singleton]
  obtain ⟨rest, hrest⟩ := Nat.exists_eq_add_of_le hbytes
  rw [firstRequests, firstRequests, hrest, List.range_add, List.map_append]
  exact List.prefix_append _ _

@[simp] theorem length_firstRequests (fileOffset : ℕ) (piece : Piece) (bytes : ℕ) :
    (firstRequests fileOffset piece bytes).length = bytes := by
  rw [firstRequests, List.length_map, List.length_range]

variable {content : ℕ → UInt8} {memory : FrameBytes}

theorem foldl_place_of_notMem {requests : List Request} {target : ℕ × ℕ}
    (h : target ∉ requests.map Request.destination) :
    requests.foldl (Request.place content) memory target = memory target := by
  induction requests generalizing memory with
  | nil => rfl
  | cons request requests ih =>
    rw [List.map_cons, List.mem_cons, not_or] at h
    rw [List.foldl_cons, ih h.2]
    exact Function.update_of_ne h.1 _ _

/-- A byte that nothing else overwrites is there at the end. -/
theorem foldl_place_of_mem {requests : List Request} {request : Request}
    (hnodup : (requests.map Request.destination).Nodup) (h : request ∈ requests) :
    requests.foldl (Request.place content) memory request.destination =
      content request.fileByte := by
  induction requests generalizing memory with
  | nil => cases h
  | cons other requests ih =>
    rw [List.map_cons, List.nodup_cons] at hnodup
    rw [List.foldl_cons]
    rcases List.mem_cons.mp h with rfl | hmem
    · rw [foldl_place_of_notMem hnodup.1]
      exact Function.update_self ..
    · exact ih hnodup.2 hmem

namespace VectorAttempt

variable {outcome : ℕ → IoResult} {fileOffset : ℕ} {pieces : List Piece} {piece : Piece}
  {attempt after : VectorAttempt}

/-- A walk over pieces: the bytes that arrived are the first ones of the pieces, and all of them as
long as the attempt goes on. Every read but the last one filled its piece. -/
structure Walked (content : ℕ → UInt8) (fileOffset : ℕ) (memory : FrameBytes) (pieces : List Piece)
    (attempt : VectorAttempt) : Prop where
  memory : attempt.memory = attempt.placed.foldl (Request.place content) memory
  placed : attempt.placed <+: pieceRequests fileOffset pieces
  reads : attempt.reads.map Prod.fst <+: pieces
  full : ∀ read ∈ attempt.reads.dropLast, read.2 = .ok read.1.length
  proceeds : ∀ transferred, attempt.progress = .proceed transferred →
    transferred = attempt.placed.length ∧ attempt.placed = pieceRequests fileOffset pieces ∧
      attempt.reads.map Prod.fst = pieces ∧ ∀ read ∈ attempt.reads, read.2 = .ok read.1.length
  done : ∀ bytes, attempt.progress = .stop (.done bytes) → bytes = attempt.placed.length
  fails : ∀ report, attempt.progress = .stop report → (∀ bytes, report ≠ .done bytes) →
    attempt.placed = []

theorem Walked.start (content : ℕ → UInt8) (fileOffset : ℕ) (memory : FrameBytes) :
    Walked content fileOffset memory [] ⟨.proceed 0, memory, [], []⟩ where
  memory := rfl
  placed := List.nil_prefix
  reads := List.nil_prefix
  full _ hread := absurd hread List.not_mem_nil
  proceeds transferred hprogress := by
    cases hprogress
    exact ⟨rfl, rfl, rfl, fun _ hread ↦ absurd hread List.not_mem_nil⟩
  done _ hprogress := by cases hprogress
  fails _ hprogress := by cases hprogress

theorem classify_ne_done (errno bytes : ℕ) : classify errno ≠ .done bytes := by
  unfold classify
  split
  · simp
  · split <;> simp

/-- What the walk does with one piece. -/
theorem Walked.fill (h : Walked content fileOffset memory pieces attempt)
    (hfill : attempt.fill content outcome fileOffset piece = .ok after) :
    Walked content fileOffset memory (pieces ++ [piece]) after := by
  unfold VectorAttempt.fill at hfill
  cases hprogress : attempt.progress with
  | stop report =>
    rw [hprogress] at hfill
    cases hfill
    refine ⟨h.memory, ?_, h.reads.trans (List.prefix_append _ _), h.full, ?_, h.done, h.fails⟩
    · rw [pieceRequests_append]
      exact h.placed.trans (List.prefix_append _ _)
    · intro transferred hproceed
      rw [hprogress] at hproceed
      cases hproceed
  | proceed transferred =>
    obtain ⟨htransferred, hplaced, hreads, hfull⟩ := h.proceeds transferred hprogress
    rw [hprogress] at hfill
    dsimp only at hfill
    cases hresult : outcome attempt.reads.length with
    | error errno =>
      rw [hresult] at hfill
      cases hfill
      refine ⟨h.memory, ?_, ?_, ?_, fun _ hproceed ↦ (by cases hproceed), ?_, ?_⟩
      · rw [pieceRequests_append]
        exact h.placed.trans (List.prefix_append _ _)
      · rw [List.map_append, hreads]
        exact List.prefix_rfl
      · rw [List.dropLast_concat]
        exact hfull
      · intro bytes hstop
        rw [VectorProgress.stop.injEq] at hstop
        split at hstop
        · cases hstop
          exact htransferred
        · exact absurd hstop (classify_ne_done errno bytes)
      · intro report hstop hreport
        rw [VectorProgress.stop.injEq] at hstop
        split at hstop
        · exact absurd hstop.symm (hreport transferred)
        · rename_i hzero
          have hnone : attempt.placed.length = 0 := by omega
          exact List.length_eq_zero_iff.mp hnone
    | ok bytes =>
      rw [hresult] at hfill
      simp only [bind_eq_ok, ensure_eq_ok, pure_ok, Except.ok.injEq] at hfill
      obtain ⟨_, hbytes, rfl⟩ := hfill
      refine ⟨?_, ?_, ?_, ?_, ?_, ?_, ?_⟩
      · rw [List.foldl_append, h.memory]
      · rw [pieceRequests_append, hplaced, List.prefix_append_right_inj]
        exact firstRequests_isPrefix fileOffset piece hbytes
      · rw [List.map_append, hreads]
        exact List.prefix_rfl
      · rw [List.dropLast_concat]
        exact hfull
      · intro proceeded hproceed
        dsimp only at hproceed
        split at hproceed
        · cases hproceed
        · cases hproceed
          obtain rfl : bytes = piece.length := by omega
          refine ⟨?_, ?_, ?_, ?_⟩
          · rw [List.length_append, length_firstRequests, htransferred]
          · rw [pieceRequests_append, pieceRequests_singleton, hplaced]
          · rw [List.map_append, hreads]
            rfl
          · intro read hread
            rcases List.mem_append.mp hread with hread | hread
            · exact hfull read hread
            · rw [List.mem_singleton.mp hread]
      · intro reported hstop
        dsimp only at hstop
        split at hstop
        · cases hstop
          rw [List.length_append, length_firstRequests, htransferred]
        · cases hstop
      · intro report hstop hreport
        dsimp only at hstop
        split at hstop
        · cases hstop
          exact absurd rfl (hreport _)
        · cases hstop

/-- What the walk does with all pieces. -/
theorem Walked.foldlM (h : Walked content fileOffset memory pieces attempt) {rest : List Piece}
    (hwalk : rest.foldlM (VectorAttempt.fill content outcome fileOffset) attempt = .ok after) :
    Walked content fileOffset memory (pieces ++ rest) after := by
  induction rest generalizing pieces attempt with
  | nil =>
    cases hwalk
    rwa [List.append_nil]
  | cons piece rest ih =>
    rw [List.foldlM_cons, bind_eq_ok] at hwalk
    obtain ⟨middle, hfill, hrest⟩ := hwalk
    have hwalked := ih (h.fill hfill) hrest
    rwa [List.append_assoc, List.singleton_append] at hwalked

/-- The walk fails only at a read that claims more bytes than it was asked for. -/
theorem foldlM_fill_error {rest : List Piece} {assertion : Assertion}
    (hwalk : rest.foldlM (fill content outcome fileOffset) attempt = .error assertion) :
    assertion = ⟨"pread respects its destination"⟩ ∧
      ∃ index bytes, ∃ piece ∈ rest, outcome index = .ok bytes ∧ piece.length < bytes := by
  induction rest generalizing attempt with
  | nil => cases hwalk
  | cons piece rest ih =>
    rw [List.foldlM_cons] at hwalk
    cases hfill : attempt.fill content outcome fileOffset piece with
    | ok middle =>
      rw [hfill] at hwalk
      obtain ⟨hassertion, index, bytes, other, hmem, hother⟩ := ih hwalk
      exact ⟨hassertion, index, bytes, other, List.mem_cons_of_mem _ hmem, hother⟩
    | error failed =>
      rw [hfill] at hwalk
      cases hwalk
      unfold fill at hfill
      split at hfill
      · cases hfill
      · dsimp only at hfill
        split at hfill
        · rename_i bytes hresult
          by_cases hbytes : bytes ≤ piece.length
          · rw [ensure_true hbytes, ok_bind] at hfill
            cases hfill
          · rw [ensure, if_neg hbytes] at hfill
            cases hfill
            exact ⟨rfl, _, bytes, piece, List.mem_cons_self, hresult, by omega⟩
        · cases hfill

theorem Walked.reported (h : Walked content fileOffset memory pieces attempt) {bytes : ℕ}
    (hreport : attempt.report = .done bytes) : attempt.placed.length = bytes := by
  unfold report at hreport
  split at hreport
  · rename_i transferred hprogress
    cases hreport
    exact (h.proceeds _ hprogress).1.symm
  · rename_i hprogress
    exact (h.done bytes (hreport ▸ hprogress)).symm

theorem Walked.failed (h : Walked content fileOffset memory pieces attempt)
    (hreport : ∀ bytes, attempt.report ≠ .done bytes) : attempt.placed = [] := by
  unfold report at hreport
  split at hreport
  · exact absurd rfl (hreport _)
  · rename_i hprogress
    exact h.fails _ hprogress hreport

end VectorAttempt

/-! ## What an attempt reports -/

/-- The descriptors of a bundle have room for the bytes that are missing. -/
structure ServedBy (vector : ReadVector) (io : VectorIo) : Prop where
  descriptors : vector.descriptors = some io
  bytes : vector.remaining ≤ io.bytes
  room : vector.remaining ≤ (descriptorTargets io.descriptors).length

theorem transferPrefix_of_servedBy {vector : ReadVector} {io : VectorIo} (h : ServedBy vector io) :
    io.transferPrefix vector.remaining =
      .ok (transferPieces vector.remaining 0 io.descriptors).1 := by
  have htotal := (pieceRequests_transferPieces 0 vector.remaining io.descriptors 0
    (Nat.zero_le _)).2
  rw [Nat.zero_add, Nat.min_eq_left h.room] at htotal
  rw [VectorIo.transferPrefix, ensure_true h.bytes, ok_bind]
  dsimp only
  rw [ensure_true htotal, ok_bind, pure_ok]

/-- An attempt reports a number of bytes only if as many bytes of the file, from the offset on, arrived
at the first places of the descriptors, in order, and nothing else changed. A report that is no number
of bytes means that nothing arrived. The descriptors are read in order, and after a read that did not
fill its descriptor none is read. The attempt fails only if a read claims more than its destination. -/
theorem attemptReadVector_reports_placed (content : ℕ → UInt8) (outcome : ℕ → IoResult)
    {vector : ReadVector} {io : VectorIo} (hserved : ServedBy vector io) (fileOffset : ℕ)
    (memory : FrameBytes) :
    let targets := descriptorTargets io.descriptors
    (∀ attempt, attemptReadVector content outcome vector fileOffset memory = .ok attempt →
      attempt.memory = attempt.placed.foldl (Request.place content) memory ∧
      (∀ bytes, attempt.report = .done bytes →
        bytes ≤ vector.remaining ∧ attempt.placed.length = bytes ∧
        attempt.placed = (requestsAt fileOffset targets).take bytes ∧
        (∀ target ∉ targets.take bytes, attempt.memory target = memory target) ∧
        (targets.Nodup → ∀ place target, place < bytes → targets[place]? = some target →
          attempt.memory target = content (fileOffset + place))) ∧
      ((∀ bytes, attempt.report ≠ .done bytes) → attempt.placed = [] ∧ attempt.memory = memory) ∧
      attempt.reads.map Prod.fst <+: (transferPieces vector.remaining 0 io.descriptors).1 ∧
      ∀ read ∈ attempt.reads.dropLast, read.2 = .ok read.1.length) ∧
    ∀ assertion, attemptReadVector content outcome vector fileOffset memory = .error assertion →
      assertion = ⟨"pread respects its destination"⟩ ∧
        ∃ index bytes, ∃ piece ∈ (transferPieces vector.remaining 0 io.descriptors).1,
          outcome index = .ok bytes ∧ piece.length < bytes := by
  intro targets
  have hwalk : attemptReadVector content outcome vector fileOffset memory =
      (transferPieces vector.remaining 0 io.descriptors).1.foldlM
        (VectorAttempt.fill content outcome fileOffset) ⟨.proceed 0, memory, [], []⟩ := by
    rw [attemptReadVector, hserved.descriptors, expect_some, ok_bind,
      transferPrefix_of_servedBy hserved, ok_bind]
  rw [hwalk]
  refine ⟨fun attempt hattempt ↦ ?_, fun assertion ↦ VectorAttempt.foldlM_fill_error⟩
  have h := (VectorAttempt.Walked.start content fileOffset memory).foldlM hattempt
  rw [List.nil_append] at h
  have hall := (pieceRequests_transferPieces fileOffset vector.remaining io.descriptors 0
    (Nat.zero_le _)).1
  rw [Nat.add_zero, Nat.sub_zero] at hall
  have hplaced := hall ▸ h.placed
  refine ⟨h.memory, fun bytes hreport ↦ ?_, fun hreport ↦ ?_, h.reads, h.full⟩
  · have hlength := h.reported hreport
    have hle := hplaced.length_le
    rw [List.length_take, hlength] at hle
    have htake : attempt.placed = (requestsAt fileOffset targets).take bytes := by
      rw [List.prefix_iff_eq_take.mp hplaced, hlength, List.take_take, Nat.min_eq_left (by omega)]
    have hdestinations : attempt.placed.map Request.destination = targets.take bytes := by
      rw [htake, List.map_take, map_destination_requestsAt]
    refine ⟨by omega, hlength, htake, fun target htarget ↦ ?_, fun hnodup place target hplace hget ↦ ?_⟩
    · rw [h.memory]
      exact foldl_place_of_notMem (hdestinations ▸ htarget)
    · have hmem : ⟨fileOffset + place, target.1, target.2⟩ ∈ attempt.placed := by
        rw [htake]
        apply List.mem_of_getElem? (i := place)
        rw [List.getElem?_take_of_lt hplace, requestsAt, List.getElem?_mapIdx, hget]
        rfl
      rw [h.memory]
      exact foldl_place_of_mem (hdestinations ▸ hnodup.sublist (List.take_sublist _ _)) hmem
  · have hnone := h.failed hreport
    refine ⟨hnone, ?_⟩
    rw [h.memory, hnone]
    rfl

/-- A bundle of two frames, half of the first one filled. -/
def halfFilled : ReadVector := ⟨[4, 7], 0, 2, 8, 4, none, none⟩

/-- The first read fills its descriptor and the second one does not. -/
def shortSecond (index : ℕ) : IoResult := .ok (if index = 0 then 2 else 1)

theorem halfFilled_reports_placed :
    ∃ prepared io attempt, halfFilled.prepare 1 0 = .ok prepared ∧ ServedBy prepared io ∧
      attemptReadVector Nat.toUInt8 shortSecond prepared 10 (fun _ ↦ 0) = .ok attempt ∧
      attempt.report = .done 3 ∧
      attempt.placed = (requestsAt 10 (descriptorTargets io.descriptors)).take 3 := by
  obtain ⟨prepared, io, attempt, hprepare, hserved, hattempt, hreport⟩ :
      ∃ prepared io attempt, halfFilled.prepare 1 0 = .ok prepared ∧ ServedBy prepared io ∧
        attemptReadVector Nat.toUInt8 shortSecond prepared 10 (fun _ ↦ 0) = .ok attempt ∧
        attempt.report = .done 3 :=
    ⟨_, _, _, rfl, ⟨rfl, by decide, by decide⟩, rfl, rfl⟩
  have h := (attemptReadVector_reports_placed Nat.toUInt8 shortSecond hserved 10 fun _ ↦ 0).1
    attempt hattempt
  exact ⟨prepared, io, attempt, hprepare, hserved, hattempt, hreport, (h.2.1 3 hreport).2.2.1⟩

end DiosPool.Pool
