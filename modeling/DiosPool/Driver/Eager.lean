import DiosPool.Driver.Ring
import DiosPool.Foundation.Resumable

/-!
# The two retry policies

An eager backend runs an operation to its end in one loop over a moving context, outside the lock.
The ring backend keeps the same progress in the slab entry and asks `ring_progress` after every
completion whether the entry goes back to the submission queue. Both are loops that ask the device
for one transfer a turn. A transfer reports no more bytes than it was asked for, or an error number.
-/

namespace DiosPool.Driver

open Foundation

/-- One transfer: its offset in the file, its offset in the buffer and its length. -/
structure Transfer where
  fileOffset : ℕ
  bufferOffset : ℕ
  length : ℕ
  deriving DecidableEq, Repr

/-- A device never moves more bytes than it is asked for. -/
abbrev Executor := Device Transfer IoResult fun transfer result ↦ transferred result ≤ transfer.length

/-! ## The eager backend -/

inductive Attempt
  | done (bytes : ℕ)
  | failed (errno : ℕ)
  | interrupted
  | wouldBlock
  deriving DecidableEq, Repr

def classify (errno : ℕ) : Attempt :=
  if errno = eintr then .interrupted
  else if errno = eagain then .wouldBlock
  else .failed errno

def attemptMapTransfer (result : IoResult) (requested : ℕ) : Except Assertion Attempt :=
  match result with
  | .ok bytes => do
    ensure (bytes ≤ requested) "syscall reported more bytes than requested"
    return .done bytes
  | .error errno => return classify errno

/-- A context with a source buffer asks for all of it. -/
structure OpContext where
  fd : FileId
  fileOffset : ℕ
  frame : Option ReadDestination
  destinationOffset : ℕ
  requestedLen : ℕ
  writeBuf : List UInt8
  syncMode : SyncMode
  whole : writeBuf = [] ∨ writeBuf.length = requestedLen

namespace OpContext

def read (fd : FileId) (fileOffset : ℕ) (frame : ReadDestination)
    (destinationOffset requestedLen : ℕ) : OpContext :=
  ⟨fd, fileOffset, some frame, destinationOffset, requestedLen, [], .full, .inl rfl⟩

def write (fd : FileId) (fileOffset sourceOffset : ℕ) (writeBuf : List UInt8) : OpContext :=
  ⟨fd, fileOffset, none, sourceOffset, writeBuf.length, writeBuf, .full, .inr rfl⟩

def fsync (fd : FileId) (mode : SyncMode) : OpContext := ⟨fd, 0, none, 0, 0, [], mode, .inl rfl⟩

def advanceWrite (context : OpContext) (bytes : ℕ) : Except Assertion OpContext := do
  ensure (0 < bytes) "a write tail advances by positive progress"
  ensure (bytes < context.requestedLen) "only a short write has a tail"
  return write context.fd (context.fileOffset + bytes) (context.destinationOffset + bytes)
    (context.writeBuf.drop bytes)

/-- The context that `prepare_next` makes of a queued entry. `arena` are the bytes of the staging
slots. -/
def ofEntry (arena : ℕ → ℕ → UInt8) (entry : OpEntry) : Except Assertion OpContext :=
  match entry.kind with
  | .read => do
    let frame ← expect entry.frame "a queued read owns its frame token"
    return read entry.fd entry.fileOffset frame entry.destinationOffset entry.requestedLen
  | .fsync => return fsync entry.fd entry.syncMode
  | .write => do
    let slot ← expect entry.writeSlot "an async write retains a staging slot index"
    let source := (List.range entry.requestedLen).map fun index ↦
      arena slot (entry.destinationOffset + index)
    return write entry.fd entry.fileOffset entry.destinationOffset source

def transfer (context : OpContext) : Transfer :=
  ⟨context.fileOffset, context.destinationOffset, context.requestedLen⟩

end OpContext

/-- One turn of the loop in `execute`, with the context and the retries it has used. -/
def executeTurn (C : Config) (kind : OpKind) (logicalLen : ℕ) (context : OpContext) (retries : ℕ)
    (result : IoResult) : Except Assertion ((OpContext × ℕ) ⊕ IoResult) := do
  match ← attemptMapTransfer result context.requestedLen with
  | .done bytes =>
    ensure (bytes ≤ context.requestedLen) "executor reported more bytes than requested"
    if kind ≠ .write then return .inr (.ok bytes)
    else if bytes = context.requestedLen then return .inr (.ok logicalLen)
    else if 0 < bytes then return .inl (← context.advanceWrite bytes, retries)
    else if C.retryBound ≤ retries then return .inr (.error eio)
    else return .inl (context, retries + 1)
  | .failed errno => return .inr (.error errno)
  | .interrupted =>
    if C.retryBound ≤ retries then return .inr (.error eintr)
    else return .inl (context, retries + 1)
  | .wouldBlock =>
    if kind ≠ .read then return .inr (.error eagain)
    else if C.retryBound ≤ retries then return .inr (.error eagain)
    else return .inl (context, retries + 1)

/-- What one turn of the loop can do. A retry pays from the retry bound, a short write moves the
context along its buffer. -/
inductive Progress (C : Config) (kind : OpKind) (logicalLen : ℕ) (context : OpContext)
    (retries : ℕ) : IoResult → (OpContext × ℕ) ⊕ IoResult → Prop
  | finish (bytes : ℕ) (hfits : bytes ≤ context.requestedLen) (hkind : kind ≠ .write) :
      Progress C kind logicalLen context retries (.ok bytes) (.inr (.ok bytes))
  | written (hkind : kind = .write) :
      Progress C kind logicalLen context retries (.ok context.requestedLen) (.inr (.ok logicalLen))
  | short (bytes : ℕ) (hkind : kind = .write) (hpos : 0 < bytes)
      (hless : bytes < context.requestedLen) :
      Progress C kind logicalLen context retries (.ok bytes)
        (.inl (OpContext.write context.fd (context.fileOffset + bytes)
          (context.destinationOffset + bytes) (context.writeBuf.drop bytes), retries))
  | stuck (hkind : kind = .write) (hpos : 0 < context.requestedLen)
      (hretries : C.retryBound ≤ retries) :
      Progress C kind logicalLen context retries (.ok 0) (.inr (.error eio))
  | again (hkind : kind = .write) (hpos : 0 < context.requestedLen)
      (hretries : retries < C.retryBound) :
      Progress C kind logicalLen context retries (.ok 0) (.inl (context, retries + 1))
  | fail (errno : ℕ)
      (hfinal : C.retryBound ≤ retries ∨ ¬(errno = eintr ∨ errno = eagain ∧ kind = .read)) :
      Progress C kind logicalLen context retries (.error errno) (.inr (.error errno))
  | retry (errno : ℕ) (htransient : errno = eintr ∨ errno = eagain ∧ kind = .read)
      (hretries : retries < C.retryBound) :
      Progress C kind logicalLen context retries (.error errno) (.inl (context, retries + 1))

theorem executeTurn_eq_ok {C : Config} {kind : OpKind} {logicalLen retries : ℕ}
    {context : OpContext} {result : IoResult} {outcome : (OpContext × ℕ) ⊕ IoResult}
    (h : executeTurn C kind logicalLen context retries result = .ok outcome) :
    Progress C kind logicalLen context retries result outcome := by
  simp only [executeTurn, bind_eq_ok] at h
  obtain ⟨attempt, hattempt, h⟩ := h
  cases result with
  | ok bytes =>
    simp only [attemptMapTransfer, bind_eq_ok, ensure_eq_ok] at hattempt
    obtain ⟨-, hfits, hattempt⟩ := hattempt
    cases hattempt
    simp only [bind_eq_ok, ensure_eq_ok] at h
    obtain ⟨-, -, h⟩ := h
    by_cases hkind : kind = .write
    · rw [if_neg (not_not_intro hkind)] at h
      by_cases hwhole : bytes = context.requestedLen
      · rw [if_pos hwhole] at h
        cases h
        subst hwhole
        exact .written hkind
      · rw [if_neg hwhole] at h
        by_cases hpos : 0 < bytes
        · have hless : bytes < context.requestedLen := by omega
          simp only [if_pos hpos, OpContext.advanceWrite, ensure_true hpos, ensure_true hless,
            ok_bind] at h
          cases h
          exact .short bytes hkind hpos hless
        · obtain rfl : bytes = 0 := by omega
          rw [if_neg hpos] at h
          split at h
          · cases h
            exact .stuck hkind (by omega) ‹_›
          · cases h
            exact .again hkind (by omega) (by omega)
    · rw [if_pos hkind] at h
      cases h
      exact .finish bytes hfits hkind
  | error errno =>
    cases hattempt
    by_cases hinterrupted : errno = eintr
    · subst hinterrupted
      simp only [classify, if_true] at h
      split at h
      · cases h
        exact .fail _ (.inl ‹_›)
      · cases h
        exact .retry _ (.inl rfl) (by omega)
    · by_cases hblock : errno = eagain
      · subst hblock
        simp only [classify, if_neg hinterrupted, if_true] at h
        split at h
        · cases h
          exact .fail _ (.inr (by simp_all))
        · rename_i hread
          rw [not_not] at hread
          split at h
          · cases h
            exact .fail _ (.inl ‹_›)
          · cases h
            exact .retry _ (.inr ⟨rfl, hread⟩) (by omega)
      · simp only [classify, if_neg hinterrupted, if_neg hblock] at h
        cases h
        exact .fail _ (.inr (by simp_all))

/-- A transfer that fits its request fails no assertion of the loop. -/
theorem executeTurn_of_fits (C : Config) (kind : OpKind) (logicalLen : ℕ) (context : OpContext)
    (retries : ℕ) {result : IoResult} (hfits : transferred result ≤ context.requestedLen) :
    ∃ outcome, executeTurn C kind logicalLen context retries result = .ok outcome := by
  cases result with
  | ok bytes =>
    replace hfits : bytes ≤ context.requestedLen := hfits
    simp only [executeTurn, attemptMapTransfer, ensure_true hfits, ok_bind, pure_ok]
    split_ifs with hkind hwhole hpos hretries
    · exact ⟨_, rfl⟩
    · exact ⟨_, rfl⟩
    · have hless : bytes < context.requestedLen := by omega
      simp [OpContext.advanceWrite, ensure_true hpos, ensure_true hless]
    · exact ⟨_, rfl⟩
    · exact ⟨_, rfl⟩
  | error errno =>
    simp only [executeTurn, attemptMapTransfer, classify, pure_ok, ok_bind]
    split_ifs <;> simp

/-- The loop of `execute`. Its budget are the bytes that are left and the retries that are left. -/
def executeLoop (C : Config) (kind : OpKind) (logicalLen : ℕ) :
    Resumable Transfer IoResult (OpContext × ℕ) IoResult Assertion where
  request state := state.1.transfer
  turn state := executeTurn C kind logicalLen state.1 state.2
  budget state := state.1.requestedLen + (C.retryBound - state.2)
  decreases := by
    intro state result next h
    cases executeTurn_eq_ok h with
    | short bytes hkind hpos hless =>
      have hlength := state.1.whole
      simp only [OpContext.write, List.length_drop]
      rcases hlength with hempty | hlength
      · simp only [hempty, List.length_nil]
        omega
      · omega
    | again hkind hpos hretries => simp only; omega
    | retry errno htransient hretries => simp only; omega

/-- `execute`, from the `index`th answer of the device on. -/
def execute (C : Config) (executor : Executor) (index : ℕ) (kind : OpKind) (context : OpContext) :
    Except Assertion (List Transfer × Option IoResult) :=
  (executeLoop C kind context.requestedLen).run executor index (context, 0)

/-! ## The ring backend -/

/-- What `ring_progress` makes of a completion, as one turn of a loop: the resubmitted entry, or
the result the operation ends with. -/
def ringTurn (C : Config) (entry : OpEntry) (result : IoResult) :
    Except Assertion (OpEntry ⊕ IoResult) := do
  match ← Shared.ringProgress C entry result with
  | (entry, none) => return .inl entry
  | (_, some result) => return .inr result

theorem ringShouldRetry_iff {C : Config} {kind : OpKind} {errno retries : ℕ} :
    Shared.ringShouldRetry C kind (.error errno) retries = true ↔
      retries < C.retryBound ∧ (errno = eintr ∨ errno = eagain ∧ kind = .read) := by
  simp [Shared.ringShouldRetry, eintr, eagain]

/-- The offsets, the length and the retries of a context are those of the slab entry, and what a
write has left to write completes its logical length. -/
structure Mirrors (kind : OpKind) (logicalLen : ℕ) (state : OpContext × ℕ) (entry : OpEntry) :
    Prop where
  sameKind : entry.kind = kind
  transfer : state.1.transfer = ⟨entry.fileOffset, entry.destinationOffset, entry.requestedLen⟩
  retries : state.2 = entry.retries
  written : kind = .write → state.1.writeBuf.length = entry.requestedLen ∧
    entry.destinationOffset + entry.requestedLen = logicalLen

theorem Mirrors.fileOffset {kind : OpKind} {logicalLen : ℕ} {state : OpContext × ℕ}
    {entry : OpEntry} (h : Mirrors kind logicalLen state entry) :
    state.1.fileOffset = entry.fileOffset := congrArg Transfer.fileOffset h.transfer

theorem Mirrors.destinationOffset {kind : OpKind} {logicalLen : ℕ} {state : OpContext × ℕ}
    {entry : OpEntry} (h : Mirrors kind logicalLen state entry) :
    state.1.destinationOffset = entry.destinationOffset := congrArg Transfer.bufferOffset h.transfer

theorem Mirrors.requestedLen {kind : OpKind} {logicalLen : ℕ} {state : OpContext × ℕ}
    {entry : OpEntry} (h : Mirrors kind logicalLen state entry) :
    state.1.requestedLen = entry.requestedLen := congrArg Transfer.length h.transfer

theorem ringTurn_of_retry {C : Config} {entry : OpEntry} {errno : ℕ}
    (htransient : errno = eintr ∨ errno = eagain ∧ entry.kind = .read)
    (hretries : entry.retries < C.retryBound) :
    ringTurn C entry (.error errno) = .ok (.inl { entry with retries := entry.retries + 1 }) := by
  have hretry := ringShouldRetry_iff.mpr ⟨hretries, htransient⟩
  simp [ringTurn, Shared.ringProgress, hretry]

theorem ringTurn_of_fail {C : Config} {entry : OpEntry} {errno : ℕ}
    (hfinal : C.retryBound ≤ entry.retries ∨
      ¬(errno = eintr ∨ errno = eagain ∧ entry.kind = .read)) :
    ringTurn C entry (.error errno) = .ok (.inr (.error errno)) := by
  have hretry : ¬Shared.ringShouldRetry C entry.kind (.error errno) entry.retries = true := by
    rw [ringShouldRetry_iff]
    rintro ⟨hless, htransient⟩
    rcases hfinal with hbound | hpermanent
    · omega
    · exact hpermanent htransient
  unfold ringTurn Shared.ringProgress
  rw [if_neg hretry]
  cases entry.kind <;> rfl

/-- A completion of a read is retried or reported as it is. -/
theorem ringTurn_read {C : Config} {entry : OpEntry} (hkind : entry.kind = .read)
    (result : IoResult) :
    ringTurn C entry result = .ok (.inl { entry with retries := entry.retries + 1 }) ∨
      ringTurn C entry result = .ok (.inr result) := by
  cases result with
  | ok bytes => exact .inr (by simp [ringTurn, Shared.ringProgress, Shared.ringShouldRetry, hkind])
  | error errno =>
    by_cases hretry : entry.retries < C.retryBound ∧
        (errno = eintr ∨ errno = eagain ∧ entry.kind = .read)
    · exact .inl (ringTurn_of_retry hretry.2 hretry.1)
    · refine .inr (ringTurn_of_fail ?_)
      rw [not_and_or, not_lt] at hretry
      exact hretry

/-- A turn of the eager loop and the answer of `ring_progress` to the same completion agree. -/
theorem ringTurn_match {C : Config} {kind : OpKind} {logicalLen : ℕ} {state : OpContext × ℕ}
    {entry : OpEntry} (hmirrors : Mirrors kind logicalLen state entry) {result : IoResult}
    {outcome : (OpContext × ℕ) ⊕ IoResult}
    (hprogress : Progress C kind logicalLen state.1 state.2 result outcome) :
    Resumable.Match (Mirrors kind logicalLen) id
      (.ok outcome : Except Assertion ((OpContext × ℕ) ⊕ IoResult)) (ringTurn C entry result) := by
  have hkind := hmirrors.sameKind
  have hlength := hmirrors.requestedLen
  have hretried := hmirrors.retries
  cases hprogress with
  | finish bytes hfits hother =>
    have hring : ringTurn C entry (.ok bytes) = .ok (.inr (.ok bytes)) := by
      unfold ringTurn Shared.ringProgress
      rw [← hkind] at hother
      cases h : entry.kind <;> simp_all [Shared.ringShouldRetry]
    rw [hring]
    exact .stop _
  | written hwrite =>
    obtain ⟨-, hlogical⟩ := hmirrors.written hwrite
    have hring : ringTurn C entry (.ok state.1.requestedLen) = .ok (.inr (.ok logicalLen)) := by
      simp [ringTurn, Shared.ringProgress, Shared.ringShouldRetry, hkind, hwrite, hlength, hlogical]
    rw [hring]
    exact .stop _
  | short bytes hwrite hpos hless =>
    obtain ⟨hbuffer, hlogical⟩ := hmirrors.written hwrite
    rw [hlength] at hless
    have hring : ringTurn C entry (.ok bytes) = .ok (.inl { entry with
        fileOffset := entry.fileOffset + bytes
        destinationOffset := entry.destinationOffset + bytes
        requestedLen := entry.requestedLen - bytes }) := by
      simp [ringTurn, Shared.ringProgress, Shared.ringShouldRetry, hkind, hwrite, hless.le,
        hless.ne, hpos.ne']
    rw [hring]
    refine .next ⟨hkind, ?_, hretried, fun _ ↦ ⟨?_, ?_⟩⟩
    · simp [OpContext.transfer, OpContext.write, hmirrors.fileOffset, hmirrors.destinationOffset,
        hbuffer]
    · simp [OpContext.write, hbuffer]
    · simp only
      omega
  | stuck hwrite hpos hbound =>
    rw [hlength] at hpos
    rw [hretried] at hbound
    have hring : ringTurn C entry (.ok 0) = .ok (.inr (.error eio)) := by
      simp [ringTurn, Shared.ringProgress, Shared.ringShouldRetry, hkind, hwrite, hpos.ne, hbound]
    rw [hring]
    exact .stop _
  | again hwrite hpos hbound =>
    rw [hlength] at hpos
    rw [hretried] at hbound
    have hring : ringTurn C entry (.ok 0) =
        .ok (.inl { entry with retries := entry.retries + 1 }) := by
      simp [ringTurn, Shared.ringProgress, Shared.ringShouldRetry, hkind, hwrite, hpos.ne,
        hbound.not_ge]
    rw [hring]
    exact .next ⟨hkind, hmirrors.transfer, congrArg (· + 1) hretried, hmirrors.written⟩
  | fail errno hfinal =>
    rw [hretried, ← hkind] at hfinal
    rw [ringTurn_of_fail hfinal]
    exact .stop _
  | retry errno htransient hbound =>
    rw [← hkind] at htransient
    rw [hretried] at hbound
    rw [ringTurn_of_retry htransient hbound]
    exact .next ⟨hkind, hmirrors.transfer, congrArg (· + 1) hretried, hmirrors.written⟩

/-- The entry as `ring_progress` resubmits it has less left to write or has used a retry. -/
theorem ringTurn_decreases {C : Config} {entry next : OpEntry} {result : IoResult}
    (h : ringTurn C entry result = .ok (.inl next)) :
    next.requestedLen + (C.retryBound - next.retries) <
      entry.requestedLen + (C.retryBound - entry.retries) := by
  simp only [ringTurn, bind_eq_ok] at h
  obtain ⟨⟨after, ending⟩, hprogress, h⟩ := h
  cases ending with
  | some ending => cases h
  | none =>
    cases h
    unfold Shared.ringProgress at hprogress
    split at hprogress
    · rename_i hretry
      cases hprogress
      have hless : entry.retries < C.retryBound := by
        cases result with
        | ok bytes => simp [Shared.ringShouldRetry] at hretry
        | error errno => exact (ringShouldRetry_iff.mp hretry).1
      simp only
      omega
    · split at hprogress
      · rename_i bytes hkind
        simp only [bind_eq_ok, ensure_eq_ok] at hprogress
        obtain ⟨-, hfits, hprogress⟩ := hprogress
        split_ifs at hprogress
        · cases hprogress
        · cases hprogress
        · cases hprogress
          simp only
          omega
        · cases hprogress
          simp only
          omega
      · cases hprogress

/-- The life of an entry on the ring: it is resubmitted as long as `ring_progress` says so. -/
def ringLoop (C : Config) : Resumable Transfer IoResult OpEntry IoResult Assertion where
  request entry := ⟨entry.fileOffset, entry.destinationOffset, entry.requestedLen⟩
  turn := ringTurn C
  budget entry := entry.requestedLen + (C.retryBound - entry.retries)
  decreases := ringTurn_decreases

/-! ## Agreement -/

/-- An entry as a submission or a continuation queues it. -/
structure OpEntry.Fresh (entry : OpEntry) : Prop where
  retries : entry.retries = 0
  read : entry.kind = .read → entry.frame.isSome
  write : entry.kind = .write → entry.writeSlot.isSome ∧ entry.destinationOffset = 0
  fsync : entry.kind = .fsync →
    entry.fileOffset = 0 ∧ entry.destinationOffset = 0 ∧ entry.requestedLen = 0

theorem OpContext.ofEntry_mirrors (arena : ℕ → ℕ → UInt8) {entry : OpEntry} (hfresh : entry.Fresh) :
    ∃ context, OpContext.ofEntry arena entry = .ok context ∧
      Mirrors entry.kind context.requestedLen (context, 0) entry := by
  have hretries := hfresh.retries.symm
  cases hkind : entry.kind with
  | read =>
    obtain ⟨frame, hframe⟩ := Option.isSome_iff_exists.mp (hfresh.read hkind)
    refine ⟨.read entry.fd entry.fileOffset frame entry.destinationOffset entry.requestedLen, ?_,
      hkind, rfl, hretries, by simp⟩
    simp [OpContext.ofEntry, hkind, hframe]
  | write =>
    obtain ⟨hslot, hstart⟩ := hfresh.write hkind
    obtain ⟨slot, hslot⟩ := Option.isSome_iff_exists.mp hslot
    let source := (List.range entry.requestedLen).map fun index ↦
      arena slot (entry.destinationOffset + index)
    have hsource : source.length = entry.requestedLen := by simp [source]
    refine ⟨.write entry.fd entry.fileOffset entry.destinationOffset source, ?_, hkind, ?_,
      hretries, fun _ ↦ ⟨hsource, ?_⟩⟩
    · simp [OpContext.ofEntry, hkind, hslot, source]
    · simp [OpContext.transfer, OpContext.write, hsource]
    · simp [OpContext.write, hsource, hstart]
  | fsync =>
    obtain ⟨hoffset, hstart, hlength⟩ := hfresh.fsync hkind
    refine ⟨.fsync entry.fd entry.syncMode, ?_, hkind, ?_, hretries, by simp⟩
    · simp [OpContext.ofEntry, hkind]
    · simp [OpContext.transfer, OpContext.fsync, hoffset, hstart, hlength]

/-- From a context and an entry that mirror each other, both loops make the same requests and stop
with the same result. -/
theorem Mirrors.run_eq {C : Config} {kind : OpKind} {logicalLen : ℕ} {state : OpContext × ℕ}
    {entry : OpEntry} (hmirrors : Mirrors kind logicalLen state entry) (executor : Executor)
    (index : ℕ) :
    ∃ transfers result, (executeLoop C kind logicalLen).run executor index state =
        .ok (transfers, result) ∧
      (ringLoop C).run executor index entry = .ok (transfers, result) ∧
      transfers.length ≤ (executeLoop C kind logicalLen).budget state + 1 ∧
      ((∀ index transfer, (executor.answer index transfer).isSome) → result.isSome) := by
  obtain ⟨transfers, result, hexecute, hring, hlength, hlasts⟩ :=
    Resumable.run_eq_of_match (executeLoop C kind logicalLen) (ringLoop C) executor
      (Mirrors kind logicalLen) id (fun _ _ h ↦ h.transfer.symm)
      (fun state next hrelated index answer hanswer ↦ by
        obtain ⟨outcome, hturn⟩ := executeTurn_of_fits C kind logicalLen state.1
          state.2 (executor.fits hanswer)
        have hmatch := ringTurn_match hrelated (executeTurn_eq_ok hturn)
        rw [← hturn] at hmatch
        exact hmatch)
      index state entry hmirrors
  rw [Option.map_id, id] at hring
  exact ⟨transfers, result, hexecute, hring, hlength, hlasts⟩

/-- Whatever the device answers, the eager loop and the ring ask for the same transfers, stop after
the same attempt and report the same result. They stop after at most one attempt for every byte,
one for every retry and one more. -/
theorem execute_eq_ringLoop (C : Config) (arena : ℕ → ℕ → UInt8) {entry : OpEntry}
    (hfresh : entry.Fresh) (executor : Executor) :
    ∃ context transfers result, OpContext.ofEntry arena entry = .ok context ∧
      execute C executor 0 entry.kind context = .ok (transfers, result) ∧
      (ringLoop C).run executor 0 entry = .ok (transfers, result) ∧
      transfers.length ≤ entry.requestedLen + C.retryBound + 1 ∧
      ((∀ index transfer, (executor.answer index transfer).isSome) → result.isSome) := by
  obtain ⟨context, hcontext, hmirrors⟩ := OpContext.ofEntry_mirrors arena hfresh
  obtain ⟨transfers, result, hexecute, hring, hlength, hlasts⟩ := hmirrors.run_eq (C := C) executor 0
  refine ⟨context, transfers, result, hcontext, hexecute, hring, ?_, hlasts⟩
  have hsame : context.requestedLen = entry.requestedLen := hmirrors.requestedLen
  have hbudget : (executeLoop C entry.kind context.requestedLen).budget (context, 0) =
      entry.requestedLen + C.retryBound := by
    simp [executeLoop, hsame]
  omega

/-- A device that moves one byte at a time. -/
def bytewise : Executor where
  answer _ transfer := some (.ok (min 1 transfer.length))
  fits := by
    rintro _ transfer _ ⟨⟩
    exact min_le_right 1 transfer.length

theorem writeEntry_fresh (fd : FileHandle) (writeSlot len offset : ℕ) :
    (Shared.writeEntry fd writeSlot len offset).Fresh := by
  constructor <;> simp [Shared.writeEntry]

theorem execute_eq_ringLoop_bytewise :
    ∃ context transfers result,
      OpContext.ofEntry (fun _ _ ↦ 0) (Shared.writeEntry ⟨⟨0, 0, 1⟩, .buffered⟩ 0 3 16) =
        .ok context ∧
      execute ⟨0, 4, 1, 2, 1, 4096⟩ bytewise 0 .write context = .ok (transfers, result) ∧
      (ringLoop ⟨0, 4, 1, 2, 1, 4096⟩).run bytewise 0
        (Shared.writeEntry ⟨⟨0, 0, 1⟩, .buffered⟩ 0 3 16) = .ok (transfers, result) ∧
      transfers.length ≤ 3 + 2 + 1 ∧
      ((∀ index transfer, (bytewise.answer index transfer).isSome) → result.isSome) :=
  execute_eq_ringLoop ⟨0, 4, 1, 2, 1, 4096⟩ (fun _ _ ↦ 0) (writeEntry_fresh _ 0 3 16) bytewise

end DiosPool.Driver
