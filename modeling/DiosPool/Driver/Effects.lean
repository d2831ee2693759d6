import DiosPool.Driver.Ring

/-!
# What the critical sections do

Each critical section of the driver that succeeds, by what it required of the state before and what
it changed.
-/

namespace DiosPool.Driver

/-- Two states of one operation, which differ in its progress and its stage only. -/
structure OpEntry.SameOwner (next entry : OpEntry) : Prop where
  kind : next.kind = entry.kind
  fd : next.fd = entry.fd
  frame : next.frame = entry.frame
  lease : next.frameLease = entry.frameLease
  writeSlot : next.writeSlot = entry.writeSlot

theorem OpEntry.SameOwner.refl (entry : OpEntry) : entry.SameOwner entry :=
  ⟨rfl, rfl, rfl, rfl, rfl⟩

namespace Shared

variable {C : Config} {shared after : Shared}

/-- An operation takes the slot at the top of the free stack. -/
def submitted (shared : Shared) (slot : ℕ) (free : List ℕ) (entry : OpEntry) : Shared :=
  let file := shared.files entry.fd.slot
  { shared with
    free
    slots := Function.update shared.slots slot ⟨(shared.slots slot).generation + 1, some entry⟩
    files := Function.update shared.files entry.fd.slot { file with inflight := file.inflight + 1 }
    ready := shared.ready ++ [slot] }

/-- What a submission of `entry` as `token` requires and does. -/
structure Submitted (C : Config) (shared : Shared) (entry : OpEntry) (token : OpToken)
    (after : Shared) : Prop where
  driver : entry.fd.driver = C.id
  live : shared.isLive entry.fd
  room : shared.totalInflight C + (shared.completionBacklog.length + shared.deferred.length) <
    C.queueCapacity
  step : ∃ slot free, shared.free = slot :: free ∧
    token = ⟨slot, (shared.slots slot).generation + 1⟩ ∧ after = shared.submitted slot free entry

theorem admitOperation_eq_ok {fd : FileId} {outcome : Except SubmitError ℕ}
    (h : shared.admitOperation C fd = .ok (outcome, after)) :
    fd.driver = C.id ∧
      match outcome with
      | .ok slot => shared.isLive fd ∧ shared.totalInflight C +
          (shared.completionBacklog.length + shared.deferred.length) < C.queueCapacity ∧
            ∃ free, shared.free = slot :: free ∧ after = { shared with free }
      | .error error => after = shared ∧ (error = .full →
          C.queueCapacity ≤ shared.totalInflight C +
            (shared.completionBacklog.length + shared.deferred.length) ∨ shared.free = []) := by
  simp only [admitOperation, bind_eq_ok, ensure_eq_ok] at h
  obtain ⟨_, hdriver, h⟩ := h
  refine ⟨hdriver, ?_⟩
  split at h
  · rename_i hlive
    split at h
    · rename_i hfull
      cases h
      exact ⟨rfl, fun _ ↦ Or.inl hfull⟩
    · rename_i hroom
      split at h
      · rename_i slot free hfree
        cases h
        exact ⟨hlive, Nat.lt_of_not_le hroom, free, hfree, rfl⟩
      · rename_i hfree
        cases h
        exact ⟨rfl, fun _ ↦ Or.inr hfree⟩
  · cases h
    exact ⟨rfl, nofun⟩

theorem bindEntry_fd {token : OpToken} {entry bound : OpEntry}
    (h : bindEntry token entry = .ok bound) : bound.fd = entry.fd := by
  unfold bindEntry at h
  split at h
  · simp only [bind_eq_ok, pure_ok, Except.ok.injEq] at h
    obtain ⟨vector, _, rfl⟩ := h
    rfl
  · cases h
    rfl

theorem submitted_of_admitOperation {slot : ℕ} {entry : OpEntry} {token : OpToken} {middle : Shared}
    (hadmitted : shared.admitOperation C entry.fd = .ok (.ok slot, middle))
    (hcommit : middle.commit slot entry = .ok (token, after)) :
    ∃ bound, bindEntry token entry = .ok bound ∧ Submitted C shared bound token after := by
  obtain ⟨hdriver, hlive, hroom, free, hfree, rfl⟩ := admitOperation_eq_ok hadmitted
  simp only [commit, bind_eq_ok, pure_ok, Except.ok.injEq, Prod.mk.injEq] at hcommit
  obtain ⟨bound, hbound, rfl, rfl⟩ := hcommit
  have hfd := bindEntry_fd hbound
  refine ⟨bound, hbound, ?_, ?_, hroom, slot, free, hfree, rfl, rfl⟩
  · rw [hfd]
    exact hdriver
  · rw [hfd]
    exact hlive

/-- An admission that is refused changes nothing. -/
def Refused (C : Config) (shared : Shared) (error : SubmitError) (after : Shared) : Prop :=
  after = shared ∧ (error = .full →
    C.queueCapacity ≤ shared.totalInflight C +
      (shared.completionBacklog.length + shared.deferred.length) ∨ shared.free = [])

theorem submitRead_eq_ok {frameLease : FrameLease} {fd : FileHandle}
    {frame fileOffset destinationOffset requestedLen : ℕ}
    {outcome : Except (SubmitError × ℕ) OpToken}
    (h : submitReadAs C frameLease fd frame fileOffset destinationOffset requestedLen shared =
      .ok (outcome, after)) :
    match outcome with
    | .ok token => requestedLen ≤ C.granule - destinationOffset ∧ Submitted C shared
        (pointEntry frameLease fd frame fileOffset destinationOffset requestedLen) token after
    | .error (error, _) => Refused C shared error after := by
  simp only [submitReadAs, bind_eq_ok, ensure_eq_ok] at h
  obtain ⟨_, _, _, _, _, _, _, hlen, _, _, ⟨admitted, middle⟩, hadmitted, h⟩ := h
  cases admitted with
  | error error =>
    cases h
    exact (admitOperation_eq_ok hadmitted).2
  | ok slot =>
    simp only [bind_eq_ok, pure_ok, Except.ok.injEq, Prod.mk.injEq] at h
    obtain ⟨⟨token, _⟩, hcommit, rfl, rfl⟩ := h
    obtain ⟨bound, hbound, hsubmitted⟩ := submitted_of_admitOperation hadmitted hcommit
    cases hbound
    exact ⟨hlen, hsubmitted⟩

/-- A bundle with the descriptors of its next attempt. -/
def described (vector : ReadVector) : ReadVector :=
  let descriptors :=
    ReadVector.buildDescriptors vector.granule vector.destinationOffset 0 vector.frames
  { vector with descriptors := some ⟨descriptors, vector.remaining⟩ }

theorem prepare_eq_ok {slots slot : ℕ} {vector prepared : ReadVector}
    (h : vector.prepare slots slot = .ok prepared) :
    prepared = described vector ∧ vector.frames ≠ [] ∧
      vector.ordinal = vector.filled / vector.granule := by
  simp only [ReadVector.prepare, bind_eq_ok, ensure_eq_ok, pure_ok, Except.ok.injEq] at h
  obtain ⟨_, _, _, hlength, _, hordinal, rfl⟩ := h
  exact ⟨rfl, List.ne_nil_of_length_pos hlength, hordinal⟩

/-- The entry of an admitted vector read. -/
def vectorEntry (frameLease : FrameLease) (fd : FileHandle) (vector : ReadVector) (offset : ℕ)
    (token : OpToken) : OpEntry :=
  OpEntry.ofVector fd.fileId fd.ioMode { described vector with operation := some token } offset
    frameLease

theorem submitReadVector_eq_ok {frameLease : FrameLease} {fd : FileHandle} {vector : ReadVector}
    {offset : ℕ} {outcome : Except (SubmitError × ReadVector) OpToken}
    (h : submitReadVectorAs C frameLease fd vector offset shared = .ok (outcome, after)) :
    match outcome with
    | .ok token => vector.filled = 0 ∧ vector.frames ≠ [] ∧
        Submitted C shared (vectorEntry frameLease fd vector offset token) token after
    | .error (error, returned) => returned = vector ∧ Refused C shared error after := by
  simp only [submitReadVectorAs, bind_eq_ok] at h
  obtain ⟨_, hcheck, ⟨admitted, middle⟩, hadmitted, h⟩ := h
  cases admitted with
  | error error =>
    cases h
    exact ⟨rfl, (admitOperation_eq_ok hadmitted).2⟩
  | ok slot =>
    simp only [bind_eq_ok, pure_ok, Except.ok.injEq, Prod.mk.injEq] at h
    obtain ⟨prepared, hprepared, ⟨token, _⟩, hcommit, rfl, rfl⟩ := h
    obtain ⟨bound, hbound, hsubmitted⟩ := submitted_of_admitOperation hadmitted hcommit
    simp only [OpEntry.checkVector, bind_eq_ok, ensure_eq_ok] at hcheck
    obtain ⟨_, hfilled, _⟩ := hcheck
    obtain ⟨rfl, hframes, -⟩ := prepare_eq_ok hprepared
    simp only [bindEntry, OpEntry.ofVector, ReadVector.bind, bind_eq_ok, ensure_eq_ok, pure_ok,
      Except.ok.injEq] at hbound
    obtain ⟨_, ⟨_, _, rfl⟩, rfl⟩ := hbound
    exact ⟨hfilled, hframes, hsubmitted⟩

theorem submitWrite_eq_ok {fd : FileHandle} {writeSlot len offset : ℕ}
    {outcome : Except SubmitError OpToken}
    (h : submitWrite C fd writeSlot len offset shared = .ok (outcome, after)) :
    match outcome with
    | .ok token => Submitted C shared (writeEntry fd writeSlot len offset) token after
    | .error error => Refused C shared error after := by
  simp only [submitWrite, bind_eq_ok, ensure_eq_ok] at h
  obtain ⟨_, _, ⟨admitted, middle⟩, hadmitted, h⟩ := h
  cases admitted with
  | error error =>
    cases h
    exact (admitOperation_eq_ok hadmitted).2
  | ok slot =>
    simp only [bind_eq_ok, pure_ok, Except.ok.injEq, Prod.mk.injEq] at h
    obtain ⟨⟨token, _⟩, hcommit, rfl, rfl⟩ := h
    obtain ⟨bound, hbound, hsubmitted⟩ := submitted_of_admitOperation hadmitted hcommit
    cases hbound
    exact hsubmitted

theorem submitFsync_eq_ok {fd : FileHandle} {mode : SyncMode} {outcome : Except SubmitError OpToken}
    (h : submitFsync C fd mode shared = .ok (outcome, after)) :
    match outcome with
    | .ok token => Submitted C shared (fsyncEntry fd mode) token after
    | .error error => Refused C shared error after := by
  simp only [submitFsync, bind_eq_ok] at h
  obtain ⟨⟨admitted, middle⟩, hadmitted, h⟩ := h
  cases admitted with
  | error error =>
    cases h
    exact (admitOperation_eq_ok hadmitted).2
  | ok slot =>
    simp only [bind_eq_ok, pure_ok, Except.ok.injEq, Prod.mk.injEq] at h
    obtain ⟨⟨token, _⟩, hcommit, rfl, rfl⟩ := h
    obtain ⟨bound, hbound, hsubmitted⟩ := submitted_of_admitOperation hadmitted hcommit
    cases hbound
    exact hsubmitted

/-! ## Leases -/

/-- The entry of an operation changes. -/
def replaced (shared : Shared) (token : OpToken) (entry : OpEntry) : Shared :=
  { shared with
    slots := Function.update shared.slots token.slot ⟨token.generation, some entry⟩ }

/-- An operation gives its slot back. -/
def vacated (shared : Shared) (token : OpToken) (entry : OpEntry) : Shared :=
  let file := shared.files entry.fd.slot
  { shared with
    free := token.slot :: shared.free
    slots := Function.update shared.slots token.slot ⟨token.generation, none⟩
    files := Function.update shared.files entry.fd.slot { file with inflight := file.inflight - 1 } }

/-- The entry of an operation. -/
def Holds (shared : Shared) (token : OpToken) (entry : OpEntry) : Prop :=
  shared.slots token.slot = ⟨token.generation, some entry⟩

theorem holds_of_contains {token : OpToken} {entry : OpEntry} (hcontains : shared.contains token)
    (hentry : (shared.slots token.slot).payload = some entry) : shared.Holds token entry := by
  simp only [contains, Bool.and_eq_true, beq_iff_eq] at hcontains
  unfold Holds
  rw [← hcontains.2, ← hentry]

theorem Holds.payload {token : OpToken} {entry : OpEntry} (h : shared.Holds token entry) :
    (shared.slots token.slot).payload = some entry := by rw [h]

theorem Holds.generation {token : OpToken} {entry : OpEntry} (h : shared.Holds token entry) :
    (shared.slots token.slot).generation = token.generation := by rw [h]

theorem Holds.unique {token : OpToken} {entry other : OpEntry} (h : shared.Holds token entry)
    (hother : shared.Holds token other) : entry = other :=
  Option.some.inj (h.payload.symm.trans hother.payload)

/-- The operations after an entry changed. -/
theorem Holds.of_replaced {token other : OpToken} {entry next : OpEntry}
    (h : (shared.replaced token next).Holds other entry) :
    other = token ∧ entry = next ∨ other ≠ token ∧ shared.Holds other entry := by
  simp only [Holds, replaced] at h
  by_cases hslot : other.slot = token.slot
  · rw [hslot, Function.update_self, SlabSlot.mk.injEq, Option.some.injEq] at h
    refine .inl ⟨?_, h.2.symm⟩
    cases other
    cases token
    simp_all
  · rw [Function.update_of_ne hslot] at h
    exact .inr ⟨fun hother ↦ hslot (by rw [hother]), h⟩

/-- The operations after one of them gave its slot back. -/
theorem Holds.of_vacated {token other : OpToken} {entry : OpEntry} (gone : OpEntry)
    (h : (shared.vacated token gone).Holds other entry) :
    other ≠ token ∧ shared.Holds other entry := by
  simp only [Holds, vacated] at h
  by_cases hslot : other.slot = token.slot
  · rw [hslot, Function.update_self, SlabSlot.mk.injEq] at h
    cases h.2
  · rw [Function.update_of_ne hslot] at h
    exact ⟨fun hother ↦ hslot (by rw [hother]), h⟩

/-- The operations after a submission. -/
theorem Submitted.holds {token other : OpToken} {entry next : OpEntry}
    (hsubmitted : Submitted C shared next token after) (h : after.Holds other entry) :
    other = token ∧ entry = next ∨ shared.Holds other entry := by
  obtain ⟨slot, free, -, rfl, rfl⟩ := hsubmitted.step
  simp only [Holds, submitted] at h
  by_cases hslot : other.slot = slot
  · rw [hslot, Function.update_self, SlabSlot.mk.injEq, Option.some.injEq] at h
    refine .inl ⟨?_, h.2.symm⟩
    cases other
    simp_all
  · rw [Function.update_of_ne hslot] at h
    exact .inr h

theorem continueReadVector_eq_ok {token resubmitted : OpToken} {vector : ReadVector}
    (h : continueReadVector C token vector shared = .ok (.ok resubmitted, after)) :
    resubmitted = token ∧ ∃ entry, shared.Holds token entry ∧ entry.state = .continuation ∧
      vector.operation = some token ∧ entry.requestedLen = vector.remaining ∧
      vector.frames ≠ [] ∧ vector.ordinal = vector.filled / vector.granule ∧
      after = { shared.replaced token { entry with
        frame := some (.vector (described vector))
        state := .queued
        retries := 0 } with ready := shared.ready ++ [token.slot] } := by
  simp only [continueReadVector, peek, bind_eq_ok, ensure_eq_ok, expect_eq_ok] at h
  obtain ⟨_, hcontains, entry, hentry, continued, hcontinue, h⟩ := h
  simp only [OpEntry.continueVector, bind_eq_ok, ensure_eq_ok] at hcontinue
  obtain ⟨_, hoperation, _, hstate, _, hlen, hcontinue⟩ := hcontinue
  split at hcontinue
  · simp only [bind_eq_ok, pure_ok, Except.ok.injEq] at hcontinue
    obtain ⟨_, hprepared, rfl⟩ := hcontinue
    obtain ⟨rfl, hframes, hordinal⟩ := prepare_eq_ok hprepared
    simp only [bind_eq_ok, ensure_eq_ok, pure_ok, Except.ok.injEq, Prod.mk.injEq] at h
    obtain ⟨_, _, rfl, rfl⟩ := h
    have hholds := holds_of_contains hcontains hentry
    refine ⟨rfl, entry, hholds, hstate, hoperation, hlen, hframes, hordinal, ?_⟩
    simp only [setPayload, replaced, hholds.generation]
  · cases hcontinue
    cases h

/-- A continuation that is refused changes nothing. -/
theorem continueReadVector_eq_error {token : OpToken} {vector returned : ReadVector}
    (h : continueReadVector C token vector shared = .ok (.error returned, after)) :
    returned = vector ∧ after = shared := by
  simp only [continueReadVector, bind_eq_ok] at h
  obtain ⟨_, _, entry, _, continued, _, h⟩ := h
  cases continued with
  | none =>
    cases h
    exact ⟨rfl, rfl⟩
  | some continued => simp [bind_eq_ok] at h

theorem releaseReadLease_eq_ok {token : OpToken} (hcontains : shared.contains token)
    (h : releaseReadLease C token shared = .ok ((), after)) :
    ∃ entry retire outcome, shared.Holds token entry ∧ entry.frame = none ∧
      0 < (shared.files entry.fd.slot).inflight ∧
      (retire = true ↔ (shared.files entry.fd.slot).inflight = 1 ∧
        (shared.files entry.fd.slot).state = .closing) ∧
      after = { shared.vacated token entry with
        deferred := shared.deferred ++ [⟨entry.fd, retire, outcome⟩] } := by
  simp only [releaseReadLease, hcontains, if_true, reclaim, onComplete, bind_eq_ok, ensure_eq_ok,
    expect_eq_ok, subtract_eq_ok, pure_ok, Except.ok.injEq, Prod.mk.injEq] at h
  obtain ⟨⟨entry, _⟩, ⟨_, hentry, rfl, rfl⟩, outcome, _, _, hframe, ⟨_, _⟩,
    ⟨inflight, ⟨hinflight, rfl⟩, rfl, rfl⟩, _, _, -, rfl⟩ := h
  have hholds := holds_of_contains hcontains hentry
  replace hinflight : 1 ≤ (shared.files entry.fd.slot).inflight := hinflight
  have hlast : (shared.files entry.fd.slot).inflight - 1 = 0 ↔
      (shared.files entry.fd.slot).inflight = 1 := by omega
  refine ⟨entry, (shared.files entry.fd.slot).inflight - 1 == 0 &&
    (shared.files entry.fd.slot).state == .closing, outcome, hholds, by simpa using hframe, hinflight,
    ?_, ?_⟩
  · simp only [Bool.and_eq_true, beq_iff_eq, hlast]
  · simp only [setPayload, setFile, vacated, hholds.generation]

/-! ## The files -/

theorem openFile_eq_some {id : FileId} (h : shared.openFile C = (some id, after)) :
    id.slot < C.fileCapacity ∧
      ((shared.files id.slot).state = .free ∨ (shared.files id.slot).state = .closed) ∧
      id = ⟨C.id, id.slot, (shared.files id.slot).generation + 1⟩ ∧
      after = shared.setFile id.slot ⟨id.generation, .opened, 0⟩ := by
  unfold openFile at h
  split at h
  · rename_i slot hslot
    cases h
    have hfound := List.find?_some hslot
    simp only [Bool.or_eq_true, beq_iff_eq] at hfound
    exact ⟨List.mem_range.mp (List.mem_of_find?_eq_some hslot), hfound, rfl, rfl⟩
  · cases h

theorem openFile_eq_none (h : shared.openFile C = (none, after)) : after = shared := by
  unfold openFile at h
  split at h
  · cases h
  · cases h
    rfl

theorem abortFile_eq_ok {id : FileId} (h : shared.abortFile C id = .ok after) :
    id.driver = C.id ∧ (shared.files id.slot).generation = id.generation ∧
      (shared.files id.slot).state = .opened ∧ (shared.files id.slot).inflight = 0 ∧
      after = shared.setFile id.slot { shared.files id.slot with state := .free } := by
  simp only [abortFile, bind_eq_ok, ensure_eq_ok, pure_ok, Except.ok.injEq] at h
  obtain ⟨_, hdriver, _, hgeneration, _, hstate, _, hinflight, rfl⟩ := h
  exact ⟨hdriver, hgeneration, hstate, hinflight, rfl⟩

theorem closeFile_eq_ok {id : FileId} {due : Bool} (h : shared.closeFile id = .ok (due, after)) :
    (shared.files id.slot).generation = id.generation ∧
      (shared.files id.slot).state = .opened ∧
      (due = true ↔ (shared.files id.slot).inflight = 0) ∧
      after = shared.setFile id.slot { shared.files id.slot with state := .closing } := by
  simp only [closeFile, bind_eq_ok, ensure_eq_ok, pure_ok, Except.ok.injEq, Prod.mk.injEq] at h
  obtain ⟨_, hgeneration, _, hopened, rfl, rfl⟩ := h
  exact ⟨hgeneration, hopened, by simp, rfl⟩

theorem finishRetire_eq_ok {id : FileId} (h : shared.finishRetire id = .ok after) :
    (shared.files id.slot).state = .closing ∧ (shared.files id.slot).inflight = 0 ∧
      after = shared.setFile id.slot { shared.files id.slot with state := .closed } := by
  simp only [finishRetire, bind_eq_ok, ensure_eq_ok, pure_ok, Except.ok.injEq] at h
  obtain ⟨_, hclosing, _, hinflight, rfl⟩ := h
  exact ⟨hclosing, hinflight, rfl⟩

/-! ## The rings -/

theorem fillNext_eq_ok (h : fillNext shared = .ok (true, after)) :
    ∃ slot ready entry, shared.ready = slot :: ready ∧
      shared.Holds (shared.token slot) entry ∧ entry.state = .queued ∧
      after = { shared.replaced (shared.token slot) { entry with state := .active } with
        ready
        outstanding := shared.outstanding ++ [shared.token slot] } := by
  unfold fillNext at h
  split at h
  · cases h
  · rename_i slot ready hready
    simp only [peek, bind_eq_ok, ensure_eq_ok, expect_eq_ok, pure_ok, Except.ok.injEq,
      Prod.mk.injEq] at h
    obtain ⟨entry, hentry, _, hstate, -, rfl⟩ := h
    refine ⟨slot, ready, entry, hready, ?_, hstate, rfl⟩
    unfold Holds token
    rw [← hentry]

/-- A queued operation is filled in. -/
theorem fillNext_eq_false (h : fillNext shared = .ok (false, after)) : after = shared := by
  unfold fillNext at h
  split at h
  · cases h
    rfl
  · simp [bind_eq_ok] at h

theorem fillNext_of_ready {slot : ℕ} {ready : List ℕ} {entry : OpEntry}
    (hready : shared.ready = slot :: ready) (hentry : (shared.slots slot).payload = some entry)
    (hqueued : entry.state = .queued) :
    fillNext shared = .ok (true,
      { shared.replaced (shared.token slot) { entry with state := .active } with
        ready
        outstanding := shared.outstanding ++ [shared.token slot] }) := by
  simp only [fillNext, hready, peek, hentry, expect_some, ok_bind, ensure_true hqueued]
  rfl

theorem ringProgress_eq_ok {entry next : OpEntry} {result : IoResult} {ended : Option IoResult}
    (h : ringProgress C entry result = .ok (next, ended)) :
    next.SameOwner entry ∧ next.state = entry.state ∧ (entry.kind = .read →
        (ended = some result ∧ next = entry) ∨
        (ended = none ∧ transferred result = 0 ∧
          next = { entry with retries := entry.retries + 1 })) := by
  unfold ringProgress at h
  split at h
  · rename_i hretry
    cases h
    refine ⟨⟨rfl, rfl, rfl, rfl, rfl⟩, rfl, fun _ ↦ Or.inr ⟨rfl, ?_, rfl⟩⟩
    cases result with
    | ok bytes => simp [ringShouldRetry] at hretry
    | error errno => rfl
  · split at h
    · rename_i hkind _
      simp only [bind_eq_ok, ensure_eq_ok] at h
      obtain ⟨_, _, h⟩ := h
      have hread : entry.kind ≠ .read := by simp [hkind]
      split at h
      · cases h
        exact ⟨⟨rfl, rfl, rfl, rfl, rfl⟩, rfl, fun hkind ↦ absurd hkind hread⟩
      · split at h
        · split at h
          · cases h
            exact ⟨⟨rfl, rfl, rfl, rfl, rfl⟩, rfl, fun hkind ↦ absurd hkind hread⟩
          · cases h
            exact ⟨⟨rfl, rfl, rfl, rfl, rfl⟩, rfl, fun hkind ↦ absurd hkind hread⟩
        · cases h
          exact ⟨⟨rfl, rfl, rfl, rfl, rfl⟩, rfl, fun hkind ↦ absurd hkind hread⟩
    · cases h
      exact ⟨⟨rfl, rfl, rfl, rfl, rfl⟩, rfl, fun _ ↦ Or.inl ⟨rfl, rfl⟩⟩

/-- A bundle after `bytes` more bytes arrived. -/
def advanced (vector : ReadVector) (bytes : ℕ) : ReadVector :=
  { vector with filled := vector.filled + bytes, descriptors := none }

/-- The entry of a vector read whose bundle has left for a completion. -/
def suspended (entry : OpEntry) (vector : ReadVector) (result : IoResult) : OpEntry :=
  let bytes := transferred result
  if 0 < bytes ∧ bytes < entry.requestedLen then
    { entry with
      fileOffset := entry.fileOffset + bytes
      frame := none
      requestedLen := entry.requestedLen - bytes
      destinationOffset := (advanced vector bytes).destinationOffset
      state := .continuation }
  else
    { entry with frame := none, state := .terminal result }

/-- The bundle leaves, and the slot stays with the lease. -/
theorem suspended_eq (entry : OpEntry) (vector : ReadVector) (result : IoResult) :
    ∃ fileOffset requestedLen destinationOffset state,
      suspended entry vector result = { entry with
        fileOffset
        frame := none
        requestedLen
        destinationOffset
        state } ∧ (state = .continuation ∨ state = .terminal result) := by
  unfold suspended
  dsimp only
  split
  · exact ⟨_, _, _, _, rfl, .inl rfl⟩
  · exact ⟨_, _, _, _, rfl, .inr rfl⟩

theorem finishVector_eq_ok {entry : OpEntry} {vector returned : ReadVector} {result : IoResult}
    {next : Option OpEntry} (h : entry.finishVector vector result = .ok (next, returned)) :
    transferred result ≤ entry.requestedLen ∧ returned = advanced vector (transferred result) ∧
      (next = some (suspended entry vector result) ∨ next = none ∧ entry.frameLease ≠ .pool) := by
  simp only [OpEntry.finishVector, ReadVector.recordCompletion, bind_eq_ok, ensure_eq_ok, pure_ok,
    Except.ok.injEq] at h
  obtain ⟨_, hbytes, _, ⟨_, _, rfl⟩, h⟩ := h
  refine ⟨hbytes, ?_⟩
  unfold suspended
  split at h
  · rename_i hshort
    simp only [bind_eq_ok, ensure_eq_ok, Except.ok.injEq, Prod.mk.injEq] at h
    obtain ⟨_, _, rfl, rfl⟩ := h
    exact ⟨rfl, .inl (by rw [if_pos hshort]; rfl)⟩
  · rename_i hend
    split at h
    · cases h
      exact ⟨rfl, .inl (by rw [if_neg hend])⟩
    · rename_i hlease
      cases h
      exact ⟨rfl, .inr ⟨rfl, hlease⟩⟩

/-- The frames of a destination that may be absent. -/
def framesOf (destination : Option ReadDestination) : List ℕ :=
  destination.elim [] ReadDestination.frames

/-- What the end of an attempt does to the operation `token` with the destination `held`: its bundle
leaves for a completion while the slot stays, or the operation is over. -/
inductive Attempted (shared : Shared) (token : OpToken) (entry : OpEntry)
    (held : Option ReadDestination) (result : IoResult) :
    Completion → Option FileId → Released → Shared → Prop
  | lease {vector : ReadVector} (hheld : held = some (.vector vector))
    (hbytes : transferred result ≤ entry.requestedLen) :
    Attempted shared token entry held result
      ⟨token, entry.kind, result, some (.vector (advanced vector (transferred result))), true⟩ none
      ⟨[], none⟩ (shared.replaced token (suspended entry vector result))
  | finish {frame : Option ReadDestination} {frames : List ℕ} {retire : Option FileId}
    (hframes : framesOf frame ++ frames = framesOf held)
    (hpool : held = none ∨ entry.frameLease = .pool →
      (∀ vector, held ≠ some (.vector vector)) ∧ frame = held)
    (hinflight : 0 < (shared.files entry.fd.slot).inflight)
    (hretire : retire = if (shared.files entry.fd.slot).inflight = 1 ∧
      (shared.files entry.fd.slot).state = .closing then some entry.fd else none) :
    Attempted shared token entry held result ⟨token, entry.kind, result, frame, false⟩ retire
      ⟨frames, entry.writeSlot⟩ (shared.vacated token entry)

/-- The end of an attempt does not touch the rings. -/
theorem Attempted.rings {token : OpToken} {entry : OpEntry} {held : Option ReadDestination}
    {result : IoResult} {completion : Completion} {retire : Option FileId} {released : Released}
    (h : Attempted shared token entry held result completion retire released after) :
    after.outstanding = shared.outstanding ∧ after.cqes = shared.cqes := by
  cases h with
  | lease hheld hbytes => exact ⟨rfl, rfl⟩
  | finish hframes hpool hinflight hretire => exact ⟨rfl, rfl⟩

theorem releaseFrame_eq_ok {lease : FrameLease} {destination frame : Option ReadDestination}
    {frames : List ℕ} (h : releaseFrame lease destination = .ok (frame, frames)) :
    framesOf frame ++ frames = framesOf destination ∧
      (destination = none ∨ lease = .pool → frame = destination) := by
  unfold releaseFrame at h
  split at h
  · simp only [bind_eq_ok, expect_eq_ok, pure_ok, Except.ok.injEq, Prod.mk.injEq] at h
    obtain ⟨held, rfl, rfl, rfl⟩ := h
    exact ⟨rfl, by simp⟩
  · cases h
    exact ⟨List.append_nil _, fun _ ↦ rfl⟩

theorem finishReclaim_eq_ok {slot : ℕ} {token : OpToken} {entry : OpEntry} {result : IoResult}
    {destination : Option ReadDestination} {completion : Completion} {retire : Option FileId}
    {released : Released} (hentry : (shared.slots slot).payload = some entry)
    (h : shared.finishReclaim slot token result destination =
      .ok (completion, retire, released, after)) :
    ∃ frame frames, releaseFrame entry.frameLease destination = .ok (frame, frames) ∧
      0 < (shared.files entry.fd.slot).inflight ∧
      completion = ⟨token, entry.kind, result, frame, false⟩ ∧
      (retire = if (shared.files entry.fd.slot).inflight = 1 ∧
        (shared.files entry.fd.slot).state = .closing then some entry.fd else none) ∧
      released = ⟨frames, entry.writeSlot⟩ ∧
      after = shared.vacated ⟨slot, (shared.slots slot).generation⟩ entry := by
  simp only [finishReclaim, reclaim, onComplete, hentry, expect_some, ok_bind, bind_eq_ok,
    subtract_eq_ok, pure_ok, Except.ok.injEq, Prod.mk.injEq] at h
  obtain ⟨⟨_, _⟩, ⟨_, ⟨hinflight, rfl⟩, rfl, rfl⟩, ⟨frame, frames⟩, hrelease, rfl, rfl, rfl, rfl⟩ := h
  refine ⟨frame, frames, hrelease, hinflight, rfl, ?_, rfl, rfl⟩
  replace hinflight : 1 ≤ (shared.files entry.fd.slot).inflight := hinflight
  have hlast : (shared.files entry.fd.slot).inflight - 1 = 0 ↔
      (shared.files entry.fd.slot).inflight = 1 := by omega
  simp only [setPayload, Bool.and_eq_true, beq_iff_eq, hlast]

theorem finishAttempt_eq_ok {token : OpToken} {entry : OpEntry} {result : IoResult}
    {destination : Option ReadDestination} {completion : Completion} {retire : Option FileId}
    {released : Released} (hholds : shared.Holds token entry)
    (h : shared.finishAttempt token.slot result destination =
      .ok (completion, retire, released, after)) :
    entry.state = .active ∧ Attempted shared token entry (destination.or entry.frame) result
      completion retire released after := by
  have hpayload : (shared.slots token.slot).payload = some entry := by rw [hholds]
  have htoken : shared.token token.slot = token := by
    unfold Shared.token
    rw [hholds]
  simp only [finishAttempt, peek, hpayload, htoken, expect_some, ok_bind, bind_eq_ok,
    ensure_eq_ok] at h
  obtain ⟨_, hactive, h⟩ := h
  refine ⟨hactive, ?_⟩
  split at h
  · rename_i vector hheld
    simp only [bind_eq_ok] at h
    obtain ⟨⟨next, returned⟩, hfinish, h⟩ := h
    obtain ⟨hbytes, rfl, rfl | ⟨rfl, hlease⟩⟩ := finishVector_eq_ok hfinish
    · cases h
      have hkind : (suspended entry vector result).kind = entry.kind := by
        obtain ⟨_, _, _, _, hnext, -⟩ := suspended_eq entry vector result
        rw [hnext]
      rw [hkind, hheld]
      have hafter : shared.setPayload token.slot (some (suspended entry vector result)) =
          shared.replaced token (suspended entry vector result) := by
        simp only [setPayload, replaced, hholds.generation]
      rw [hafter]
      exact .lease rfl hbytes
    · obtain ⟨frame, frames, hrelease, hinflight, rfl, rfl, rfl, rfl⟩ :=
        finishReclaim_eq_ok hpayload h
      obtain ⟨hframes, hpool⟩ := releaseFrame_eq_ok hrelease
      rw [hheld, hholds.generation]
      exact .finish hframes (by simp [hlease]) hinflight rfl
  · rename_i hheld
    obtain ⟨frame, frames, hrelease, hinflight, rfl, rfl, rfl, rfl⟩ :=
      finishReclaim_eq_ok hpayload h
    obtain ⟨hframes, hpool⟩ := releaseFrame_eq_ok hrelease
    rw [hholds.generation]
    exact .finish hframes
      (fun hnone ↦ ⟨fun vector hvector ↦ hheld vector hvector, hpool hnone⟩) hinflight rfl

/-- What one turn of the reap does. The entry carries what `ring_progress` made of it. -/
inductive ReapedOne (shared : Shared) : ReapOutcome → Shared → Prop
  | retry {cqe : Cqe} {cqes : List Cqe} {entry next : OpEntry} (hcqes : shared.cqes = cqe :: cqes)
    (hholds : shared.Holds cqe.userData entry) (hsame : next.SameOwner entry)
    (hread : entry.kind = .read → transferred cqe.result = 0 ∧
      next = { entry with retries := entry.retries + 1 }) :
    ReapedOne shared none { shared.replaced cqe.userData { next with state := .queued } with
      cqes
      ready := shared.ready ++ [cqe.userData.slot] }
  | attempt {cqe : Cqe} {cqes : List Cqe} {entry next : OpEntry} {result : IoResult}
    {completion : Completion} {retire : Option FileId} {released : Released} {after : Shared}
    (hcqes : shared.cqes = cqe :: cqes) (hholds : shared.Holds cqe.userData entry)
    (hsame : next.SameOwner entry) (hactive : entry.state = .active)
    (hread : entry.kind = .read → result = cqe.result ∧ next = entry)
    (hattempted : Attempted { shared with cqes } cqe.userData next next.frame result completion
      retire released after) :
    ReapedOne shared (some (completion, retire, released)) after

/-- An entry that is put back before its attempt ends leaves no trace. -/
theorem Attempted.of_setPayload {token : OpToken} {entry : OpEntry} {held : Option ReadDestination}
    {result : IoResult} {completion : Completion} {retire : Option FileId} {released : Released}
    (h : Attempted (shared.setPayload token.slot (some entry)) token entry held result completion
      retire released after) :
    Attempted shared token entry held result completion retire released after := by
  cases h with
  | lease hheld hbytes =>
    rename_i vector
    have hsame : (shared.setPayload token.slot (some entry)).replaced token
        (suspended entry vector result) = shared.replaced token (suspended entry vector result) := by
      simp only [setPayload, replaced, Function.update_idem]
    rw [hsame]
    exact .lease hheld hbytes
  | finish hframes hpool hinflight hretire =>
    have hsame : (shared.setPayload token.slot (some entry)).vacated token entry =
        shared.vacated token entry := by
      simp only [setPayload, vacated, Function.update_idem]
    rw [hsame]
    exact .finish hframes hpool hinflight hretire

theorem reapOne_eq_ok {outcome : ReapOutcome} (h : reapOne C shared = .ok (some outcome, after)) :
    ReapedOne shared outcome after := by
  unfold reapOne at h
  split at h
  · cases h
  · rename_i cqe cqes hcqes
    simp only [peek, bind_eq_ok, ensure_eq_ok, expect_eq_ok] at h
    obtain ⟨_, hcontains, entry, hentry, ⟨next, ended⟩, hprogress, h⟩ := h
    have hholds : shared.Holds cqe.userData entry := holds_of_contains hcontains hentry
    obtain ⟨hsame, hstate, hread⟩ := ringProgress_eq_ok hprogress
    cases ended with
    | none =>
      cases h
      have hretried : entry.kind = .read → transferred cqe.result = 0 ∧
          next = { entry with retries := entry.retries + 1 } := by
        intro hentry
        obtain ⟨hended, -⟩ | ⟨-, hnext⟩ := hread hentry
        · cases hended
        · exact hnext
      have hafter := ReapedOne.retry hcqes hholds hsame hretried
      simp only [replaced] at hafter
      simp only [setPayload, hholds.generation]
      exact hafter
    | some result =>
      simp only [bind_eq_ok, pure_ok, Except.ok.injEq, Prod.mk.injEq, Option.some.injEq] at h
      obtain ⟨⟨completion, retire, released, _⟩, hfinish, rfl, rfl⟩ := h
      have hnext : Holds ({ shared with cqes }.setPayload cqe.userData.slot (some next))
          cqe.userData next := by
        unfold Holds at hholds ⊢
        simp [setPayload, hholds]
      obtain ⟨hactive, hattempted⟩ := finishAttempt_eq_ok hnext hfinish
      refine .attempt hcqes hholds hsame (hstate ▸ hactive) (fun hkind ↦ ?_)
        hattempted.of_setPayload
      obtain ⟨hended, rfl⟩ | ⟨hended, -⟩ := hread hkind
      · exact ⟨Option.some.inj hended, rfl⟩
      · cases hended

/-- What a turn of the reap does for a pool: the operation is tried again, its bundle leaves for a
completion while the slot stays, or the operation is over. -/
inductive Reaped (shared : Shared) : Option Completion → Shared → Prop
  | retry {cqe : Cqe} {cqes : List Cqe} {entry next : OpEntry} (hcqes : shared.cqes = cqe :: cqes)
    (hholds : shared.Holds cqe.userData entry) (hsame : next.SameOwner entry)
    (hread : entry.kind = .read → transferred cqe.result = 0 ∧
      next = { entry with retries := entry.retries + 1 }) :
    Reaped shared none { shared.replaced cqe.userData { next with state := .queued } with
      cqes
      ready := shared.ready ++ [cqe.userData.slot] }
  | lease {cqe : Cqe} {cqes : List Cqe} {entry : OpEntry} {vector : ReadVector}
    (hcqes : shared.cqes = cqe :: cqes) (hholds : shared.Holds cqe.userData entry)
    (hactive : entry.state = .active) (hframe : entry.frame = some (.vector vector))
    (hbytes : transferred cqe.result ≤ entry.requestedLen) :
    Reaped shared
      (some ⟨cqe.userData, entry.kind, cqe.result,
        some (.vector (advanced vector (transferred cqe.result))), true⟩)
      { shared.replaced cqe.userData (suspended entry vector cqe.result) with cqes }
  | finish {cqe : Cqe} {cqes : List Cqe} {entry : OpEntry} {result : IoResult}
    (hcqes : shared.cqes = cqe :: cqes) (hholds : shared.Holds cqe.userData entry)
    (hactive : entry.state = .active) (hframe : ∀ vector, entry.frame ≠ some (.vector vector))
    (hread : entry.kind = .read → result = cqe.result)
    (hinflight : 0 < (shared.files entry.fd.slot).inflight) :
    Reaped shared (some ⟨cqe.userData, entry.kind, result, entry.frame, false⟩)
      { shared.vacated cqe.userData entry with cqes }

theorem reapNext_eq_ok {completion : Option Completion} {retire : Option FileId}
    (hreads : ∀ slot entry, (shared.slots slot).payload = some entry → entry.frame ≠ none →
      entry.kind = .read ∧ entry.frameLease = .pool)
    (h : reapNext C shared = .ok (some (completion, retire), after)) :
    Reaped shared completion after := by
  simp only [reapNext, bind_eq_ok, pure_ok, Except.ok.injEq, Prod.mk.injEq] at h
  obtain ⟨⟨outcome, _⟩, hreap, houtcome, rfl⟩ := h
  cases outcome with
  | none => cases houtcome
  | some outcome =>
    cases reapOne_eq_ok hreap with
    | retry hcqes hholds hsame hread =>
      cases houtcome
      exact .retry hcqes hholds hsame hread
    | @attempt cqe cqes entry next result completion retire released _ hcqes hholds hsame hactive
        hread hattempted =>
      cases houtcome
      have hframed := hreads _ _ hholds.payload
      cases hattempted with
      | lease hheld hbytes =>
        rw [hsame.frame] at hheld
        obtain ⟨rfl, rfl⟩ := hread (hframed (by simp [hheld])).1
        exact .lease hcqes hholds hactive hheld hbytes
      | finish hframes hpool hinflight hretire =>
        have howner : next.frame = none ∨ next.frameLease = .pool := by
          rw [hsame.frame, hsame.lease]
          by_cases hnone : entry.frame = none
          · exact .inl hnone
          · exact .inr (hframed hnone).2
        obtain ⟨hvector, rfl⟩ := hpool howner
        have hafter : ({ shared with cqes } : Shared).vacated cqe.userData next =
            { shared.vacated cqe.userData entry with cqes } := by
          simp only [vacated, hsame.fd]
        rw [hafter, hsame.kind, hsame.frame]
        rw [hsame.frame] at hvector
        rw [hsame.fd] at hinflight
        exact .finish hcqes hholds hactive hvector (fun hkind ↦ (hread hkind).1) hinflight

end Shared

end DiosPool.Driver
