import DiosPool.Driver.Invariant

/-!
# Runs of the driver

The driver as its callers and its backend drive it, one critical section at a time. Between two
sections a thread may hold a lease on a slab slot, an operation that an eager backend executes, or
the duty to retire a file. The machine remembers what it did: the files and tokens it gave out, the
operations that left the slab, and where every frame and write slot went.
-/

namespace DiosPool.Driver

open Foundation

namespace Shared

/-- `prepare_next`: the next ready operation, with the destination that the eager backend takes out
of its entry. -/
def prepareNext : Section (Option (OpToken × Option ReadDestination)) := fun shared ↦
  match shared.ready with
  | [] => return (none, shared)
  | slot :: ready => do
    let entry ← shared.peek slot
    ensure (entry.state = .queued) "a prepared operation is queued"
    let destination ← match entry.kind with
      | .read => do
        let frame ← expect entry.frame "a queued read owns its frame token"
        pure (some frame)
      | .write => do
        let _ ← expect entry.writeSlot "an async write retains a staging slot index"
        pure none
      | .fsync => pure none
    let frame := if entry.kind = .read then none else entry.frame
    return (some (shared.token slot, destination),
      { shared.setPayload slot (some { entry with state := .active, frame }) with ready })

variable {shared after : Shared}

theorem prepareNext_eq_ok {prepared : Option (OpToken × Option ReadDestination)}
    (h : prepareNext shared = .ok (prepared, after)) :
    (prepared = none ∧ after = shared) ∨ ∃ slot ready entry, shared.ready = slot :: ready ∧
      shared.Holds (shared.token slot) entry ∧ entry.state = .queued ∧
      prepared = some (shared.token slot, if entry.kind = .read then entry.frame else none) ∧
      after = { shared.replaced (shared.token slot) { entry with
        state := .active
        frame := if entry.kind = .read then none else entry.frame } with ready } := by
  unfold prepareNext at h
  split at h
  · cases h
    exact .inl ⟨rfl, rfl⟩
  · rename_i slot ready hready
    simp only [peek, bind_eq_ok, ensure_eq_ok, expect_eq_ok, pure_ok] at h
    obtain ⟨entry, hentry, _, hqueued, h⟩ := h
    have hholds : shared.Holds (shared.token slot) entry := by
      unfold Holds token
      rw [← hentry]
    refine .inr ⟨slot, ready, entry, hready, hholds, hqueued, ?_⟩
    split at h
    · rename_i hread
      simp only [bind_eq_ok, expect_eq_ok, ok_bind] at h
      obtain ⟨frame, hframe, h⟩ := h
      cases h
      simp [hread, hframe, setPayload, replaced, token]
    · rename_i hwrite
      simp only [bind_eq_ok, ok_bind] at h
      obtain ⟨_, _, h⟩ := h
      cases h
      simp [hwrite, setPayload, replaced, token]
    · rename_i hfsync
      cases h
      simp [hfsync, setPayload, replaced, token]

theorem reapOne_eq_none {C : Config} (h : reapOne C shared = .ok (none, after)) :
    shared.cqes = [] ∧ after = shared := by
  unfold reapOne at h
  split at h
  · rename_i hcqes
    cases h
    exact ⟨hcqes, rfl⟩
  · simp only [bind_eq_ok] at h
    obtain ⟨_, _, _, _, ⟨next, ended⟩, _, h⟩ := h
    cases ended with
    | none => cases h
    | some result => simp [bind_eq_ok] at h

end Shared

/-- The driver with what its threads hold and what happened so far. -/
structure Machine where
  shared : Shared
  /-- The leases on slab slots, in completions or in the hands of callers. -/
  leases : List OpToken
  /-- The operations that an eager backend executes, with their destinations. -/
  executing : List (OpToken × Option ReadDestination)
  /-- The files that some thread has to retire. -/
  duties : List FileId
  /-- The files that are retired on the backend, but not closed yet. -/
  finishing : List FileId
  /-- Every file id that was given out. -/
  issued : List FileId
  /-- Every file id that was closed. -/
  closes : List FileId
  /-- Every file id that was retired on the backend. -/
  retirements : List FileId
  /-- Every token that a submission returned. -/
  accepted : List OpToken
  /-- Every operation that left the slab. -/
  departed : List OpToken
  /-- The frames that were given to operations. -/
  given : List (OpToken × ℕ)
  /-- The frames that operations handed over to completions. -/
  handed : List (OpToken × ℕ)
  /-- The frames that operations released to the arena. -/
  aborted : List (OpToken × ℕ)
  /-- The write slots that were given to operations. -/
  staged : List (OpToken × ℕ)
  /-- The write slots that operations released. -/
  unstaged : List (OpToken × ℕ)

/-- What a caller, a thread of the driver or the backend can do. -/
inductive DriverEvent
  | openFile
  | abortFile (id : FileId)
  | submitRead (lease : FrameLease) (fd : FileHandle)
      (frame fileOffset destinationOffset requestedLen : ℕ)
  | submitReadVector (lease : FrameLease) (fd : FileHandle) (vector : ReadVector) (offset : ℕ)
  | submitWrite (fd : FileHandle) (writeSlot len offset : ℕ)
  | submitFsync (fd : FileHandle) (mode : SyncMode)
  | continueVector (token : OpToken) (vector : ReadVector)
  | dropLease (token : OpToken)
  | flush
  | close (id : FileId)
  | retire (index : ℕ)
  | finishRetire (index : ℕ)
  | fill
  | complete (token : OpToken) (result : IoResult)
  | reap
  | prepare
  | publish (index : ℕ) (result : IoResult)
  | publishToBacklog (index : ℕ) (result : IoResult)
  | drainBacklog

/-- Whether an event is a call, and not a step of a backend. -/
def DriverEvent.isCall : DriverEvent → Bool
  | fill | complete _ _ | reap | prepare | publish _ _ | publishToBacklog _ _ => false
  | _ => true

namespace Machine

variable (C : Config)

def new : Machine where
  shared := .new C
  leases := []
  executing := []
  duties := []
  finishing := []
  issued := []
  closes := []
  retirements := []
  accepted := []
  departed := []
  given := []
  handed := []
  aborted := []
  staged := []
  unstaged := []

/-- An operation was admitted with its frames and its write slot. -/
def admitted (machine : Machine) (shared : Shared) (token : OpToken)
    (destination : Option ReadDestination) (writeSlot : Option ℕ) : Machine :=
  { machine with
    shared
    accepted := token :: machine.accepted
    given := (Shared.framesOf destination).map (token, ·) ++ machine.given
    staged := writeSlot.toList.map (token, ·) ++ machine.staged }

/-- An attempt ended with a completion. -/
def completed (machine : Machine) (shared : Shared) (completion : Completion)
    (retire : Option FileId) (released : Shared.Released) : Machine :=
  { machine with
    shared
    leases := if completion.continuation then completion.token :: machine.leases else machine.leases
    departed := if completion.continuation then machine.departed
      else completion.token :: machine.departed
    duties := retire.toList ++ machine.duties
    handed := (Shared.framesOf completion.frame).map (completion.token, ·) ++ machine.handed
    aborted := released.frames.map (completion.token, ·) ++ machine.aborted
    unstaged := released.writeSlot.toList.map (completion.token, ·) ++ machine.unstaged }

/-- The machine after one event. An event that is not possible changes nothing. -/
def next (machine : Machine) : DriverEvent → Except Assertion Machine
  | .openFile =>
    match machine.shared.openFile C with
    | (some id, shared) => return { machine with shared, issued := id :: machine.issued }
    | (none, shared) => return { machine with shared }
  | .abortFile id => do return { machine with shared := ← machine.shared.abortFile C id }
  | .submitRead lease fd frame fileOffset destinationOffset requestedLen => do
    let (outcome, shared) ← machine.shared.submitReadAs C lease fd frame fileOffset
      destinationOffset requestedLen
    match outcome with
    | .ok token => return machine.admitted shared token (some (.point frame)) none
    | .error _ => return { machine with shared }
  | .submitReadVector lease fd vector offset => do
    let (outcome, shared) ← machine.shared.submitReadVectorAs C lease fd vector offset
    match outcome with
    | .ok token => return machine.admitted shared token (some (.vector vector)) none
    | .error _ => return { machine with shared }
  | .submitWrite fd writeSlot len offset => do
    let (outcome, shared) ← machine.shared.submitWrite C fd writeSlot len offset
    match outcome with
    | .ok token => return machine.admitted shared token none (some writeSlot)
    | .error _ => return { machine with shared }
  | .submitFsync fd mode => do
    let (outcome, shared) ← machine.shared.submitFsync C fd mode
    match outcome with
    | .ok token => return machine.admitted shared token none none
    | .error _ => return { machine with shared }
  | .continueVector token vector =>
    if token ∈ machine.leases then do
      let (outcome, shared) ← machine.shared.continueReadVector C token vector
      match outcome with
      | .ok token =>
        return { machine with
          shared
          leases := machine.leases.erase token
          given := vector.frames.map (token, ·) ++ machine.given }
      | .error _ => return { machine with shared }
    else
      return machine
  | .dropLease token =>
    if token ∈ machine.leases then do
      let (_, shared) ← machine.shared.releaseReadLease C token
      return { machine with
        shared
        leases := machine.leases.erase token
        departed := token :: machine.departed }
    else
      return machine
  | .flush => do
    let (completion, shared) ← machine.shared.popDeferred
    return { machine with shared, duties := (completion.bind id).toList ++ machine.duties }
  | .close id => do
    ensure (id.driver = C.id) "file handle used with a foreign driver"
    let (due, shared) ← machine.shared.closeFile id
    return { machine with
      shared
      closes := id :: machine.closes
      duties := if due then id :: machine.duties else machine.duties }
  | .retire index =>
    match machine.duties[index]? with
    | some id =>
      return { machine with
        duties := machine.duties.eraseIdx index
        finishing := id :: machine.finishing
        retirements := id :: machine.retirements }
    | none => return machine
  | .finishRetire index =>
    match machine.finishing[index]? with
    | some id => do
      return { machine with
        shared := ← machine.shared.finishRetire id
        finishing := machine.finishing.eraseIdx index }
    | none => return machine
  | .fill => do
    let (_, shared) ← machine.shared.fillNext
    return { machine with shared }
  | .complete token result =>
    if token ∈ machine.shared.outstanding then
      return { machine with shared := machine.shared.postCompletion token result }
    else
      return machine
  | .reap => do
    let (outcome, shared) ← machine.shared.reapOne C
    match outcome with
    | some (some (completion, retire, released)) =>
      return machine.completed shared completion retire released
    | _ => return { machine with shared }
  | .prepare => do
    let (prepared, shared) ← machine.shared.prepareNext
    return { machine with shared, executing := prepared.toList ++ machine.executing }
  | .publish index result =>
    match machine.executing[index]? with
    | some (token, destination) => do
      let (completion, retire, released, shared) ←
        machine.shared.finishAttempt token.slot result destination
      return { machine with executing := machine.executing.eraseIdx index }.completed shared
        completion retire released
    | none => return machine
  | .publishToBacklog index result =>
    match machine.executing[index]? with
    | some (token, destination) => do
      let (completion, retire, released, shared) ←
        machine.shared.finishAttempt token.slot result destination
      ensure (shared.completionBacklog.length < C.queueCapacity) "the backlog is bounded"
      return { machine with executing := machine.executing.eraseIdx index }.completed
        { shared with completionBacklog := shared.completionBacklog ++ [completion] } completion
        retire released
    | none => return machine
  | .drainBacklog => do
    let (_, shared) ← machine.shared.popBacklog
    return { machine with shared }

/-- The machine after a run of events. -/
def run (machine : Machine) : List DriverEvent → Except Assertion Machine
  | [] => return machine
  | event :: events => do (← machine.next C event).run events

/-! ## What an event can do -/

/-- What callers can change. -/
inductive CallEffect (machine : Machine) : Machine → Prop
  | submit {entry : OpEntry} {token : OpToken} {after : Shared}
    (hsubmitted : Shared.Submitted C machine.shared entry token after)
    (hqueued : entry.state = .queued) (hread : entry.frame ≠ none → entry.kind = .read)
    (hwrite : entry.kind = .read → entry.writeSlot = none) :
    CallEffect machine (machine.admitted after token entry.frame entry.writeSlot)
  | resume {token : OpToken} {vector : ReadVector} {after : Shared}
    (hmem : token ∈ machine.leases)
    (hcontinue : machine.shared.continueReadVector C token vector = .ok (.ok token, after)) :
    CallEffect machine { machine with
      shared := after
      leases := machine.leases.erase token
      given := vector.frames.map (token, ·) ++ machine.given }
  | release {token : OpToken} {after : Shared} (hmem : token ∈ machine.leases)
    (hrelease : machine.shared.releaseReadLease C token = .ok ((), after)) :
    CallEffect machine { machine with
      shared := after
      leases := machine.leases.erase token
      departed := token :: machine.departed }
  | flush {completion : DeferredCompletion} {deferred : List DeferredCompletion}
    (hdeferred : machine.shared.deferred = completion :: deferred) :
    CallEffect machine { machine with
      shared := { machine.shared with deferred }
      duties := (if completion.retire then [completion.fd] else []) ++ machine.duties }
  | drain {completion : Completion} {completionBacklog : List Completion}
    (hbacklog : machine.shared.completionBacklog = completion :: completionBacklog) :
    CallEffect machine { machine with shared := { machine.shared with completionBacklog } }
  | openFile {id : FileId} {after : Shared} (hopen : machine.shared.openFile C = (some id, after)) :
    CallEffect machine { machine with shared := after, issued := id :: machine.issued }
  | abortFile {id : FileId} {after : Shared} (habort : machine.shared.abortFile C id = .ok after) :
    CallEffect machine { machine with shared := after }
  | close {id : FileId} {due : Bool} {after : Shared} (hdriver : id.driver = C.id)
    (hclose : machine.shared.closeFile id = .ok (due, after)) :
    CallEffect machine { machine with
      shared := after
      closes := id :: machine.closes
      duties := if due then id :: machine.duties else machine.duties }
  | retire {index : ℕ} {id : FileId} (hindex : machine.duties[index]? = some id) :
    CallEffect machine { machine with
      duties := machine.duties.eraseIdx index
      finishing := id :: machine.finishing
      retirements := id :: machine.retirements }
  | finishRetire {index : ℕ} {id : FileId} {after : Shared}
    (hindex : machine.finishing[index]? = some id)
    (hfinish : machine.shared.finishRetire id = .ok after) :
    CallEffect machine { machine with
      shared := after
      finishing := machine.finishing.eraseIdx index }

/-- What can change at all. An attempt ends on the ring, where the entry holds the destination, or
in an eager backend, which brings the destination along. -/
inductive Effect (machine : Machine) : Machine → Prop
  | call {after : Machine} (hcall : CallEffect C machine after) : Effect machine after
  | fill {after : Shared} (hfill : machine.shared.fillNext = .ok (true, after)) :
    Effect machine { machine with shared := after }
  | post {token : OpToken} (hmem : token ∈ machine.shared.outstanding) (result : IoResult) :
    Effect machine { machine with shared := machine.shared.postCompletion token result }
  | retry {cqe : Cqe} {cqes : List Cqe} {entry next : OpEntry}
    (hcqes : machine.shared.cqes = cqe :: cqes)
    (hholds : machine.shared.Holds cqe.userData entry) (hsame : next.SameOwner entry) :
    Effect machine { machine with
      shared := { machine.shared.replaced cqe.userData { next with state := .queued } with
        cqes
        ready := machine.shared.ready ++ [cqe.userData.slot] } }
  | reap {cqe : Cqe} {cqes : List Cqe} {entry next : OpEntry} {result : IoResult}
    {completion : Completion} {retire : Option FileId} {released : Shared.Released} {after : Shared}
    (hcqes : machine.shared.cqes = cqe :: cqes)
    (hholds : machine.shared.Holds cqe.userData entry) (hsame : next.SameOwner entry)
    (hattempted : Shared.Attempted { machine.shared with cqes } cqe.userData next next.frame result
      completion retire released after) :
    Effect machine (machine.completed after completion retire released)
  | publish {index : ℕ} {token : OpToken} {destination : Option ReadDestination} {entry : OpEntry}
    {result : IoResult} {completion : Completion} {retire : Option FileId}
    {released : Shared.Released} {after : Shared} (completionBacklog : List Completion)
    (hindex : machine.executing[index]? = some (token, destination))
    (hholds : machine.shared.Holds token entry)
    (hattempted : Shared.Attempted machine.shared token entry (destination.or entry.frame) result
      completion retire released after) :
    Effect machine ({ machine with executing := machine.executing.eraseIdx index }.completed
      { after with completionBacklog } completion retire released)
  | prepare {slot : ℕ} {ready : List ℕ} {entry : OpEntry}
    (hready : machine.shared.ready = slot :: ready)
    (hholds : machine.shared.Holds (machine.shared.token slot) entry)
    (hqueued : entry.state = .queued) :
    Effect machine { machine with
      shared := { machine.shared.replaced (machine.shared.token slot) { entry with
          state := .active
          frame := if entry.kind = .read then none else entry.frame } with ready }
      executing := (machine.shared.token slot, if entry.kind = .read then entry.frame else none) ::
        machine.executing }

variable {C} {machine after : Machine}

/-- A call changes nothing, or it has one of the effects of calls. -/
theorem next_call_eq_ok {event : DriverEvent} (hcall : event.isCall)
    (h : machine.next C event = .ok after) : after = machine ∨ CallEffect C machine after := by
  cases event with
  | openFile =>
    simp only [next] at h
    split at h
    · rename_i id shared hopen
      cases h
      exact .inr (.openFile hopen)
    · rename_i shared hopen
      cases h
      rw [Shared.openFile_eq_none hopen]
      exact .inl rfl
  | abortFile id =>
    simp only [next, bind_eq_ok, pure_ok, Except.ok.injEq] at h
    obtain ⟨shared, habort, rfl⟩ := h
    exact .inr (.abortFile habort)
  | submitRead lease fd frame fileOffset destinationOffset requestedLen =>
    simp only [next, bind_eq_ok] at h
    obtain ⟨⟨outcome, shared⟩, hsubmit, h⟩ := h
    have hstep := Shared.submitRead_eq_ok hsubmit
    cases outcome with
    | ok token =>
      cases h
      exact .inr (.submit hstep.2 rfl (fun _ ↦ rfl) fun _ ↦ rfl)
    | error refusal =>
      cases h
      exact .inl (by rw [hstep.1])
  | submitReadVector lease fd vector offset =>
    simp only [next, bind_eq_ok] at h
    obtain ⟨⟨outcome, shared⟩, hsubmit, h⟩ := h
    have hstep := Shared.submitReadVector_eq_ok hsubmit
    cases outcome with
    | ok token =>
      cases h
      exact .inr (.submit hstep.2.2 rfl (fun _ ↦ rfl) fun _ ↦ rfl)
    | error refusal =>
      cases h
      exact .inl (by rw [hstep.2.1])
  | submitWrite fd writeSlot len offset =>
    simp only [next, bind_eq_ok] at h
    obtain ⟨⟨outcome, shared⟩, hsubmit, h⟩ := h
    have hstep := Shared.submitWrite_eq_ok hsubmit
    cases outcome with
    | ok token =>
      cases h
      exact .inr (.submit hstep rfl (by simp [Shared.writeEntry]) (by simp [Shared.writeEntry]))
    | error refusal =>
      cases h
      exact .inl (by rw [hstep.1])
  | submitFsync fd mode =>
    simp only [next, bind_eq_ok] at h
    obtain ⟨⟨outcome, shared⟩, hsubmit, h⟩ := h
    have hstep := Shared.submitFsync_eq_ok hsubmit
    cases outcome with
    | ok token =>
      cases h
      exact .inr (.submit hstep rfl (by simp [Shared.fsyncEntry]) fun _ ↦ rfl)
    | error refusal =>
      cases h
      exact .inl (by rw [hstep.1])
  | continueVector token vector =>
    simp only [next] at h
    split at h
    · rename_i hmem
      simp only [bind_eq_ok] at h
      obtain ⟨⟨outcome, shared⟩, hcontinue, h⟩ := h
      cases outcome with
      | ok resubmitted =>
        cases h
        obtain ⟨rfl, -⟩ := Shared.continueReadVector_eq_ok hcontinue
        exact .inr (.resume hmem hcontinue)
      | error returned =>
        cases h
        rw [(Shared.continueReadVector_eq_error hcontinue).2]
        exact .inl rfl
    · cases h
      exact .inl rfl
  | dropLease token =>
    simp only [next] at h
    split at h
    · rename_i hmem
      simp only [bind_eq_ok, pure_ok, Except.ok.injEq] at h
      obtain ⟨⟨_, shared⟩, hrelease, rfl⟩ := h
      exact .inr (.release hmem hrelease)
    · cases h
      exact .inl rfl
  | flush =>
    simp only [next, Shared.popDeferred, bind_eq_ok, pure_ok, Except.ok.injEq] at h
    obtain ⟨⟨completion, shared⟩, hpop, rfl⟩ := h
    split at hpop
    · cases hpop
      exact .inl rfl
    · rename_i head deferred hdeferred
      cases hpop
      have heffect := CallEffect.flush (C := C) hdeferred
      cases hretire : head.retire with
      | true => simpa [hretire] using Or.inr heffect
      | false => simpa [hretire] using Or.inr heffect
  | close id =>
    simp only [next, bind_eq_ok, ensure_eq_ok, pure_ok, Except.ok.injEq] at h
    obtain ⟨_, hdriver, ⟨due, shared⟩, hclose, rfl⟩ := h
    exact .inr (.close hdriver hclose)
  | retire index =>
    simp only [next] at h
    split at h
    · rename_i id hindex
      cases h
      exact .inr (.retire hindex)
    · cases h
      exact .inl rfl
  | finishRetire index =>
    simp only [next] at h
    split at h
    · rename_i id hindex
      simp only [bind_eq_ok, pure_ok, Except.ok.injEq] at h
      obtain ⟨shared, hfinish, rfl⟩ := h
      exact .inr (.finishRetire hindex hfinish)
    · cases h
      exact .inl rfl
  | drainBacklog =>
    simp only [next, Shared.popBacklog, bind_eq_ok, pure_ok, Except.ok.injEq] at h
    obtain ⟨⟨completion, shared⟩, hpop, rfl⟩ := h
    split at hpop
    · cases hpop
      exact .inl rfl
    · rename_i head completionBacklog hbacklog
      cases hpop
      exact .inr (.drain hbacklog)
  | _ => cases hcall

/-- An event changes nothing, or it has one of the effects. -/
theorem next_eq_ok {event : DriverEvent}
    (hinv : DriverInv C machine.shared (machine.executing.map Prod.fst) machine.leases)
    (h : machine.next C event = .ok after) : after = machine ∨ Effect C machine after := by
  cases event with
  | fill =>
    simp only [next, bind_eq_ok, pure_ok, Except.ok.injEq] at h
    obtain ⟨⟨filled, shared⟩, hfill, rfl⟩ := h
    cases filled with
    | true => exact .inr (.fill hfill)
    | false => exact .inl (by rw [Shared.fillNext_eq_false hfill])
  | complete token result =>
    simp only [next] at h
    split at h
    · rename_i hmem
      cases h
      exact .inr (.post hmem result)
    · cases h
      exact .inl rfl
  | reap =>
    simp only [next, bind_eq_ok] at h
    obtain ⟨⟨outcome, shared⟩, hreap, h⟩ := h
    cases outcome with
    | none =>
      cases h
      exact .inl (by rw [(Shared.reapOne_eq_none hreap).2])
    | some outcome =>
      cases Shared.reapOne_eq_ok hreap with
      | retry hcqes hholds hsame hread =>
        cases h
        exact .inr (.retry hcqes hholds hsame)
      | attempt hcqes hholds hsame hactive hread hattempted =>
        cases h
        exact .inr (.reap hcqes hholds hsame hattempted)
  | prepare =>
    simp only [next, bind_eq_ok, pure_ok, Except.ok.injEq] at h
    obtain ⟨⟨prepared, shared⟩, hprepare, rfl⟩ := h
    obtain ⟨rfl, rfl⟩ | ⟨slot, ready, entry, hready, hholds, hqueued, rfl, rfl⟩ :=
      Shared.prepareNext_eq_ok hprepare
    · exact .inl rfl
    · exact .inr (.prepare hready hholds hqueued)
  | publish index result =>
    simp only [next] at h
    split at h
    · rename_i token destination hindex
      simp only [bind_eq_ok, pure_ok, Except.ok.injEq] at h
      obtain ⟨⟨completion, retire, released, shared⟩, hfinish, rfl⟩ := h
      obtain ⟨entry, hholds, -⟩ := hinv.of_executing hindex
      exact .inr (.publish shared.completionBacklog hindex hholds
        (Shared.finishAttempt_eq_ok hholds hfinish).2)
    · cases h
      exact .inl rfl
  | publishToBacklog index result =>
    simp only [next] at h
    split at h
    · rename_i token destination hindex
      simp only [bind_eq_ok, pure_ok, Except.ok.injEq] at h
      obtain ⟨⟨completion, retire, released, shared⟩, hfinish, _, _, rfl⟩ := h
      obtain ⟨entry, hholds, -⟩ := hinv.of_executing hindex
      exact .inr (.publish (shared.completionBacklog ++ [completion]) hindex hholds
        (Shared.finishAttempt_eq_ok hholds hfinish).2)
    · cases h
      exact .inl rfl
  | _ => exact (next_call_eq_ok rfl h).imp_right .call

/-! ## The invariant over runs -/

/-- The invariant of the driver, with the leases and the operations that the machine lists. -/
def Inv (C : Config) (machine : Machine) : Prop :=
  DriverInv C machine.shared (machine.executing.map Prod.fst) machine.leases

theorem Inv.new (C : Config) : Inv C (Machine.new C) := DriverInv.new C

/-- The operation of the next completion. -/
theorem kernel_cons {cqe : Cqe} {cqes : List Cqe} (hcqes : machine.shared.cqes = cqe :: cqes) :
    machine.shared.kernel.Perm (cqe.userData :: { machine.shared with cqes }.kernel) := by
  simp only [Shared.kernel, hcqes, List.map_cons]
  exact List.perm_middle

/-- An operation that an eager backend gives back. -/
theorem executing_erase {index : ℕ} {token : OpToken} {destination : Option ReadDestination}
    (hindex : machine.executing[index]? = some (token, destination)) :
    machine.executing.Perm ((token, destination) :: machine.executing.eraseIdx index) := by
  obtain ⟨hlt, hget⟩ := List.getElem?_eq_some_iff.mp hindex
  rw [← hget]
  exact (List.getElem_cons_eraseIdx_perm hlt).symm

/-- The end of an attempt keeps the invariant. -/
theorem Inv.attempted {token : OpToken} {entry next : OpEntry} {held : Option ReadDestination}
    {result : IoResult} {completion : Completion} {retire : Option FileId}
    {released : Shared.Released} {shared : Shared} {cqes : List Cqe}
    {executing : List (OpToken × Option ReadDestination)} (hinv : Inv C machine)
    (hholds : machine.shared.Holds token entry) (hsame : next.SameOwner entry)
    (hperm : (machine.shared.kernel ++ machine.executing.map Prod.fst).Perm
      (token :: ({ machine.shared with cqes }.kernel ++ executing.map Prod.fst)))
    (hattempted : Shared.Attempted { machine.shared with cqes } token next held result completion
      retire released shared) :
    Inv C ({ machine with executing }.completed shared completion retire released) := by
  obtain ⟨other, hother, hactive⟩ := hinv.slab.of_mem_active
    (hperm.mem_iff.mpr List.mem_cons_self)
  obtain rfl := hholds.unique hother
  cases hattempted with
  | @lease vector hheld hbytes =>
    obtain ⟨_, _, _, state, hnext, hstate⟩ := Shared.suspended_eq next vector result
    have hleased : (Shared.suspended next vector result).state.isLeased := by
      rw [hnext]
      rcases hstate with rfl | rfl <;> rfl
    have hfd : (Shared.suspended next vector result).fd = entry.fd := by
      rw [hnext]
      exact hsame.fd
    exact DriverInv.suspend hinv hholds hactive hperm hleased hfd
  | finish hframes hpool hinflight hretire =>
    have hafter : ({ machine.shared with cqes } : Shared).vacated token next =
        { machine.shared.vacated token entry with cqes } := by
      simp only [Shared.vacated, hsame.fd]
    rw [hafter]
    exact DriverInv.finish hinv hholds hactive hperm

theorem CallEffect.inv (h : CallEffect C machine after) (hinv : Inv C machine) : Inv C after := by
  cases h with
  | submit hsubmitted hqueued hread hwrite => exact DriverInv.submitted hinv hsubmitted hqueued
  | @resume token vector shared hmem hcontinue =>
    have hleases : (machine.leases : Multiset OpToken) = token ::ₘ machine.leases.erase token :=
      Multiset.coe_eq_coe.mpr (List.perm_cons_erase hmem)
    unfold Inv at hinv
    rw [hleases] at hinv
    exact DriverInv.resume hinv hcontinue
  | @release token shared hmem hrelease =>
    have hleases : (machine.leases : Multiset OpToken) = token ::ₘ machine.leases.erase token :=
      Multiset.coe_eq_coe.mpr (List.perm_cons_erase hmem)
    unfold Inv at hinv
    rw [hleases] at hinv
    exact DriverInv.release hinv hrelease
  | flush hdeferred =>
    refine DriverInv.queues hinv _ ?_
    simp [hdeferred]
  | drain hbacklog => exact DriverInv.queues hinv _ le_rfl
  | openFile hopen => exact DriverInv.openFile hinv hopen
  | abortFile habort => exact DriverInv.abortFile hinv habort
  | close hdriver hclose => exact DriverInv.closeFile hinv hclose
  | retire hindex => exact hinv
  | finishRetire hindex hfinish => exact DriverInv.finishRetire hinv hfinish

theorem Effect.inv (h : Effect C machine after) (hinv : Inv C machine) : Inv C after := by
  cases h with
  | call hcall => exact hcall.inv hinv
  | fill hfill => exact DriverInv.fill hinv hfill
  | post hmem result => exact DriverInv.post hinv hmem result
  | @retry cqe cqes entry next hcqes hholds hsame =>
    have hperm := kernel_cons hcqes
    have hkernel : cqe.userData ∈ machine.shared.kernel := hperm.mem_iff.mpr List.mem_cons_self
    obtain ⟨other, hother, hactive⟩ := hinv.slab.of_mem_active (List.mem_append_left _ hkernel)
    obtain rfl := hholds.unique hother
    exact DriverInv.retry hinv hholds hactive hperm rfl hsame.fd
  | reap hcqes hholds hsame hattempted =>
    exact hinv.attempted hholds hsame ((kernel_cons hcqes).append_right _) hattempted
  | @publish index token destination entry result completion retire released shared
      completionBacklog hindex hholds hattempted =>
    have hperm := ((executing_erase hindex).map Prod.fst).append_left machine.shared.kernel
    have hfinished := hinv.attempted hholds (.refl entry)
      (hperm.trans List.perm_middle) hattempted
    exact DriverInv.queues hfinished completionBacklog le_rfl
  | @prepare slot ready entry hready hholds hqueued =>
    have hslab := hinv.slab
    rw [hready] at hslab
    refine ⟨SlabInv.start hholds hslab hqueued rfl ?_, hinv.files.replace hholds rfl, hinv.bound⟩
    exact List.perm_middle

/-- What every effect keeps holds after a run. -/
theorem run_induct {P : Machine → Prop}
    (hstep : ∀ {before next}, Inv C before → P before → Effect C before next → P next)
    (hinv : Inv C machine) (h : P machine) {events : List DriverEvent}
    (hrun : machine.run C events = .ok after) : Inv C after ∧ P after := by
  induction events generalizing machine with
  | nil =>
    cases hrun
    exact ⟨hinv, h⟩
  | cons event events ih =>
    simp only [run, bind_eq_ok] at hrun
    obtain ⟨middle, hnext, hrun⟩ := hrun
    rcases next_eq_ok hinv hnext with rfl | heffect
    · exact ih hinv h hrun
    · exact ih (heffect.inv hinv) (hstep hinv h heffect) hrun

end Machine

end DiosPool.Driver
