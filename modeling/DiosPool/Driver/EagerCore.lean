import DiosPool.Driver.Ledger
import DiosPool.Driver.Retirement

/-!
# Runs of the eager core

An eager core never hands an operation to a kernel: a thread takes it out of the ready queue,
executes it and publishes its completion, into the batch of its caller or into the backlog. What
such a thread can rely on holds over whole runs: a queued operation has everything its attempt
needs, and a lease that waits in the backlog belongs to no one else.
-/

namespace DiosPool.Driver

open Foundation

namespace Shared

variable {C : Config} {shared after : Shared} {token other : OpToken} {entry next : OpEntry}

/-- A submission gives out a token that names no operation yet. -/
theorem Submitted.fresh (hsubmitted : Submitted C shared next token after) :
    ¬ shared.Holds token entry := by
  obtain ⟨slot, free, -, rfl, -⟩ := hsubmitted.step
  intro hholds
  have hgeneration := hholds.generation
  simp only at hgeneration
  omega

/-- The checks of `submit_read_vector` on the range of the file. -/
theorem submitReadVector_range {frameLease : FrameLease} {fd : FileHandle} {vector : ReadVector}
    {offset : ℕ} {outcome : Except (SubmitError × ReadVector) OpToken}
    (h : submitReadVectorAs C frameLease fd vector offset shared = .ok (outcome, after)) :
    offset + vector.remaining < 2 ^ 64 := by
  simp only [submitReadVectorAs, OpEntry.checkVector, bind_eq_ok, ensure_eq_ok] at h
  obtain ⟨_, ⟨_, _, _, _, _, hrange, _⟩, _⟩ := h
  exact hrange

/-- The frame that an attempt leaves to its completion was its destination. -/
theorem releaseFrame_frame {lease : FrameLease} {destination frame : Option ReadDestination}
    {frames : List ℕ} (h : releaseFrame lease destination = .ok (frame, frames)) :
    frame = none ∨ frame = destination := by
  unfold releaseFrame at h
  split at h
  · simp only [bind_eq_ok, pure_ok, Except.ok.injEq, Prod.mk.injEq] at h
    obtain ⟨_, -, rfl, -⟩ := h
    exact .inl rfl
  · cases h
    exact .inr rfl

/-- The bundle of a completion is the one the attempt read into, with the bytes that arrived. -/
theorem finishAttempt_vector {result : IoResult} {destination : Option ReadDestination}
    {completion : Completion} {retire : Option FileId} {released : Released}
    (hholds : shared.Holds token entry)
    (h : shared.finishAttempt token.slot result destination =
      .ok (completion, retire, released, after)) {vector : ReadVector}
    (hvector : completion.frame = some (.vector vector)) :
    ∃ held, destination.or entry.frame = some (.vector held) ∧
      transferred result ≤ held.remaining ∧ vector = advanced held (transferred result) := by
  simp only [finishAttempt, peek, hholds.payload, expect_some, ok_bind, bind_eq_ok] at h
  obtain ⟨_, -, h⟩ := h
  split at h
  · rename_i held hheld
    refine ⟨held, hheld, ?_⟩
    simp only [bind_eq_ok] at h
    obtain ⟨⟨next, returned⟩, hfinish, h⟩ := h
    have hremaining : transferred result ≤ held.remaining := by
      simp only [OpEntry.finishVector, ReadVector.recordCompletion, bind_eq_ok,
        ensure_eq_ok] at hfinish
      obtain ⟨_, _, _, ⟨_, hremaining, _⟩, _⟩ := hfinish
      exact hremaining
    refine ⟨hremaining, ?_⟩
    obtain ⟨-, rfl, rfl | ⟨rfl, -⟩⟩ := finishVector_eq_ok hfinish
    · cases h
      cases hvector
      rfl
    · obtain ⟨frame, frames, hrelease, -, rfl, -⟩ := finishReclaim_eq_ok hholds.payload h
      rcases releaseFrame_frame hrelease with rfl | rfl
      · cases hvector
      · cases hvector
        rfl
  · rename_i hheld
    obtain ⟨frame, frames, hrelease, -, rfl, -⟩ := finishReclaim_eq_ok hholds.payload h
    rcases releaseFrame_frame hrelease with rfl | rfl
    · cases hvector
    · exact absurd hvector (hheld vector)

/-- The operations after the end of an attempt. -/
theorem Attempted.holds {held : Option ReadDestination} {result : IoResult}
    {completion : Completion} {retire : Option FileId} {released : Released}
    (hattempted : Attempted shared token next held result completion retire released after)
    (h : after.Holds other entry) :
    (other = token ∧ ∃ vector, held = some (.vector vector) ∧ entry = suspended next vector result) ∨
      other ≠ token ∧ shared.Holds other entry := by
  cases hattempted with
  | lease hheld hbytes =>
    rcases Holds.of_replaced h with ⟨rfl, rfl⟩ | hother
    · exact .inl ⟨rfl, _, hheld, rfl⟩
    · exact .inr hother
  | finish hframes hpool hinflight hretire => exact .inr (Holds.of_vacated next h)

/-- The queues that the end of an attempt does not touch. -/
theorem Attempted.queues {held : Option ReadDestination} {result : IoResult}
    {completion : Completion} {retire : Option FileId} {released : Released}
    (hattempted : Attempted shared token next held result completion retire released after) :
    after.ready = shared.ready ∧ after.completionBacklog = shared.completionBacklog ∧
      after.deferred = shared.deferred := by
  cases hattempted with
  | lease hheld hbytes => exact ⟨rfl, rfl, rfl⟩
  | finish hframes hpool hinflight hretire => exact ⟨rfl, rfl, rfl⟩

/-- A lease leaves with a bundle. -/
theorem Attempted.continuation {held : Option ReadDestination} {result : IoResult}
    {completion : Completion} {retire : Option FileId} {released : Released}
    (hattempted : Attempted shared token next held result completion retire released after) :
    completion.token = token ∧ completion.result = result ∧ (completion.continuation →
      ∃ vector, held = some (.vector vector) ∧
        completion.frame = some (.vector (advanced vector (transferred result)))) := by
  cases hattempted with
  | lease hheld hbytes => exact ⟨rfl, rfl, fun _ ↦ ⟨_, hheld, rfl⟩⟩
  | finish hframes hpool hinflight hretire => exact ⟨rfl, rfl, nofun⟩

/-- What is left of a read fits the file. -/
theorem suspended_range {vector : ReadVector} {result : IoResult}
    (hrange : entry.fileOffset + entry.requestedLen < 2 ^ 64) :
    (suspended entry vector result).fileOffset + (suspended entry vector result).requestedLen <
      2 ^ 64 := by
  unfold suspended
  dsimp only
  split
  · dsimp only
    omega
  · exact hrange

end Shared

/-- A bundle as `push`, the completions and its consumers leave it: the frames from `ordinal` on are
still there, and nothing past the last one is filled. -/
structure ReadVector.WellFormed (vector : ReadVector) : Prop where
  granule : 0 < vector.granule
  total : vector.total = (vector.ordinal + vector.frames.length) * vector.granule
  ordinal : vector.ordinal * vector.granule ≤ vector.filled
  filled : vector.filled ≤ vector.total

theorem ReadVector.WellFormed.advanced {vector : ReadVector} (h : vector.WellFormed) {bytes : ℕ}
    (hbytes : bytes ≤ vector.remaining) : (Shared.advanced vector bytes).WellFormed := by
  have hordinal := h.ordinal
  have hfilled := h.filled
  refine ⟨h.granule, h.total, ?_, ?_⟩
  · simp only [Shared.advanced]
    omega
  · simp only [Shared.advanced]
    unfold ReadVector.remaining at hbytes
    omega

/-- The operation `token` reads into a bundle. -/
structure OpEntry.Reads (token : OpToken) (entry : OpEntry) (vector : ReadVector) : Prop where
  wellFormed : vector.WellFormed
  operation : vector.operation = some token
  requested : entry.requestedLen = vector.remaining
  range : entry.fileOffset + entry.requestedLen < 2 ^ 64

/-- An operation has what its attempt needs. `destination` is where it reads to. -/
structure OpEntry.Prepared (token : OpToken) (entry : OpEntry)
    (destination : Option ReadDestination) : Prop where
  read : entry.kind = .read ↔ destination.isSome
  write : entry.kind = .write → entry.writeSlot.isSome
  lease : entry.frameLease = .raw → entry.kind = .read
  vector : ∀ vector, destination = some (.vector vector) → entry.Reads token vector

/-- A thread takes the destination out of the entry. -/
theorem OpEntry.Prepared.start {token : OpToken} {entry : OpEntry}
    (h : entry.Prepared token entry.frame) :
    OpEntry.Prepared token { entry with
      state := .active
      frame := if entry.kind = .read then none else entry.frame }
      (if entry.kind = .read then entry.frame else none) := by
  by_cases hread : entry.kind = .read
  · refine ⟨?_, h.write, h.lease, ?_⟩
    · simpa only [if_pos hread] using h.read
    · intro vector hvector
      rw [if_pos hread] at hvector
      have hreads := h.vector vector hvector
      exact ⟨hreads.wellFormed, hreads.operation, hreads.requested, hreads.range⟩
  · refine ⟨?_, h.write, h.lease, ?_⟩
    · simp [hread]
    · simp [hread]

/-- The bundle of a completion is well-formed and unknown to the kernel. -/
def Completion.WellFormed (completion : Completion) : Prop :=
  ∀ vector, completion.frame = some (.vector vector) →
    vector.WellFormed ∧ vector.descriptors = none

namespace Machine

/-- The leases of the completions that wait in the backlog. -/
def parked (machine : Machine) : List OpToken :=
  (machine.shared.completionBacklog.filter Completion.continuation).map Completion.token

/-- What the owners of bundles and leases can do to an eager core. The fields of a bundle are
private, and the lease of a completion in the backlog has no other owner. -/
def Permitted (machine : Machine) : DriverEvent → Prop
  | .submitReadVector _ _ vector _ => vector.WellFormed
  | .continueVector token vector => vector.WellFormed ∧ token ∉ machine.parked
  | .dropLease token => token ∉ machine.parked
  | .fill | .complete _ _ | .reap => False
  | _ => True

variable (C : Config)

/-- The states of an eager core. -/
inductive EagerReach : Machine → Prop
  | new : EagerReach (Machine.new C)
  | next {machine after : Machine} {event : DriverEvent} (hreach : EagerReach machine)
    (hpermitted : machine.Permitted event) (hnext : machine.next C event = .ok after) :
    EagerReach after

/-- The operations of an eager core have what their threads need. -/
structure Operable (machine : Machine) : Prop where
  outstanding : machine.shared.outstanding = []
  cqes : machine.shared.cqes = []
  queued : ∀ token entry, machine.shared.Holds token entry → entry.state = .queued →
    entry.Prepared token entry.frame
  executing : ∀ token destination entry, (token, destination) ∈ machine.executing →
    machine.shared.Holds token entry → entry.Prepared token destination
  suspended : ∀ token entry, machine.shared.Holds token entry → entry.state = .continuation →
    entry.fileOffset + entry.requestedLen < 2 ^ 64

/-- What holds of every state of an eager core. -/
structure Orderly (machine : Machine) : Prop extends Operable machine where
  backlog : ∀ completion ∈ machine.shared.completionBacklog, completion.WellFormed ∧
    (completion.continuation → ∃ vector, completion.frame = some (.vector vector))
  parked : (machine.parked : Multiset OpToken) ≤ machine.leases

variable {C} {machine after : Machine}

theorem Orderly.new (C : Config) : (Machine.new C).Orderly := by
  refine ⟨⟨?_, ?_, ?_, ?_, ?_⟩, ?_, ?_⟩ <;>
    simp [Machine.new, Shared.new, Shared.Holds, Machine.parked]

/-- Nothing that concerns operations changed. -/
theorem Operable.congr (h : machine.Operable) (hslots : after.shared.slots = machine.shared.slots)
    (houtstanding : after.shared.outstanding = machine.shared.outstanding)
    (hcqes : after.shared.cqes = machine.shared.cqes)
    (hexecuting : after.executing = machine.executing) : after.Operable := by
  have hholds (token : OpToken) (entry : OpEntry) :
      after.shared.Holds token entry ↔ machine.shared.Holds token entry := by
    unfold Shared.Holds
    rw [hslots]
  refine ⟨houtstanding.trans h.outstanding, hcqes.trans h.cqes, ?_, ?_, ?_⟩
  · intro token entry hentry
    exact h.queued token entry ((hholds token entry).mp hentry)
  · intro token destination entry hmem hentry
    rw [hexecuting] at hmem
    exact h.executing token destination entry hmem ((hholds token entry).mp hentry)
  · intro token entry hentry
    exact h.suspended token entry ((hholds token entry).mp hentry)

theorem Orderly.congr (h : machine.Orderly) (hoperable : after.Operable)
    (hbacklog : after.shared.completionBacklog = machine.shared.completionBacklog)
    (hleases : after.leases = machine.leases) : after.Orderly := by
  refine ⟨hoperable, ?_, ?_⟩
  · rw [hbacklog]
    exact h.backlog
  · unfold Machine.parked
    rw [hbacklog, hleases]
    exact h.parked

/-- A submission of an operation that has what it needs. -/
theorem Orderly.submitted (h : machine.Orderly) {entry : OpEntry} {token : OpToken}
    {shared : Shared} (hsubmitted : Shared.Submitted C machine.shared entry token shared)
    (hqueued : entry.state = .queued) (hprepared : entry.Prepared token entry.frame)
    (hinv : Inv C machine) {destination : Option ReadDestination} {writeSlot : Option ℕ} :
    (machine.admitted shared token destination writeSlot).Orderly := by
  have hsame : shared.outstanding = machine.shared.outstanding ∧
      shared.cqes = machine.shared.cqes ∧
      shared.completionBacklog = machine.shared.completionBacklog := by
    obtain ⟨slot, free, -, -, rfl⟩ := hsubmitted.step
    exact ⟨rfl, rfl, rfl⟩
  refine h.congr ⟨hsame.1.trans h.outstanding, hsame.2.1.trans h.cqes, ?_, ?_, ?_⟩ hsame.2.2 rfl
  · intro other found hfound hstate
    rcases hsubmitted.holds hfound with ⟨rfl, rfl⟩ | hfound
    · exact hprepared
    · exact h.queued other found hfound hstate
  · intro other held found hmem hfound
    rcases hsubmitted.holds hfound with ⟨rfl, rfl⟩ | hfound
    · obtain ⟨index, hindex⟩ := List.mem_iff_getElem?.mp hmem
      obtain ⟨old, hold, -⟩ := DriverInv.of_executing hinv hindex
      exact absurd hold hsubmitted.fresh
    · exact h.executing other held found hmem hfound
  · intro other found hfound hstate
    rcases hsubmitted.holds hfound with ⟨rfl, rfl⟩ | hfound
    · rw [hqueued] at hstate
      cases hstate
    · exact h.suspended other found hfound hstate

/-- What a thread executes reads into the destination it took along. -/
theorem Operable.held (h : machine.Operable) (hledger : machine.Ledger) {token : OpToken}
    {destination : Option ReadDestination} {entry : OpEntry}
    (hmem : (token, destination) ∈ machine.executing) (hholds : machine.shared.Holds token entry) :
    destination.or entry.frame = destination := by
  have hprepared := h.executing token destination entry hmem hholds
  cases destination with
  | some destination => rfl
  | none =>
    have hkind : entry.kind ≠ .read := fun hread ↦ by simpa using hprepared.read.mp hread
    have hsound := hledger.sound token.slot entry hholds.payload
    by_contra hframe
    exact hkind (hsound.frame hframe)

section Attempt

variable {index : ℕ} {token : OpToken} {destination : Option ReadDestination} {result : IoResult}
  {completion : Completion} {retire : Option FileId} {released : Shared.Released} {shared : Shared}
  {completionBacklog : List Completion}

/-- The completion of an attempt. -/
theorem Operable.wellFormed (h : machine.Operable) (hinv : Inv C machine)
    (hledger : machine.Ledger) (hindex : machine.executing[index]? = some (token, destination))
    (hfinish : machine.shared.finishAttempt token.slot result destination =
      .ok (completion, retire, released, shared)) :
    completion.WellFormed ∧
      (completion.continuation → ∃ vector, completion.frame = some (.vector vector)) := by
  obtain ⟨entry, hholds, hactive⟩ := DriverInv.of_executing hinv hindex
  have hmem := List.mem_of_getElem? hindex
  have hprepared := h.executing token destination entry hmem hholds
  obtain ⟨-, hattempted⟩ := Shared.finishAttempt_eq_ok hholds hfinish
  refine ⟨fun vector hvector ↦ ?_, fun hlease ↦ ?_⟩
  · obtain ⟨held, hheld, hbytes, rfl⟩ := Shared.finishAttempt_vector hholds hfinish hvector
    rw [h.held hledger hmem hholds] at hheld
    exact ⟨(hprepared.vector held hheld).wellFormed.advanced hbytes, rfl⟩
  · obtain ⟨vector, -, hvector⟩ := hattempted.continuation.2.2 hlease
    exact ⟨_, hvector⟩

/-- An attempt ends, with the completion in the batch of the caller or in the backlog. -/
theorem Operable.published (h : machine.Operable) (hinv : Inv C machine) (hledger : machine.Ledger)
    (hindex : machine.executing[index]? = some (token, destination))
    (hfinish : machine.shared.finishAttempt token.slot result destination =
      .ok (completion, retire, released, shared)) :
    ({ machine with executing := machine.executing.eraseIdx index }.completed
      { shared with completionBacklog } completion retire released).Operable := by
  obtain ⟨entry, hholds, hactive⟩ := DriverInv.of_executing hinv hindex
  have hmem := List.mem_of_getElem? hindex
  have hprepared := h.executing token destination entry hmem hholds
  obtain ⟨-, hattempted⟩ := Shared.finishAttempt_eq_ok hholds hfinish
  rw [h.held hledger hmem hholds] at hattempted
  -- no other thread executes the operation
  have hrest : ∀ other held, (other, held) ∈ machine.executing.eraseIdx index → other ≠ token := by
    rintro other held hother rfl
    have hactives := List.Nodup.of_append_right hinv.slab.nodup_active
    have hperm := ((executing_erase hindex).map Prod.fst).nodup_iff.mp hactives
    have htoken := List.mem_map_of_mem (f := Prod.fst) hother
    exact (List.nodup_cons.mp hperm).1 htoken
  refine ⟨hattempted.rings.1.trans h.outstanding, hattempted.rings.2.trans h.cqes, ?_, ?_, ?_⟩
  · intro other found hfound hstate
    rcases hattempted.holds hfound with ⟨rfl, vector, -, rfl⟩ | ⟨-, hfound⟩
    · obtain ⟨_, _, _, state, hnext, hleased⟩ := Shared.suspended_eq entry vector result
      rw [hnext] at hstate
      rcases hleased with rfl | rfl <;> cases hstate
    · exact h.queued other found hfound hstate
  · intro other held found hother hfound
    rcases hattempted.holds hfound with ⟨rfl, -⟩ | ⟨-, hfound⟩
    · exact absurd rfl (hrest _ held hother)
    · exact h.executing other held found (List.mem_of_mem_eraseIdx hother) hfound
  · intro other found hfound hstate
    rcases hattempted.holds hfound with ⟨rfl, vector, hheld, rfl⟩ | ⟨-, hfound⟩
    · exact Shared.suspended_range (hprepared.vector vector hheld).range
    · exact h.suspended other found hfound hstate

theorem Orderly.published (h : machine.Orderly) (hinv : Inv C machine) (hledger : machine.Ledger)
    (hindex : machine.executing[index]? = some (token, destination))
    (hfinish : machine.shared.finishAttempt token.slot result destination =
      .ok (completion, retire, released, shared))
    (hbacklog : completionBacklog = machine.shared.completionBacklog ∨
      completionBacklog = machine.shared.completionBacklog ++ [completion]) :
    ({ machine with executing := machine.executing.eraseIdx index }.completed
      { shared with completionBacklog } completion retire released).Orderly := by
  have hcompletion := h.toOperable.wellFormed hinv hledger hindex hfinish
  refine ⟨h.toOperable.published hinv hledger hindex hfinish, ?_, ?_⟩
  · intro other hother
    rcases hbacklog with rfl | rfl
    · exact h.backlog other hother
    · rcases List.mem_append.mp hother with hother | hother
      · exact h.backlog other hother
      · rw [List.mem_singleton.mp hother]
        exact hcompletion
  · have hparked := h.parked
    unfold Machine.parked at hparked ⊢
    simp only [Machine.completed]
    rcases hbacklog with rfl | rfl
    · split
      · exact hparked.trans (Multiset.le_cons_self _ _)
      · exact hparked
    · cases hlease : completion.continuation with
      | false => simpa [hlease] using hparked
      | true =>
        simp only [List.filter_append, List.map_append, List.filter_cons_of_pos hlease,
          List.filter_nil, List.map_cons, List.map_nil, if_true]
        refine Multiset.coe_le.mpr ?_
        refine (List.perm_append_singleton _ _).subperm.trans ?_
        exact (List.subperm_cons _).mpr (Multiset.coe_le.mp hparked)

end Attempt

/-- A thread takes the next ready operation. -/
theorem Operable.prepared (h : machine.Operable) (hinv : Inv C machine) {slot : ℕ} {ready : List ℕ}
    {entry : OpEntry} (hholds : machine.shared.Holds (machine.shared.token slot) entry)
    (hqueued : entry.state = .queued) :
    Operable { machine with
      shared := { machine.shared.replaced (machine.shared.token slot) { entry with
          state := .active
          frame := if entry.kind = .read then none else entry.frame } with ready }
      executing := (machine.shared.token slot, if entry.kind = .read then entry.frame else none) ::
        machine.executing } := by
  have hentry := h.queued _ entry hholds hqueued
  refine ⟨h.outstanding, h.cqes, ?_, ?_, ?_⟩
  · intro other found hfound hstate
    rcases Shared.Holds.of_replaced hfound with ⟨-, rfl⟩ | ⟨-, hfound⟩
    · cases hstate
    · exact h.queued other found hfound hstate
  · intro other destination found hmem hfound
    rcases List.mem_cons.mp hmem with hhead | hmem
    · obtain ⟨rfl, rfl⟩ := Prod.mk.inj hhead
      obtain ⟨-, rfl⟩ | ⟨hne, -⟩ := Shared.Holds.of_replaced hfound
      · exact hentry.start
      · exact absurd rfl hne
    · obtain ⟨index, hindex⟩ := List.mem_iff_getElem?.mp hmem
      obtain ⟨old, hold, hactive⟩ := DriverInv.of_executing hinv hindex
      rcases Shared.Holds.of_replaced hfound with ⟨rfl, -⟩ | ⟨-, hfound⟩
      · rw [hholds.unique hold, hactive] at hqueued
        cases hqueued
      · exact h.executing other destination found hmem hfound
  · intro other found hfound hstate
    rcases Shared.Holds.of_replaced hfound with ⟨-, rfl⟩ | ⟨-, hfound⟩
    · cases hstate
    · exact h.suspended other found hfound hstate

theorem Orderly.parked_erase (h : machine.Orderly) {token : OpToken}
    (hparked : token ∉ machine.parked) :
    (machine.parked : Multiset OpToken) ≤ (machine.leases.erase token : List OpToken) := by
  rw [← Multiset.coe_erase, ← Multiset.le_cons_of_notMem hparked]
  exact h.parked.trans (Multiset.le_cons_erase _ _)

/-- The owner of a lease continues its read. -/
theorem Operable.continued (h : machine.Operable) (hinv : Inv C machine) (hledger : machine.Ledger)
    {token : OpToken} {vector : ReadVector} {shared : Shared} {leases : List OpToken}
    {given : List (OpToken × ℕ)} (hvector : vector.WellFormed)
    (hcontinue : machine.shared.continueReadVector C token vector = .ok (.ok token, shared)) :
    Operable { machine with shared, leases, given } := by
  obtain ⟨-, entry, hholds, hstate, hoperation, hrequested, -, -, rfl⟩ :=
    Shared.continueReadVector_eq_ok hcontinue
  have hleased : entry.state.isLeased := by simp [hstate]
  have hread := ((hledger.sound token.slot entry hholds.payload).leased hleased).1
  refine ⟨h.outstanding, h.cqes, ?_, ?_, ?_⟩
  · intro other found hfound hqueued
    rcases Shared.Holds.of_replaced hfound with ⟨rfl, rfl⟩ | ⟨-, hfound⟩
    · refine ⟨by simp [hread], by simp [hread], fun _ ↦ hread, ?_⟩
      rintro _ ⟨⟩
      exact ⟨⟨hvector.granule, hvector.total, hvector.ordinal, hvector.filled⟩, hoperation,
        hrequested, h.suspended other entry hholds hstate⟩
    · exact h.queued other found hfound hqueued
  · intro other destination found hexecuting hfound
    rcases Shared.Holds.of_replaced hfound with ⟨rfl, -⟩ | ⟨-, hfound⟩
    · obtain ⟨index, hindex⟩ := List.mem_iff_getElem?.mp hexecuting
      obtain ⟨old, hold, hactive⟩ := DriverInv.of_executing hinv hindex
      rw [hholds.unique hold, hactive] at hstate
      cases hstate
    · exact h.executing other destination found hexecuting hfound
  · intro other found hfound hcontinuation
    rcases Shared.Holds.of_replaced hfound with ⟨-, rfl⟩ | ⟨-, hfound⟩
    · cases hcontinuation
    · exact h.suspended other found hfound hcontinuation

/-- An operation gives its slot back. -/
theorem Operable.vacated (h : machine.Operable) {token : OpToken} {entry : OpEntry}
    {deferred : List DeferredCompletion} {leases departed : List OpToken} :
    Operable { machine with
      shared := { machine.shared.vacated token entry with deferred }
      leases
      departed } := by
  refine ⟨h.outstanding, h.cqes, ?_, ?_, ?_⟩
  · intro other found hfound
    exact h.queued other found (Shared.Holds.of_vacated entry hfound).2
  · intro other destination found hexecuting hfound
    exact h.executing other destination found hexecuting (Shared.Holds.of_vacated entry hfound).2
  · intro other found hfound
    exact h.suspended other found (Shared.Holds.of_vacated entry hfound).2

/-- The slab, the queues, the ledger and the files of a machine are in order. -/
structure Sound (C : Config) (machine : Machine) : Prop where
  inv : Inv C machine
  ledger : machine.Ledger
  histories : Histories C machine

theorem Sound.new (C : Config) : Sound C (Machine.new C) :=
  ⟨Inv.new C, Ledger.new C, Histories.new C⟩

theorem Sound.next (h : Sound C machine) {event : DriverEvent}
    (hnext : machine.next C event = .ok after) : Sound C after := by
  rcases next_eq_ok h.inv hnext with rfl | heffect
  · exact h
  · exact ⟨heffect.inv h.inv, heffect.ledger h.inv h.ledger, heffect.histories h.inv h.histories⟩

theorem Orderly.next (h : machine.Orderly) (hsound : Sound C machine) {event : DriverEvent}
    (hpermitted : machine.Permitted event) (hnext : machine.next C event = .ok after) :
    after.Orderly := by
  have hinv := hsound.inv
  cases event with
  | openFile =>
    simp only [Machine.next] at hnext
    split at hnext
    · rename_i id shared hopen
      cases hnext
      obtain ⟨-, -, -, rfl⟩ := Shared.openFile_eq_some hopen
      exact h.congr (h.toOperable.congr rfl rfl rfl rfl) rfl rfl
    · rename_i shared hopen
      cases hnext
      rw [Shared.openFile_eq_none hopen]
      exact h
  | abortFile id =>
    simp only [Machine.next, bind_eq_ok, pure_ok, Except.ok.injEq] at hnext
    obtain ⟨shared, habort, rfl⟩ := hnext
    obtain ⟨-, -, -, -, rfl⟩ := Shared.abortFile_eq_ok habort
    exact h.congr (h.toOperable.congr rfl rfl rfl rfl) rfl rfl
  | submitRead lease fd frame fileOffset destinationOffset requestedLen =>
    simp only [Machine.next, bind_eq_ok] at hnext
    obtain ⟨⟨outcome, shared⟩, hsubmit, hnext⟩ := hnext
    have hstep := Shared.submitRead_eq_ok hsubmit
    cases outcome with
    | ok token =>
      cases hnext
      refine h.submitted hstep.2 rfl ⟨?_, ?_, ?_, ?_⟩ hinv <;> simp [Shared.pointEntry]
    | error refusal =>
      cases hnext
      rw [hstep.1]
      exact h
  | submitReadVector lease fd vector offset =>
    simp only [Machine.next, bind_eq_ok] at hnext
    obtain ⟨⟨outcome, shared⟩, hsubmit, hnext⟩ := hnext
    have hstep := Shared.submitReadVector_eq_ok hsubmit
    have hrange := Shared.submitReadVector_range hsubmit
    cases outcome with
    | ok token =>
      cases hnext
      refine h.submitted hstep.2.2 rfl ⟨by simp [Shared.vectorEntry, OpEntry.ofVector],
        by simp [Shared.vectorEntry, OpEntry.ofVector], fun _ ↦ rfl, ?_⟩ hinv
      rintro _ ⟨⟩
      exact ⟨⟨hpermitted.granule, hpermitted.total, hpermitted.ordinal, hpermitted.filled⟩, rfl, rfl,
        hrange⟩
    | error refusal =>
      cases hnext
      rw [hstep.2.1]
      exact h
  | submitWrite fd writeSlot len offset =>
    simp only [Machine.next, bind_eq_ok] at hnext
    obtain ⟨⟨outcome, shared⟩, hsubmit, hnext⟩ := hnext
    have hstep := Shared.submitWrite_eq_ok hsubmit
    cases outcome with
    | ok token =>
      cases hnext
      refine h.submitted hstep rfl ⟨?_, ?_, ?_, ?_⟩ hinv <;> simp [Shared.writeEntry]
    | error refusal =>
      cases hnext
      rw [hstep.1]
      exact h
  | submitFsync fd mode =>
    simp only [Machine.next, bind_eq_ok] at hnext
    obtain ⟨⟨outcome, shared⟩, hsubmit, hnext⟩ := hnext
    have hstep := Shared.submitFsync_eq_ok hsubmit
    cases outcome with
    | ok token =>
      cases hnext
      refine h.submitted hstep rfl ⟨?_, ?_, ?_, ?_⟩ hinv <;> simp [Shared.fsyncEntry]
    | error refusal =>
      cases hnext
      rw [hstep.1]
      exact h
  | continueVector token vector =>
    simp only [Machine.next] at hnext
    split at hnext
    · rename_i hmem
      simp only [bind_eq_ok] at hnext
      obtain ⟨⟨outcome, shared⟩, hcontinue, hnext⟩ := hnext
      cases outcome with
      | ok resubmitted =>
        cases hnext
        obtain ⟨rfl, -⟩ := Shared.continueReadVector_eq_ok hcontinue
        obtain ⟨-, _, _, _, _, _, _, _, rfl⟩ := Shared.continueReadVector_eq_ok hcontinue
        exact ⟨h.toOperable.continued hinv hsound.ledger hpermitted.1 hcontinue, h.backlog,
          h.parked_erase hpermitted.2⟩
      | error returned =>
        cases hnext
        rw [(Shared.continueReadVector_eq_error hcontinue).2]
        exact h
    · cases hnext
      exact h
  | dropLease token =>
    simp only [Machine.next] at hnext
    split at hnext
    · rename_i hmem
      simp only [bind_eq_ok, pure_ok, Except.ok.injEq] at hnext
      obtain ⟨⟨_, shared⟩, hrelease, rfl⟩ := hnext
      obtain ⟨entry, retire, outcome, -, -, -, -, rfl⟩ :=
        Shared.releaseReadLease_eq_ok (DriverInv.contains_of_mem_leases hinv hmem) hrelease
      exact ⟨h.toOperable.vacated, h.backlog, h.parked_erase hpermitted⟩
    · cases hnext
      exact h
  | flush =>
    simp only [Machine.next, bind_eq_ok, pure_ok, Except.ok.injEq] at hnext
    obtain ⟨⟨completion, shared⟩, hpop, rfl⟩ := hnext
    unfold Shared.popDeferred at hpop
    split at hpop
    · cases hpop
      exact h.congr (h.toOperable.congr rfl rfl rfl rfl) rfl rfl
    · cases hpop
      exact h.congr (h.toOperable.congr rfl rfl rfl rfl) rfl rfl
  | close id =>
    simp only [Machine.next, bind_eq_ok, ensure_eq_ok, pure_ok, Except.ok.injEq] at hnext
    obtain ⟨_, _, ⟨due, shared⟩, hclose, rfl⟩ := hnext
    obtain ⟨-, -, -, rfl⟩ := Shared.closeFile_eq_ok hclose
    exact h.congr (h.toOperable.congr rfl rfl rfl rfl) rfl rfl
  | retire index =>
    simp only [Machine.next] at hnext
    split at hnext
    · cases hnext
      exact h.congr (h.toOperable.congr rfl rfl rfl rfl) rfl rfl
    · cases hnext
      exact h
  | finishRetire index =>
    simp only [Machine.next] at hnext
    split at hnext
    · simp only [bind_eq_ok, pure_ok, Except.ok.injEq] at hnext
      obtain ⟨shared, hfinish, rfl⟩ := hnext
      obtain ⟨-, -, rfl⟩ := Shared.finishRetire_eq_ok hfinish
      exact h.congr (h.toOperable.congr rfl rfl rfl rfl) rfl rfl
    · cases hnext
      exact h
  | fill => exact hpermitted.elim
  | complete token result => exact hpermitted.elim
  | reap => exact hpermitted.elim
  | prepare =>
    simp only [Machine.next, bind_eq_ok, pure_ok, Except.ok.injEq] at hnext
    obtain ⟨⟨prepared, shared⟩, hprepare, rfl⟩ := hnext
    obtain ⟨rfl, rfl⟩ | ⟨slot, ready, entry, -, hholds, hqueued, rfl, rfl⟩ :=
      Shared.prepareNext_eq_ok hprepare
    · exact h
    · exact h.congr (h.toOperable.prepared hinv hholds hqueued) rfl rfl
  | publish index result =>
    simp only [Machine.next] at hnext
    split at hnext
    · rename_i token destination hindex
      simp only [bind_eq_ok, pure_ok, Except.ok.injEq] at hnext
      obtain ⟨⟨completion, retire, released, shared⟩, hfinish, rfl⟩ := hnext
      obtain ⟨entry, hholds, -⟩ := hinv.of_executing hindex
      have hqueues := (Shared.finishAttempt_eq_ok hholds hfinish).2.queues
      exact h.published hinv hsound.ledger hindex hfinish (.inl hqueues.2.1)
    · cases hnext
      exact h
  | publishToBacklog index result =>
    simp only [Machine.next] at hnext
    split at hnext
    · rename_i token destination hindex
      simp only [bind_eq_ok, pure_ok, Except.ok.injEq] at hnext
      obtain ⟨⟨completion, retire, released, shared⟩, hfinish, _, _, rfl⟩ := hnext
      obtain ⟨entry, hholds, -⟩ := hinv.of_executing hindex
      have hqueues := (Shared.finishAttempt_eq_ok hholds hfinish).2.queues
      refine h.published hinv hsound.ledger hindex hfinish (.inr ?_)
      rw [hqueues.2.1]
    · cases hnext
      exact h
  | drainBacklog =>
    simp only [Machine.next, bind_eq_ok, pure_ok, Except.ok.injEq] at hnext
    obtain ⟨⟨completion, shared⟩, hpop, rfl⟩ := hnext
    unfold Shared.popBacklog at hpop
    split at hpop
    · cases hpop
      exact h
    · rename_i head rest hbacklog
      cases hpop
      refine ⟨h.toOperable.congr rfl rfl rfl rfl, ?_, ?_⟩
      · intro other hother
        exact h.backlog other (hbacklog ▸ List.mem_cons_of_mem _ hother)
      · refine le_trans ?_ h.parked
        unfold Machine.parked
        rw [hbacklog]
        exact Multiset.coe_le.mpr
          (((List.sublist_cons_self head rest).filter _).map _).subperm

theorem EagerReach.sound (h : EagerReach C machine) : Sound C machine ∧ machine.Orderly := by
  induction h with
  | new => exact ⟨Sound.new C, Orderly.new C⟩
  | next hreach hpermitted hnext ih => exact ⟨ih.1.next hnext, ih.2.next ih.1 hpermitted hnext⟩

end Machine

end DiosPool.Driver
