import DiosPool.Driver.Quiesce

/-!
# The steps of the teardown

While the core is drained no thread is inside it and nothing is submitted, so an operation that is
gone stays gone. Leases can always be given up, a ready operation can always be executed and
published, and a read that was short has fewer bytes left than before.
-/

namespace DiosPool.Driver

open Foundation

/-- The bytes that the attempts of an operation may still have to move, and one more for its last
attempt. -/
def OpEntry.work (entry : OpEntry) : ℕ :=
  match entry.state with
  | .terminal _ => 0
  | _ => entry.requestedLen + 1

namespace Machine

variable {C : Config} {machine middle after : Machine} {token : OpToken} {entry : OpEntry}

/-- A core that no thread is in. -/
structure Still (C : Config) (machine : Machine) : Prop where
  sound : Sound C machine
  operable : machine.Operable
  executing : machine.executing = []
  duties : machine.duties = []
  finishing : machine.finishing = []

/-- What is left to do. -/
def work (C : Config) (machine : Machine) : ℕ :=
  ∑ slot ∈ Finset.range C.queueCapacity, (machine.shared.slots slot).weight OpEntry.work

/-- Nothing happens to operations, except that leases are given up. -/
structure Recedes (machine after : Machine) : Prop where
  ready : after.shared.ready = machine.shared.ready
  backlog : after.shared.completionBacklog = machine.shared.completionBacklog
  accepted : after.accepted = machine.accepted
  given : after.given = machine.given
  handed : after.handed = machine.handed
  departed : machine.departed ⊆ after.departed
  holds : ∀ token entry, after.shared.Holds token entry → machine.shared.Holds token entry
  kept : ∀ token entry, machine.shared.Holds token entry → ¬ entry.state.isLeased →
    after.shared.Holds token entry
  leases : ∀ token ∈ machine.leases, token ∈ after.leases ∨ token ∈ after.departed

namespace Recedes

theorem refl (machine : Machine) : machine.Recedes machine :=
  ⟨rfl, rfl, rfl, rfl, rfl, fun _ h ↦ h, fun _ _ h ↦ h, fun _ _ h _ ↦ h, fun _ h ↦ .inl h⟩

theorem trans (hfirst : machine.Recedes middle) (hsecond : middle.Recedes after) :
    machine.Recedes after where
  ready := hsecond.ready.trans hfirst.ready
  backlog := hsecond.backlog.trans hfirst.backlog
  accepted := hsecond.accepted.trans hfirst.accepted
  given := hsecond.given.trans hfirst.given
  handed := hsecond.handed.trans hfirst.handed
  departed := fun _ h ↦ hsecond.departed (hfirst.departed h)
  holds := fun token entry h ↦ hfirst.holds token entry (hsecond.holds token entry h)
  kept := fun token entry h hlease ↦
    hsecond.kept token entry (hfirst.kept token entry h hlease) hlease
  leases := by
    intro token hmem
    rcases hfirst.leases token hmem with hmem | hmem
    · exact hsecond.leases token hmem
    · exact .inr (hsecond.departed hmem)

/-- Leases that are given up leave no work. -/
theorem work_le (h : machine.Recedes after) : after.work C ≤ machine.work C := by
  refine Finset.sum_le_sum fun slot _ ↦ ?_
  cases hentry : (after.shared.slots slot).payload with
  | none => simp [SlabSlot.weight, hentry]
  | some entry =>
    have hholds : after.shared.Holds (after.shared.token slot) entry := by
      unfold Shared.Holds Shared.token
      rw [← hentry]
    have hpayload := (h.holds _ entry hholds).payload
    simp only [Shared.token] at hpayload
    simp [SlabSlot.weight, hentry, hpayload]

end Recedes

/-! ## Files -/

/-- A file that is due is retired at once. -/
theorem retireDue_ok (hsound : Sound C machine) (hduties : machine.duties.length ≤ 1)
    (hfinishing : machine.finishing = []) :
    ∃ files retirements after, machine.retireDue C = .ok after ∧ Sound C after ∧
      after = { machine with
        shared := { machine.shared with files }
        duties := []
        finishing := []
        retirements } := by
  cases hduty : machine.duties with
  | nil =>
    refine ⟨machine.shared.files, machine.retirements, machine, ?_, hsound, ?_⟩
    · simp [retireDue, Machine.next, hduty, hfinishing]
    · cases machine
      subst hduty hfinishing
      rfl
  | cons id rest =>
    obtain rfl : rest = [] := by
      rw [hduty] at hduties
      exact List.length_eq_zero_iff.mp (by simpa using hduties)
    have hretire : machine.next C (.retire 0) = .ok { machine with
        duties := []
        finishing := [id]
        retirements := id :: machine.retirements } := by
      simp [Machine.next, hduty, hfinishing]
    have hretired := hsound.next hretire
    obtain ⟨after, hfinish⟩ := (hretired.histories.retiresOnce hretired.inv).finishes 0
    refine ⟨after.shared.files, id :: machine.retirements, after, ?_, hretired.next hfinish, ?_⟩
    · simp only [retireDue, hretire, ok_bind, hfinish]
    · simp only [Machine.next, List.getElem?_cons_zero, bind_eq_ok, pure_ok, Except.ok.injEq,
        List.eraseIdx_cons_zero] at hfinish
      obtain ⟨shared, hshared, rfl⟩ := hfinish
      obtain ⟨-, -, rfl⟩ := Shared.finishRetire_eq_ok hshared
      rfl

theorem Still.flushDeferred (h : Still C machine) (turns : ℕ) :
    ∃ after, machine.flushDeferred C turns = .ok after ∧ Still C after ∧ machine.Recedes after ∧
      after.leases = machine.leases ∧ after.shared.slots = machine.shared.slots := by
  induction turns generalizing machine with
  | zero => exact ⟨machine, rfl, h, .refl machine, rfl, rfl⟩
  | succ turns ih =>
    unfold Machine.flushDeferred
    cases hdeferred : machine.shared.deferred with
    | nil => exact ⟨machine, rfl, h, .refl machine, rfl, rfl⟩
    | cons completion deferred =>
      have hflush : machine.next C .flush = .ok { machine with
          shared := { machine.shared with deferred }
          duties := (if completion.retire then some completion.fd else none).toList } := by
        simp [Machine.next, Shared.popDeferred, hdeferred, h.duties]
      have hduties : (if completion.retire then some completion.fd else none).toList.length ≤ 1 := by
        split <;> simp
      obtain ⟨files, retirements, retired, hretire, hsound, rfl⟩ :=
        retireDue_ok (h.sound.next hflush) hduties h.finishing
      obtain ⟨after, hafter, hstill, hrecedes, hleases, hslots⟩ :=
        ih ⟨hsound, h.operable.congr rfl rfl rfl rfl, h.executing, rfl, rfl⟩
      refine ⟨after, ?_, hstill, ?_, hleases, hslots⟩
      · simp only [List.isEmpty_cons, Bool.false_eq_true, if_false, hflush, ok_bind, hretire]
        exact hafter
      · refine Recedes.trans ?_ hrecedes
        exact ⟨rfl, rfl, rfl, rfl, rfl, fun _ h ↦ h, fun _ _ h ↦ h, fun _ _ h _ ↦ h,
          fun _ h ↦ .inl h⟩

/-! ## Leases -/

/-- An operation is counted. -/
theorem Inv.inflight_pos (h : Inv C machine) (hholds : machine.shared.Holds token entry) :
    0 < (machine.shared.files entry.fd.slot).inflight ∧ 0 < machine.shared.totalInflight C := by
  have hvacated := DriverInv.totalInflight_update h hholds.payload
  refine ⟨?_, by omega⟩
  by_contra hzero
  exact h.files.no_entry h.slab.beyond (by omega) _ _ hholds.payload rfl

/-- A lease can always be given up. -/
theorem Still.releaseReadLease (h : Still C machine) (hmem : token ∈ machine.leases) :
    ∃ entry deferred after, machine.releaseReadLease C token = .ok after ∧ Still C after ∧
      machine.shared.Holds token entry ∧ entry.state.isLeased ∧
      after = { machine with
        shared := { machine.shared.vacated token entry with deferred }
        leases := machine.leases.erase token
        departed := token :: machine.departed } := by
  obtain ⟨entry, hentry, hleased⟩ := h.sound.inv.slab.of_mem_leases hmem
  replace hentry : machine.shared.Holds token entry := hentry
  have hcontains := DriverInv.contains_of_mem_leases h.sound.inv hmem
  obtain ⟨hinflight, htotal⟩ := h.sound.inv.inflight_pos hentry
  obtain ⟨outcome, houtcome⟩ : ∃ outcome, Shared.leaseOutcome entry = .ok outcome := by
    unfold Shared.leaseOutcome
    cases hstate : entry.state <;> simp_all
  have hframe := ((h.sound.ledger.sound token.slot entry hentry.payload).leased hleased).2
  have hroom : machine.shared.deferred.length < C.queueCapacity := by
    have hbound := h.sound.inv.bound
    omega
  obtain ⟨shared, hrelease⟩ : ∃ shared,
      machine.shared.releaseReadLease C token = .ok ((), shared) := by
    simp only [Shared.releaseReadLease, hcontains, if_true, Shared.reclaim, hentry.payload,
      expect_some, ok_bind, houtcome, hframe, Option.isNone_none, ensure_true, Shared.onComplete,
      Shared.setPayload, subtract_of_le hinflight, pure_ok, Shared.setFile, hroom]
    exact ⟨_, rfl⟩
  have hnext : machine.next C (.dropLease token) = .ok { machine with
      shared
      leases := machine.leases.erase token
      departed := token :: machine.departed } := by
    simp only [Machine.next, if_pos hmem, hrelease, ok_bind, pure_ok]
  have hsound := h.sound.next hnext
  obtain ⟨found, retire, result, hfound, -, -, -, rfl⟩ :=
    Shared.releaseReadLease_eq_ok hcontains hrelease
  obtain rfl := hentry.unique hfound
  refine ⟨entry, _, _, ?_, ⟨hsound, h.operable.vacated, h.executing, h.duties, h.finishing⟩, hentry,
    hleased, rfl⟩
  simp only [Machine.releaseReadLease, hrelease, ok_bind, pure_ok]

theorem Recedes.of_vacated (deferred : List DeferredCompletion)
    (hholds : machine.shared.Holds token entry) (hleased : entry.state.isLeased) :
    machine.Recedes { machine with
      shared := { machine.shared.vacated token entry with deferred }
      leases := machine.leases.erase token
      departed := token :: machine.departed } where
  ready := rfl
  backlog := rfl
  accepted := rfl
  given := rfl
  handed := rfl
  departed := List.subset_cons_self _ _
  holds := fun other found h ↦ (Shared.Holds.of_vacated entry h).2
  kept := by
    intro other found hfound hkept
    have hslot : other.slot ≠ token.slot := by
      intro hslot
      have hpayload := hfound.payload
      rw [hslot, hholds.payload] at hpayload
      cases hpayload
      exact hkept hleased
    simp only [Shared.Holds, Shared.vacated, Function.update_of_ne hslot]
    exact hfound
  leases := by
    intro other hmem
    by_cases hother : other = token
    · exact .inr (hother ▸ List.mem_cons_self)
    · exact .inl ((List.mem_erase_of_ne hother).mpr hmem)

/-- A leased slot has its lease somewhere. -/
theorem Inv.mem_leases (h : Inv C machine) (hholds : machine.shared.Holds token entry)
    (hleased : entry.state.isLeased) : token ∈ machine.leases := by
  have hcount := h.slab.leases token
  unfold Shared.Holds at hholds
  rw [hholds, SlabSlot.countOf_some, if_pos ⟨rfl, hleased⟩] at hcount
  exact Multiset.count_pos.mp (hcount ▸ Nat.one_pos)

/-- The slots that were looked at hold no leases. -/
theorem Still.abandonSlots (h : Still C machine) (slots : List ℕ) :
    ∃ after, abandonSlots C slots machine = .ok after ∧ Still C after ∧ machine.Recedes after ∧
      ∀ token ∈ after.leases, token ∈ machine.leases ∧ token.slot ∉ slots := by
  induction slots generalizing machine with
  | nil => exact ⟨machine, rfl, h, .refl machine, fun token hmem ↦ ⟨hmem, List.not_mem_nil⟩⟩
  | cons slot slots ih =>
    unfold Machine.abandonSlots
    split
    · rename_i hany
      obtain ⟨entry, hentry, hleased⟩ := (Option.any_eq_true _ _).mp hany
      have hholds : machine.shared.Holds (machine.shared.token slot) entry := by
        unfold Shared.Holds Shared.token
        rw [← hentry]
      obtain ⟨found, deferred, released, hrelease, hreleased, hfound, hstate, rfl⟩ :=
        h.releaseReadLease (h.sound.inv.mem_leases hholds hleased)
      obtain ⟨after, hafter, hstill, hrecedes, hleases⟩ := ih hreleased
      refine ⟨after, ?_, hstill, (Recedes.of_vacated deferred hfound hstate).trans hrecedes, ?_⟩
      · simp only [hrelease, ok_bind, hafter]
      · intro token hmem
        obtain ⟨hold, hslots⟩ := hleases token hmem
        refine ⟨List.mem_of_mem_erase hold, ?_⟩
        rw [List.mem_cons, not_or]
        refine ⟨?_, hslots⟩
        rintro rfl
        -- the slot is free now
        obtain ⟨left, hleft, -⟩ := hreleased.sound.inv.slab.of_mem_leases hold
        simp [Shared.vacated, Shared.token] at hleft
    · rename_i hany
      obtain ⟨after, hafter, hstill, hrecedes, hleases⟩ := ih h
      refine ⟨after, hafter, hstill, hrecedes, fun token hmem ↦ ?_⟩
      obtain ⟨hold, hslots⟩ := hleases token hmem
      refine ⟨hold, ?_⟩
      rw [List.mem_cons, not_or]
      refine ⟨?_, hslots⟩
      rintro rfl
      obtain ⟨entry, hentry, hleased⟩ := h.sound.inv.slab.of_mem_leases hold
      simp [hentry, hleased] at hany

theorem Still.abandonHeldContinuations (h : Still C machine) :
    ∃ after, machine.abandonHeldContinuations C = .ok after ∧ Still C after ∧
      machine.Recedes after ∧ after.leases = [] := by
  obtain ⟨middle, habandon, hmiddle, hfirst, hleases⟩ :=
    h.abandonSlots (List.range C.queueCapacity)
  obtain ⟨after, hflush, hstill, hsecond, hsame, -⟩ := hmiddle.flushDeferred C.queueCapacity
  refine ⟨after, ?_, hstill, hfirst.trans hsecond, ?_⟩
  · simp only [Machine.abandonHeldContinuations, habandon, ok_bind, hflush]
  · rw [hsame]
    refine List.eq_nil_iff_forall_not_mem.mpr fun token hmem ↦ ?_
    obtain ⟨entry, hentry, -⟩ := hmiddle.sound.inv.slab.of_mem_leases hmem
    have hpayload : (middle.shared.slots token.slot).payload = some entry := by rw [hentry]
    have hslot := hmiddle.sound.inv.slab.lt_of_payload hpayload
    exact (hleases token hmem).2 (List.mem_range.mpr hslot)

end Machine

/-! ## Attempts -/

section Attempts

variable {token : OpToken} {entry : OpEntry}

/-- A prepared operation runs to its end. A read reports no more bytes than it asked for. -/
theorem OpEntry.Prepared.execute (h : entry.Prepared token entry.frame) (C : Config)
    (arena : ℕ → ℕ → UInt8) (executor : BlockingExecutor) (index : ℕ) :
    ∃ context transfers result, OpContext.ofEntry arena entry = .ok context ∧
      context.frame = (if entry.kind = .read then entry.frame else none) ∧
      Driver.execute C executor.toDevice index entry.kind context =
        .ok (transfers, some result) ∧
      (entry.kind = .read → transferred result ≤ entry.requestedLen) := by
  obtain ⟨context, hcontext, hframe, hlength⟩ : ∃ context,
      OpContext.ofEntry arena entry = .ok context ∧
      context.frame = (if entry.kind = .read then entry.frame else none) ∧
      (entry.kind = .read → context.requestedLen = entry.requestedLen) := by
    cases hkind : entry.kind with
    | read =>
      obtain ⟨frame, hframe⟩ := Option.isSome_iff_exists.mp (h.read.mp hkind)
      simp [OpContext.ofEntry, hkind, hframe, OpContext.read]
    | write =>
      obtain ⟨slot, hslot⟩ := Option.isSome_iff_exists.mp (h.write hkind)
      simp [OpContext.ofEntry, hkind, hslot, OpContext.write]
    | fsync => simp [OpContext.ofEntry, hkind, OpContext.fsync]
  -- a read never moves its context
  obtain ⟨transfers, result, hrun, hresult⟩ : ∃ transfers result,
      Driver.execute C executor.toDevice index entry.kind context = .ok (transfers, some result) ∧
        (entry.kind = .read → transferred result ≤ context.requestedLen) := by
    refine Resumable.run_lasts
      (P := fun state ↦ entry.kind = .read → state.1.requestedLen = context.requestedLen)
      executor.lasts ?_ fun _ ↦ rfl
    intro state hstate index answer hanswer
    obtain ⟨outcome, houtcome⟩ := executeTurn_of_fits C entry.kind context.requestedLen state.1
      state.2 (executor.fits hanswer)
    refine ⟨outcome, houtcome, ?_, ?_⟩
    · rintro next rfl hread
      cases executeTurn_eq_ok houtcome with
      | short bytes hkind => simp [hread] at hkind
      | again hkind hpos hretries => exact hstate hread
      | retry errno htransient hretries => exact hstate hread
    · rintro result rfl hread
      cases executeTurn_eq_ok houtcome with
      | finish bytes hfits hkind => exact hfits.trans (hstate hread).le
      | written hkind => simp [hread] at hkind
      | stuck hkind hpos hretries => simp [hread] at hkind
      | fail errno hfinal => exact Nat.zero_le _
  refine ⟨context, transfers, result, hcontext, hframe, hrun, fun hread ↦ ?_⟩
  rw [← hlength hread]
  exact hresult hread

namespace Shared

variable {shared : Shared}

/-- The next ready operation can be taken. -/
theorem prepareNext_of_prepared {slot : ℕ} {ready : List ℕ} (hready : shared.ready = slot :: ready)
    (hholds : shared.Holds (shared.token slot) entry) (hqueued : entry.state = .queued)
    (h : entry.Prepared (shared.token slot) entry.frame) :
    shared.prepareNext =
      .ok (some (shared.token slot, if entry.kind = .read then entry.frame else none),
        { shared.replaced (shared.token slot) { entry with
            state := .active
            frame := if entry.kind = .read then none else entry.frame } with ready }) := by
  have hpeek : shared.peek slot = .ok entry := by
    have hpayload := hholds.payload
    simp only [token] at hpayload
    simp only [peek, hpayload, expect_some]
  simp only [prepareNext, hready, hpeek, ok_bind, ensure_true hqueued]
  cases hkind : entry.kind with
  | read =>
    obtain ⟨frame, hframe⟩ := Option.isSome_iff_exists.mp (h.read.mp hkind)
    simp [hframe, setPayload, replaced, token]
  | write =>
    obtain ⟨writeSlot, hslot⟩ := Option.isSome_iff_exists.mp (h.write hkind)
    simp [hslot, setPayload, replaced, token]
  | fsync => simp [setPayload, replaced, token]

/-- The slot of an operation can be given back. -/
theorem finishReclaim_of_inflight {result : IoResult} {destination : Option ReadDestination}
    (hholds : shared.Holds token entry)
    (hinflight : 0 < (shared.files entry.fd.slot).inflight)
    (hraw : entry.frameLease = .raw → destination.isSome) :
    ∃ completion retire released after, shared.finishReclaim token.slot token result destination =
      .ok (completion, retire, released, after) := by
  obtain ⟨frame, frames, hrelease⟩ : ∃ frame frames,
      releaseFrame entry.frameLease destination = .ok (frame, frames) := by
    cases hlease : entry.frameLease with
    | raw =>
      obtain ⟨frame, rfl⟩ := Option.isSome_iff_exists.mp (hraw hlease)
      simp [releaseFrame]
    | absent => simp [releaseFrame]
    | pool => simp [releaseFrame]
  simp only [finishReclaim, reclaim, hholds.payload, expect_some, ok_bind, pure_ok, onComplete,
    setPayload, subtract_of_le hinflight, setFile, hrelease]
  exact ⟨_, _, _, _, rfl⟩

/-- The end of an attempt fails no assertion. -/
theorem finishAttempt_of_prepared {result : IoResult} {destination : Option ReadDestination}
    (hholds : shared.Holds token entry) (hactive : entry.state = .active)
    (hinflight : 0 < (shared.files entry.fd.slot).inflight)
    (h : entry.Prepared token destination) (hheld : destination.or entry.frame = destination)
    (hfits : entry.kind = .read → transferred result ≤ entry.requestedLen) :
    ∃ completion retire released after, shared.finishAttempt token.slot result destination =
      .ok (completion, retire, released, after) := by
  have htoken : shared.token token.slot = token := by
    unfold Shared.token
    rw [hholds]
  have hraw (hlease : entry.frameLease = .raw) : destination.isSome :=
    h.read.mp (h.lease hlease)
  simp only [finishAttempt, peek, hholds.payload, htoken, expect_some, ok_bind,
    ensure_true hactive, hheld]
  split
  · rename_i vector
    have hreads := h.vector vector rfl
    have hbytes := hfits (h.read.mpr rfl)
    have hremaining : transferred result ≤ vector.remaining := hreads.requested ▸ hbytes
    have hrange : entry.fileOffset + transferred result < 2 ^ 64 := by
      have := hreads.range
      omega
    simp only [OpEntry.finishVector, ensure_true hbytes, ReadVector.recordCompletion,
      ensure_true hremaining, ok_bind, pure_ok]
    split
    · simp only [ensure_true hrange, ok_bind]
      exact ⟨_, _, _, _, rfl⟩
    · split
      · exact ⟨_, _, _, _, rfl⟩
      · exact finishReclaim_of_inflight hholds hinflight fun _ ↦ rfl
  · exact finishReclaim_of_inflight hholds hinflight hraw

end Shared

end Attempts

/-! ## Completions -/

/-- The leases among completions. -/
def leasesOf (completions : List Completion) : List OpToken :=
  (completions.filter Completion.continuation).map Completion.token

/-- The frames of completions. -/
def framesIn (completions : List Completion) : List (OpToken × ℕ) :=
  completions.flatMap fun completion ↦
    tagged completion.token (Shared.framesOf completion.frame)

/-- Whether a completion asks for the rest of its bundle. -/
def Completion.Resumes (completion : Completion) : Prop :=
  completion.continuation ∧ 0 < transferred completion.result ∧
    ∃ vector, completion.frame = some (.vector vector) ∧ 0 < vector.remaining

namespace Machine

variable {C : Config} {machine middle after : Machine} {token : OpToken} {entry : OpEntry}
  {completion : Completion}

/-- A completion that the core can be rid of: its lease is gone and it asks for nothing more, or it
has its lease and the operation waits for the rest of the bundle it asks for. -/
structure Disposable (machine : Machine) (completion : Completion) : Prop where
  wellFormed : completion.WellFormed
  lease : completion.continuation → ∃ vector, completion.frame = some (.vector vector) ∧
    (completion.token ∈ machine.departed ∧ ¬ completion.Resumes ∨
      completion.token ∈ machine.leases ∧ (completion.Resumes →
        vector.operation = some completion.token ∧
          ∃ entry, machine.shared.Holds completion.token entry ∧ entry.state = .continuation ∧
            entry.requestedLen = vector.remaining))

/-- What keeps the completions of other operations disposable. -/
structure Spares (token : OpToken) (machine after : Machine) : Prop where
  departed : machine.departed ⊆ after.departed
  leases : ∀ other ∈ machine.leases, other ≠ token → other ∈ after.leases
  holds : ∀ other entry, other ≠ token → machine.shared.Holds other entry →
    after.shared.Holds other entry

theorem Disposable.spared (h : machine.Disposable completion) (hspares : Spares token machine after)
    (hother : completion.continuation → completion.token ∈ machine.leases →
      completion.token ≠ token) : after.Disposable completion := by
  refine ⟨h.wellFormed, fun hlease ↦ ?_⟩
  obtain ⟨vector, hvector, hgone | ⟨hmem, hresumes⟩⟩ := h.lease hlease
  · exact ⟨vector, hvector, .inl ⟨hspares.departed hgone.1, hgone.2⟩⟩
  · have hne := hother hlease hmem
    refine ⟨vector, hvector, .inr ⟨hspares.leases _ hmem hne, fun hresume ↦ ?_⟩⟩
    obtain ⟨hoperation, entry, hholds, hstate, hrequested⟩ := hresumes hresume
    exact ⟨hoperation, entry, hspares.holds _ entry hne hholds, hstate, hrequested⟩

theorem Disposable.congr (h : machine.Disposable completion)
    (hdeparted : after.departed = machine.departed) (hleases : after.leases = machine.leases)
    (hslots : after.shared.slots = machine.shared.slots) : after.Disposable completion := by
  refine ⟨h.wellFormed, fun hlease ↦ ?_⟩
  unfold Shared.Holds
  rw [hdeparted, hleases, hslots]
  exact h.lease hlease

/-- An operation that has left the slab, or is leased, is not queued. -/
theorem Disposable.ne_queued (h : machine.Disposable completion) (hsound : Sound C machine)
    (hlease : completion.continuation) (hholds : machine.shared.Holds token entry)
    (hqueued : entry.state = .queued) : completion.token ≠ token := by
  rintro rfl
  obtain ⟨vector, -, ⟨hgone, -⟩ | ⟨hmem, -⟩⟩ := h.lease hlease
  · have habsent := (hsound.ledger.accounted hsound.inv).absent _ hgone
    simp [Shared.contains, hholds.payload, hholds.generation] at habsent
  · obtain ⟨found, hfound, hleased⟩ := hsound.inv.slab.of_mem_leases hmem
    obtain rfl := hholds.unique hfound
    simp [hqueued] at hleased

/-- What the end of one attempt changes. -/
structure Publishes (C : Config) (machine after : Machine) (completion : Completion) : Prop where
  backlog : after.shared.completionBacklog = machine.shared.completionBacklog
  accepted : after.accepted = machine.accepted
  given : after.given = machine.given
  handed : after.handed = framesIn [completion] ++ machine.handed
  spares : Spares completion.token machine after
  work : after.work C < machine.work C

/-- The work that is left when one slot changes. -/
theorem work_update (hinv : Inv C machine) (hholds : machine.shared.Holds token entry)
    {content : SlabSlot}
    (hslots : after.shared.slots = Function.update machine.shared.slots token.slot content) :
    after.work C + entry.work = machine.work C + content.weight OpEntry.work := by
  have hslot := hinv.slab.lt_of_payload hholds.payload
  have hsum := sum_range_update_add hslot (fun _ content ↦ SlabSlot.weight OpEntry.work content)
    machine.shared.slots content
  have hweight : (machine.shared.slots token.slot).weight OpEntry.work = entry.work := by
    simp [SlabSlot.weight, hholds.payload]
  rw [hweight] at hsum
  unfold work
  rw [hslots]
  exact hsum

theorem work_lt_of_update (hinv : Inv C machine) (hholds : machine.shared.Holds token entry)
    {content : SlabSlot}
    (hslots : after.shared.slots = Function.update machine.shared.slots token.slot content)
    (hless : content.weight OpEntry.work < entry.work) : after.work C < machine.work C := by
  have hwork := work_update hinv hholds hslots
  omega

/-- A read that was short has less to do. -/
theorem suspended_work {vector : ReadVector} {result : IoResult}
    (hactive : entry.state = .active) :
    (Shared.suspended entry vector result).work < entry.work := by
  have hwork : entry.work = entry.requestedLen + 1 := by simp [OpEntry.work, hactive]
  rw [hwork]
  unfold Shared.suspended
  dsimp only
  split
  · simp only [OpEntry.work]
    omega
  · simp [OpEntry.work]

/-- The operation that a resuming completion has left behind. -/
theorem suspended_resumes {vector : ReadVector} {result : IoResult}
    (hreads : entry.Reads token vector) (hbytes : transferred result ≤ entry.requestedLen)
    (hpos : 0 < transferred result)
    (hremaining : 0 < (Shared.advanced vector (transferred result)).remaining) :
    (Shared.suspended entry vector result).state = .continuation ∧
      (Shared.suspended entry vector result).requestedLen =
        (Shared.advanced vector (transferred result)).remaining := by
  have hrequested := hreads.requested
  simp only [Shared.advanced, ReadVector.remaining] at hremaining hrequested ⊢
  have hshort : 0 < transferred result ∧ transferred result < entry.requestedLen := by omega
  unfold Shared.suspended
  simp only [if_pos hshort, true_and]
  omega

theorem Spares.refl (token : OpToken) (machine : Machine) : Spares token machine machine :=
  ⟨fun _ h ↦ h, fun _ h _ ↦ h, fun _ _ _ h ↦ h⟩

theorem Spares.trans (hfirst : Spares token machine middle) (hsecond : Spares token middle after) :
    Spares token machine after :=
  ⟨fun _ h ↦ hsecond.departed (hfirst.departed h),
    fun other h hother ↦ hsecond.leases other (hfirst.leases other h hother) hother,
    fun other entry hother h ↦ hsecond.holds other entry hother (hfirst.holds other entry hother h)⟩

/-- Another operation is where it was. -/
theorem holds_update {other : OpToken} {found : OpEntry} {content : SlabSlot}
    (hholds : machine.shared.Holds token entry) (hother : other ≠ token)
    (hfound : machine.shared.Holds other found)
    (hslots : after.shared.slots = Function.update machine.shared.slots token.slot content) :
    after.shared.Holds other found := by
  have hslot : other.slot ≠ token.slot := by
    intro hslot
    have hgeneration := hfound.generation
    rw [hslot, hholds.generation] at hgeneration
    cases other
    cases token
    simp_all
  unfold Shared.Holds
  rw [hslots, Function.update_of_ne hslot]
  exact hfound

/-- The only operation that is executed ends its attempt. -/
theorem Sound.publish (hsound : Sound C machine) (hoperable : machine.Operable)
    {destination : Option ReadDestination} {result : IoResult}
    (hexecuting : machine.executing = [(token, destination)]) (hduties : machine.duties = [])
    (hfinishing : machine.finishing = []) (hholds : machine.shared.Holds token entry)
    (hfits : entry.kind = .read → transferred result ≤ entry.requestedLen) :
    ∃ completion retire released shared after,
      machine.shared.finishAttempt token.slot result destination =
        .ok (completion, retire, released, shared) ∧
      ({ machine with executing := machine.executing.eraseIdx 0 }.completed shared completion retire
        released).retireDue C = .ok after ∧
      Still C after ∧ Publishes C machine after completion ∧ after.Disposable completion ∧
      completion.token = token := by
  have hindex : machine.executing[0]? = some (token, destination) := by simp [hexecuting]
  have hmem := List.mem_of_getElem? hindex
  obtain ⟨found, hfound, hactive⟩ := DriverInv.of_executing hsound.inv hindex
  obtain rfl := hholds.unique hfound
  have hprepared := hoperable.executing token destination entry hmem hholds
  have hheld := hoperable.held hsound.ledger hmem hholds
  obtain ⟨completion, retire, released, shared, hfinish⟩ := Shared.finishAttempt_of_prepared hholds
    hactive (hsound.inv.inflight_pos hholds).1 hprepared hheld hfits
  have hpublish : machine.next C (.publish 0 result) =
      .ok ({ machine with executing := machine.executing.eraseIdx 0 }.completed shared completion
        retire released) := by
    simp only [Machine.next, hindex, hfinish, ok_bind, pure_ok]
  obtain ⟨files, retirements, after, hretire, hafter, rfl⟩ := retireDue_ok (hsound.next hpublish)
    (by cases retire <;> simp [Machine.completed, hduties]) hfinishing
  have hpublished : ({ machine with executing := machine.executing.eraseIdx 0 }.completed
      { shared with completionBacklog := shared.completionBacklog } completion retire
      released).Operable := hoperable.published hsound.inv hsound.ledger hindex hfinish
  refine ⟨completion, retire, released, shared, _, hfinish, hretire,
    ⟨hafter, hpublished.congr rfl rfl rfl rfl, by simp [Machine.completed, hexecuting], rfl, rfl⟩,
    ?_⟩
  have hwellFormed := (hoperable.wellFormed hsound.inv hsound.ledger hindex hfinish).1
  obtain ⟨-, hattempted⟩ := Shared.finishAttempt_eq_ok hholds hfinish
  rw [hheld] at hattempted
  cases hattempted with
  | @lease vector hvector hbytes =>
    have hreads := hprepared.vector vector hvector
    refine ⟨⟨rfl, rfl, rfl, ?_, ⟨fun _ h ↦ h, ?_, ?_⟩, ?_⟩, ⟨hwellFormed, fun _ ↦ ⟨_, rfl, .inr ⟨?_, ?_⟩⟩⟩,
      rfl⟩
    · simp [Machine.completed, framesIn, tagged]
    · intro other hother _
      exact List.mem_cons_of_mem _ hother
    · intro other found hother hfound
      exact holds_update hholds hother hfound rfl
    · exact work_lt_of_update hsound.inv hholds rfl (suspended_work hactive)
    · exact List.mem_cons_self
    · rintro ⟨-, hpos, other, hother, hremaining⟩
      cases hother
      refine ⟨hreads.operation, _, ?_, suspended_resumes hreads hbytes hpos hremaining⟩
      simp [Shared.Holds, Machine.completed, Shared.replaced]
  | finish hframes hpool hinflight hretire =>
    refine ⟨⟨rfl, rfl, rfl, ?_, ⟨?_, ?_, ?_⟩, ?_⟩, ⟨hwellFormed, fun hlease ↦ by cases hlease⟩, rfl⟩
    · simp [Machine.completed, framesIn, tagged]
    · exact List.subset_cons_self _ _
    · intro other hother _
      exact hother
    · intro other found hother hfound
      exact holds_update hholds hother hfound rfl
    · refine work_lt_of_update hsound.inv hholds rfl ?_
      simp [SlabSlot.weight, OpEntry.work, hactive]

/-- The next ready operation is taken. -/
theorem Still.start (h : Still C machine) {slot : ℕ} {ready : List ℕ}
    (hready : machine.shared.ready = slot :: ready)
    (hholds : machine.shared.Holds (machine.shared.token slot) entry)
    (hqueued : entry.state = .queued) :
    ∃ started active, machine.next C .prepare = .ok started ∧ Sound C started ∧ started.Operable ∧
      started.executing =
        [(machine.shared.token slot, if entry.kind = .read then entry.frame else none)] ∧
      started.duties = [] ∧ started.finishing = [] ∧
      started.shared.Holds (machine.shared.token slot) active ∧ active.kind = entry.kind ∧
      active.requestedLen = entry.requestedLen ∧
      ∀ after completion, completion.token = machine.shared.token slot →
        Publishes C started after completion → Publishes C machine after completion := by
  have hprepare := Shared.prepareNext_of_prepared hready hholds hqueued
    (h.operable.queued _ entry hholds hqueued)
  have hstart : machine.next C .prepare = .ok { machine with
      shared := { machine.shared.replaced (machine.shared.token slot) { entry with
          state := .active
          frame := if entry.kind = .read then none else entry.frame } with ready }
      executing := (machine.shared.token slot, if entry.kind = .read then entry.frame else none) ::
        machine.executing } := by
    simp only [Machine.next, hprepare, ok_bind, pure_ok, Option.toList_some, List.singleton_append]
  refine ⟨_, { entry with
    state := .active
    frame := if entry.kind = .read then none else entry.frame }, hstart, h.sound.next hstart,
    h.operable.prepared h.sound.inv hholds hqueued, ?_, h.duties, h.finishing, ?_, rfl, rfl, ?_⟩
  · rw [h.executing]
  · simp [Shared.Holds, Shared.replaced]
  · intro after completion htoken hpublishes
    refine ⟨hpublishes.backlog, hpublishes.accepted, hpublishes.given, hpublishes.handed, ?_, ?_⟩
    · refine Spares.trans ?_ hpublishes.spares
      refine ⟨fun _ h ↦ h, fun _ h _ ↦ h, ?_⟩
      intro other found hother hfound
      exact holds_update hholds (htoken ▸ hother) hfound rfl
    · refine hpublishes.work.trans_eq ?_
      have hwork : OpEntry.work { entry with
          state := .active
          frame := if entry.kind = .read then none else entry.frame } = entry.work := by
        simp [OpEntry.work, hqueued]
      refine Nat.add_right_cancel (m := entry.work) ?_
      rw [work_update h.sound.inv hholds rfl]
      exact congrArg (machine.work C + ·) hwork

end Machine

namespace Teardown

variable {C : Config} {teardown : Teardown}

open Machine

/-- A turn of `poll` whose steps all succeed. -/
theorem pollNext_eq {arena : ℕ → ℕ → UInt8} {executor : BlockingExecutor} {slot : ℕ}
    {ready : List ℕ} {entry : OpEntry} {context : OpContext} {started final : Machine}
    {transfers : List Transfer} {result : IoResult} {completion : Completion}
    {retire : Option FileId} {released : Shared.Released} {shared : Shared}
    (hready : teardown.machine.shared.ready = slot :: ready)
    (hpeek : teardown.machine.shared.peek slot = .ok entry)
    (hcontext : OpContext.ofEntry arena entry = .ok context)
    (hstart : teardown.machine.next C .prepare = .ok started)
    (hexecute : execute C executor.toDevice teardown.index entry.kind context =
      .ok (transfers, some result))
    (hfinish : started.shared.finishAttempt slot result context.frame =
      .ok (completion, retire, released, shared))
    (hretire : ({ started with executing := started.executing.eraseIdx 0 }.completed shared
      completion retire released).retireDue C = .ok final) :
    teardown.pollNext C arena executor = .ok (some ⟨final, completion :: teardown.batch,
      teardown.dropped, teardown.index + transfers.length⟩) := by
  simp only [pollNext, hready, hpeek, hcontext, hstart, hexecute, expect_some, hfinish, hretire,
    ok_bind, pure_ok]

/-- A ready operation is executed and published. -/
theorem pollNext_of_ready (arena : ℕ → ℕ → UInt8) (executor : BlockingExecutor)
    (h : Still C teardown.machine) {slot : ℕ} {ready : List ℕ}
    (hready : teardown.machine.shared.ready = slot :: ready) :
    ∃ completion machine index, teardown.pollNext C arena executor =
        .ok (some ⟨machine, completion :: teardown.batch, teardown.dropped, index⟩) ∧
      Still C machine ∧ Publishes C teardown.machine machine completion ∧
      machine.Disposable completion ∧ ∃ entry,
        teardown.machine.shared.Holds completion.token entry ∧ entry.state = .queued := by
  obtain ⟨entry, hentry, hqueued⟩ :=
    h.sound.inv.slab.mem_ready_iff.mp (hready ▸ List.mem_cons_self)
  have hholds : teardown.machine.shared.Holds (teardown.machine.shared.token slot) entry := by
    unfold Shared.Holds Shared.token
    rw [← hentry]
  have hprepared := h.operable.queued _ entry hholds hqueued
  obtain ⟨context, transfers, result, hcontext, hframe, hexecute, hfits⟩ :=
    hprepared.execute C arena executor teardown.index
  obtain ⟨started, active, hstart, hsound, hoperable, hexecuting, hduties, hfinishing, hactive, hkind,
    hlength, hpublishes⟩ := h.start hready hholds hqueued
  obtain ⟨completion, retire, released, shared, final, hfinish, hretire, hstill, hpublish, hdisposable,
    htoken⟩ := hsound.publish hoperable hexecuting hduties hfinishing hactive
      (fun hread ↦ (hfits (hkind ▸ hread)).trans_eq hlength.symm)
  refine ⟨completion, final, teardown.index + transfers.length, ?_, hstill,
    hpublishes _ _ htoken hpublish, hdisposable, entry, htoken ▸ hholds, hqueued⟩
  have hpeek : teardown.machine.shared.peek slot = .ok entry := by
    simp only [Shared.peek, hentry, expect_some]
  rw [← hframe] at hfinish
  exact pollNext_eq hready hpeek hcontext hstart hexecute hfinish hretire

end Teardown

end DiosPool.Driver
