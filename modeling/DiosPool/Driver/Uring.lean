import DiosPool.Driver.Machine
import DiosPool.Foundation.Safety

/-!
# The rings

The ring backend below the driver. `outstanding` of the driver is the submission queue and the
kernel together; here they are apart. A fill pushes requests, an enter gives a part of the queue to
the kernel or fails, the kernel posts completions in any order, and a reap takes them off the
completion queue. Besides the operations the rings hold one private request, the poll that wakes a
waiting thread; a reap that finds it arms it again.
-/

namespace DiosPool.Driver

open Foundation

inductive Request
  | operation (token : OpToken)
  | wake
  deriving DecidableEq, Repr

/-- The operation of a request. -/
def Request.token? : Request → Option OpToken
  | operation token => some token
  | wake => none

structure RingCqe where
  request : Request
  result : IoResult
  deriving DecidableEq, Repr

/-- The completion as the driver sees it. -/
def RingCqe.cqe? (entry : RingCqe) : Option Cqe :=
  entry.request.token?.map (⟨·, entry.result⟩)

/-- The outcome of `io_uring_enter`: the kernel accepts the first requests of the queue, or it
fails. -/
inductive Enter
  | accepted (count : ℕ)
  | failed (errno : ℕ)
  deriving DecidableEq, Repr

/-- An enter that waited to its deadline. -/
def etime : ℕ := 62

/-- The driver with its rings. `enters` remembers what was in the submission queue at every enter,
the last one first. -/
structure Uring where
  machine : Machine
  sq : List Request
  kernel : List Request
  cq : List RingCqe
  enters : List (List Request)

/-- A critical section of the ring driver. -/
abbrev RingSection (α : Type) := Uring → Except Assertion (α × Uring)

/-- What one pass of the reap brings. -/
structure Reap where
  completions : List Completion
  /-- The completions of the kernel that were taken, `backend_completions`. -/
  reaped : ℕ
  retires : List FileId
  woke : Bool

namespace Uring

variable (C : Config)

/-- The size of the submission queue, `(queue_capacity + 1).next_power_of_two()`. -/
def ringEntries : ℕ := 2 ^ Nat.clog 2 (C.queueCapacity + 1)

/-- The wake request is armed from the start. -/
def new : Uring where
  machine := .new C
  sq := [.wake]
  kernel := []
  cq := []
  enters := []

/-- `push_entry`. -/
def pushEntry (request : Request) : RingSection Unit := fun ring ↦ do
  ensure (ring.sq.length < ringEntries C)
    "ring SQ has room: fill is bounded by queue_capacity == SQ depth"
  return ((), { ring with sq := ring.sq ++ [request] })

/-- One turn of `fill_ring`. -/
def fillOne : RingSection Bool := fun ring ↦
  match ring.machine.shared.ready with
  | [] => return (false, ring)
  | slot :: _ => do
    let userData := ring.machine.shared.token slot
    let (_, shared) ← ring.machine.shared.fillNext
    let (_, ring) ← pushEntry C (.operation userData)
      { ring with machine := { ring.machine with shared } }
    return (true, ring)

/-- `fill_ring`: at most `cap` ready operations go to the submission queue. -/
def fillRing : ℕ → RingSection ℕ
  | 0 => fun ring ↦ return (0, ring)
  | cap + 1 => fun ring ↦ do
    let (filled, ring) ← fillOne C ring
    if filled then
      let (rest, ring) ← fillRing cap ring
      return (rest + 1, ring)
    else
      return (0, ring)

/-- `submit` and `check_enter`. -/
def submit (outcome : Enter) : RingSection Unit := fun ring ↦
  let ring := { ring with enters := ring.sq :: ring.enters }
  match outcome with
  | .accepted count =>
    return ((), { ring with
      sq := ring.sq.drop count
      kernel := ring.kernel ++ ring.sq.take count })
  | .failed errno => do
    ensure (errno = etime ∨ errno = eintr ∨ errno = eagain)
      "io_uring_enter returned an unexpected errno"
    return ((), ring)

/-- The kernel posts the completion of one of its requests. -/
def post (index : ℕ) (result : IoResult) (ring : Uring) : Uring :=
  match ring.kernel[index]? with
  | none => ring
  | some request =>
    let machine := match request with
      | .operation token =>
        { ring.machine with shared := ring.machine.shared.postCompletion token result }
      | .wake => ring.machine
    { ring with
      machine
      kernel := ring.kernel.eraseIdx index
      cq := ring.cq ++ [⟨request, result⟩] }

/-- The sink of the reap for a completion of an operation. -/
def reapOperation : RingSection (Option (Completion × Option FileId)) := fun ring ↦ do
  let (outcome, shared) ← ring.machine.shared.reapOne C
  match outcome with
  | some (some (completion, retire, released)) =>
    return (some (completion, retire),
      { ring with machine := ring.machine.completed shared completion retire released })
  | _ => return (none, { ring with machine := { ring.machine with shared } })

/-- The loop of the reap over the completions that are there when it starts. A wake completion does
not count against the limit. The first pass stops at the first file to retire. -/
def reapEntries (stop : Bool) : List RingCqe → ℕ → RingSection Reap
  | [], _ => fun ring ↦ return (⟨[], 0, [], false⟩, ring)
  | _ :: _, 0 => fun ring ↦ return (⟨[], 0, [], false⟩, ring)
  | entry :: entries, limit + 1 => fun ring ↦
    match entry.request with
    | .wake => do
      let (reap, ring) ← reapEntries stop entries (limit + 1) { ring with cq := entries }
      return ({ reap with woke := true }, ring)
    | .operation _ => do
      let (outcome, ring) ← reapOperation C { ring with cq := entries }
      match outcome with
      | none => do
        let (reap, ring) ← reapEntries stop entries limit ring
        return ({ reap with reaped := reap.reaped + 1 }, ring)
      | some (completion, retire) =>
        if stop && retire.isSome then
          return (⟨[completion], 1, retire.toList, false⟩, ring)
        else do
          let (reap, ring) ← reapEntries stop entries limit ring
          return (⟨completion :: reap.completions, reap.reaped + 1, retire.toList ++ reap.retires,
            reap.woke⟩, ring)

/-- `reap_ring_locked`: a wake request that was taken is armed again. -/
def reapRingLocked (stop : Bool) (limit : ℕ) : RingSection Reap := fun ring ↦ do
  ensure (0 < limit) "a reap drains into a non-empty batch"
  let (reap, ring) ← reapEntries C stop ring.cq limit ring
  if reap.woke then
    let (_, ring) ← pushEntry C .wake ring
    return (reap, ring)
  else
    return (reap, ring)

end Uring

/-- The critical sections of the ring driver and the steps of the kernel. -/
inductive UringEvent
  | call (event : DriverEvent)
  | fillRing (cap : ℕ)
  | submit (outcome : Enter)
  | post (index : ℕ) (result : IoResult)
  | reap (stop : Bool) (limit : ℕ)

namespace Uring

variable (C : Config)

/-- The rings after one event. An event that is not possible changes nothing. -/
def next (ring : Uring) : UringEvent → Except Assertion Uring
  | .call event =>
    if event.isCall then do return { ring with machine := ← ring.machine.next C event }
    else return ring
  | .fillRing cap => do return (← fillRing C cap ring).2
  | .submit outcome => do return (← submit outcome ring).2
  | .post index result => return ring.post index result
  | .reap stop limit => do return (← reapRingLocked C stop limit ring).2

/-- The rings after a run of events. -/
def run (ring : Uring) : List UringEvent → Except Assertion Uring
  | [] => return ring
  | event :: events => do (← ring.next C event).run events

/-! ## Conservation -/

/-- The rings hold what the driver takes to be with the kernel, and the wake request once unless a
reap is about to arm it again. -/
structure Inv (ring : Uring) (rearm : ℕ) : Prop where
  machine : Machine.Inv C ring.machine
  executing : ring.machine.executing = []
  outstanding : ring.machine.shared.outstanding.Perm
    ((ring.sq ++ ring.kernel).filterMap Request.token?)
  cqes : ring.machine.shared.cqes = ring.cq.filterMap RingCqe.cqe?
  wake : (ring.sq ++ ring.kernel).count .wake + (ring.cq.map RingCqe.request).count .wake + rearm = 1

variable {C} {ring after : Uring} {rearm : ℕ}

theorem Inv.new (C : Config) : Inv C (new C) 0 :=
  ⟨Machine.Inv.new C, rfl, .refl _, rfl, rfl⟩

theorem length_requests (requests : List Request) :
    requests.length = (requests.filterMap Request.token?).length + requests.count .wake := by
  induction requests with
  | nil => rfl
  | cons request requests ih =>
    cases request with
    | operation token =>
      have htoken : (Request.operation token).token? = some token := rfl
      rw [List.filterMap_cons_some htoken, List.count_cons_of_ne (by simp), List.length_cons,
        List.length_cons, ih]
      omega
    | wake =>
      have hwake : Request.wake.token? = none := rfl
      rw [List.filterMap_cons_none hwake, List.count_cons_self, List.length_cons, ih]
      omega

/-- The submission queue has room for every ready operation and for the wake request. -/
theorem Inv.length_sq_le (h : Inv C ring rearm) :
    ring.sq.length + ring.machine.shared.ready.length + rearm ≤ C.queueCapacity + 1 := by
  have hslab := h.machine.slab.length_le
  have houtstanding := h.outstanding.length_eq
  have hwake := h.wake
  have hsq := length_requests ring.sq
  simp only [List.filterMap_append, List.length_append, List.count_append, Shared.kernel]
    at hslab houtstanding hwake
  omega

theorem lt_ringEntries (C : Config) : C.queueCapacity < ringEntries C :=
  Nat.le_pow_clog (by decide) _

theorem pushEntry_eq (request : Request) (h : ring.sq.length ≤ C.queueCapacity) :
    pushEntry C request ring = .ok ((), { ring with sq := ring.sq ++ [request] }) := by
  have hroom : ring.sq.length < ringEntries C := h.trans_lt (lt_ringEntries C)
  simp only [pushEntry, ensure_true hroom, ok_bind, pure_ok]

/-! ### Filling -/

/-- An operation goes to the submission queue. -/
theorem Inv.filled (h : Inv C ring 0) {slot : ℕ} {ready : List ℕ}
    (hready : ring.machine.shared.ready = slot :: ready) {shared : Shared}
    (hfill : ring.machine.shared.fillNext = .ok (true, shared)) :
    Inv C { ring with
      machine := { ring.machine with shared }
      sq := ring.sq ++ [.operation (ring.machine.shared.token slot)] } 0 := by
  have hmachine : Machine.Inv C { ring.machine with shared } := Machine.Effect.inv (.fill hfill) h.machine
  obtain ⟨other, rest, entry, hother, -, -, rfl⟩ := Shared.fillNext_eq_ok hfill
  rw [hready] at hother
  cases hother
  have hwake := h.wake
  refine ⟨hmachine, h.executing, ?_, h.cqes, ?_⟩
  · have htoken : [Request.operation (ring.machine.shared.token slot)].filterMap Request.token? =
        [ring.machine.shared.token slot] := rfl
    have hperm := h.outstanding.append_right [ring.machine.shared.token slot]
    simp only [List.filterMap_append, htoken, List.append_assoc] at hperm ⊢
    refine hperm.trans (List.Perm.append_left _ ?_)
    exact List.perm_append_comm
  · simp only [List.count_append, List.count_singleton, beq_iff_eq, reduceCtorEq, if_false] at hwake ⊢
    omega

/-- A fill finds its operation queued and the submission queue with room for it. -/
theorem Inv.fillOne (h : Inv C ring 0) :
    ∃ filled after, fillOne C ring = .ok (filled, after) ∧ Inv C after 0 := by
  unfold Uring.fillOne
  cases hready : ring.machine.shared.ready with
  | nil => exact ⟨false, ring, rfl, h⟩
  | cons slot ready =>
    have hmem : slot ∈ ring.machine.shared.ready := by
      rw [hready]
      exact List.mem_cons_self
    obtain ⟨entry, hentry, hqueued⟩ := h.machine.slab.mem_ready_iff.mp hmem
    have hlength := h.length_sq_le
    rw [hready, List.length_cons] at hlength
    have hroom : ring.sq.length ≤ C.queueCapacity := by omega
    obtain ⟨shared, hfill⟩ : ∃ shared, ring.machine.shared.fillNext = .ok (true, shared) :=
      ⟨_, Shared.fillNext_of_ready hready hentry hqueued⟩
    have hpush : pushEntry C (.operation (ring.machine.shared.token slot))
        { ring with machine := { ring.machine with shared } } = .ok ((), { ring with
          machine := { ring.machine with shared }
          sq := ring.sq ++ [.operation (ring.machine.shared.token slot)] }) := pushEntry_eq _ hroom
    simp only [hfill, hpush, ok_bind]
    exact ⟨true, _, rfl, h.filled hready hfill⟩

theorem Inv.fillRing (cap : ℕ) (h : Inv C ring 0) :
    ∃ filled after, fillRing C cap ring = .ok (filled, after) ∧ Inv C after 0 := by
  induction cap generalizing ring with
  | zero => exact ⟨0, ring, rfl, h⟩
  | succ cap ih =>
    obtain ⟨filled, middle, hfill, hmiddle⟩ := h.fillOne
    simp only [Uring.fillRing, hfill, ok_bind]
    cases filled with
    | false => exact ⟨0, middle, rfl, hmiddle⟩
    | true =>
      obtain ⟨rest, after, hrest, hafter⟩ := ih hmiddle
      exact ⟨rest + 1, after, by simp [hrest], hafter⟩

/-! ### The kernel -/

theorem Inv.submit (h : Inv C ring 0) {outcome : Enter}
    (hsubmit : submit outcome ring = .ok ((), after)) : Inv C after 0 := by
  cases outcome with
  | accepted count =>
    cases hsubmit
    have hperm : (ring.sq.drop count ++ (ring.kernel ++ ring.sq.take count)).Perm
        (ring.sq ++ ring.kernel) := by
      rw [← List.append_assoc]
      refine List.perm_append_comm.trans ?_
      rw [← List.append_assoc, List.take_append_drop]
    refine ⟨h.machine, h.executing, h.outstanding.trans (hperm.symm.filterMap _), h.cqes, ?_⟩
    dsimp only
    rw [hperm.count_eq]
    exact h.wake
  | failed errno =>
    simp only [Uring.submit, bind_eq_ok, ensure_eq_ok, pure_ok, Except.ok.injEq,
      Prod.mk.injEq] at hsubmit
    obtain ⟨_, _, -, rfl⟩ := hsubmit
    exact ⟨h.machine, h.executing, h.outstanding, h.cqes, h.wake⟩

theorem Inv.post (h : Inv C ring 0) (index : ℕ) (result : IoResult) :
    Inv C (ring.post index result) 0 := by
  unfold Uring.post
  split
  · exact h
  · rename_i request hindex
    obtain ⟨hlt, hget⟩ := List.getElem?_eq_some_iff.mp hindex
    have hkernel : (ring.kernel).Perm (request :: ring.kernel.eraseIdx index) := by
      rw [← hget]
      exact (List.getElem_cons_eraseIdx_perm hlt).symm
    have hperm : (ring.sq ++ ring.kernel).Perm (request :: (ring.sq ++ ring.kernel.eraseIdx index)) :=
      (hkernel.append_left _).trans List.perm_middle
    have houtstanding := h.outstanding.trans (hperm.filterMap _)
    have hcount := hperm.count_eq .wake
    have hwake := h.wake
    cases request with
    | operation token =>
      have htoken : (Request.operation token).token? = some token := rfl
      rw [List.filterMap_cons_some htoken] at houtstanding
      have hmem : token ∈ ring.machine.shared.outstanding :=
        houtstanding.mem_iff.mpr List.mem_cons_self
      refine ⟨Machine.Effect.inv (.post hmem result) h.machine, h.executing, ?_, ?_, ?_⟩
      · have herase := houtstanding.erase token
        rw [List.erase_cons_head] at herase
        exact herase
      · have hcqe : [(⟨.operation token, result⟩ : RingCqe)].filterMap RingCqe.cqe? =
            [⟨token, result⟩] := rfl
        simp only [Shared.postCompletion, List.filterMap_append, hcqe, h.cqes]
      · rw [List.count_cons_of_ne (by simp)] at hcount
        simp only [List.map_append, List.map_cons, List.map_nil, List.count_append,
          List.count_singleton, beq_iff_eq, reduceCtorEq, if_false] at hcount hwake ⊢
        omega
    | wake =>
      have hnone : Request.wake.token? = none := rfl
      rw [List.filterMap_cons_none hnone] at houtstanding
      refine ⟨h.machine, h.executing, houtstanding, ?_, ?_⟩
      · have hcqe : [(⟨.wake, result⟩ : RingCqe)].filterMap RingCqe.cqe? = [] := rfl
        simp only [List.filterMap_append, hcqe, List.append_nil, h.cqes]
      · rw [List.count_cons_self] at hcount
        simp only [List.map_append, List.map_cons, List.map_nil, List.count_append,
          List.count_singleton_self] at hcount hwake ⊢
        omega

/-! ### Failures -/

/-- The assertions on the room in the submission queue and on the generation of a completion. -/
def RingFault (error : Assertion) : Prop :=
  error = ⟨"ring SQ has room: fill is bounded by queue_capacity == SQ depth"⟩ ∨
    error = ⟨"CQE belongs to the live generation"⟩

instance : DecidablePred RingFault := fun _ ↦ inferInstanceAs (Decidable (_ ∨ _))

/-- A computation that fails without a fault of the rings. -/
abbrev Faultless {α : Type} (value : Except Assertion α) : Prop :=
  Outcome (fun error ↦ ¬ RingFault error) (fun _ ↦ True) value

theorem faultless_bind {α β : Type} {value : Except Assertion α} {next : α → Except Assertion β}
    (h : Faultless value) (hnext : ∀ result, Faultless (next result)) :
    Faultless (value >>= next) :=
  h.bind fun result _ ↦ hnext result

theorem faultless_ensure {condition : Prop} [Decidable condition] {message : String}
    (h : ¬ RingFault ⟨message⟩) : Faultless (ensure condition message) := by
  unfold ensure
  split
  · trivial
  · exact h

theorem faultless_expect {α : Type} {value : Option α} {message : String}
    (h : ¬ RingFault ⟨message⟩) : Faultless (expect value message) := by
  cases value with
  | none => exact h
  | some value => trivial

theorem faultless_subtract (left right : ℕ) : Faultless (subtract left right) := by
  unfold subtract
  split
  · trivial
  · exact show ¬ RingFault _ by decide

theorem faultless_ringProgress (entry : OpEntry) (result : IoResult) :
    Faultless (Shared.ringProgress C entry result) := by
  unfold Shared.ringProgress
  split
  · trivial
  · split
    · refine faultless_bind (faultless_ensure (by decide)) fun _ ↦ ?_
      split_ifs <;> trivial
    · trivial

theorem faultless_finishReclaim (shared : Shared) (slot : ℕ) (token : OpToken) (result : IoResult)
    (destination : Option ReadDestination) :
    Faultless (shared.finishReclaim slot token result destination) := by
  unfold Shared.finishReclaim Shared.reclaim Shared.onComplete
  refine faultless_bind (faultless_bind (faultless_expect (by decide)) fun _ ↦ trivial) fun _ ↦ ?_
  refine faultless_bind (faultless_bind (faultless_subtract _ _) fun _ ↦ trivial) fun _ ↦ ?_
  refine faultless_bind ?_ fun _ ↦ trivial
  unfold Shared.releaseFrame
  split
  · exact faultless_bind (faultless_expect (by decide)) fun _ ↦ trivial
  · trivial

theorem faultless_finishVector (entry : OpEntry) (vector : ReadVector) (result : IoResult) :
    Faultless (entry.finishVector vector result) := by
  unfold OpEntry.finishVector ReadVector.recordCompletion
  refine faultless_bind (faultless_ensure (by decide)) fun _ ↦ ?_
  refine faultless_bind (faultless_bind (faultless_ensure (by decide)) fun _ ↦ trivial) fun _ ↦ ?_
  split
  · exact faultless_bind (faultless_ensure (by decide)) fun _ ↦ trivial
  · split <;> trivial

theorem faultless_finishAttempt (shared : Shared) (slot : ℕ) (result : IoResult)
    (destination : Option ReadDestination) :
    Faultless (shared.finishAttempt slot result destination) := by
  unfold Shared.finishAttempt Shared.peek
  refine faultless_bind (faultless_expect (by decide)) fun _ ↦ ?_
  refine faultless_bind (faultless_ensure (by decide)) fun _ ↦ ?_
  split
  · refine faultless_bind (faultless_finishVector _ _ _) fun finished ↦ ?_
    split
    · trivial
    · exact faultless_finishReclaim _ _ _ _ _
  · exact faultless_finishReclaim _ _ _ _ _

/-- The reap of a live operation. -/
theorem faultless_reapOne {shared : Shared} {cqe : Cqe} {cqes : List Cqe}
    (hcqes : shared.cqes = cqe :: cqes) (hcontains : shared.contains cqe.userData) :
    Faultless (shared.reapOne C) := by
  have hlive : ({ shared with cqes } : Shared).contains cqe.userData = true := hcontains
  simp only [Shared.reapOne, hcqes, ensure_true hlive, ok_bind, Shared.peek]
  refine faultless_bind (faultless_expect (by decide)) fun _ ↦ ?_
  refine faultless_bind (faultless_ringProgress _ _) fun progress ↦ ?_
  split
  · trivial
  · exact faultless_bind (faultless_finishAttempt _ _ _ _) fun _ ↦ trivial

/-! ### Reaping -/

/-- Every completion in the completion queue names a live operation. -/
theorem Inv.contains (h : Inv C ring rearm) {token : OpToken} {result : IoResult}
    (hmem : (⟨.operation token, result⟩ : RingCqe) ∈ ring.cq) :
    ring.machine.shared.contains token := by
  have hcqe : (⟨token, result⟩ : Cqe) ∈ ring.machine.shared.cqes := by
    rw [h.cqes]
    exact List.mem_filterMap.mpr ⟨_, hmem, rfl⟩
  have hactive : token ∈ ring.machine.shared.kernel ++ ring.machine.executing.map Prod.fst :=
    List.mem_append_left _ (List.mem_append_right _ (List.mem_map_of_mem (f := Cqe.userData) hcqe))
  obtain ⟨entry, hentry, -⟩ := h.machine.slab.of_mem_active hactive
  simp [Shared.contains, hentry]

/-- The reap of an operation takes its completion off both views of the completion queue. -/
theorem Inv.reapedOperation (h : Inv C ring rearm) {token : OpToken} {result : IoResult}
    {entries : List RingCqe} (hcq : ring.cq = ⟨.operation token, result⟩ :: entries)
    {outcome : Option (Completion × Option FileId)}
    (hreap : reapOperation C { ring with cq := entries } = .ok (outcome, after)) :
    Inv C after rearm ∧ after.cq = entries := by
  have hwake := h.wake
  have hcqes : ring.machine.shared.cqes = ⟨token, result⟩ :: entries.filterMap RingCqe.cqe? := by
    rw [h.cqes, hcq]
    rfl
  simp only [hcq, List.map_cons, List.count_cons_of_ne (show Request.operation token ≠ .wake by simp)]
    at hwake
  simp only [reapOperation, bind_eq_ok] at hreap
  obtain ⟨⟨reaped, shared⟩, hone, hreap⟩ := hreap
  cases reaped with
  | none =>
    rw [(Shared.reapOne_eq_none hone).1] at hcqes
    cases hcqes
  | some reaped =>
    cases Shared.reapOne_eq_ok hone with
    | @retry cqe cqes entry next hother hholds hsame hread =>
      cases hreap
      have hmachine := Machine.Effect.inv (.retry hother hholds hsame) h.machine
      rw [hother] at hcqes
      exact ⟨⟨hmachine, h.executing, h.outstanding, (List.cons.inj hcqes).2, hwake⟩, rfl⟩
    | @attempt cqe cqes entry next _ completion retire released _ hother hholds hsame hactive hread
        hattempted =>
      cases hreap
      have hmachine := Machine.Effect.inv (.reap hother hholds hsame hattempted) h.machine
      obtain ⟨houtstanding, hrest⟩ := hattempted.rings
      rw [hother] at hcqes
      refine ⟨⟨hmachine, h.executing, ?_, ?_, hwake⟩, rfl⟩
      · simp only [Machine.completed, houtstanding]
        exact h.outstanding
      · simp only [Machine.completed, hrest]
        exact (List.cons.inj hcqes).2

theorem Inv.faultless_reapOperation (h : Inv C ring rearm) {token : OpToken} {result : IoResult}
    {entries : List RingCqe} (hcq : ring.cq = ⟨.operation token, result⟩ :: entries) :
    Faultless (reapOperation C { ring with cq := entries }) := by
  have hmem : (⟨.operation token, result⟩ : RingCqe) ∈ ring.cq := by
    rw [hcq]
    exact List.mem_cons_self
  have hcqes : ring.machine.shared.cqes = ⟨token, result⟩ :: entries.filterMap RingCqe.cqe? := by
    rw [h.cqes, hcq]
    rfl
  unfold reapOperation
  refine faultless_bind (faultless_reapOne hcqes (h.contains hmem)) fun reaped ↦ ?_
  obtain ⟨_ | _ | outcome, shared⟩ := reaped <;> trivial

/-- The loop of the reap, with the wake request it may have taken. -/
theorem Inv.reapedEntries {stop : Bool} {entries : List RingCqe} {limit : ℕ} (h : Inv C ring rearm)
    (hcq : ring.cq = entries) :
    Outcome (fun error ↦ ¬ RingFault error)
      (fun outcome ↦ Inv C outcome.2 (rearm + if outcome.1.woke then 1 else 0))
      (reapEntries C stop entries limit ring) := by
  induction entries generalizing limit ring rearm with
  | nil =>
    simp only [reapEntries]
    exact h
  | cons entry entries ih =>
    cases limit with
    | zero =>
      simp only [reapEntries]
      exact h
    | succ limit =>
      obtain ⟨request, result⟩ := entry
      cases request with
      | wake =>
        have hcqe : (⟨.wake, result⟩ : RingCqe).cqe? = none := rfl
        have hwake := h.wake
        rw [hcq, List.map_cons, List.count_cons_self] at hwake
        have hrest : Inv C { ring with cq := entries } (rearm + 1) := by
          refine ⟨h.machine, h.executing, h.outstanding, ?_, by dsimp only; omega⟩
          rw [h.cqes, hcq, List.filterMap_cons_none hcqe]
        simp only [reapEntries]
        refine (ih hrest rfl).bind fun outcome houtcome ↦ ?_
        obtain ⟨reap, after⟩ := outcome
        -- The wake request is in the rings once, so the rest of the loop finds none.
        have hwoke : reap.woke = false := by
          by_contra hwoke
          have hcount := houtcome.wake
          simp only [Bool.not_eq_false] at hwoke
          simp only [hwoke, if_true] at hcount
          omega
        simp only [hwoke] at houtcome
        exact houtcome
      | operation token =>
        have hreaped : Outcome (fun error ↦ ¬ RingFault error)
            (fun outcome ↦ Inv C outcome.2 rearm ∧ outcome.2.cq = entries)
            (reapOperation C { ring with cq := entries }) := by
          have hfaultless := h.faultless_reapOperation hcq
          cases hreap : reapOperation C { ring with cq := entries } with
          | ok outcome => exact h.reapedOperation hcq hreap
          | error error =>
            rw [hreap] at hfaultless
            exact hfaultless
        simp only [reapEntries]
        refine hreaped.bind fun outcome houtcome ↦ ?_
        obtain ⟨outcome, after⟩ := outcome
        obtain ⟨hafter, hentries⟩ := houtcome
        cases outcome with
        | none => exact (ih hafter hentries).bind fun _ hrest ↦ hrest
        | some completed =>
          obtain ⟨completion, retire⟩ := completed
          dsimp only
          split
          · exact hafter
          · exact (ih hafter hentries).bind fun _ hrest ↦ hrest

/-- A pass of the reap leaves the wake request armed. -/
theorem Inv.reapRingLocked {stop : Bool} {limit : ℕ} (h : Inv C ring 0) :
    Outcome (fun error ↦ ¬ RingFault error) (fun outcome ↦ Inv C outcome.2 0)
      (reapRingLocked C stop limit ring) := by
  unfold Uring.reapRingLocked
  have hlimit : Outcome (fun error ↦ ¬ RingFault error) (fun _ ↦ True)
      (ensure (0 < limit) "a reap drains into a non-empty batch") := faultless_ensure (by decide)
  refine hlimit.bind fun _ _ ↦ (h.reapedEntries rfl).bind fun outcome houtcome ↦ ?_
  obtain ⟨reap, after⟩ := outcome
  dsimp only at houtcome ⊢
  split
  · rename_i hwoke
    rw [if_pos hwoke] at houtcome
    have hlength := houtcome.length_sq_le
    rw [pushEntry_eq _ (by omega)]
    have hwake := houtcome.wake
    refine ⟨houtcome.machine, houtcome.executing, ?_, houtcome.cqes, ?_⟩
    · have hnone : [Request.wake].filterMap Request.token? = [] := rfl
      have hperm := houtcome.outstanding
      simp only [List.filterMap_append, hnone, List.append_nil] at hperm ⊢
      exact hperm
    · simp only [List.count_append, List.count_singleton_self] at hwake ⊢
      omega
  · rename_i hwoke
    rw [if_neg hwoke] at houtcome
    exact houtcome

/-! ### Calls -/

/-- A call does not touch the rings. -/
theorem callEffect_rings {machine next : Machine} (hinv : Machine.Inv C machine)
    (h : Machine.CallEffect C machine next) :
    next.executing = machine.executing ∧ next.shared.outstanding = machine.shared.outstanding ∧
      next.shared.cqes = machine.shared.cqes := by
  cases h with
  | submit hsubmitted hqueued hread hwrite =>
    obtain ⟨_, _, _, _, rfl⟩ := hsubmitted.step
    exact ⟨rfl, rfl, rfl⟩
  | resume hmem hcontinue =>
    obtain ⟨-, _, _, _, _, _, _, _, rfl⟩ := Shared.continueReadVector_eq_ok hcontinue
    exact ⟨rfl, rfl, rfl⟩
  | release hmem hrelease =>
    obtain ⟨_, _, _, _, _, _, _, rfl⟩ :=
      Shared.releaseReadLease_eq_ok (DriverInv.contains_of_mem_leases hinv hmem) hrelease
    exact ⟨rfl, rfl, rfl⟩
  | openFile hopen =>
    obtain ⟨-, -, -, rfl⟩ := Shared.openFile_eq_some hopen
    exact ⟨rfl, rfl, rfl⟩
  | abortFile habort =>
    obtain ⟨-, -, -, -, rfl⟩ := Shared.abortFile_eq_ok habort
    exact ⟨rfl, rfl, rfl⟩
  | close hdriver hclose =>
    obtain ⟨-, -, -, rfl⟩ := Shared.closeFile_eq_ok hclose
    exact ⟨rfl, rfl, rfl⟩
  | finishRetire hindex hfinish =>
    obtain ⟨-, -, rfl⟩ := Shared.finishRetire_eq_ok hfinish
    exact ⟨rfl, rfl, rfl⟩
  | _ => exact ⟨rfl, rfl, rfl⟩

theorem Inv.call (h : Inv C ring 0) {event : DriverEvent} (hcall : event.isCall) {machine : Machine}
    (hnext : ring.machine.next C event = .ok machine) : Inv C { ring with machine } 0 := by
  rcases Machine.next_call_eq_ok hcall hnext with rfl | heffect
  · exact h
  · obtain ⟨hexecuting, houtstanding, hcqes⟩ := callEffect_rings h.machine heffect
    refine ⟨heffect.inv h.machine, hexecuting.trans h.executing, ?_, hcqes.trans h.cqes, h.wake⟩
    rw [houtstanding]
    exact h.outstanding

/-! ### Runs -/

theorem Inv.next (h : Inv C ring 0) {event : UringEvent} (hnext : ring.next C event = .ok after) :
    Inv C after 0 := by
  cases event with
  | call event =>
    simp only [Uring.next] at hnext
    split at hnext
    · rename_i hcall
      simp only [bind_eq_ok, pure_ok, Except.ok.injEq] at hnext
      obtain ⟨machine, hnext, rfl⟩ := hnext
      exact h.call hcall hnext
    · cases hnext
      exact h
  | fillRing cap =>
    obtain ⟨filled, middle, hfill, hmiddle⟩ := h.fillRing cap
    simp only [Uring.next, hfill, ok_bind, pure_ok, Except.ok.injEq] at hnext
    exact hnext ▸ hmiddle
  | submit outcome =>
    simp only [Uring.next, bind_eq_ok, pure_ok, Except.ok.injEq] at hnext
    obtain ⟨⟨_, middle⟩, hsubmit, rfl⟩ := hnext
    exact h.submit hsubmit
  | post index result =>
    cases hnext
    exact h.post index result
  | reap stop limit =>
    simp only [Uring.next, bind_eq_ok, pure_ok, Except.ok.injEq] at hnext
    obtain ⟨⟨reap, middle⟩, hreap, rfl⟩ := hnext
    have houtcome : Outcome (fun error ↦ ¬ RingFault error) (fun outcome ↦ Inv C outcome.2 0)
        (Uring.reapRingLocked C stop limit ring) := h.reapRingLocked
    rw [hreap] at houtcome
    exact houtcome

theorem Inv.run (h : Inv C ring 0) {events : List UringEvent}
    (hrun : ring.run C events = .ok after) : Inv C after 0 := by
  induction events generalizing ring with
  | nil =>
    cases hrun
    exact h
  | cons event events ih =>
    simp only [Uring.run, bind_eq_ok] at hrun
    obtain ⟨middle, hnext, hrun⟩ := hrun
    exact ih (h.next hnext) hrun

end Uring

end DiosPool.Driver
