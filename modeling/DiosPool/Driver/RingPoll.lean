import DiosPool.Driver.Uring

/-!
# Polls of the ring driver

A poll is a program of critical sections. It flushes deferred releases, takes what waits in the
backlog, fills the submission queue, enters the kernel outside the lock and reaps. The reap stops at
the first file that has to be retired, so that a second pass can record further ones, and the files
are retired after the lock is released. Other threads and the kernel take their steps between two
sections.
-/

namespace DiosPool.Driver.Uring

open Foundation

/-- Programs of critical sections of the ring driver. -/
abbrev PollM := Program Uring Assertion

section Programs

variable (C : Config)

/-- A call as a critical section. -/
def call (event : Uring → DriverEvent) : RingSection Unit := fun ring ↦ do
  return ((), { ring with machine := ← ring.machine.next C (event ring) })

/-- `DriverCore::retire`: the backend forgets the file, then its slot is closed. -/
def retire (id : FileId) : PollM Unit := do
  .act (call C fun ring ↦ .retire (ring.machine.duties.idxOf id))
  .act (call C fun ring ↦ .finishRetire (ring.machine.finishing.idxOf id))

def retireAll : List FileId → PollM Unit
  | [] => pure ()
  | id :: ids => do
    retire C id
    retireAll ids

/-- The next deferred completion, with the file to retire. -/
def popDeferred : RingSection (Option (Option FileId)) := fun ring ↦ do
  let (completion, _) ← ring.machine.shared.popDeferred
  let (_, ring) ← call C (fun _ ↦ .flush) ring
  return (completion, ring)

/-- `flush_deferred`. -/
def flushDeferred : ℕ → PollM Unit
  | 0 => pure ()
  | count + 1 => do
    match ← Program.act (popDeferred C) with
    | none => pure ()
    | some due => do
      retireAll C due.toList
      flushDeferred count

/-- `drain_completion_backlog`. -/
def drainCompletionBacklog : ℕ → RingSection (List Completion)
  | 0 => fun ring ↦ return ([], ring)
  | count + 1 => fun ring ↦ do
    let (completion, _) ← ring.machine.shared.popBacklog
    match completion with
    | none => return ([], ring)
    | some completion => do
      let (_, ring) ← call C (fun _ ↦ .drainBacklog) ring
      let (rest, ring) ← drainCompletionBacklog count ring
      return (completion :: rest, ring)

/-- The second pass of the reap, if the first one stopped at a file to retire and left room. -/
def reapAdditional (limit : ℕ) (first : Reap) : PollM Reap :=
  if first.retires = [] then return ⟨[], 0, [], false⟩
  else do
    (ensure (first.reaped ≤ limit) "the first reap respects its limit" : Except Assertion Unit)
    if first.reaped < limit then .act (reapRingLocked C false (limit - first.reaped))
    else return ⟨[], 0, [], false⟩

/-- `reap_ring`. `rearmed` is the outcome of the enter for a wake request that was armed again. -/
def reapRing (limit : ℕ) (rearmed : Enter) : PollM (List Completion) := do
  let first ← Program.act (reapRingLocked C true limit)
  let additional ← reapAdditional C limit first
  if first.woke || additional.woke then
    .act (submit rearmed)
  retireAll C (first.retires ++ additional.retires)
  return first.completions ++ additional.completions

/-- `poll_ring_progress` with a batch of a capacity. `entered` is the outcome of its enter. -/
def pollRingProgress (capacity : ℕ) (entered rearmed : Enter) : PollM (List Completion) := do
  (ensure (0 < capacity) "poll requires a non-empty completion batch" : Except Assertion Unit)
  flushDeferred C C.queueCapacity
  let backlog ← Program.act (drainCompletionBacklog C capacity)
  if backlog.length = capacity then
    return backlog
  else do
    let cap := capacity - backlog.length
    let filled ← Program.act (fillRing C cap)
    if 0 < filled then
      .act (submit entered)
    let reaped ← reapRing C cap rearmed
    return backlog ++ reaped

/-- `poll_wait_ring_progress`, which enters the kernel in any case. -/
def pollWaitRingProgress (capacity : ℕ) (entered rearmed : Enter) : PollM (List Completion) := do
  (ensure (0 < capacity) "poll requires a non-empty completion batch" : Except Assertion Unit)
  flushDeferred C C.queueCapacity
  let backlog ← Program.act (drainCompletionBacklog C capacity)
  if 0 < backlog.length then
    return backlog
  else do
    let _ ← Program.act (fillRing C capacity)
    .act (submit entered)
    reapRing C capacity rearmed

end Programs

/-! ## Batches -/

section Batches

variable {C : Config}

/-- A state of the rings that some run leads to. -/
def Reachable (C : Config) (ring : Uring) : Prop := ∃ events, (new C).run C events = .ok ring

/-- The other threads and the kernel take any steps between two sections of a poll. The poll keeps
to the steps of the rings itself, and it fails no assertion of the rings. -/
def pollRules (C : Config) : Rules Uring Assertion where
  rely := fun ring seen ↦ ∃ events, ring.run C events = .ok seen
  always := Reachable C
  tolerated := fun error ↦ ¬ RingFault error

theorem run_append {ring middle after : Uring} {events others : List UringEvent}
    (hrun : ring.run C events = .ok middle) (hothers : middle.run C others = .ok after) :
    ring.run C (events ++ others) = .ok after := by
  induction events generalizing ring with
  | nil =>
    cases hrun
    exact hothers
  | cons event events ih =>
    simp only [run, bind_eq_ok] at hrun
    obtain ⟨next, hnext, hrun⟩ := hrun
    simp only [List.cons_append, run, hnext, ok_bind]
    exact ih hrun

theorem Reachable.run {ring after : Uring} (h : Reachable C ring) {events : List UringEvent}
    (hrun : ring.run C events = .ok after) : Reachable C after := by
  obtain ⟨others, hothers⟩ := h
  exact ⟨others ++ events, run_append hothers hrun⟩

theorem Reachable.inv {ring : Uring} (h : Reachable C ring) : Inv C ring 0 := by
  obtain ⟨events, hrun⟩ := h
  exact (Inv.new C).run hrun

theorem pollRules_stable (C : Config) : (pollRules C).Stable (Reachable C) := by
  refine ⟨fun _ h ↦ h, ?_⟩
  rintro ring seen h ⟨events, hrun⟩
  exact h.run hrun

/-- A critical section that is made of events. -/
structure Stepwise (C : Config) {α : Type} (body : RingSection α) (post : α → Prop) : Prop where
  run : ∀ {ring after : Uring} {value : α}, body ring = .ok (value, after) →
    ∃ events, ring.run C events = .ok after
  faultless : ∀ {ring : Uring}, Reachable C ring → Faultless (body ring)
  post : ∀ {ring after : Uring} {value : α}, body ring = .ok (value, after) → post value

theorem Stepwise.triple {α : Type} {body : RingSection α} {post : α → Prop}
    (h : Stepwise C body post) :
    (pollRules C).Triple (Reachable C) (.act body) fun value ring ↦ post value ∧ Reachable C ring := by
  refine Rules.Triple.act (pollRules_stable C) fun ring hring ↦ ?_
  have hfaultless := h.faultless hring
  cases hbody : body ring with
  | error error =>
    rw [hbody] at hfaultless
    exact hfaultless
  | ok outcome =>
    obtain ⟨events, hrun⟩ := h.run hbody
    exact ⟨h.post hbody, hring.run hrun⟩

theorem run_singleton {ring after : Uring} {event : UringEvent}
    (hnext : ring.next C event = .ok after) : ring.run C [event] = .ok after := by
  simp [run, hnext]

theorem stepwise_submit (outcome : Enter) : Stepwise C (submit outcome) fun _ ↦ True := by
  refine ⟨fun {ring after value} hsubmit ↦ ⟨[.submit outcome], run_singleton ?_⟩, ?_,
    fun _ ↦ trivial⟩
  · simp [next, hsubmit]
  · intro ring _
    unfold submit
    cases outcome with
    | accepted count => trivial
    | failed errno => exact faultless_bind (faultless_ensure (by decide)) fun _ ↦ trivial

theorem stepwise_fillRing (cap : ℕ) : Stepwise C (fillRing C cap) fun _ ↦ True := by
  refine ⟨fun {ring after value} hfill ↦ ⟨[.fillRing cap], run_singleton ?_⟩, ?_,
    fun _ ↦ trivial⟩
  · simp [next, hfill]
  · intro ring hring
    obtain ⟨filled, after, hfill, -⟩ := hring.inv.fillRing cap
    rw [hfill]
    trivial

/-- Every completion of a pass was taken off the completion queue, within the limit. -/
theorem reapEntries_le {stop : Bool} {entries : List RingCqe} {limit : ℕ} {ring after : Uring}
    {reap : Reap} (hreap : reapEntries C stop entries limit ring = .ok (reap, after)) :
    reap.completions.length ≤ reap.reaped ∧ reap.reaped ≤ limit := by
  induction entries generalizing limit ring reap with
  | nil =>
    cases hreap
    exact ⟨le_rfl, Nat.zero_le _⟩
  | cons entry entries ih =>
    cases limit with
    | zero =>
      cases hreap
      exact ⟨le_rfl, le_rfl⟩
    | succ limit =>
      simp only [reapEntries] at hreap
      split at hreap
      · simp only [bind_eq_ok, pure_ok, Except.ok.injEq, Prod.mk.injEq] at hreap
        obtain ⟨⟨rest, _⟩, hrest, rfl, rfl⟩ := hreap
        have hle := ih hrest
        exact hle
      · simp only [bind_eq_ok] at hreap
        obtain ⟨⟨outcome, middle⟩, -, hreap⟩ := hreap
        cases outcome with
        | none =>
          simp only [bind_eq_ok, pure_ok, Except.ok.injEq, Prod.mk.injEq] at hreap
          obtain ⟨⟨rest, _⟩, hrest, rfl, rfl⟩ := hreap
          have hle := ih hrest
          dsimp only
          omega
        | some completed =>
          obtain ⟨completion, retire⟩ := completed
          dsimp only at hreap
          split at hreap
          · cases hreap
            exact ⟨le_rfl, Nat.le_add_left 1 limit⟩
          · simp only [bind_eq_ok, pure_ok, Except.ok.injEq, Prod.mk.injEq] at hreap
            obtain ⟨⟨rest, _⟩, hrest, rfl, rfl⟩ := hreap
            have hle := ih hrest
            simp only [List.length_cons]
            omega

theorem reapRingLocked_le {stop : Bool} {limit : ℕ} {ring after : Uring} {reap : Reap}
    (hreap : reapRingLocked C stop limit ring = .ok (reap, after)) :
    reap.completions.length ≤ reap.reaped ∧ reap.reaped ≤ limit := by
  simp only [reapRingLocked, bind_eq_ok] at hreap
  obtain ⟨_, _, ⟨found, middle⟩, hfound, hreap⟩ := hreap
  have hle := reapEntries_le hfound
  split at hreap
  · simp only [bind_eq_ok, pure_ok, Except.ok.injEq, Prod.mk.injEq] at hreap
    obtain ⟨_, _, rfl, _⟩ := hreap
    exact hle
  · cases hreap
    exact hle

theorem stepwise_reapRingLocked (stop : Bool) (limit : ℕ) :
    Stepwise C (reapRingLocked C stop limit) fun reap ↦
      reap.completions.length ≤ reap.reaped ∧ reap.reaped ≤ limit := by
  refine ⟨fun {ring after value} hreap ↦ ⟨[.reap stop limit], run_singleton ?_⟩, ?_,
    fun hreap ↦ reapRingLocked_le hreap⟩
  · simp [next, hreap]
  · intro ring hring
    exact hring.inv.reapRingLocked.mono fun _ _ ↦ trivial

theorem stepwise_call {event : Uring → DriverEvent} (hcall : ∀ ring, (event ring).isCall)
    (hfaultless : ∀ ring : Uring, Faultless (ring.machine.next C (event ring))) :
    Stepwise C (call C event) fun _ ↦ True := by
  refine ⟨fun {ring after value} hbody ↦ ⟨[.call (event ring)], run_singleton ?_⟩, ?_,
    fun _ ↦ trivial⟩
  · simp only [call, bind_eq_ok, pure_ok, Except.ok.injEq, Prod.mk.injEq] at hbody
    obtain ⟨machine, hnext, -, rfl⟩ := hbody
    simp [next, hcall ring, hnext]
  · intro ring _
    exact faultless_bind (hfaultless ring) fun _ ↦ trivial

theorem faultless_flush (machine : Machine) : Faultless (machine.next C .flush) := by
  simp only [Machine.next]
  refine faultless_bind ?_ fun _ ↦ trivial
  unfold Shared.popDeferred
  split <;> trivial

theorem stepwise_popDeferred : Stepwise C (popDeferred C) fun _ ↦ True := by
  have hstep : Stepwise C (call C fun _ ↦ .flush) fun _ ↦ True :=
    stepwise_call (fun _ ↦ rfl) fun ring ↦ faultless_flush ring.machine
  refine ⟨fun {ring after value} hbody ↦ ?_, ?_, fun _ ↦ trivial⟩
  · simp only [popDeferred, bind_eq_ok, pure_ok, Except.ok.injEq, Prod.mk.injEq] at hbody
    obtain ⟨_, _, ⟨_, middle⟩, hflush, -, rfl⟩ := hbody
    exact hstep.run hflush
  · intro ring hring
    unfold popDeferred
    refine faultless_bind ?_ fun _ ↦ faultless_bind (hstep.faultless hring) fun _ ↦ trivial
    unfold Shared.popDeferred
    split <;> trivial

theorem faultless_drainBacklog (machine : Machine) : Faultless (machine.next C .drainBacklog) := by
  simp only [Machine.next]
  refine faultless_bind ?_ fun _ ↦ trivial
  unfold Shared.popBacklog
  split <;> trivial

theorem stepwise_drainCompletionBacklog (count : ℕ) :
    Stepwise C (drainCompletionBacklog C count) fun backlog ↦ backlog.length ≤ count := by
  have hstep : Stepwise C (call C fun _ ↦ .drainBacklog) fun _ ↦ True :=
    stepwise_call (fun _ ↦ rfl) fun ring ↦ faultless_drainBacklog ring.machine
  induction count with
  | zero =>
    refine ⟨fun {ring after value} hbody ↦ ?_, fun _ ↦ trivial, fun {ring after value} hbody ↦ ?_⟩
    · cases hbody
      exact ⟨[], rfl⟩
    · cases hbody
      exact le_rfl
  | succ count ih =>
    have hinversion {ring after : Uring} {backlog : List Completion}
        (hbody : drainCompletionBacklog C (count + 1) ring = .ok (backlog, after)) :
        (backlog = [] ∧ after = ring) ∨ ∃ completion rest middle,
          call C (fun _ ↦ .drainBacklog) ring = .ok ((), middle) ∧
          drainCompletionBacklog C count middle = .ok (rest, after) ∧
          backlog = completion :: rest := by
      simp only [drainCompletionBacklog, bind_eq_ok] at hbody
      obtain ⟨⟨completion, _⟩, _, hbody⟩ := hbody
      cases completion with
      | none =>
        cases hbody
        exact .inl ⟨rfl, rfl⟩
      | some completion =>
        simp only [bind_eq_ok, pure_ok, Except.ok.injEq, Prod.mk.injEq] at hbody
        obtain ⟨⟨_, middle⟩, hcall, ⟨rest, _⟩, hrest, rfl, rfl⟩ := hbody
        exact .inr ⟨completion, rest, middle, hcall, hrest, rfl⟩
    refine ⟨fun {ring after value} hbody ↦ ?_, fun {ring} hring ↦ ?_,
      fun {ring after value} hbody ↦ ?_⟩
    · obtain ⟨-, rfl⟩ | ⟨_, _, middle, hcall, hrest, -⟩ := hinversion hbody
      · exact ⟨[], rfl⟩
      · obtain ⟨events, hevents⟩ := hstep.run hcall
        obtain ⟨others, hothers⟩ := ih.run hrest
        exact ⟨events ++ others, run_append hevents hothers⟩
    · unfold drainCompletionBacklog
      refine faultless_bind ?_ fun popped ↦ ?_
      · unfold Shared.popBacklog
        split <;> trivial
      · obtain ⟨_ | completion, _⟩ := popped
        · trivial
        · dsimp only
          cases hcall : call C (fun _ ↦ .drainBacklog) ring with
          | error error =>
            have hfaultless := hstep.faultless hring
            rw [hcall] at hfaultless
            exact hfaultless
          | ok outcome =>
            obtain ⟨_, middle⟩ := outcome
            obtain ⟨events, hevents⟩ := hstep.run hcall
            rw [ok_bind]
            exact faultless_bind (ih.faultless (hring.run hevents)) fun _ ↦ trivial
    · obtain ⟨rfl, -⟩ | ⟨_, _, middle, hcall, hrest, rfl⟩ := hinversion hbody
      · exact Nat.zero_le _
      · exact Nat.succ_le_succ (ih.post hrest)

theorem faultless_retire (machine : Machine) (index : ℕ) :
    Faultless (machine.next C (.retire index)) := by
  simp only [Machine.next]
  split <;> trivial

theorem faultless_finishRetire (machine : Machine) (index : ℕ) :
    Faultless (machine.next C (.finishRetire index)) := by
  simp only [Machine.next]
  split
  · refine faultless_bind ?_ fun _ ↦ trivial
    unfold Shared.finishRetire
    refine faultless_bind (faultless_ensure (by decide)) fun _ ↦ ?_
    exact faultless_bind (faultless_ensure (by decide)) fun _ ↦ trivial
  · trivial

/-! ### The programs -/

theorem retire_triple (id : FileId) :
    (pollRules C).Triple (Reachable C) (retire C id) fun _ ↦ Reachable C := by
  have hretire : Stepwise C (call C fun ring ↦ .retire (ring.machine.duties.idxOf id)) fun _ ↦ True :=
    stepwise_call (fun _ ↦ rfl) fun ring ↦ faultless_retire ring.machine _
  have hfinish : Stepwise C (call C fun ring ↦ .finishRetire (ring.machine.finishing.idxOf id))
      fun _ ↦ True :=
    stepwise_call (fun _ ↦ rfl) fun ring ↦ faultless_finishRetire ring.machine _
  refine hretire.triple.bind fun _ ↦ Rules.Triple.assume fun _ ↦ ?_
  exact hfinish.triple.mono fun _ _ hpost ↦ hpost.2

theorem retireAll_triple (ids : List FileId) :
    (pollRules C).Triple (Reachable C) (retireAll C ids) fun _ ↦ Reachable C := by
  induction ids with
  | nil => exact Rules.Triple.done fun _ hring ↦ hring
  | cons id ids ih => exact (retire_triple id).bind fun _ ↦ ih

theorem flushDeferred_triple (count : ℕ) :
    (pollRules C).Triple (Reachable C) (flushDeferred C count) fun _ ↦ Reachable C := by
  induction count with
  | zero => exact Rules.Triple.done fun _ hring ↦ hring
  | succ count ih =>
    refine stepwise_popDeferred.triple.bind fun popped ↦ Rules.Triple.assume fun _ ↦ ?_
    cases popped with
    | none => exact Rules.Triple.done fun _ hring ↦ hring
    | some due => exact (retireAll_triple due.toList).bind fun _ ↦ ih

/-- The second pass takes what the first one left of the limit. -/
theorem reapAdditional_triple {limit : ℕ} {first : Reap} (hfirst : first.reaped ≤ limit) :
    (pollRules C).Triple (Reachable C) (reapAdditional C limit first) fun additional ring ↦
      additional.completions.length ≤ limit - first.reaped ∧ Reachable C ring := by
  unfold reapAdditional
  split
  · exact Rules.Triple.done fun _ hring ↦ ⟨Nat.zero_le _, hring⟩
  · rw [ensure_true hfirst]
    split
    · refine (stepwise_reapRingLocked false (limit - first.reaped)).triple.mono ?_
      exact fun reap ring hreap ↦ ⟨hreap.1.1.trans hreap.1.2, hreap.2⟩
    · exact Rules.Triple.done fun _ hring ↦ ⟨Nat.zero_le _, hring⟩

/-- Both passes together bring no more completions than the limit. -/
theorem reapRing_triple (limit : ℕ) (rearmed : Enter) :
    (pollRules C).Triple (Reachable C) (reapRing C limit rearmed) fun completions ring ↦
      completions.length ≤ limit ∧ Reachable C ring := by
  refine (stepwise_reapRingLocked true limit).triple.bind fun first ↦
    Rules.Triple.assume fun hfirst ↦ ?_
  refine (reapAdditional_triple hfirst.2).bind fun additional ↦
    Rules.Triple.assume fun hadditional ↦ ?_
  have hlength : (first.completions ++ additional.completions).length ≤ limit := by
    rw [List.length_append]
    omega
  have hretire : (pollRules C).Triple (Reachable C) (do
      retireAll C (first.retires ++ additional.retires)
      return first.completions ++ additional.completions) fun completions ring ↦
        completions.length ≤ limit ∧ Reachable C ring :=
    (retireAll_triple _).bind fun _ ↦ Rules.Triple.done fun _ hring ↦ ⟨hlength, hring⟩
  split
  · refine (stepwise_submit rearmed).triple.bind fun _ ↦ Rules.Triple.assume fun _ ↦ ?_
    exact hretire
  · exact hretire

theorem pollRingProgress_triple (capacity : ℕ) (entered rearmed : Enter) :
    (pollRules C).Triple (Reachable C) (pollRingProgress C capacity entered rearmed)
      fun batch ring ↦ batch.length ≤ capacity ∧ Reachable C ring := by
  refine (Rules.Triple.lift (pollRules_stable C) (faultless_ensure (by decide))).bind fun _ ↦
    Rules.Triple.assume fun _ ↦ (flushDeferred_triple C.queueCapacity).bind fun _ ↦ ?_
  refine (stepwise_drainCompletionBacklog capacity).triple.bind fun backlog ↦
    Rules.Triple.assume fun hbacklog ↦ ?_
  split
  · exact Rules.Triple.done fun _ hring ↦ ⟨hbacklog, hring⟩
  · have hreap : (pollRules C).Triple (Reachable C) (do
        let reaped ← reapRing C (capacity - backlog.length) rearmed
        return backlog ++ reaped) fun batch ring ↦ batch.length ≤ capacity ∧ Reachable C ring := by
      refine (reapRing_triple (capacity - backlog.length) rearmed).bind fun reaped ↦
        Rules.Triple.assume fun hreaped ↦ Rules.Triple.done fun _ hring ↦ ⟨?_, hring⟩
      rw [List.length_append]
      omega
    refine (stepwise_fillRing (capacity - backlog.length)).triple.bind fun filled ↦
      Rules.Triple.assume fun _ ↦ ?_
    split
    · exact (stepwise_submit entered).triple.bind fun _ ↦ Rules.Triple.assume fun _ ↦ hreap
    · exact hreap

theorem pollWaitRingProgress_triple (capacity : ℕ) (entered rearmed : Enter) :
    (pollRules C).Triple (Reachable C) (pollWaitRingProgress C capacity entered rearmed)
      fun batch ring ↦ batch.length ≤ capacity ∧ Reachable C ring := by
  refine (Rules.Triple.lift (pollRules_stable C) (faultless_ensure (by decide))).bind fun _ ↦
    Rules.Triple.assume fun _ ↦ (flushDeferred_triple C.queueCapacity).bind fun _ ↦ ?_
  refine (stepwise_drainCompletionBacklog capacity).triple.bind fun backlog ↦
    Rules.Triple.assume fun hbacklog ↦ ?_
  split
  · exact Rules.Triple.done fun _ hring ↦ ⟨hbacklog, hring⟩
  · refine (stepwise_fillRing capacity).triple.bind fun filled ↦ Rules.Triple.assume fun _ ↦ ?_
    refine (stepwise_submit entered).triple.bind fun _ ↦ Rules.Triple.assume fun _ ↦ ?_
    exact reapRing_triple capacity rearmed

end Batches

/-! ## Conservation -/

/-- Every request in the rings: in the submission queue, with the kernel or completed. -/
def requests (ring : Uring) : List Request := ring.sq ++ ring.kernel ++ ring.cq.map RingCqe.request

/-- The slab holds the operation, and the backend works on it. -/
def IsActive (ring : Uring) (token : OpToken) : Prop :=
  ∃ entry, ring.machine.shared.Holds token entry ∧ entry.state = .active

variable {C : Config} {ring : Uring}

/-- The rings list the operations that the driver takes to be with the kernel. -/
theorem Inv.count_requests {rearm : ℕ} (h : Inv C ring rearm) (token : OpToken) :
    ring.requests.count (.operation token) = ring.machine.shared.kernel.count token := by
  have hrequests (list : List Request) :
      list.count (.operation token) = (list.filterMap Request.token?).count token := by
    induction list with
    | nil => rfl
    | cons request list ih =>
      cases request with
      | operation other =>
        have htoken : (Request.operation other).token? = some other := rfl
        rw [List.filterMap_cons_some htoken, List.count_cons, List.count_cons, ih]
        simp
      | wake =>
        have hnone : Request.wake.token? = none := rfl
        rw [List.filterMap_cons_none hnone, List.count_cons_of_ne (by simp), ih]
  have hcq : (ring.cq.map RingCqe.request).filterMap Request.token? =
      ring.machine.shared.cqes.map Cqe.userData := by
    rw [h.cqes, List.filterMap_map, List.map_filterMap]
    congr 1
    funext entry
    obtain ⟨_ | _, _⟩ := entry <;> rfl
  simp only [requests, Shared.kernel, List.count_append]
  rw [hrequests (ring.cq.map RingCqe.request), hcq, h.outstanding.count_eq, ← hrequests,
    List.count_append]

theorem Inv.count_active {rearm : ℕ} (h : Inv C ring rearm) (token : OpToken) :
    (ring.IsActive token → ring.requests.count (.operation token) = 1) ∧
      (¬ ring.IsActive token → ring.requests.count (.operation token) = 0) := by
  have hslab := h.machine.slab
  rw [h.executing, List.map_nil, List.append_nil] at hslab
  rw [h.count_requests]
  have hmem : token ∈ ring.machine.shared.kernel ↔ ring.IsActive token := by
    refine ⟨fun hmem ↦ hslab.of_mem_active hmem, ?_⟩
    rintro ⟨entry, hholds, hactive⟩
    rw [← List.count_pos_iff, hslab.active, hholds]
    simp [hactive]
  constructor
  · intro hactive
    have hpos := List.count_pos_iff.mpr (hmem.mpr hactive)
    have hle := List.nodup_iff_count_le_one.mp hslab.nodup_active token
    omega
  · intro hactive
    exact List.count_eq_zero.mpr fun htoken ↦ hactive (hmem.mp htoken)

/-- Whatever the kernel accepts and posts, and whatever other threads do: every active operation has
one request in the rings and no other operation has one, the submission queue has room for every
push, every completion names a live operation, and a poll brings no more completions than fit its
batch. -/
theorem run_conserves {events : List UringEvent} (hrun : (new C).run C events = .ok ring) :
    (∀ token, (ring.IsActive token → ring.requests.count (.operation token) = 1) ∧
      (¬ ring.IsActive token → ring.requests.count (.operation token) = 0)) ∧
    ring.sq.length ≤ C.queueCapacity + 1 ∧
    (∀ cap, ∃ filled after, fillRing C cap ring = .ok (filled, after)) ∧
    (∀ token result, ⟨.operation token, result⟩ ∈ ring.cq → ring.machine.shared.contains token) ∧
    (∀ stop limit error, reapRingLocked C stop limit ring = .error error → ¬ RingFault error) ∧
    ∀ capacity entered rearmed,
      (pollRingProgress C capacity entered rearmed).Safe (pollRules C)
        (fun batch _ ↦ batch.length ≤ capacity) ring ∧
      (pollWaitRingProgress C capacity entered rearmed).Safe (pollRules C)
        (fun batch _ ↦ batch.length ≤ capacity) ring := by
  have hreachable : Reachable C ring := ⟨events, hrun⟩
  have hinv := hreachable.inv
  refine ⟨hinv.count_active, ?_, ?_, fun token result hmem ↦ hinv.contains hmem, ?_, ?_⟩
  · have hlength := hinv.length_sq_le
    omega
  · intro cap
    obtain ⟨filled, after, hfill, -⟩ := hinv.fillRing cap
    exact ⟨filled, after, hfill⟩
  · intro stop limit error hreap
    have houtcome : Outcome (fun error ↦ ¬ RingFault error) (fun outcome ↦ Inv C outcome.2 0)
        (reapRingLocked C stop limit ring) := hinv.reapRingLocked
    rw [hreap] at houtcome
    exact houtcome
  · intro capacity entered rearmed
    exact ⟨(pollRingProgress_triple capacity entered rearmed).mono (fun _ _ hpost ↦ hpost.1) ring
        hreachable,
      (pollWaitRingProgress_triple capacity entered rearmed).mono (fun _ _ hpost ↦ hpost.1) ring
        hreachable⟩

/-- A driver with one slot, one file and one frame of four bytes. -/
def singleSlot : Config := ⟨0, 1, 1, 1, 1, 4⟩

/-- A read whose request the kernel leaves in the submission
queue twice before it takes it. -/
def strandedRead : List UringEvent :=
  [.call .openFile, .call (.submitRead .pool ⟨⟨0, 0, 1⟩, .buffered⟩ 0 0 0 4), .fillRing 1,
    .submit (.accepted 1), .submit (.failed eagain), .submit (.accepted 1), .post 1 (.ok 4)]

theorem run_conserves_strandedRead : ∃ ring,
    (new singleSlot).run singleSlot strandedRead = .ok ring ∧
      ring.requests.count (.operation ⟨0, 1⟩) = 1 ∧ ring.sq.length ≤ 2 ∧
      (pollRingProgress singleSlot 1 (.accepted 0) (.accepted 0)).Safe (pollRules singleSlot)
        (fun batch _ ↦ batch.length ≤ 1) ring := by
  have hrun : (new singleSlot).run singleSlot strandedRead = .ok _ := rfl
  obtain ⟨hactive, hlength, -, -, -, hpoll⟩ := run_conserves hrun
  refine ⟨_, hrun, (hactive ⟨0, 1⟩).1 ⟨_, rfl, rfl⟩, hlength, (hpoll 1 _ _).1⟩

/-! ## What a poll offers to the kernel -/

/-- The requests that were in the submission queue at some enter between two states. -/
def offered (ring after : Uring) : List Request :=
  (after.enters.take (after.enters.length - ring.enters.length)).flatten

/-- One read is ready. -/
def oneRead : Except Assertion Uring := (new singleSlot).run singleSlot
  [.call .openFile, .call (.submitRead .pool ⟨⟨0, 0, 1⟩, .buffered⟩ 0 0 0 4)]

/-- A poll whose enter fails, and one that has nothing to fill in. -/
def twoPolls (entered rearmed : Enter) : Except Assertion (Uring × Uring) := do
  let ring ← oneRead
  let (_, first) ← (pollRingProgress singleSlot 1 (.failed eagain) (.accepted 0)).run ring
  let (_, second) ← (pollRingProgress singleSlot 1 entered rearmed).run first
  return (first, second)

/-- A step after the enter: enters are only added, and no operation comes to the submission queue. -/
structure Drains (ring after : Uring) : Prop where
  enters : ∃ new, after.enters = new ++ ring.enters
  sq : ∀ token, .operation token ∈ after.sq → .operation token ∈ ring.sq

namespace Drains

variable {middle after : Uring}

theorem refl (ring : Uring) : ring.Drains ring := ⟨⟨[], rfl⟩, fun _ hmem ↦ hmem⟩

theorem trans (hfirst : ring.Drains middle) (hsecond : middle.Drains after) : ring.Drains after := by
  obtain ⟨new, hnew⟩ := hfirst.enters
  obtain ⟨newer, hnewer⟩ := hsecond.enters
  refine ⟨⟨newer ++ new, ?_⟩, fun token hmem ↦ hfirst.sq token (hsecond.sq token hmem)⟩
  rw [hnewer, hnew, List.append_assoc]

theorem submit {outcome : Enter} (hsubmit : Uring.submit outcome ring = .ok ((), after)) :
    ring.Drains after := by
  cases outcome with
  | accepted count =>
    cases hsubmit
    exact ⟨⟨[ring.sq], rfl⟩, fun token hmem ↦ List.mem_of_mem_drop hmem⟩
  | failed errno =>
    simp only [Uring.submit, bind_eq_ok, ensure_eq_ok, pure_ok, Except.ok.injEq,
      Prod.mk.injEq] at hsubmit
    obtain ⟨_, _, -, rfl⟩ := hsubmit
    exact ⟨⟨[ring.sq], rfl⟩, fun _ hmem ↦ hmem⟩

theorem call {event : Uring → DriverEvent} {value : Unit}
    (hcall : Uring.call C event ring = .ok (value, after)) : ring.Drains after := by
  simp only [Uring.call, bind_eq_ok, pure_ok, Except.ok.injEq, Prod.mk.injEq] at hcall
  obtain ⟨machine, -, -, rfl⟩ := hcall
  exact ⟨⟨[], rfl⟩, fun _ hmem ↦ hmem⟩

theorem reapOperation {outcome : Option (Completion × Option FileId)}
    (hreap : Uring.reapOperation C ring = .ok (outcome, after)) :
    after.sq = ring.sq ∧ after.enters = ring.enters := by
  simp only [Uring.reapOperation, bind_eq_ok] at hreap
  obtain ⟨⟨reaped, shared⟩, -, hreap⟩ := hreap
  obtain _ | _ | ⟨completion, retire, released⟩ := reaped
  · cases hreap
    exact ⟨rfl, rfl⟩
  · cases hreap
    exact ⟨rfl, rfl⟩
  · cases hreap
    exact ⟨rfl, rfl⟩

theorem reapEntries {stop : Bool} {entries : List RingCqe} {limit : ℕ} {reap : Reap}
    (hreap : Uring.reapEntries C stop entries limit ring = .ok (reap, after)) :
    after.sq = ring.sq ∧ after.enters = ring.enters := by
  induction entries generalizing limit ring reap with
  | nil =>
    cases hreap
    exact ⟨rfl, rfl⟩
  | cons entry entries ih =>
    cases limit with
    | zero =>
      cases hreap
      exact ⟨rfl, rfl⟩
    | succ limit =>
      simp only [Uring.reapEntries] at hreap
      split at hreap
      · simp only [bind_eq_ok, pure_ok, Except.ok.injEq, Prod.mk.injEq] at hreap
        obtain ⟨⟨rest, _⟩, hrest, -, rfl⟩ := hreap
        have hsame := ih hrest
        exact hsame
      · simp only [bind_eq_ok] at hreap
        obtain ⟨⟨outcome, middle⟩, hone, hreap⟩ := hreap
        obtain ⟨hsq, henters⟩ := reapOperation hone
        cases outcome with
        | none =>
          simp only [bind_eq_ok, pure_ok, Except.ok.injEq, Prod.mk.injEq] at hreap
          obtain ⟨⟨rest, _⟩, hrest, -, rfl⟩ := hreap
          obtain ⟨hsq', henters'⟩ := ih hrest
          exact ⟨hsq'.trans hsq, henters'.trans henters⟩
        | some completed =>
          obtain ⟨completion, retire⟩ := completed
          dsimp only at hreap
          split at hreap
          · cases hreap
            exact ⟨hsq, henters⟩
          · simp only [bind_eq_ok, pure_ok, Except.ok.injEq, Prod.mk.injEq] at hreap
            obtain ⟨⟨rest, _⟩, hrest, -, rfl⟩ := hreap
            obtain ⟨hsq', henters'⟩ := ih hrest
            exact ⟨hsq'.trans hsq, henters'.trans henters⟩

/-- A pass of the reap can only add the wake request. -/
theorem reapRingLocked {stop : Bool} {limit : ℕ} {reap : Reap}
    (hreap : Uring.reapRingLocked C stop limit ring = .ok (reap, after)) : ring.Drains after := by
  simp only [Uring.reapRingLocked, bind_eq_ok] at hreap
  obtain ⟨_, _, ⟨found, middle⟩, hfound, hreap⟩ := hreap
  obtain ⟨hsq, henters⟩ := reapEntries hfound
  split at hreap
  · simp only [pushEntry, bind_eq_ok, ensure_eq_ok, pure_ok, Except.ok.injEq, Prod.mk.injEq] at hreap
    obtain ⟨_, ⟨_, _, rfl⟩, -, rfl⟩ := hreap
    refine ⟨⟨[], henters⟩, fun token hmem ↦ ?_⟩
    rw [← hsq]
    simpa using hmem
  · cases hreap
    refine ⟨⟨[], henters⟩, fun token hmem ↦ ?_⟩
    rw [← hsq]
    exact hmem

theorem retireAll {ids : List FileId} {value : Unit}
    (hrun : (Uring.retireAll C ids).run ring = .ok (value, after)) : ring.Drains after := by
  induction ids generalizing ring with
  | nil =>
    cases hrun
    exact .refl _
  | cons id ids ih =>
    simp only [Uring.retireAll, Uring.retire, Program.run_bind_eq_ok, Program.run_act] at hrun
    obtain ⟨_, _, ⟨_, _, hretire, hfinish⟩, hrest⟩ := hrun
    exact (call hretire).trans ((call hfinish).trans (ih hrest))

theorem reapAdditional {limit : ℕ} {first additional : Reap}
    (hrun : (Uring.reapAdditional C limit first).run ring = .ok (additional, after)) :
    ring.Drains after := by
  unfold Uring.reapAdditional at hrun
  split at hrun
  · cases hrun
    exact .refl ring
  · simp only [Program.run_bind_eq_ok] at hrun
    obtain ⟨_, middle, hcheck, hrun⟩ := hrun
    obtain rfl : middle = ring := by
      unfold ensure at hcheck
      split at hcheck
      · cases hcheck
        rfl
      · cases hcheck
    split at hrun
    · rw [Program.run_act] at hrun
      exact reapRingLocked hrun
    · cases hrun
      exact .refl _

theorem reapRing {limit : ℕ} {rearmed : Enter} {completions : List Completion}
    (hrun : (Uring.reapRing C limit rearmed).run ring = .ok (completions, after)) :
    ring.Drains after := by
  simp only [Uring.reapRing, Program.run_bind_eq_ok, Program.run_act] at hrun
  obtain ⟨first, afterFirst, hfirst, additional, afterAdditional, hadditional, hrun⟩ := hrun
  have hreaped := (reapRingLocked hfirst).trans (reapAdditional hadditional)
  have hretired {ring' : Uring} (hretire : (do
      Uring.retireAll C (first.retires ++ additional.retires)
      return first.completions ++ additional.completions : PollM (List Completion)).run ring' =
        .ok (completions, after)) : ring'.Drains after := by
    simp only [Program.run_bind_eq_ok] at hretire
    obtain ⟨_, _, hretire, hdone⟩ := hretire
    cases hdone
    exact retireAll hretire
  split at hrun
  · simp only [Program.run_bind_eq_ok, Program.run_act] at hrun
    obtain ⟨_, entered, hsubmit, hrun⟩ := hrun
    refine hreaped.trans ((submit hsubmit).trans (hretired ?_))
    simp only [Program.run_bind_eq_ok]
    exact hrun
  · exact hreaped.trans (hretired hrun)

end Drains

/-- A step before the fill: the queues that matter to it stay as they are. -/
structure Quiet (ring after : Uring) : Prop where
  sq : after.sq = ring.sq
  enters : after.enters = ring.enters
  ready : after.machine.shared.ready = ring.machine.shared.ready
  backlog : after.machine.shared.completionBacklog = ring.machine.shared.completionBacklog

namespace Quiet

variable {middle after : Uring}

theorem refl (ring : Uring) : ring.Quiet ring := ⟨rfl, rfl, rfl, rfl⟩

theorem trans (hfirst : ring.Quiet middle) (hsecond : middle.Quiet after) : ring.Quiet after :=
  ⟨hsecond.sq.trans hfirst.sq, hsecond.enters.trans hfirst.enters,
    hsecond.ready.trans hfirst.ready, hsecond.backlog.trans hfirst.backlog⟩

theorem call {event : Uring → DriverEvent} {value : Unit}
    (hevent : ∀ machine, ring.machine.next C (event ring) = .ok machine →
      machine.shared.ready = ring.machine.shared.ready ∧
        machine.shared.completionBacklog = ring.machine.shared.completionBacklog)
    (hcall : Uring.call C event ring = .ok (value, after)) : ring.Quiet after := by
  simp only [Uring.call, bind_eq_ok, pure_ok, Except.ok.injEq, Prod.mk.injEq] at hcall
  obtain ⟨machine, hnext, -, rfl⟩ := hcall
  obtain ⟨hready, hbacklog⟩ := hevent machine hnext
  exact ⟨rfl, rfl, hready, hbacklog⟩

theorem retire {id : FileId} {value : Unit}
    (hrun : (Uring.retire C id).run ring = .ok (value, after)) : ring.Quiet after := by
  simp only [Uring.retire, Program.run_bind_eq_ok, Program.run_act] at hrun
  obtain ⟨_, middle, hretire, hfinish⟩ := hrun
  refine (call (fun machine hnext ↦ ?_) hretire).trans (call (fun machine hnext ↦ ?_) hfinish)
  · simp only [Machine.next] at hnext
    split at hnext
    · cases hnext
      exact ⟨rfl, rfl⟩
    · cases hnext
      exact ⟨rfl, rfl⟩
  · simp only [Machine.next] at hnext
    split at hnext
    · simp only [bind_eq_ok, pure_ok, Except.ok.injEq] at hnext
      obtain ⟨shared, hfinish, rfl⟩ := hnext
      obtain ⟨-, -, rfl⟩ := Shared.finishRetire_eq_ok hfinish
      exact ⟨rfl, rfl⟩
    · cases hnext
      exact ⟨rfl, rfl⟩

theorem retireAll {ids : List FileId} {value : Unit}
    (hrun : (Uring.retireAll C ids).run ring = .ok (value, after)) : ring.Quiet after := by
  induction ids generalizing ring with
  | nil =>
    cases hrun
    exact .refl _
  | cons id ids ih =>
    simp only [Uring.retireAll, Program.run_bind_eq_ok] at hrun
    obtain ⟨_, _, hretire, hrest⟩ := hrun
    exact (retire hretire).trans (ih hrest)

theorem popDeferred {popped : Option (Option FileId)}
    (hpop : Uring.popDeferred C ring = .ok (popped, after)) : ring.Quiet after := by
  simp only [Uring.popDeferred, bind_eq_ok, pure_ok, Except.ok.injEq, Prod.mk.injEq] at hpop
  obtain ⟨_, -, ⟨_, _⟩, hcall, -, rfl⟩ := hpop
  refine call (fun machine hnext ↦ ?_) hcall
  simp only [Machine.next, Shared.popDeferred, bind_eq_ok, pure_ok, Except.ok.injEq] at hnext
  obtain ⟨⟨_, shared⟩, hpop, rfl⟩ := hnext
  split at hpop
  · cases hpop
    exact ⟨rfl, rfl⟩
  · cases hpop
    exact ⟨rfl, rfl⟩

theorem flushDeferred {count : ℕ} {value : Unit}
    (hrun : (Uring.flushDeferred C count).run ring = .ok (value, after)) : ring.Quiet after := by
  induction count generalizing ring with
  | zero =>
    cases hrun
    exact .refl _
  | succ count ih =>
    simp only [Uring.flushDeferred, Program.run_bind_eq_ok, Program.run_act] at hrun
    obtain ⟨popped, _, hpop, hrun⟩ := hrun
    cases popped with
    | none =>
      cases hrun
      exact popDeferred hpop
    | some due =>
      simp only [Program.run_bind_eq_ok] at hrun
      obtain ⟨_, _, hretire, hrest⟩ := hrun
      exact (popDeferred hpop).trans ((retireAll hretire).trans (ih hrest))

end Quiet

end DiosPool.Driver.Uring
