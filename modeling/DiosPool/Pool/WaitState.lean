import DiosPool.Foundation.Counting
import DiosPool.Pool.Threads

/-!
# Waiting for wakes and for releases

The latch of a pool: wakes raise its generation, and a caller that finds no new generation parks.
The last drop of a handle announces itself by a flag, and raises the generation only if somebody is
parked. Each part under the lock of the latch is one step. The releases that announce themselves go
through the ring, which the pool drains after it has cleared the flag.
-/

namespace DiosPool.Wait

open Foundation Pool

/-! ## The latch -/

/-- `fetch_add(1)` on an `AtomicU32`. -/
def u32Succ (value : ℕ) : ℕ := (value + 1) % 2 ^ 32

/-- `fetch_sub(1)` on an `AtomicU32`. -/
def u32Pred (value : ℕ) : ℕ := if value = 0 then 2 ^ 32 - 1 else value - 1

structure WaitCounters where
  parksEntered : ℕ
  parksInProgress : ℕ
  parksExited : ℕ
  wakeExits : ℕ
  timeoutExits : ℕ

structure WaitGeneration where
  current : ℕ
  consumed : ℕ
  ringPending : Bool

inductive PlatformWaitOutcome
  | progress
  | deadline
  deriving DecidableEq, Repr

/-- Where a caller stands: parked in `wait`, armed by `begin_platform_wait`, or in
`finish_platform_wait` with the lock released. An armed caller remembers its generation. How many
wakes and announcements came since then is noted for the statements only. -/
inductive Caller
  | idle
  | parked (armed signals : ℕ)
  | platform (armed signals : ℕ)
  | leaving (woken : Bool) (outcome : PlatformWaitOutcome)
  deriving DecidableEq

namespace Caller

/-- One more signal reaches an armed caller. -/
def signalled : Caller → Caller
  | .parked armed signals => .parked armed (signals + 1)
  | .platform armed signals => .platform armed (signals + 1)
  | caller => caller

/-- The generation of an armed caller, and the signals since. -/
def armed : Caller → Option (ℕ × ℕ)
  | .parked armed signals => some (armed, signals)
  | .platform armed signals => some (armed, signals)
  | _ => none

/-- Whether the caller counts as a park in progress. -/
def parks : Caller → ℕ
  | .idle => 0
  | _ => 1

end Caller

/-- `WaitState` with its callers. The number of wakes that nobody consumed is noted for the
statements only. -/
structure WaitState where
  generation : WaitGeneration
  ringPendingHint : Bool
  counters : WaitCounters
  callers : ℕ → Caller
  unconsumed : ℕ

def WaitState.default : WaitState where
  generation := ⟨0, 0, false⟩
  ringPendingHint := false
  counters := ⟨0, 0, 0, 0, 0⟩
  callers _ := .idle
  unconsumed := 0

namespace WaitState

variable (state : WaitState)

/-- `wrapping_add(1)` on the current generation. -/
def advance : WaitState :=
  { state with
    generation := { state.generation with current := (state.generation.current + 1) % 2 ^ 64 }
    unconsumed := state.unconsumed + 1 }

/-- Every armed caller notes the signal. -/
def signal : WaitState := { state with callers := fun caller ↦ (state.callers caller).signalled }

def wake : WaitState := state.advance.signal

def publishRingPendingAndWakeIfParked : WaitState :=
  let pending := { state with
    generation := { state.generation with ringPending := true }
    ringPendingHint := true }
  if state.counters.parksInProgress = 0 then pending.signal else pending.advance.signal

def clearRingPending : WaitState :=
  { state with
    generation := { state.generation with ringPending := false }
    ringPendingHint := false }

def consumeCurrent : WaitState :=
  { state with
    generation := { state.generation with consumed := state.generation.current }
    unconsumed := 0 }

def setCaller (caller : ℕ) (stage : Caller) : WaitState :=
  { state with callers := Function.update state.callers caller stage }

/-- What `wait` and `begin_platform_wait` do first. The generation is there if the caller has to
park. -/
def arm : Option ℕ × WaitState :=
  if state.generation.current ≠ state.generation.consumed then
    (none, state.consumeCurrent)
  else
    let counters :=
      { state.counters with parksInProgress := u32Succ state.counters.parksInProgress }
    if state.generation.ringPending then
      (none, { state with
        counters := { counters with parksInProgress := u32Pred counters.parksInProgress } })
    else
      (some state.generation.current, { state with
        counters := { counters with parksEntered := u32Succ counters.parksEntered } })

/-- The caller goes to a stage if it has to park. -/
def enter (stage : ℕ → ℕ → Caller) (caller : ℕ) : WaitState :=
  state.arm.1.elim state.arm.2 fun armed ↦ state.arm.2.setCaller caller (stage armed 0)

/-- The part of `wait` before the caller parks. -/
def wait (caller : ℕ) : WaitState := state.enter .parked caller

def beginPlatformWait (caller : ℕ) : WaitState := state.enter .platform caller

/-- The counters of a caller that leaves. -/
def exit (woken : Bool) : WaitState :=
  { state with counters :=
    { state.counters with
      parksInProgress := u32Pred state.counters.parksInProgress
      parksExited := u32Succ state.counters.parksExited
      wakeExits :=
        if woken then u32Succ state.counters.wakeExits else state.counters.wakeExits
      timeoutExits :=
        if woken then state.counters.timeoutExits else u32Succ state.counters.timeoutExits } }

/-- A parked caller gets the lock back, because it is notified, for no reason or because its time is
over. It leaves if the generation is another one or the time is over. -/
def resume (caller armed : ℕ) (timeout : Bool) : WaitState :=
  if state.generation.current ≠ armed then
    (state.consumeCurrent.exit true).setCaller caller .idle
  else if timeout then
    (state.exit false).setCaller caller .idle
  else
    state

def platformWoken (armed : ℕ) : Bool := state.generation.current ≠ armed

/-- The part of `finish_platform_wait` under the lock. -/
def finishPlatformWait (caller armed : ℕ) (outcome : PlatformWaitOutcome) : WaitState :=
  let woken := state.platformWoken armed
  (if woken then state.consumeCurrent else state).setCaller caller (.leaving woken outcome)

/-- The rest of `finish_platform_wait`. -/
def leavePlatformWait (caller : ℕ) (woken : Bool) (outcome : PlatformWaitOutcome) : WaitState :=
  (state.exit (woken || outcome = .progress)).setCaller caller .idle

end WaitState

/-! ## Releases -/

/-- Where the last drop of a held frame stands: it has a ticket, or its entry is pushed and not
announced. -/
inductive Releaser
  | idle
  | claimed (frame ticket : ℕ)
  | pushed
  deriving DecidableEq

structure World where
  wait : WaitState
  ring : ReleaseRing
  releasers : ℕ → Releaser
  /-- How many entries the drain that goes on may still pop. -/
  drain : Option ℕ

def initial : World := ⟨.default, ⟨0, []⟩, fun _ ↦ .idle, none⟩

inductive Choice
  | wake
  | claim (releaser frame : ℕ)
  | push (releaser : ℕ)
  | announce (releaser : ℕ)
  | drain
  | consume
  | wait (caller : ℕ)
  | resume (caller : ℕ) (timeout : Bool)
  | beginPlatformWait (caller : ℕ)
  | finishPlatformWait (caller : ℕ) (outcome : PlatformWaitOutcome)
  | leavePlatformWait (caller : ℕ)
  deriving DecidableEq, Repr

namespace World

def setReleaser (world : World) (index : ℕ) (releaser : Releaser) : World :=
  { world with releasers := Function.update world.releasers index releaser }

/-- The next step of `drain_releases`. -/
def drainStep (maxRetainedFrames : ℕ) (world : World) : World :=
  match world.drain, world.ring.entries with
  | none, _ => { world with wait := world.wait.clearRingPending, drain := some maxRetainedFrames }
  | some (turns + 1), some _ :: entries =>
    { world with ring := ⟨world.ring.head + 1, entries⟩, drain := some turns }
  | some _, _ => { world with drain := none }

/-- The world after one choice. A thread does one thing at a time. Every entry of the ring holds a
unit of the retention budget, so that a release finds fewer than `max_retained_frames` of them. -/
def next (maxRetainedFrames threads : ℕ) (world : World) : Choice → World
  | .wake => { world with wait := world.wait.wake }
  | .claim index frame =>
    if world.releasers index = .idle ∧ world.ring.entries.length < maxRetainedFrames then
      { world with ring := { world.ring with entries := world.ring.entries ++ [none] } }
        |>.setReleaser index (.claimed frame (world.ring.head + world.ring.entries.length))
    else
      world
  | .push index =>
    match world.releasers index with
    | .claimed frame ticket =>
      { world with ring := { world.ring with
        entries := world.ring.entries.set (ticket - world.ring.head) (some frame) } }
        |>.setReleaser index .pushed
    | _ => world
  | .announce index =>
    match world.releasers index with
    | .pushed =>
      { world with wait := world.wait.publishRingPendingAndWakeIfParked }.setReleaser index .idle
    | _ => world
  | .drain => world.drainStep maxRetainedFrames
  | .consume => { world with wait := world.wait.consumeCurrent }
  | .wait caller =>
    if caller < threads ∧ world.wait.callers caller = .idle then
      { world with wait := world.wait.wait caller }
    else
      world
  | .resume caller timeout =>
    match world.wait.callers caller with
    | .parked armed _ => { world with wait := world.wait.resume caller armed timeout }
    | _ => world
  | .beginPlatformWait caller =>
    if caller < threads ∧ world.wait.callers caller = .idle then
      { world with wait := world.wait.beginPlatformWait caller }
    else
      world
  | .finishPlatformWait caller outcome =>
    match world.wait.callers caller with
    | .platform armed _ => { world with wait := world.wait.finishPlatformWait caller armed outcome }
    | _ => world
  | .leavePlatformWait caller =>
    match world.wait.callers caller with
    | .leaving woken outcome =>
      { world with wait := world.wait.leavePlatformWait caller woken outcome }
    | _ => world

end World

/-- The world after a schedule, with as many threads as callers. -/
def run (maxRetainedFrames threads : ℕ) (schedule : List Choice) : World :=
  schedule.foldl (World.next maxRetainedFrames threads) initial

/-! ## The generations of armed callers -/

/-- The generation has come as far from the consumed one as there are wakes that nobody consumed, and
as far from the one of an armed caller as there were signals since. Callers in `wait` and in platform
waits are parks in progress. -/
structure Latched (threads : ℕ) (state : WaitState) : Prop where
  consumed_lt : state.generation.consumed < 2 ^ 64
  current_eq : state.generation.current = (state.generation.consumed + state.unconsumed) % 2 ^ 64
  armed : ∀ caller armed signals, (state.callers caller).armed = some (armed, signals) →
    armed < 2 ^ 64 ∧ state.generation.current = (armed + signals) % 2 ^ 64
  beyond : ∀ caller, threads ≤ caller → state.callers caller = .idle
  parks : state.counters.parksInProgress =
    (∑ caller ∈ Finset.range threads, (state.callers caller).parks) % 2 ^ 32

theorem latched_default (threads : ℕ) : Latched threads .default where
  consumed_lt := by decide
  current_eq := rfl
  armed caller armed signals harmed := by cases harmed
  beyond _ _ := rfl
  parks := by
    change 0 = (∑ caller ∈ Finset.range threads, 0) % 2 ^ 32
    rw [Finset.sum_const_zero, Nat.zero_mod]

theorem u32Succ_lt (value : ℕ) : u32Succ value < 2 ^ 32 := Nat.mod_lt _ (by decide)

theorem u32Pred_lt {value : ℕ} (hlt : value < 2 ^ 32) : u32Pred value < 2 ^ 32 := by
  unfold u32Pred
  split <;> omega

theorem u32Pred_u32Succ {value : ℕ} (hlt : value < 2 ^ 32) : u32Pred (u32Succ value) = value := by
  unfold u32Pred u32Succ
  split <;> omega

@[simp] theorem Caller.signalled_parks (caller : Caller) : caller.signalled.parks = caller.parks := by
  cases caller <;> rfl

theorem Caller.signalled_armed {caller : Caller} {armed signals : ℕ}
    (h : caller.signalled.armed = some (armed, signals)) :
    ∃ before, caller.armed = some (armed, before) ∧ signals = before + 1 := by
  cases caller with
  | idle => cases h
  | parked armed before =>
    cases h
    exact ⟨before, rfl, rfl⟩
  | platform armed before =>
    cases h
    exact ⟨before, rfl, rfl⟩
  | leaving => cases h

namespace Latched

variable {threads : ℕ} {state : WaitState}

theorem current_lt (h : Latched threads state) : state.generation.current < 2 ^ 64 := by
  rw [h.current_eq]
  exact Nat.mod_lt _ (by decide)

theorem parks_lt (h : Latched threads state) : state.counters.parksInProgress < 2 ^ 32 := by
  rw [h.parks]
  exact Nat.mod_lt _ (by decide)

/-- If no park is in progress, no caller is armed. -/
theorem idle (h : Latched threads state) (hthreads : threads < 2 ^ 32)
    (hparks : state.counters.parksInProgress = 0) (caller : ℕ) : state.callers caller = .idle := by
  by_cases hbeyond : threads ≤ caller
  · exact h.beyond caller hbeyond
  · have hle : ∑ other ∈ Finset.range threads, (state.callers other).parks ≤ threads := by
      calc ∑ other ∈ Finset.range threads, (state.callers other).parks
          ≤ ∑ _other ∈ Finset.range threads, 1 := by
            refine Finset.sum_le_sum fun other _ ↦ ?_
            cases state.callers other <;> simp [Caller.parks]
        _ = threads := by simp
    have hsum : ∑ other ∈ Finset.range threads, (state.callers other).parks = 0 := by
      have hmod := h.parks
      rw [hparks, Nat.mod_eq_of_lt (lt_of_le_of_lt hle hthreads)] at hmod
      exact hmod.symm
    have hcaller := Finset.sum_eq_zero_iff.mp hsum caller
      (Finset.mem_range.mpr (not_le.mp hbeyond))
    cases hstage : state.callers caller with
    | idle => rfl
    | _ => rw [hstage] at hcaller; cases hcaller

/-- A new generation is a signal for every armed caller. -/
theorem advance_signal (h : Latched threads state) : Latched threads state.advance.signal where
  consumed_lt := h.consumed_lt
  current_eq := by
    simp only [WaitState.signal, WaitState.advance]
    rw [h.current_eq, Nat.mod_add_mod, Nat.add_assoc]
  armed caller armed signals harmed := by
    obtain ⟨before, hbefore, rfl⟩ := Caller.signalled_armed harmed
    obtain ⟨hlt, hcurrent⟩ := h.armed caller armed before hbefore
    refine ⟨hlt, ?_⟩
    simp only [WaitState.signal, WaitState.advance]
    rw [hcurrent, Nat.mod_add_mod, Nat.add_assoc]
  beyond caller hcaller := by
    simp only [WaitState.signal, WaitState.advance, h.beyond caller hcaller]
    rfl
  parks := by
    simp only [WaitState.signal, WaitState.advance, Caller.signalled_parks]
    exact h.parks

/-- The flag is no part of it. -/
theorem flag (h : Latched threads state) (ringPending ringPendingHint : Bool) :
    Latched threads { state with
      generation := { state.generation with ringPending }
      ringPendingHint } :=
  { h with }

theorem publish (h : Latched threads state) (hthreads : threads < 2 ^ 32) :
    Latched threads state.publishRingPendingAndWakeIfParked := by
  unfold WaitState.publishRingPendingAndWakeIfParked
  dsimp only
  split
  · rename_i hparks
    -- nobody is parked, so that nobody notes the signal
    have hidle := h.idle hthreads hparks
    have hsame : (fun caller ↦ (state.callers caller).signalled) = state.callers := by
      funext caller
      rw [hidle caller]
      rfl
    unfold WaitState.signal
    dsimp only
    rw [hsame]
    exact h.flag true true
  · exact (h.flag true true).advance_signal

theorem consumeCurrent (h : Latched threads state) : Latched threads state.consumeCurrent where
  consumed_lt := h.current_lt
  current_eq := by
    simp only [WaitState.consumeCurrent, add_zero]
    exact (Nat.mod_eq_of_lt h.current_lt).symm
  armed := h.armed
  beyond := h.beyond
  parks := h.parks

/-- A caller changes its stage, and the counter goes with it. -/
theorem setCaller (h : Latched threads state) {caller : ℕ} {stage : Caller}
    {counters : WaitCounters} (hcaller : caller < threads)
    (harmed : ∀ armed signals, stage.armed = some (armed, signals) →
      armed < 2 ^ 64 ∧ state.generation.current = (armed + signals) % 2 ^ 64)
    (hparks : (counters.parksInProgress + (state.callers caller).parks) % 2 ^ 32 =
      (state.counters.parksInProgress + stage.parks) % 2 ^ 32)
    (hlt : counters.parksInProgress < 2 ^ 32) :
    Latched threads ({ state with counters }.setCaller caller stage) where
  consumed_lt := h.consumed_lt
  current_eq := h.current_eq
  armed other armed signals hother := by
    by_cases heq : other = caller
    · simp only [WaitState.setCaller, heq, Function.update_self] at hother
      exact harmed armed signals hother
    · simp only [WaitState.setCaller, Function.update_of_ne heq] at hother
      exact h.armed other armed signals hother
  beyond other hother := by
    have hne : other ≠ caller := by omega
    simp only [WaitState.setCaller, Function.update_of_ne hne]
    exact h.beyond other hother
  parks := by
    have hsum := sum_range_update_add hcaller (fun _ stage ↦ Caller.parks stage) state.callers stage
    have hold := h.parks
    simp only [WaitState.setCaller]
    omega

/-- A caller that has to park is armed with the current generation. -/
theorem enter (h : Latched threads state) {caller : ℕ} (hcaller : caller < threads)
    (hidle : state.callers caller = .idle) {stage : ℕ → ℕ → Caller}
    (harmed : ∀ armed signals, (stage armed signals).armed = some (armed, signals))
    (hparks : ∀ armed signals, (stage armed signals).parks = 1) :
    Latched threads (state.enter stage caller) := by
  unfold WaitState.enter WaitState.arm
  split
  · exact h.consumeCurrent
  · dsimp only
    split
    · have hparks := u32Pred_u32Succ h.parks_lt
      simp only [hparks]
      exact h
    · refine h.setCaller hcaller ?_ ?_ (u32Succ_lt _)
      · intro armed signals hstage
        cases (harmed _ _).symm.trans hstage
        exact ⟨h.current_lt, (Nat.mod_eq_of_lt h.current_lt).symm⟩
      · rw [hidle, hparks]
        simp only [u32Succ, Caller.parks]
        omega

/-- A caller that was a park in progress leaves. -/
theorem exit (h : Latched threads state) {caller : ℕ} (hcaller : caller < threads)
    (hparks : (state.callers caller).parks = 1) (woken : Bool) :
    Latched threads ((state.exit woken).setCaller caller .idle) := by
  refine h.setCaller hcaller (fun armed signals harmed ↦ by cases harmed) ?_
    (u32Pred_lt h.parks_lt)
  rw [hparks]
  simp only [u32Pred, Caller.parks]
  split <;> omega

theorem caller_lt (h : Latched threads state) {caller : ℕ} (hbusy : state.callers caller ≠ .idle) :
    caller < threads := by
  by_contra hle
  exact hbusy (h.beyond caller (not_lt.mp hle))

theorem resume (h : Latched threads state) {caller armed signals : ℕ}
    (hparked : state.callers caller = .parked armed signals) (timeout : Bool) :
    Latched threads (state.resume caller armed timeout) := by
  have hcaller : caller < threads := h.caller_lt (by rw [hparked]; exact Caller.noConfusion)
  have hparks : (state.callers caller).parks = 1 := by
    rw [hparked]
    rfl
  unfold WaitState.resume
  split
  · exact h.consumeCurrent.exit hcaller hparks true
  · split
    · exact h.exit hcaller hparks false
    · exact h

theorem finishPlatformWait (h : Latched threads state) {caller armed signals : ℕ}
    (hplatform : state.callers caller = .platform armed signals) (outcome : PlatformWaitOutcome) :
    Latched threads (state.finishPlatformWait caller armed outcome) := by
  have hcaller : caller < threads := h.caller_lt (by rw [hplatform]; exact Caller.noConfusion)
  unfold WaitState.finishPlatformWait
  dsimp only
  split
  · refine h.consumeCurrent.setCaller hcaller (fun armed signals harmed ↦ by cases harmed) ?_
      h.parks_lt
    simp only [WaitState.consumeCurrent, hplatform, Caller.parks]
  · refine h.setCaller hcaller (fun armed signals harmed ↦ by cases harmed) ?_ h.parks_lt
    simp only [hplatform, Caller.parks]

theorem leavePlatformWait (h : Latched threads state) {caller : ℕ} {woken : Bool}
    {outcome : PlatformWaitOutcome} (hleaving : state.callers caller = .leaving woken outcome) :
    Latched threads (state.leavePlatformWait caller woken outcome) := by
  have hcaller : caller < threads := h.caller_lt (by rw [hleaving]; exact Caller.noConfusion)
  exact h.exit hcaller (by rw [hleaving]; rfl) _

end Latched

theorem World.latched_next {maxRetainedFrames threads : ℕ} (hthreads : threads < 2 ^ 32)
    {world : World} (h : Latched threads world.wait) (choice : Choice) :
    Latched threads (world.next maxRetainedFrames threads choice).wait := by
  cases choice with
  | wake => exact h.advance_signal
  | claim index frame =>
    unfold World.next
    dsimp only
    split <;> exact h
  | push index =>
    unfold World.next
    dsimp only
    split <;> exact h
  | announce index =>
    unfold World.next
    dsimp only
    split
    · exact h.publish hthreads
    · exact h
  | drain =>
    unfold World.next World.drainStep
    dsimp only
    split
    · exact h.flag false false
    · exact h
    · exact h
  | consume => exact h.consumeCurrent
  | wait caller =>
    unfold World.next
    dsimp only
    split
    · rename_i hidle
      exact h.enter hidle.1 hidle.2 (fun _ _ ↦ rfl) fun _ _ ↦ rfl
    · exact h
  | resume caller timeout =>
    unfold World.next
    dsimp only
    split
    · rename_i hparked
      exact h.resume hparked timeout
    · exact h
  | beginPlatformWait caller =>
    unfold World.next
    dsimp only
    split
    · rename_i hidle
      exact h.enter hidle.1 hidle.2 (fun _ _ ↦ rfl) fun _ _ ↦ rfl
    · exact h
  | finishPlatformWait caller outcome =>
    unfold World.next
    dsimp only
    split
    · rename_i hplatform
      exact h.finishPlatformWait hplatform outcome
    · exact h
  | leavePlatformWait caller =>
    unfold World.next
    dsimp only
    split
    · rename_i hleaving
      exact h.leavePlatformWait hleaving
    · exact h

/-! ## Announced releases -/

/-- An entry of the ring belongs to a release that has a ticket, or is pushed. A pushed entry is
announced, or some release is on its way to announce itself, or the drain gets to the entry. -/
structure Announced (maxRetainedFrames : ℕ) (world : World) : Prop where
  length_le : world.ring.entries.length ≤ maxRetainedFrames
  claimed : ∀ index frame ticket, world.releasers index = .claimed frame ticket →
    ∃ place, ticket = world.ring.head + place ∧ world.ring.entries[place]? = some none
  waiting : ∀ place : ℕ, world.ring.entries[place]? = some none →
    ∃ index frame, world.releasers index = .claimed frame (world.ring.head + place)
  distinct : ∀ first second frame frame' ticket, world.releasers first = .claimed frame ticket →
    world.releasers second = .claimed frame' ticket → first = second
  pushed : ∀ place frame : ℕ, world.ring.entries[place]? = some (some frame) →
    world.wait.generation.ringPending = true ∨ (∃ index, world.releasers index ≠ .idle) ∨
      ∃ turns, world.drain = some turns ∧ place < turns

theorem announced_initial (maxRetainedFrames : ℕ) : Announced maxRetainedFrames initial where
  length_le := Nat.zero_le _
  claimed index frame ticket hclaimed := by cases hclaimed
  waiting place hplace := by cases hplace
  distinct first second frame frame' ticket hfirst := by cases hfirst
  pushed place frame hplace := by cases hplace

namespace Announced

variable {maxRetainedFrames : ℕ} {world : World}

/-- The latch matters only by its flag. -/
theorem setWait (h : Announced maxRetainedFrames world) {wait : WaitState}
    (hflag : wait.generation.ringPending = world.wait.generation.ringPending) :
    Announced maxRetainedFrames { world with wait } := by
  refine { h with pushed := fun place frame hplace ↦ ?_ }
  rw [hflag]
  exact h.pushed place frame hplace

/-- A ticket that was not handed out. -/
theorem not_claimed (h : Announced maxRetainedFrames world) {index frame : ℕ} :
    world.releasers index ≠ .claimed frame (world.ring.head + world.ring.entries.length) := by
  intro hclaimed
  obtain ⟨place, hticket, hplace⟩ := h.claimed index frame _ hclaimed
  have hlt := (List.getElem?_eq_some_iff.mp hplace).1
  omega

theorem claim (h : Announced maxRetainedFrames world) {index frame : ℕ}
    (hidle : world.releasers index = .idle)
    (hroom : world.ring.entries.length < maxRetainedFrames) :
    Announced maxRetainedFrames ({ world with
      ring := { world.ring with entries := world.ring.entries ++ [none] } }.setReleaser index
        (.claimed frame (world.ring.head + world.ring.entries.length))) := by
  constructor
  case length_le => simpa [World.setReleaser] using hroom
  case claimed =>
    intro other named ticket hother
    by_cases heq : other = index
    · simp only [World.setReleaser, heq, Function.update_self, Releaser.claimed.injEq] at hother
      exact ⟨world.ring.entries.length, hother.2.symm, List.getElem?_concat_length⟩
    · simp only [World.setReleaser, Function.update_of_ne heq] at hother
      obtain ⟨place, rfl, hplace⟩ := h.claimed other named ticket hother
      refine ⟨place, rfl, ?_⟩
      exact (List.getElem?_append_left (List.getElem?_eq_some_iff.mp hplace).1).trans hplace
  case waiting =>
    intro place hplace
    simp only [World.setReleaser] at hplace ⊢
    by_cases hlt : place < world.ring.entries.length
    · rw [List.getElem?_append_left hlt] at hplace
      obtain ⟨other, named, hother⟩ := h.waiting place hplace
      have hne : other ≠ index := by
        rintro rfl
        rw [hidle] at hother
        cases hother
      exact ⟨other, named, by rw [Function.update_of_ne hne, hother]⟩
    · have hlast : place = world.ring.entries.length := by
        have hle := (List.getElem?_eq_some_iff.mp hplace).1
        rw [List.length_append, List.length_singleton] at hle
        omega
      exact ⟨index, frame, by rw [Function.update_self, hlast]⟩
  case distinct =>
    intro first second named named' ticket hfirst hsecond
    simp only [World.setReleaser] at hfirst hsecond
    by_cases hindex : first = index <;> by_cases hindex' : second = index
    · rw [hindex, hindex']
    · rw [hindex, Function.update_self] at hfirst
      rw [Function.update_of_ne hindex'] at hsecond
      cases hfirst
      exact absurd hsecond h.not_claimed
    · rw [hindex', Function.update_self] at hsecond
      rw [Function.update_of_ne hindex] at hfirst
      cases hsecond
      exact absurd hfirst h.not_claimed
    · rw [Function.update_of_ne hindex] at hfirst
      rw [Function.update_of_ne hindex'] at hsecond
      exact h.distinct first second named named' ticket hfirst hsecond
  case pushed =>
    intro place named _
    refine .inr (.inl ⟨index, ?_⟩)
    simp only [World.setReleaser, Function.update_self]
    exact Releaser.noConfusion

/-- Who still has a ticket after a release has moved on. -/
theorem claimed_of_update {index other frame ticket : ℕ} {releaser : Releaser}
    (hreleaser : ∀ frame ticket, releaser ≠ .claimed frame ticket)
    (hother : Function.update world.releasers index releaser other = .claimed frame ticket) :
    other ≠ index ∧ world.releasers other = .claimed frame ticket := by
  have hne : other ≠ index := by
    rintro rfl
    rw [Function.update_self] at hother
    exact hreleaser frame ticket hother
  rw [Function.update_of_ne hne] at hother
  exact ⟨hne, hother⟩

theorem push (h : Announced maxRetainedFrames world) {index frame ticket : ℕ}
    (hclaimed : world.releasers index = .claimed frame ticket) :
    Announced maxRetainedFrames ({ world with ring := { world.ring with
      entries := world.ring.entries.set (ticket - world.ring.head) (some frame) } }.setReleaser index
        .pushed) := by
  obtain ⟨place, rfl, hplace⟩ := h.claimed index frame ticket hclaimed
  rw [Nat.add_sub_cancel_left]
  have hpushed : ∀ frame ticket, Releaser.pushed ≠ .claimed frame ticket :=
    fun _ _ ↦ Releaser.noConfusion
  constructor
  case length_le => exact (List.length_set ..).trans_le h.length_le
  case claimed =>
    intro other named ticket hother
    obtain ⟨hne, hother⟩ := claimed_of_update hpushed hother
    obtain ⟨place', rfl, hplace'⟩ := h.claimed other named ticket hother
    have hdiffer : place ≠ place' := by
      rintro rfl
      exact hne (h.distinct other index named frame _ hother hclaimed)
    exact ⟨place', rfl, (List.getElem?_set_ne hdiffer).trans hplace'⟩
  case waiting =>
    intro place' hplace'
    have hdiffer : place ≠ place' := by
      rintro rfl
      have hset := List.getElem?_set_self (a := some frame) (List.getElem?_eq_some_iff.mp hplace).1
      cases hset.symm.trans hplace'
    obtain ⟨other, named, hother⟩ :=
      h.waiting place' ((List.getElem?_set_ne hdiffer).symm.trans hplace')
    have hne : other ≠ index := by
      rintro rfl
      rw [hclaimed] at hother
      simp only [Releaser.claimed.injEq] at hother
      omega
    exact ⟨other, named, (Function.update_of_ne hne _ _).trans hother⟩
  case distinct =>
    intro first second named named' ticket hfirst hsecond
    exact h.distinct first second named named' ticket (claimed_of_update hpushed hfirst).2
      (claimed_of_update hpushed hsecond).2
  case pushed =>
    intro place' named _
    refine .inr (.inl ⟨index, ?_⟩)
    simp only [World.setReleaser, Function.update_self]
    exact Releaser.noConfusion

/-- A release announces itself. -/
theorem announce (h : Announced maxRetainedFrames world) {index : ℕ}
    (hindex : world.releasers index = .pushed) {wait : WaitState}
    (hflag : wait.generation.ringPending = true) :
    Announced maxRetainedFrames ({ world with wait }.setReleaser index .idle) := by
  have hidle : ∀ frame ticket, Releaser.idle ≠ .claimed frame ticket :=
    fun _ _ ↦ Releaser.noConfusion
  constructor
  case length_le => exact h.length_le
  case claimed =>
    intro other named ticket hother
    exact h.claimed other named ticket (claimed_of_update hidle hother).2
  case waiting =>
    intro place hplace
    obtain ⟨other, named, hother⟩ := h.waiting place hplace
    have hne : other ≠ index := by
      rintro rfl
      rw [hindex] at hother
      cases hother
    exact ⟨other, named, (Function.update_of_ne hne _ _).trans hother⟩
  case distinct =>
    intro first second named named' ticket hfirst hsecond
    exact h.distinct first second named named' ticket (claimed_of_update hidle hfirst).2
      (claimed_of_update hidle hsecond).2
  case pushed => exact fun place named _ ↦ .inl hflag

/-- The next step of the drain: it sets out for every entry, pops the entry at the head, or stops at a
release that has not pushed its entry. -/
theorem drainStep (h : Announced maxRetainedFrames world) :
    Announced maxRetainedFrames (world.drainStep maxRetainedFrames) := by
  unfold World.drainStep
  split
  · refine { h with pushed := fun place named hplace ↦ .inr (.inr ⟨maxRetainedFrames, rfl, ?_⟩) }
    exact lt_of_lt_of_le (List.getElem?_eq_some_iff.mp hplace).1 h.length_le
  · rename_i turns popped entries hdrain hentries
    have hget : ∀ place, world.ring.entries[place + 1]? = entries[place]? := by
      intro place
      rw [hentries, List.getElem?_cons_succ]
    have hsucc : ∀ place, world.ring.head + 1 + place = world.ring.head + (place + 1) := by
      intro place
      omega
    constructor
    case length_le =>
      have hle := h.length_le
      rw [hentries, List.length_cons] at hle
      exact (Nat.le_succ _).trans hle
    case claimed =>
      intro other named ticket hother
      obtain ⟨place, rfl, hplace⟩ := h.claimed other named ticket hother
      cases place with
      | zero =>
        rw [hentries] at hplace
        cases hplace
      | succ place => exact ⟨place, (hsucc place).symm, (hget place).symm.trans hplace⟩
    case waiting =>
      intro place hplace
      obtain ⟨other, named, hother⟩ := h.waiting (place + 1) ((hget place).trans hplace)
      exact ⟨other, named, hother.trans (congrArg _ (hsucc place).symm)⟩
    case distinct => exact h.distinct
    case pushed =>
      intro place named hplace
      rcases h.pushed (place + 1) named ((hget place).trans hplace) with hflag | hbusy | hturns
      · exact .inl hflag
      · exact .inr (.inl hbusy)
      · obtain ⟨left, hleft, hlt⟩ := hturns
        cases hdrain.symm.trans hleft
        exact .inr (.inr ⟨turns, rfl, Nat.lt_of_succ_lt_succ hlt⟩)
  · rename_i turns hdrain hstop
    refine { h with pushed := fun place named hplace ↦ ?_ }
    rcases h.pushed place named hplace with hflag | hbusy | hturns
    · exact .inl hflag
    · exact .inr (.inl hbusy)
    · obtain ⟨left, hleft, hlt⟩ := hturns
      cases hdrain.symm.trans hleft
      -- the drain may pop the entry, so that it stops because the head is not pushed
      cases hentries : world.ring.entries with
      | nil =>
        rw [hentries] at hplace
        cases hplace
      | cons entry entries =>
        cases entry with
        | none =>
          obtain ⟨index, frame, hindex⟩ := h.waiting 0 (by rw [hentries]; rfl)
          refine .inr (.inl ⟨index, ?_⟩)
          rw [hindex]
          exact Releaser.noConfusion
        | some frame =>
          obtain ⟨fewer, rfl⟩ := Nat.exists_eq_add_of_lt hlt
          exact (hstop _ _ _ hentries rfl).elim

end Announced

/-! ## Runs -/

section Flag

variable (state : WaitState)

theorem ringPending_enter (stage : ℕ → ℕ → Caller) (caller : ℕ) :
    (state.enter stage caller).generation.ringPending = state.generation.ringPending := by
  unfold WaitState.enter WaitState.arm
  split
  · rfl
  · dsimp only
    split <;> rfl

theorem ringPending_resume (caller armed : ℕ) (timeout : Bool) :
    (state.resume caller armed timeout).generation.ringPending = state.generation.ringPending := by
  unfold WaitState.resume
  split
  · rfl
  · split <;> rfl

theorem ringPending_finishPlatformWait (caller armed : ℕ) (outcome : PlatformWaitOutcome) :
    (state.finishPlatformWait caller armed outcome).generation.ringPending =
      state.generation.ringPending := by
  unfold WaitState.finishPlatformWait
  dsimp only
  split <;> rfl

theorem ringPending_publish :
    state.publishRingPendingAndWakeIfParked.generation.ringPending = true := by
  unfold WaitState.publishRingPendingAndWakeIfParked
  dsimp only
  split <;> rfl

end Flag

section Runs

variable {maxRetainedFrames threads : ℕ} {world : World}

theorem Announced.next (h : Announced maxRetainedFrames world) (choice : Choice) :
    Announced maxRetainedFrames (world.next maxRetainedFrames threads choice) := by
  cases choice with
  | wake => exact h.setWait rfl
  | claim index frame =>
    unfold World.next
    dsimp only
    split
    · rename_i hclaim
      exact h.claim hclaim.1 hclaim.2
    · exact h
  | push index =>
    unfold World.next
    dsimp only
    split
    · rename_i hclaimed
      exact h.push hclaimed
    · exact h
  | announce index =>
    unfold World.next
    dsimp only
    split
    · rename_i hpushed
      exact h.announce hpushed (ringPending_publish world.wait)
    · exact h
  | drain => exact h.drainStep
  | consume => exact h.setWait rfl
  | wait caller =>
    unfold World.next
    dsimp only
    split
    · exact h.setWait (ringPending_enter _ _ _)
    · exact h
  | resume caller timeout =>
    unfold World.next
    dsimp only
    split
    · exact h.setWait (ringPending_resume _ _ _ _)
    · exact h
  | beginPlatformWait caller =>
    unfold World.next
    dsimp only
    split
    · exact h.setWait (ringPending_enter _ _ _)
    · exact h
  | finishPlatformWait caller outcome =>
    unfold World.next
    dsimp only
    split
    · exact h.setWait (ringPending_finishPlatformWait _ _ _ _)
    · exact h
  | leavePlatformWait caller =>
    unfold World.next
    dsimp only
    split
    · exact h.setWait rfl
    · exact h

theorem latched_run (maxRetainedFrames : ℕ) (hthreads : threads < 2 ^ 32) (schedule : List Choice) :
    Latched threads (run maxRetainedFrames threads schedule).wait := by
  induction schedule using List.reverseRecOn with
  | nil => exact latched_default threads
  | append_singleton schedule choice ih =>
    rw [run, List.foldl_concat]
    exact World.latched_next hthreads ih choice

theorem announced_run (maxRetainedFrames threads : ℕ) (schedule : List Choice) :
    Announced maxRetainedFrames (run maxRetainedFrames threads schedule) := by
  induction schedule using List.reverseRecOn with
  | nil => exact announced_initial maxRetainedFrames
  | append_singleton schedule choice ih =>
    rw [run, List.foldl_concat]
    exact ih.next choice

/-- A part of a wait, and whether it finds a wake. -/
def World.observesWake (world : World) : Choice → Option Bool
  | .wait _ => some (world.wait.generation.current ≠ world.wait.generation.consumed)
  | .beginPlatformWait _ => some (world.wait.generation.current ≠ world.wait.generation.consumed)
  | .resume caller _ =>
    some ((world.wait.callers caller).armed.any fun armed ↦ world.wait.platformWoken armed.1)
  | .finishPlatformWait caller _ =>
    some ((world.wait.callers caller).armed.any fun armed ↦ world.wait.platformWoken armed.1)
  | .leavePlatformWait _ => some false
  | _ => none

/-- The consumed generation, and the wakes that nobody consumed. -/
def World.consumption (world : World) : ℕ × ℕ :=
  (world.wait.generation.consumed, world.wait.unconsumed)

/-- The generation is the consumed one after a whole number of laps only. -/
theorem Latched.current_eq_consumed {state : WaitState} (h : Latched threads state)
    (heq : state.generation.current = state.generation.consumed)
    (hlap : state.unconsumed < 2 ^ 64) : state.unconsumed = 0 := by
  have hlt := h.consumed_lt
  have hcurrent := h.current_eq
  omega

theorem Latched.woken {state : WaitState} (h : Latched threads state) {caller armed signals : ℕ}
    (harmed : (state.callers caller).armed = some (armed, signals)) (hpos : 0 < signals)
    (hlap : signals < 2 ^ 64) : state.platformWoken armed = true := by
  obtain ⟨hlt, hcurrent⟩ := h.armed caller armed signals harmed
  have hne : state.generation.current ≠ armed := by omega
  exact decide_eq_true hne

/-- A caller gets armed only if the generation is consumed and no release is announced. -/
theorem WaitState.enter_armed {state : WaitState} {stage : ℕ → ℕ → Caller} {caller : ℕ}
    (hidle : state.callers caller = .idle)
    (harmed : ((state.enter stage caller).callers caller).armed ≠ none) :
    state.generation.current = state.generation.consumed ∧
      state.generation.ringPending = false := by
  unfold WaitState.enter WaitState.arm at harmed
  split at harmed
  · exact absurd (congrArg Caller.armed hidle) harmed
  · rename_i hconsumed
    dsimp only at harmed
    split at harmed
    · exact absurd (congrArg Caller.armed hidle) harmed
    · rename_i hpending
      exact ⟨not_not.mp hconsumed, Bool.not_eq_true _ ▸ hpending⟩

theorem World.next_armed {caller : ℕ} {choice : Choice}
    (hchoice : choice = .wait caller ∨ choice = .beginPlatformWait caller)
    (hidle : world.wait.callers caller = .idle)
    (harmed : ((world.next maxRetainedFrames threads choice).wait.callers caller).armed ≠ none) :
    world.wait.generation.current = world.wait.generation.consumed ∧
      world.wait.generation.ringPending = false := by
  rcases hchoice with rfl | rfl
  · unfold World.next at harmed
    dsimp only at harmed
    split at harmed
    · exact WaitState.enter_armed hidle harmed
    · exact absurd (congrArg Caller.armed hidle) harmed
  · unfold World.next at harmed
    dsimp only at harmed
    split at harmed
    · exact WaitState.enter_armed hidle harmed
    · exact absurd (congrArg Caller.armed hidle) harmed

theorem consumption_enter {state : WaitState} (stage : ℕ → ℕ → Caller) (caller : ℕ)
    (hconsumed : state.generation.current = state.generation.consumed) :
    ((state.enter stage caller).generation.consumed, (state.enter stage caller).unconsumed) =
      (state.generation.consumed, state.unconsumed) := by
  unfold WaitState.enter WaitState.arm
  rw [if_neg (not_not.mpr hconsumed)]
  dsimp only
  split <;> rfl

/-- A part of a wait that finds no wake consumes none. -/
theorem consumption_next {choice : Choice} (hobserves : world.observesWake choice = some false) :
    (world.next maxRetainedFrames threads choice).consumption = world.consumption := by
  cases choice with
  | wait caller =>
    have hconsumed := not_not.mp (of_decide_eq_false (Option.some.inj hobserves))
    unfold World.next
    dsimp only
    split
    · exact consumption_enter _ _ hconsumed
    · rfl
  | beginPlatformWait caller =>
    have hconsumed := not_not.mp (of_decide_eq_false (Option.some.inj hobserves))
    unfold World.next
    dsimp only
    split
    · exact consumption_enter _ _ hconsumed
    · rfl
  | resume caller timeout =>
    unfold World.next
    dsimp only
    split
    · rename_i armed signals hparked
      have hwoken : world.wait.platformWoken armed = false := by
        simpa [World.observesWake, hparked, Caller.armed] using hobserves
      unfold WaitState.resume
      rw [if_neg (of_decide_eq_false hwoken)]
      split <;> rfl
    · rfl
  | finishPlatformWait caller outcome =>
    unfold World.next
    dsimp only
    split
    · rename_i armed signals hplatform
      have hwoken : world.wait.platformWoken armed = false := by
        simpa [World.observesWake, hplatform, Caller.armed] using hobserves
      unfold WaitState.finishPlatformWait
      simp only [hwoken, Bool.false_eq_true, if_false]
      rfl
    · rfl
  | leavePlatformWait caller =>
    unfold World.next
    dsimp only
    split <;> rfl
  | _ => cases hobserves

/-- A caller parks only if no wake is left to consume and no release is announced. A wake or an
announcement after it was armed makes its test true, and a part of a wait that finds no wake consumes
none. After a drain, a pushed release is announced, or some release is still on its way to announce
itself. The generation must not go around in between. -/
theorem waits_lose_no_signal (maxRetainedFrames threads : ℕ) (hthreads : threads < 2 ^ 32)
    (schedule : List Choice) :
    let world := run maxRetainedFrames threads schedule
    (∀ caller choice, choice = .wait caller ∨ choice = .beginPlatformWait caller →
      world.wait.callers caller = .idle →
      ((world.next maxRetainedFrames threads choice).wait.callers caller).armed ≠ none →
        (world.wait.unconsumed < 2 ^ 64 → world.wait.unconsumed = 0) ∧
          world.wait.generation.ringPending = false) ∧
    (∀ caller armed signals, (world.wait.callers caller).armed = some (armed, signals) →
      0 < signals → signals < 2 ^ 64 → world.wait.platformWoken armed = true) ∧
    (∀ choice, world.observesWake choice = some false →
      (world.next maxRetainedFrames threads choice).consumption = world.consumption) ∧
    (world.drain = none → ∀ place frame : ℕ, world.ring.entries[place]? = some (some frame) →
      world.wait.generation.ringPending = true ∨ ∃ index, world.releasers index ≠ .idle) := by
  have hlatched := latched_run maxRetainedFrames hthreads schedule
  have hannounced := announced_run maxRetainedFrames threads schedule
  refine ⟨?_, ?_, ?_, ?_⟩
  · intro caller choice hchoice hidle harmed
    obtain ⟨hconsumed, hpending⟩ := World.next_armed hchoice hidle harmed
    exact ⟨hlatched.current_eq_consumed hconsumed, hpending⟩
  · intro caller armed signals harmed hpos hlap
    exact hlatched.woken harmed hpos hlap
  · exact fun choice ↦ consumption_next
  · intro hdrain place frame hplace
    rcases hannounced.pushed place frame hplace with hflag | hbusy | ⟨turns, hturns, -⟩
    · exact .inl hflag
    · exact .inr hbusy
    · rw [hdrain] at hturns
      cases hturns

end Runs

/-- A release takes its ticket before the drain begins and pushes its entry after the drain has ended.
-/
def crossing : List Choice :=
  [.claim 0 5, .push 0, .wait 0, .announce 0, .claim 1 6, .drain, .drain, .drain, .push 1]

theorem crossing_lose_no_signal :
    (1 : ℕ) < 2 ^ 32 ∧ (run 2 1 crossing).ring.entries = [some 6] ∧
    ((run 2 1 crossing).drain = none → ∀ place frame : ℕ,
      (run 2 1 crossing).ring.entries[place]? = some (some frame) →
        (run 2 1 crossing).wait.generation.ringPending = true ∨
          ∃ index, (run 2 1 crossing).releasers index ≠ .idle) :=
  ⟨by decide, by decide +kernel, (waits_lose_no_signal 2 1 (by decide) crossing).2.2.2⟩

/-! ### Around the generations -/

/-- Wakes one after the other. -/
theorem wait_wakes (maxRetainedFrames threads count : ℕ) (world : World)
    (hlt : world.wait.generation.current < 2 ^ 64) :
    let after := (List.replicate count Choice.wake).foldl (World.next maxRetainedFrames threads) world
    after.wait.generation = { world.wait.generation with
      current := (world.wait.generation.current + count) % 2 ^ 64 } ∧
    after.wait.unconsumed = world.wait.unconsumed + count ∧
    (∀ caller, world.wait.callers caller = .idle → after.wait.callers caller = .idle) ∧
    ∀ caller armed signals, world.wait.callers caller = .parked armed signals →
      after.wait.callers caller = .parked armed (signals + count) := by
  induction count with
  | zero =>
    refine ⟨?_, rfl, fun _ hidle ↦ hidle, fun _ _ _ hparked ↦ hparked⟩
    simp only [List.replicate_zero, List.foldl_nil, add_zero, Nat.mod_eq_of_lt hlt]
  | succ count ih =>
    obtain ⟨hgeneration, hunconsumed, hidle, hparked⟩ := ih
    simp only [List.replicate_succ', List.foldl_concat]
    generalize (List.replicate count Choice.wake).foldl
      (World.next maxRetainedFrames threads) world = after at *
    simp only [World.next, WaitState.wake, WaitState.signal, WaitState.advance, hgeneration,
      hunconsumed]
    refine ⟨?_, rfl, ?_, ?_⟩
    · rw [Nat.mod_add_mod, Nat.add_assoc]
    · intro caller hcaller
      rw [hidle caller hcaller]
      rfl
    · intro caller armed signals hcaller
      rw [hparked caller armed signals hcaller]
      rfl

/-- After whole laps a caller parks, although nobody has consumed a wake. -/
theorem lap_parks {count : ℕ} (hlap : count % 2 ^ 64 = 0) :
    (run 1 1 (List.replicate count .wake)).wait.unconsumed = count ∧
    (((run 1 1 (List.replicate count .wake)).next 1 1 (.wait 0)).wait.callers 0).armed =
      some (0, 0) := by
  obtain ⟨hgeneration, hunconsumed, hidle, -⟩ := wait_wakes 1 1 count initial (by decide)
  have hstart : initial.wait.generation = ⟨0, 0, false⟩ := rfl
  rw [hstart] at hgeneration
  simp only [Nat.zero_add, hlap] at hgeneration
  have hzero : initial.wait.unconsumed = 0 := rfl
  rw [hzero, Nat.zero_add] at hunconsumed
  have hcaller := hidle 0 rfl
  rw [run]
  refine ⟨hunconsumed, ?_⟩
  generalize (List.replicate count Choice.wake).foldl (World.next 1 1) initial = world at *
  simp only [World.next, hcaller, WaitState.wait, WaitState.enter, WaitState.arm, hgeneration]
  rfl

/-- Whole laps after it was armed leave the test of a caller false. -/
theorem lap_sleeps {count : ℕ} (hlap : count % 2 ^ 64 = 0) :
    ((run 1 1 (.wait 0 :: List.replicate count .wake)).wait.callers 0).armed = some (0, count) ∧
    (run 1 1 (.wait 0 :: List.replicate count .wake)).wait.platformWoken 0 = false := by
  obtain ⟨hgeneration, -, -, hparked⟩ :=
    wait_wakes 1 1 count (initial.next 1 1 (.wait 0)) (by decide +kernel)
  have hstart : (initial.next 1 1 (.wait 0)).wait.generation = ⟨0, 0, false⟩ := rfl
  rw [hstart] at hgeneration
  simp only [Nat.zero_add, hlap] at hgeneration
  have hcaller := hparked 0 0 0 rfl
  rw [Nat.zero_add] at hcaller
  rw [run, List.foldl_cons]
  generalize (List.replicate count Choice.wake).foldl (World.next 1 1)
    (initial.next 1 1 (.wait 0)) = world at *
  refine ⟨?_, ?_⟩
  · rw [hcaller]
    rfl
  · rw [WaitState.platformWoken, hgeneration]
    rfl

/-- As many wakes as there are generations are lost on a caller, before it parks and after. -/
theorem lap_loses_wakes :
    ((run 1 1 (List.replicate (2 ^ 64) .wake)).wait.unconsumed = 2 ^ 64 ∧
      (((run 1 1 (List.replicate (2 ^ 64) .wake)).next 1 1 (.wait 0)).wait.callers 0).armed =
        some (0, 0)) ∧
    ((run 1 1 (.wait 0 :: List.replicate (2 ^ 64) .wake)).wait.callers 0).armed =
      some (0, 2 ^ 64) ∧
    (run 1 1 (.wait 0 :: List.replicate (2 ^ 64) .wake)).wait.platformWoken 0 = false :=
  ⟨lap_parks (Nat.mod_self _), lap_sleeps (Nat.mod_self _)⟩

end DiosPool.Wait
