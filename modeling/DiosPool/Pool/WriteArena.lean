import DiosPool.Driver.Operation

/-!
# The write arena

Slots are leased by a swap of their free bits. A release swaps the bit back, and wakes a waiter if it
finds one registered. A waiter registers under the gate, scans the free bits and parks with the gate
given up in one step. The threads take single steps in any order.
-/

namespace DiosPool.Pool

/-- A wait of a thread, by its number. -/
structure Registration where
  thread : ℕ
  wait : ℕ
  deriving DecidableEq, Repr

/-- Where a thread stands, before its next step. A release notes which registered waiters had found its
slot taken when it set the bit. -/
inductive ArenaPhase
  | idle
  /-- `alloc_within` at a cell. -/
  | allocating (limit index : ℕ)
  /-- `release` before the bit is set, before the waiters are loaded, before the gate is locked and
  before it is dropped, and before a waiter is notified. -/
  | releasing (slot : ℕ)
  | loading (owed : List Registration)
  | locking (owed : List Registration)
  | unlocking (owed : List Registration)
  | notifying (owed : List Registration)
  /-- `wait_for_release` before the gate is locked, before the waiter is counted, and at a free bit. -/
  | entering
  | registering
  | scanning (index : ℕ)
  /-- A free slot is found. -/
  | found (index : ℕ)
  /-- In the condition variable, on the way back to the gate, and behind it. -/
  | parked
  | reacquiring
  | deregistering
  /-- The waiter is no longer counted and drops the gate. -/
  | returning
  deriving DecidableEq, Repr

namespace ArenaPhase

/-- The thread has the gate. -/
@[simp] def holdsGate : ArenaPhase → Bool
  | .unlocking _ | .registering | .scanning _ | .found _ | .deregistering | .returning => true
  | _ => false

/-- The waiter is counted. -/
@[simp] def registered : ArenaPhase → Bool
  | .scanning _ | .found _ | .parked | .reacquiring | .deregistering => true
  | _ => false

/-- The wait has begun and the waiter is not counted yet. -/
@[simp] def arriving : ArenaPhase → Bool
  | .entering | .registering => true
  | _ => false

/-- A counted waiter has parked. -/
@[simp] def hasParked : ArenaPhase → Bool
  | .parked | .reacquiring | .deregistering => true
  | _ => false

/-- A counted waiter has found the slot taken. -/
def foundTaken (slot : ℕ) : ArenaPhase → Bool
  | .scanning index | .found index => slot < index
  | .parked | .reacquiring | .deregistering => true
  | _ => false

/-- The waiters that a release has to think of once it has set the bit. -/
@[simp] def owed : ArenaPhase → Option (List Registration)
  | .loading owed | .locking owed | .unlocking owed | .notifying owed => some owed
  | _ => none

end ArenaPhase

/-- `ArenaState` with its threads and the leases that somebody holds. The waiters that are counted and
the numbers of the waits are noted for the statements only. -/
structure ArenaState where
  free : ℕ → Bool
  waitGate : Option ℕ
  waiters : ℕ
  threads : ℕ → ArenaPhase
  leases : List ℕ
  counted : List Registration
  waits : ℕ → ℕ
  panic : Option Assertion

inductive ArenaChoice
  | alloc (thread limit : ℕ)
  | release (thread slot : ℕ)
  | wait (thread : ℕ)
  | step (thread : ℕ)
  | notify (thread waiter : ℕ)
  | wake (thread : ℕ)
  deriving DecidableEq, Repr

namespace ArenaState

def preallocated : ArenaState where
  free _ := true
  waitGate := none
  waiters := 0
  threads _ := .idle
  leases := []
  counted := []
  waits _ := 0
  panic := none

variable (slotCount : ℕ) (state : ArenaState) (thread : ℕ)

def setPhase (phase : ArenaPhase) : ArenaState :=
  { state with threads := Function.update state.threads thread phase }

def fail (message : String) : ArenaState := { state with panic := some ⟨message⟩ }

/-- The wait that a thread is in. -/
def registration : Registration := ⟨thread, state.waits thread⟩

/-- The counted waiters that have found a slot taken. -/
def owedFor (slot : ℕ) : List Registration :=
  state.counted.filter fun waiter ↦ (state.threads waiter.thread).foundTaken slot

/-- `wait_gate.lock()`: nothing happens while somebody else has the gate. -/
def lockGate (phase : ArenaPhase) : ArenaState :=
  if state.waitGate = none then { state with waitGate := some thread }.setPhase thread phase
  else state

def dropGate (phase : ArenaPhase) : ArenaState :=
  { state with waitGate := none }.setPhase thread phase

def swapFree (slot : ℕ) : ArenaState :=
  if slot < slotCount then
    if state.free slot then
      fail { state with free := Function.update state.free slot true }
        "a write slot is released exactly once"
    else
      { state with free := Function.update state.free slot true }.setPhase thread
        (.loading (state.owedFor slot))
  else
    state.fail "released write slot index is valid"

/-- A turn of the loop of `alloc_within`. -/
def swapTaken (limit index : ℕ) : ArenaState :=
  if index < slotCount ∧ index < limit then
    if state.free index then
      { state with
        free := Function.update state.free index false
        leases := index :: state.leases }.setPhase thread .idle
    else
      state.setPhase thread (.allocating limit (index + 1))
  else
    state.setPhase thread .idle

def register : ArenaState :=
  if state.waiters < 2 ^ 32 - 1 then
    { state with
      waiters := state.waiters + 1
      counted := state.registration thread :: state.counted }.setPhase thread (.scanning 0)
  else
    state.fail "write waiter count does not exhaust"

def deregister : ArenaState :=
  if 0 < state.waiters then
    { state with
      waiters := state.waiters - 1
      counted := state.counted.erase (state.registration thread) }.setPhase thread .returning
  else
    state.fail "registered write waiter is removed once"

/-- A turn of the scan of the free bits, or the park behind its end. -/
def scan (index : ℕ) : ArenaState :=
  if index < slotCount then
    state.setPhase thread (if state.free index then .found index else .scanning (index + 1))
  else
    state.dropGate thread .parked

/-- The next step of a thread. -/
def step : ArenaState :=
  match state.threads thread with
  | .allocating limit index => state.swapTaken slotCount thread limit index
  | .releasing slot => state.swapFree slotCount thread slot
  | .loading owed => state.setPhase thread (if 0 < state.waiters then .locking owed else .idle)
  | .locking owed => state.lockGate thread (.unlocking owed)
  | .unlocking owed => state.dropGate thread (.notifying owed)
  | .entering => state.lockGate thread .registering
  | .registering => state.register thread
  | .scanning index => state.scan slotCount thread index
  | .found _ => state.deregister thread
  | .reacquiring => state.lockGate thread .deregistering
  | .deregistering => state.deregister thread
  | .returning => state.dropGate thread .idle
  | .idle | .notifying _ | .parked => state

/-- A waiter leaves the condition variable, because it is notified, for no reason or because its time is
over. -/
def wake : ArenaState :=
  if state.threads thread = .parked then state.setPhase thread .reacquiring else state

/-- `notify_one()`. The condition variable decides on the waiter. -/
def notify (waiter : ℕ) : ArenaState :=
  match state.threads thread with
  | .notifying _ => (state.setPhase thread .idle).wake waiter
  | _ => state

/-- The owner of a lease gives it up. -/
def beginRelease (slot : ℕ) : ArenaState :=
  if slot ∈ state.leases then
    { state with leases := state.leases.erase slot }.setPhase thread (.releasing slot)
  else
    state

def beginWait : ArenaState :=
  { state with waits := Function.update state.waits thread (state.waits thread + 1) }.setPhase thread
    .entering

/-- The state after one choice. A thread does one thing at a time, and a panic ends the run. -/
def next : ArenaChoice → ArenaState
  | .alloc thread limit =>
    if state.panic = none ∧ state.threads thread = .idle then
      state.setPhase thread (.allocating limit 0)
    else state
  | .release thread slot =>
    if state.panic = none ∧ state.threads thread = .idle then state.beginRelease thread slot
    else state
  | .wait thread =>
    if state.panic = none ∧ state.threads thread = .idle then state.beginWait thread else state
  | .step thread => if state.panic = none then state.step slotCount thread else state
  | .notify thread waiter => if state.panic = none then state.notify thread waiter else state
  | .wake thread => if state.panic = none then state.wake thread else state

/-- The state after a schedule. -/
def run (schedule : List ArenaChoice) : ArenaState :=
  schedule.foldl (next slotCount) preallocated

end ArenaState

/-! ## What holds between steps -/

/-- A counted waiter without the gate is in the condition variable, or comes back from it. -/
theorem ArenaPhase.hasParked_of_registered {phase : ArenaPhase} (hregistered : phase.registered = true)
    (hgate : phase.holdsGate = false) : phase.hasParked = true := by
  cases phase <;> simp_all [ArenaPhase.registered, ArenaPhase.holdsGate, ArenaPhase.hasParked]

/-- A thread goes on without a new wait, a new release or new waiters to think of. -/
structure ArenaPhase.Follows (before after : ArenaPhase) : Prop where
  releasing : ∀ slot, after ≠ .releasing slot
  registered : after.registered = before.registered
  owed : ∀ owed, after.owed = some owed → before.owed = some owed
  arriving : after.arriving = true → before.arriving = true
  parked : before.hasParked = true → after.hasParked = true

theorem ArenaPhase.arriving_of_registered {phase : ArenaPhase} (hregistered : phase.registered = true) :
    phase.arriving = false := by
  cases phase <;> simp_all [ArenaPhase.registered, ArenaPhase.arriving]

namespace ArenaState

variable {slotCount : ℕ} {state : ArenaState} {thread : ℕ}

/-- A slot has one holder at most, a lease or a release that has not set the bit yet, and its bit is
clear then. -/
structure Leased (slotCount : ℕ) (state : ArenaState) : Prop where
  nodup : state.leases.Nodup
  leased : ∀ slot ∈ state.leases, slot < slotCount ∧ state.free slot = false
  releasing : ∀ thread slot, state.threads thread = .releasing slot →
    slot < slotCount ∧ state.free slot = false ∧ slot ∉ state.leases
  single : ∀ thread other slot, state.threads thread = .releasing slot →
    state.threads other = .releasing slot → thread = other

/-- The waiters that are counted, and the thread that has the gate. -/
structure Gated (state : ArenaState) : Prop where
  waiters : state.waiters = state.counted.length
  nodup : state.counted.Nodup
  counted : ∀ waiter, waiter ∈ state.counted ↔ waiter.wait = state.waits waiter.thread ∧
    (state.threads waiter.thread).registered = true
  gate : ∀ thread, state.waitGate = some thread ↔ (state.threads thread).holdsGate = true

/-- A waiter that a release has to think of never counts again once it is gone. Behind the gate of the
release it has parked or is gone. -/
structure Owing (state : ArenaState) : Prop where
  past : ∀ thread owed, (state.threads thread).owed = some owed → ∀ waiter ∈ owed,
    waiter.wait < state.waits waiter.thread ∨ waiter.wait = state.waits waiter.thread ∧
      (state.threads waiter.thread).arriving = false
  parked : ∀ thread owed,
    state.threads thread = .unlocking owed ∨ state.threads thread = .notifying owed →
    ∀ waiter ∈ owed, waiter ∈ state.counted → (state.threads waiter.thread).hasParked = true

theorem Leased.setPhase (h : Leased slotCount state) (phase : ArenaPhase)
    (hphase : ∀ slot, phase ≠ .releasing slot) : Leased slotCount (state.setPhase thread phase) := by
  obtain ⟨hnodup, hleased, hreleasing, hsingle⟩ := h
  refine ⟨hnodup, hleased, ?_, ?_⟩
  · intro other slot hother
    simp only [ArenaState.setPhase, Function.update_apply] at hother
    grind [ArenaState.setPhase]
  · intro first second slot hfirst hsecond
    simp only [ArenaState.setPhase, Function.update_apply] at hfirst hsecond
    grind

theorem Gated.setPhase (h : Gated state) (phase : ArenaPhase)
    (hregistered : phase.registered = (state.threads thread).registered)
    (hgate : phase.holdsGate = (state.threads thread).holdsGate) :
    Gated (state.setPhase thread phase) := by
  obtain ⟨hwaiters, hnodup, hcounted, hgates⟩ := h
  refine ⟨hwaiters, hnodup, fun waiter ↦ ?_, fun other ↦ ?_⟩
  · simp only [ArenaState.setPhase, Function.update_apply]
    grind
  · simp only [ArenaState.setPhase, Function.update_apply]
    grind

theorem Owing.setPhase (h : Owing state) (phase : ArenaPhase)
    (howed : ∀ owed, phase.owed = some owed → (state.threads thread).owed = some owed)
    (hbehind : ∀ owed, phase = .unlocking owed ∨ phase = .notifying owed →
      state.threads thread = .unlocking owed ∨ state.threads thread = .notifying owed)
    (harriving : phase.arriving = true → (state.threads thread).arriving = true)
    (hparked : (state.threads thread).hasParked = true → phase.hasParked = true) :
    Owing (state.setPhase thread phase) := by
  obtain ⟨hpast, hparks⟩ := h
  constructor
  · intro other owed hother waiter hwaiter
    simp only [ArenaState.setPhase, Function.update_apply] at hother ⊢
    grind
  · intro other owed hother waiter hwaiter hcounted
    simp only [ArenaState.setPhase, Function.update_apply] at hother hcounted ⊢
    grind

/-- All of it. The only assertion that can fail is the one against too many waiters. -/
structure Sound (slotCount : ℕ) (state : ArenaState) : Prop where
  leased : Leased slotCount state
  gated : Gated state
  owing : Owing state
  panic : state.panic = none ∨ state.panic = some ⟨"write waiter count does not exhaust"⟩

theorem preallocated_sound (slotCount : ℕ) : Sound slotCount preallocated := by
  refine ⟨⟨List.nodup_nil, ?_, ?_, ?_⟩, ⟨rfl, List.nodup_nil, ?_, ?_⟩, ⟨?_, ?_⟩, .inl rfl⟩ <;>
    simp [preallocated, ArenaPhase.registered, ArenaPhase.holdsGate, ArenaPhase.owed]

namespace Sound

variable (h : Sound slotCount state)

include h

/-- A thread goes on without a change that the others see. -/
theorem setPhase {before after : ArenaPhase} (hbefore : state.threads thread = before)
    (hfollows : before.Follows after) (hgate : after.holdsGate = before.holdsGate)
    (hbehind : ∀ owed, after ≠ .unlocking owed ∧ after ≠ .notifying owed) :
    Sound slotCount (state.setPhase thread after) := by
  subst hbefore
  refine ⟨h.leased.setPhase after hfollows.releasing,
    h.gated.setPhase after hfollows.registered hgate,
    h.owing.setPhase after hfollows.owed ?_ hfollows.arriving hfollows.parked, h.panic⟩
  rintro owed (hafter | hafter)
  · exact absurd hafter (hbehind owed).1
  · exact absurd hafter (hbehind owed).2

theorem lockGate {before after : ArenaPhase} (hbefore : state.threads thread = before)
    (hfollows : before.Follows after) (hgate : after.holdsGate = true) :
    Sound slotCount (state.lockGate thread after) := by
  subst hbefore
  unfold ArenaState.lockGate
  split
  case isFalse => exact h
  case isTrue hfree =>
    obtain ⟨hleased, ⟨hwaiters, hnodup, hcounted, hgates⟩, ⟨hpast, hparks⟩, hpanic⟩ := h
    obtain ⟨hreleasing, hregistered, howed, harriving, hparked⟩ := hfollows
    have hnobody : ∀ other, (state.threads other).holdsGate = false := by
      intro other
      have hother := hgates other
      grind
    refine ⟨?_, ⟨hwaiters, hnodup, fun waiter ↦ ?_, fun other ↦ ?_⟩, ⟨?_, ?_⟩, hpanic⟩
    · have hsame : Leased slotCount { state with waitGate := some thread } :=
        ⟨hleased.nodup, hleased.leased, hleased.releasing, hleased.single⟩
      exact hsame.setPhase after hreleasing
    · simp only [ArenaState.setPhase, Function.update_apply]
      grind
    · simp only [ArenaState.setPhase, Function.update_apply]
      grind
    · intro other owed hother waiter hwaiter
      simp only [ArenaState.setPhase, Function.update_apply] at hother ⊢
      grind
    · intro other owed hother waiter hwaiter hmem
      simp only [ArenaState.setPhase, Function.update_apply] at hother hmem ⊢
      have hwaits := ArenaPhase.hasParked_of_registered ((hcounted waiter).mp hmem).2
        (hnobody waiter.thread)
      grind

/-- A thread drops the gate. -/
theorem dropGate {before after : ArenaPhase} (hbefore : state.threads thread = before)
    (hfollows : before.Follows after) (hgate : after.holdsGate = false)
    (hwith : before.holdsGate = true)
    (hbehind : ∀ owed, after.owed = some owed → before = .unlocking owed) :
    Sound slotCount (state.dropGate thread after) := by
  subst hbefore
  obtain ⟨hleased, ⟨hwaiters, hnodup, hcounted, hgates⟩, ⟨hpast, hparks⟩, hpanic⟩ := h
  obtain ⟨hreleasing, hregistered, howed, harriving, hparked⟩ := hfollows
  have hnobody : ∀ other, other ≠ thread → (state.threads other).holdsGate = false := by
    intro other hother
    have hmine := (hgates thread).mpr hwith
    have hother' := hgates other
    grind
  have hunlocking : ∀ owed, after = .unlocking owed ∨ after = .notifying owed →
      state.threads thread = .unlocking owed := by
    rintro owed (rfl | rfl)
    · exact hbehind owed rfl
    · exact hbehind owed rfl
  refine ⟨?_, ⟨hwaiters, hnodup, fun waiter ↦ ?_, fun other ↦ ?_⟩, ⟨?_, ?_⟩, hpanic⟩
  · have hsame : Leased slotCount { state with waitGate := none } :=
      ⟨hleased.nodup, hleased.leased, hleased.releasing, hleased.single⟩
    exact hsame.setPhase after hreleasing
  · simp only [ArenaState.dropGate, ArenaState.setPhase, Function.update_apply]
    grind
  · simp only [ArenaState.dropGate, ArenaState.setPhase, Function.update_apply]
    grind
  · intro other owed hother waiter hwaiter
    simp only [ArenaState.dropGate, ArenaState.setPhase, Function.update_apply] at hother ⊢
    grind [ArenaPhase.owed]
  · intro other owed hother waiter hwaiter hmem
    simp only [ArenaState.dropGate, ArenaState.setPhase, Function.update_apply] at hother hmem ⊢
    grind

/-- A release sets the bit of its slot. -/
theorem swapFree {slot : ℕ} (hreleasing : state.threads thread = .releasing slot) :
    Sound slotCount (state.swapFree slotCount thread slot) := by
  obtain ⟨⟨hdistinct, hleased, hreleases, hsingle⟩, ⟨hwaiters, hnodup, hcounted, hgates⟩,
    ⟨hpast, hparks⟩, hpanic⟩ := h
  obtain ⟨hlt, htaken, hfree⟩ := hreleases thread slot hreleasing
  rw [ArenaState.swapFree, if_pos hlt, if_neg (by simp [htaken])]
  refine ⟨⟨hdistinct, ?_, ?_, ?_⟩, ⟨hwaiters, hnodup, fun waiter ↦ ?_, fun other ↦ ?_⟩, ⟨?_, ?_⟩,
    hpanic⟩
  · intro other hother
    simp only [ArenaState.setPhase, Function.update_apply] at hother ⊢
    grind
  · intro other slot' hother
    simp only [ArenaState.setPhase, Function.update_apply] at hother ⊢
    grind
  · intro first second slot' hfirst hsecond
    simp only [ArenaState.setPhase, Function.update_apply] at hfirst hsecond
    grind
  · simp only [ArenaState.setPhase, Function.update_apply]
    grind [ArenaPhase.registered]
  · simp only [ArenaState.setPhase, Function.update_apply]
    grind [ArenaPhase.holdsGate]
  · intro other owed hother waiter hwaiter
    simp only [ArenaState.setPhase, Function.update_apply] at hother ⊢
    by_cases hsame : other = thread
    · rw [if_pos hsame] at hother
      cases hother
      obtain ⟨hwait, hregistered⟩ := (hcounted waiter).mp (List.mem_filter.mp hwaiter).1
      have harriving := ArenaPhase.arriving_of_registered hregistered
      grind [ArenaPhase.registered]
    · rw [if_neg hsame] at hother
      have hold := hpast other owed hother waiter hwaiter
      grind [ArenaPhase.arriving]
  · intro other owed hother waiter hwaiter hmem
    simp only [ArenaState.setPhase, Function.update_apply] at hother hmem ⊢
    have hregistered := ((hcounted waiter).mp hmem).2
    grind [ArenaPhase.registered]

/-- An allocation clears the bit that it finds set. -/
theorem swapTaken {limit index : ℕ} (hphase : state.threads thread = .allocating limit index) :
    Sound slotCount (state.swapTaken slotCount thread limit index) := by
  have hidle : Sound slotCount (state.setPhase thread .idle) :=
    h.setPhase hphase (by constructor <;> simp) rfl (by simp)
  unfold ArenaState.swapTaken
  split
  case isFalse => exact hidle
  case isTrue hlt =>
    split
    case isFalse hused => exact h.setPhase hphase (by constructor <;> simp) rfl (by simp)
    case isTrue hfree =>
      obtain ⟨⟨hdistinct, hleased, hreleases, hsingle⟩, hgated, howing, hpanic⟩ := hidle
      refine ⟨⟨?_, ?_, ?_, hsingle⟩, ⟨hgated.waiters, hgated.nodup, hgated.counted, hgated.gate⟩,
        ⟨howing.past, howing.parked⟩, hpanic⟩
      · apply List.nodup_cons.mpr ⟨fun hmem ↦ ?_, hdistinct⟩
        have htaken := (hleased index hmem).2
        simp_all [ArenaState.setPhase]
      · intro slot hslot
        simp only [ArenaState.setPhase, Function.update_apply] at hslot ⊢
        have hold := hleased slot
        simp only [ArenaState.setPhase] at hold
        grind
      · intro other slot hother
        have hold := hreleases other slot hother
        simp only [ArenaState.setPhase, Function.update_apply] at hold hother ⊢
        grind

/-- A waiter is counted. -/
theorem register (hphase : state.threads thread = .registering) :
    Sound slotCount (state.register thread) := by
  unfold ArenaState.register
  split
  case isFalse =>
    obtain ⟨hleased, hgated, howing, -⟩ := h
    exact ⟨⟨hleased.nodup, hleased.leased, hleased.releasing, hleased.single⟩,
      ⟨hgated.waiters, hgated.nodup, hgated.counted, hgated.gate⟩, ⟨howing.past, howing.parked⟩,
      .inr rfl⟩
  case isTrue =>
    obtain ⟨hleased, ⟨hwaiters, hnodup, hcounted, hgates⟩, ⟨hpast, hparks⟩, hpanic⟩ := h
    have hfresh : state.registration thread ∉ state.counted := by
      rw [hcounted]
      simp [registration, hphase, ArenaPhase.registered]
    refine ⟨?_, ⟨?_, ?_, fun waiter ↦ ?_, fun other ↦ ?_⟩, ⟨?_, ?_⟩, hpanic⟩
    · have hsame : Leased slotCount { state with
          waiters := state.waiters + 1
          counted := state.registration thread :: state.counted } :=
        ⟨hleased.nodup, hleased.leased, hleased.releasing, hleased.single⟩
      exact hsame.setPhase _ (by simp)
    · simp [ArenaState.setPhase, hwaiters]
    · exact List.nodup_cons.mpr ⟨hfresh, hnodup⟩
    · simp only [ArenaState.setPhase, Function.update_apply, List.mem_cons, hcounted, registration]
      obtain ⟨other, wait⟩ := waiter
      by_cases hsame : other = thread
      · subst hsame
        simp [hphase, ArenaPhase.registered]
      · simp [hsame]
    · simp only [ArenaState.setPhase, Function.update_apply]
      grind [ArenaPhase.holdsGate]
    · intro other owed hother waiter hwaiter
      simp only [ArenaState.setPhase, Function.update_apply] at hother ⊢
      grind [ArenaPhase.owed, ArenaPhase.arriving]
    · intro other owed hother waiter hwaiter hmem
      simp only [ArenaState.setPhase, Function.update_apply, List.mem_cons] at hother hmem ⊢
      have hother' : state.threads other = .unlocking owed ∨ state.threads other = .notifying owed := by
        grind
      rcases hmem with rfl | hmem
      · -- The new wait has a number that no release knows.
        have howed : (state.threads other).owed = some owed := by
          rcases hother' with hphase' | hphase' <;> rw [hphase'] <;> rfl
        have hnew := hpast other owed howed _ hwaiter
        simp [registration, hphase, ArenaPhase.arriving] at hnew
      · have hold := hparks other owed hother' waiter hwaiter hmem
        grind [ArenaPhase.hasParked]

/-- A waiter is no longer counted. -/
theorem deregister (hregistered : (state.threads thread).registered = true)
    (hgate : (state.threads thread).holdsGate = true) :
    Sound slotCount (state.deregister thread) := by
  obtain ⟨hleased, ⟨hwaiters, hnodup, hcounted, hgates⟩, ⟨hpast, hparks⟩, hpanic⟩ := h
  have hmine : state.registration thread ∈ state.counted := (hcounted _).mpr ⟨rfl, hregistered⟩
  have hpos : 0 < state.waiters := hwaiters ▸ List.length_pos_of_mem hmine
  rw [ArenaState.deregister, if_pos hpos]
  refine ⟨?_, ⟨?_, hnodup.erase _, fun waiter ↦ ?_, fun other ↦ ?_⟩, ⟨?_, ?_⟩, hpanic⟩
  · have hsame : Leased slotCount { state with
        waiters := state.waiters - 1
        counted := state.counted.erase (state.registration thread) } :=
      ⟨hleased.nodup, hleased.leased, hleased.releasing, hleased.single⟩
    exact hsame.setPhase _ (by simp)
  · simp [ArenaState.setPhase, hwaiters, List.length_erase_of_mem hmine]
  · simp only [ArenaState.setPhase, Function.update_apply, hnodup.mem_erase_iff, hcounted, registration]
    obtain ⟨other, wait⟩ := waiter
    by_cases hsame : other = thread
    · subst hsame
      simp only [if_true, ArenaPhase.registered]
      grind
    · simp [hsame]
  · simp only [ArenaState.setPhase, Function.update_apply]
    grind [ArenaPhase.holdsGate]
  · intro other owed hother waiter hwaiter
    simp only [ArenaState.setPhase, Function.update_apply] at hother ⊢
    grind [ArenaPhase.owed, ArenaPhase.arriving]
  · intro other owed hother waiter hwaiter hmem
    simp only [ArenaState.setPhase, Function.update_apply, hnodup.mem_erase_iff] at hother hmem ⊢
    have hwait := ((hcounted waiter).mp hmem.2).1
    have hother' : waiter.thread ≠ thread := by
      rintro rfl
      exact hmem.1 (by rw [registration, ← hwait])
    grind

theorem scan {index : ℕ} (hphase : state.threads thread = .scanning index) :
    Sound slotCount (state.scan slotCount thread index) := by
  unfold ArenaState.scan
  split
  · split
    · exact h.setPhase hphase (by constructor <;> simp) rfl (by simp)
    · exact h.setPhase hphase (by constructor <;> simp) rfl (by simp)
  · exact h.dropGate hphase (by constructor <;> simp) rfl rfl (by simp)

theorem wake : Sound slotCount (state.wake thread) := by
  unfold ArenaState.wake
  split
  case isFalse => exact h
  case isTrue hphase => exact h.setPhase hphase (by constructor <;> simp) rfl (by simp)

theorem step : Sound slotCount (state.step slotCount thread) := by
  unfold ArenaState.step
  cases hphase : state.threads thread with
  | idle => exact h
  | notifying owed => exact h
  | parked => exact h
  | allocating limit index => exact h.swapTaken hphase
  | releasing slot => exact h.swapFree hphase
  | scanning index => exact h.scan hphase
  | registering => exact h.register hphase
  | found index => exact h.deregister (by rw [hphase]; rfl) (by rw [hphase]; rfl)
  | deregistering => exact h.deregister (by rw [hphase]; rfl) (by rw [hphase]; rfl)
  | loading owed =>
    dsimp only
    split
    · exact h.setPhase hphase (by constructor <;> simp) rfl (by simp)
    · exact h.setPhase hphase (by constructor <;> simp) rfl (by simp)
  | locking owed => exact h.lockGate hphase (by constructor <;> simp) rfl
  | entering => exact h.lockGate hphase (by constructor <;> simp) rfl
  | reacquiring => exact h.lockGate hphase (by constructor <;> simp) rfl
  | unlocking owed => exact h.dropGate hphase (by constructor <;> simp) rfl rfl (by simp)
  | returning => exact h.dropGate hphase (by constructor <;> simp) rfl rfl (by simp)

theorem notify (waiter : ℕ) : Sound slotCount (state.notify thread waiter) := by
  unfold ArenaState.notify
  cases hphase : state.threads thread with
  | notifying owed =>
    have hidle : Sound slotCount (state.setPhase thread .idle) :=
      h.setPhase hphase (by constructor <;> simp) rfl (by simp)
    exact hidle.wake
  | _ => exact h

/-- A release takes the place of the lease. -/
theorem beginRelease {slot : ℕ} (hidle : state.threads thread = .idle) :
    Sound slotCount (state.beginRelease thread slot) := by
  unfold ArenaState.beginRelease
  split
  case isFalse => exact h
  case isTrue hleased =>
    obtain ⟨⟨hdistinct, hleases, hreleases, hsingle⟩, hgated, howing, hpanic⟩ := h
    refine ⟨⟨hdistinct.erase _, ?_, ?_, ?_⟩, ?_, ?_, hpanic⟩
    · exact fun other hother ↦ hleases other (List.mem_of_mem_erase hother)
    · intro other slot' hother
      simp only [ArenaState.setPhase, Function.update_apply, hdistinct.mem_erase_iff] at hother ⊢
      grind
    · intro first second slot' hfirst hsecond
      simp only [ArenaState.setPhase, Function.update_apply] at hfirst hsecond
      grind
    · have hsame : Gated { state with leases := state.leases.erase slot } :=
        ⟨hgated.waiters, hgated.nodup, hgated.counted, hgated.gate⟩
      exact hsame.setPhase _ (by simp only [hidle]; rfl) (by simp only [hidle]; rfl)
    · have hsame : Owing { state with leases := state.leases.erase slot } :=
        ⟨howing.past, howing.parked⟩
      exact hsame.setPhase _ (fun _ howed ↦ by cases howed) (by simp)
        (fun harriving ↦ by cases harriving) (by simp [hidle, ArenaPhase.hasParked])

/-- A new wait has a new number. -/
theorem beginWait (hidle : state.threads thread = .idle) :
    Sound slotCount (state.beginWait thread) := by
  obtain ⟨hleased, ⟨hwaiters, hnodup, hcounted, hgates⟩, ⟨hpast, hparks⟩, hpanic⟩ := h
  refine ⟨?_, ⟨hwaiters, hnodup, fun waiter ↦ ?_, fun other ↦ ?_⟩, ⟨?_, ?_⟩, hpanic⟩
  · have hsame : Leased slotCount { state with
        waits := Function.update state.waits thread (state.waits thread + 1) } :=
      ⟨hleased.nodup, hleased.leased, hleased.releasing, hleased.single⟩
    exact hsame.setPhase _ (by simp)
  · simp only [ArenaState.beginWait, ArenaState.setPhase, Function.update_apply, hcounted]
    grind [ArenaPhase.registered]
  · simp only [ArenaState.beginWait, ArenaState.setPhase, Function.update_apply, hgates]
    grind [ArenaPhase.holdsGate]
  · intro other owed hother waiter hwaiter
    simp only [ArenaState.beginWait, ArenaState.setPhase, Function.update_apply] at hother ⊢
    grind [ArenaPhase.owed]
  · intro other owed hother waiter hwaiter hmem
    simp only [ArenaState.beginWait, ArenaState.setPhase, Function.update_apply] at hother hmem ⊢
    have hregistered := ((hcounted waiter).mp hmem).2
    grind [ArenaPhase.registered]

theorem next (choice : ArenaChoice) : Sound slotCount (state.next slotCount choice) := by
  cases choice with
  | alloc thread limit =>
    unfold ArenaState.next
    dsimp only
    split
    case isFalse => exact h
    case isTrue hidle => exact h.setPhase hidle.2 (by constructor <;> simp) rfl (by simp)
  | release thread slot =>
    unfold ArenaState.next
    dsimp only
    split
    case isFalse => exact h
    case isTrue hidle => exact h.beginRelease hidle.2
  | wait thread =>
    unfold ArenaState.next
    dsimp only
    split
    case isFalse => exact h
    case isTrue hidle => exact h.beginWait hidle.2
  | step thread =>
    unfold ArenaState.next
    dsimp only
    split
    · exact h.step
    · exact h
  | notify thread waiter =>
    unfold ArenaState.next
    dsimp only
    split
    · exact h.notify waiter
    · exact h
  | wake thread =>
    unfold ArenaState.next
    dsimp only
    split
    · exact h.wake
    · exact h

end Sound

theorem run_sound (slotCount : ℕ) (schedule : List ArenaChoice) :
    Sound slotCount (run slotCount schedule) := by
  induction schedule using List.reverseRecOn with
  | nil => exact preallocated_sound slotCount
  | append_singleton schedule choice ih =>
    rw [run, List.foldl_concat]
    exact ih.next choice

/-! ## What becomes of a release -/

@[simp] theorem setPhase_threads (state : ArenaState) (thread : ℕ) (phase : ArenaPhase) :
    (state.setPhase thread phase).threads = Function.update state.threads thread phase := rfl

/-- A step is seen in the phase of its own thread only. -/
theorem step_threads_of_ne {other : ℕ} (hother : other ≠ thread) :
    (state.step slotCount thread).threads other = state.threads other := by
  have hphase : ∀ (changed : ArenaState) phase, changed.threads = state.threads →
      (changed.setPhase thread phase).threads other = state.threads other := by
    intro changed phase hchanged
    rw [setPhase_threads, Function.update_of_ne hother, hchanged]
  unfold step swapTaken swapFree lockGate dropGate register scan deregister fail
  split
  all_goals try split_ifs
  all_goals first | rfl | exact hphase _ _ rfl

theorem wake_threads {other : ℕ} (hphase : state.threads other ≠ .parked) :
    (state.wake thread).threads other = state.threads other := by
  unfold wake
  split
  case isFalse => rfl
  case isTrue hparked =>
    rw [setPhase_threads, Function.update_of_ne]
    rintro rfl
    exact hphase hparked

/-- A release that has set the bit stays in charge of its waiters until it finds nobody counted or
notifies. -/
theorem owed_next {owed : List Registration} (howed : (state.threads thread).owed = some owed)
    (choice : ArenaChoice) :
    ((state.next slotCount choice).threads thread).owed = some owed ∨
      (state.threads thread = .loading owed ∧ state.waiters = 0) ∨
      state.threads thread = .notifying owed ∧ ∃ waiter, choice = .notify thread waiter := by
  have hbusy : state.threads thread ≠ .idle := by
    rintro hidle
    rw [hidle] at howed
    cases howed
  have hawake : state.threads thread ≠ .parked := by
    rintro hparked
    rw [hparked] at howed
    cases howed
  have hother : ∀ other (changed : ArenaState) phase, state.threads other = .idle →
      changed.threads = state.threads →
      (changed.setPhase other phase).threads thread = state.threads thread := by
    intro other changed phase hidle hchanged
    have hne : thread ≠ other := by
      rintro rfl
      exact hbusy hidle
    rw [setPhase_threads, Function.update_of_ne hne, hchanged]
  cases choice with
  | alloc other limit =>
    left
    unfold next
    dsimp only
    split
    · rename_i hidle
      exact (congrArg ArenaPhase.owed (hother other _ _ hidle.2 rfl)).trans howed
    · exact howed
  | release other slot =>
    left
    unfold next beginRelease
    dsimp only
    split_ifs with hidle
    · exact (congrArg ArenaPhase.owed (hother other _ _ hidle.2 rfl)).trans howed
    · exact howed
    · exact howed
  | wait other =>
    left
    unfold next
    dsimp only
    split
    · rename_i hidle
      exact (congrArg ArenaPhase.owed (hother other _ _ hidle.2 rfl)).trans howed
    · exact howed
  | wake other =>
    left
    unfold next
    dsimp only
    split
    · rw [wake_threads hawake, howed]
    · exact howed
  | notify other waiter =>
    unfold next
    dsimp only
    split
    case isFalse => exact .inl howed
    case isTrue =>
      unfold notify
      split
      · rename_i owed' hnotifying
        by_cases hsame : other = thread
        · subst hsame
          rw [hnotifying] at howed
          cases howed
          exact .inr (.inr ⟨hnotifying, waiter, rfl⟩)
        · left
          have hkept : (state.setPhase other .idle).threads thread = state.threads thread := by
            rw [setPhase_threads, Function.update_of_ne (Ne.symm hsame)]
          rw [wake_threads (hkept ▸ hawake), hkept, howed]
      · exact .inl howed
  | step other =>
    unfold next
    dsimp only
    split
    case isFalse => exact .inl howed
    case isTrue =>
      by_cases hsame : other = thread
      · subst hsame
        unfold step
        cases hphase : state.threads other with
        | loading owed' =>
          rw [hphase] at howed
          cases howed
          dsimp only
          split
          · left
            simp [ArenaPhase.owed]
          · right
            left
            exact ⟨rfl, by omega⟩
        | locking owed' =>
          rw [hphase] at howed
          cases howed
          left
          unfold lockGate
          dsimp only
          split
          · simp [ArenaPhase.owed]
          · simp [hphase, ArenaPhase.owed]
        | unlocking owed' =>
          rw [hphase] at howed
          cases howed
          left
          simp [dropGate, ArenaPhase.owed]
        | notifying owed' =>
          rw [hphase] at howed
          left
          simp only [hphase, howed]
        | _ =>
          rw [hphase] at howed
          cases howed
      · exact .inl (by rw [step_threads_of_ne (Ne.symm hsame), howed])

/-- A slot has one holder at most, and nobody else can find its bit set. A release notes the counted
waiters that had found its slot taken. It stays in charge of them until all of them are gone, or until
it notifies, and then each of them has parked or is gone. Apart from the assertion against too many
waiters, none fails. -/
theorem arena_misses_no_release (slotCount : ℕ) (schedule : List ArenaChoice) :
    let state := run slotCount schedule
    (state.leases.Nodup ∧
      (∀ slot ∈ state.leases, state.free slot = false ∧
        ∀ thread, state.threads thread ≠ .releasing slot) ∧
      ∀ thread other slot, state.threads thread = .releasing slot →
        state.free slot = false ∧ (state.threads other = .releasing slot → thread = other)) ∧
    (∀ thread slot, state.panic = none → state.threads thread = .releasing slot →
      (state.next slotCount (.step thread)).threads thread = .loading (state.owedFor slot)) ∧
    (∀ thread owed choice, (state.threads thread).owed = some owed →
      ((state.next slotCount choice).threads thread).owed = some owed ∨
      (∀ waiter ∈ owed, waiter ∉ state.counted) ∨
      (∃ target, choice = .notify thread target) ∧
        ∀ waiter ∈ owed, waiter ∈ state.counted →
          (state.threads waiter.thread).hasParked = true) ∧
    (state.panic = none ∨ state.panic = some ⟨"write waiter count does not exhaust"⟩) := by
  intro state
  obtain ⟨hleased, hgated, howing, hpanic⟩ := run_sound slotCount schedule
  refine ⟨⟨hleased.nodup, fun slot hslot ↦ ?_, fun thread other slot hreleasing ↦ ?_⟩,
    fun thread slot hrunning hreleasing ↦ ?_, fun thread owed choice howed ↦ ?_, hpanic⟩
  · exact ⟨(hleased.leased slot hslot).2,
      fun thread hreleasing ↦ (hleased.releasing thread slot hreleasing).2.2 hslot⟩
  · exact ⟨(hleased.releasing thread slot hreleasing).2.1, hleased.single thread other slot hreleasing⟩
  · obtain ⟨hlt, htaken, -⟩ := hleased.releasing thread slot hreleasing
    have hstep : state.step slotCount thread = state.swapFree slotCount thread slot := by
      rw [step, hreleasing]
    rw [next, if_pos hrunning, hstep, swapFree, if_pos hlt, if_neg (Bool.eq_false_iff.mp htaken),
      setPhase_threads, Function.update_self]
  · rcases owed_next howed choice with hkept | ⟨-, hzero⟩ | ⟨hnotifying, hnotify⟩
    · exact .inl hkept
    · have hnobody : state.counted = [] := List.length_eq_zero_iff.mp (hgated.waiters ▸ hzero)
      right
      left
      intro waiter _ hcounted
      rw [hnobody] at hcounted
      cases hcounted
    · exact .inr (.inr ⟨hnotify, howing.parked thread owed (.inr hnotifying)⟩)

/-- A waiter finds the only slot taken. It is released before the waiter parks, and the release waits for
the gate. -/
def handover : List ArenaChoice :=
  [.alloc 0 1, .step 0, .wait 1, .step 1, .step 1, .step 1, .release 0 0, .step 0, .step 0, .step 0,
    .step 1, .step 0, .step 0]

example : (run 1 handover).threads 0 = .notifying [⟨1, 1⟩] ∧ (run 1 handover).threads 1 = .parked := by
  decide

end ArenaState

end DiosPool.Pool
