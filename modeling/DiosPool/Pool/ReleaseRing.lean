import DiosPool.Pool.Threads

/-!
# The release ring, step by step

The ring of last drops as it lies in memory. A producer takes a ticket from the tail, looks whether
the slot of the ticket is free, writes its frame there and publishes the slot. The consumer waits for
the slot of its cursor, reads the frame and gives the slot to the ticket of the next lap. Every
access to a word is a step of its own, and any number of producers take their steps in any order.
-/

namespace DiosPool.Ring

structure Slot where
  sequence : ℕ
  frame : ℕ

structure Memory where
  slots : ℕ → Slot
  tail : ℕ

/-- `u64::MAX`. -/
def ticketMax : ℕ := 2 ^ 64 - 1

/-- `RING_CAPACITY_MAX`. -/
def ringCapacityMax : ℕ := 2 ^ 31

/-- The next power of two, and at least two slots. -/
def capacity (maxRetainedFrames : ℕ) : ℕ := max (2 ^ Nat.clog 2 maxRetainedFrames) 2

def mask (maxRetainedFrames : ℕ) : ℕ := capacity maxRetainedFrames - 1

/-- Every slot waits for the ticket of its index. -/
def preallocated : Memory := ⟨fun index ↦ ⟨index, 0⟩, 0⟩

namespace Memory

def storeFrame (memory : Memory) (index frame : ℕ) : Memory :=
  { memory with slots :=
    Function.update memory.slots index { memory.slots index with frame } }

def storeSequence (memory : Memory) (index sequence : ℕ) : Memory :=
  { memory with slots :=
    Function.update memory.slots index { memory.slots index with sequence } }

end Memory

/-- Where a producer stands in `push`. -/
inductive Producer
  | idle
  | claimed (frame ticket : ℕ)
  | checked (frame ticket : ℕ)
  | written (frame ticket : ℕ)
  | panicked (ticket : ℕ) (assertion : Assertion)
  deriving DecidableEq

/-- The ticket of a push that is not over. -/
def Producer.ticket : Producer → Option ℕ
  | .idle => none
  | .claimed _ ticket => some ticket
  | .checked _ ticket => some ticket
  | .written _ ticket => some ticket
  | .panicked ticket _ => some ticket

/-- The frame of a push that goes on. -/
def Producer.frame : Producer → Option ℕ
  | .claimed frame _ => some frame
  | .checked frame _ => some frame
  | .written frame _ => some frame
  | _ => none

/-- A producer that has just taken its ticket. -/
def Producer.begin (frame ticket : ℕ) : Producer :=
  if ticket ≠ ticketMax then .claimed frame ticket
  else .panicked ticket ⟨"release-ring ticket never wraps"⟩

/-- Where the consumer stands in `pop`. -/
inductive Consumer
  | idle
  | matched
  | loaded (frame : ℕ)
  | panicked (assertion : Assertion)
  deriving DecidableEq

/-- The ring with its producers and its consumer. The frames that took tickets are remembered in the
order of the tickets, and the frames that were popped. -/
structure World where
  memory : Memory
  cursor : ℕ
  producers : ℕ → Producer
  consumer : Consumer
  claims : List ℕ
  popped : List ℕ

def initial : World := ⟨preallocated, 0, fun _ ↦ .idle, .idle, [], []⟩

/-- What happens next: an idle producer begins to push a frame, a producer takes its next step, or
the consumer takes the next step of its pop. -/
inductive Choice
  | push (producer frame : ℕ)
  | step (producer : ℕ)
  | pop
  deriving DecidableEq, Repr

namespace World

def setProducer (world : World) (index : ℕ) (producer : Producer) : World :=
  { world with producers := Function.update world.producers index producer }

variable (maxRetainedFrames : ℕ)

/-- `fetch_add` on the tail. -/
def claim (world : World) (index frame : ℕ) : World :=
  { world with
    memory := { world.memory with tail := (world.memory.tail + 1) % 2 ^ 64 }
    claims := world.claims ++ [frame] }
    |>.setProducer index (Producer.begin frame world.memory.tail)

/-- The next access of a producer. -/
def produce (world : World) (index : ℕ) : World :=
  match world.producers index with
  | .claimed frame ticket =>
    world.setProducer index <|
      if (world.memory.slots (ticket &&& mask maxRetainedFrames)).sequence = ticket then
        .checked frame ticket
      else
        .panicked ticket ⟨"release-ring capacity proof keeps a claimed slot free"⟩
  | .checked frame ticket =>
    { world with memory := world.memory.storeFrame (ticket &&& mask maxRetainedFrames) frame }
      |>.setProducer index (.written frame ticket)
  | .written _ ticket =>
    { world with
      memory := world.memory.storeSequence (ticket &&& mask maxRetainedFrames) (ticket + 1) }
      |>.setProducer index .idle
  | _ => world

/-- The next access of the consumer. -/
def consume (world : World) : World :=
  let index := world.cursor &&& mask maxRetainedFrames
  match world.consumer with
  | .idle =>
    if world.cursor ≠ ticketMax then
      if (world.memory.slots index).sequence ≠ world.cursor + 1 then world
      else { world with consumer := .matched }
    else
      { world with consumer := .panicked ⟨"release-ring cursor never wraps"⟩ }
  | .matched =>
    if world.cursor ≤ ticketMax - capacity maxRetainedFrames then
      { world with consumer := .loaded (world.memory.slots index).frame }
    else
      { world with consumer := .panicked ⟨"release-ring slot sequence never wraps"⟩ }
  | .loaded frame =>
    { world with
      memory := world.memory.storeSequence index (world.cursor + capacity maxRetainedFrames)
      cursor := world.cursor + 1
      consumer := .idle
      popped := world.popped ++ [frame] }
  | .panicked assertion => { world with consumer := .panicked assertion }

/-- The world after one choice. A producer that is in the middle of a push begins no other. -/
def next (world : World) : Choice → World
  | .push index frame =>
    match world.producers index with
    | .idle => world.claim index frame
    | _ => world
  | .step index => world.produce maxRetainedFrames index
  | .pop => world.consume maxRetainedFrames

/-- The push of a ticket is over: its slot is published. -/
def Pushed (world : World) (ticket : ℕ) : Prop :=
  ticket < world.claims.length ∧ ∀ producer, (world.producers producer).ticket ≠ some ticket

end World

/-- The world after a schedule. -/
def run (maxRetainedFrames : ℕ) (schedule : List Choice) : World :=
  schedule.foldl (World.next maxRetainedFrames) initial

/-- At most as many tickets as the ring has slots are claimed and not popped, all along. -/
def Bounded (maxRetainedFrames : ℕ) (schedule : List Choice) : Prop :=
  ∀ count, (run maxRetainedFrames (schedule.take count)).claims.length ≤
    (run maxRetainedFrames (schedule.take count)).popped.length + capacity maxRetainedFrames

/-! ## Slots -/

section Slots

variable (maxRetainedFrames : ℕ)

theorem capacity_eq : ∃ bits, capacity maxRetainedFrames = 2 ^ bits := by
  rcases le_total (2 ^ Nat.clog 2 maxRetainedFrames) 2 with hle | hle
  · exact ⟨1, max_eq_right hle⟩
  · exact ⟨Nat.clog 2 maxRetainedFrames, max_eq_left hle⟩

theorem capacity_pos : 0 < capacity maxRetainedFrames :=
  lt_of_lt_of_le two_pos (le_max_right _ _)

/-- The mask takes a ticket around the ring. -/
theorem and_mask (ticket : ℕ) :
    ticket &&& mask maxRetainedFrames = ticket % capacity maxRetainedFrames := by
  obtain ⟨bits, hbits⟩ := capacity_eq maxRetainedFrames
  rw [mask, hbits, Nat.and_two_pow_sub_one_eq_mod]

end Slots

/-- Two tickets of one lap have different slots. -/
theorem mod_ne {size first second : ℕ} (hlt : first < second) (hlap : second < first + size) :
    first % size ≠ second % size := by
  intro heq
  have hdvd : size ∣ second - first := (Nat.modEq_iff_dvd' hlt.le).mp heq
  have hle := Nat.le_of_dvd (Nat.sub_pos_of_lt hlt) hdvd
  omega

theorem mod_ne_of_window {size cursor first second : ℕ} (hne : first ≠ second)
    (hfirst : cursor ≤ first ∧ first < cursor + size)
    (hsecond : cursor ≤ second ∧ second < cursor + size) : first % size ≠ second % size := by
  rcases Nat.lt_or_gt_of_ne hne with hlt | hgt
  · exact mod_ne hlt (by omega)
  · exact (mod_ne hgt (by omega)).symm

/-! ## What the slots say -/

/-- The tickets from the cursor on have their slots for themselves. A slot waits for its ticket until
the push of the ticket is over, and then holds the frame of the ticket. -/
structure Sound (size : ℕ) (world : World) : Prop where
  tail : world.memory.tail = world.claims.length % 2 ^ 64
  cursor_le : world.cursor ≤ world.claims.length
  bound : world.claims.length ≤ world.cursor + size
  limit : world.cursor + size ≤ 2 ^ 64
  popped : world.popped = world.claims.take world.cursor
  held : ∀ index ticket, (world.producers index).ticket = some ticket →
    world.cursor ≤ ticket ∧ ticket < world.claims.length
  distinct : ∀ first second ticket, (world.producers first).ticket = some ticket →
    (world.producers second).ticket = some ticket → first = second
  named : ∀ index ticket frame, (world.producers index).ticket = some ticket →
    (world.producers index).frame = some frame → world.claims[ticket]? = some frame
  free : ∀ ticket, world.cursor ≤ ticket → ticket < world.cursor + size → ¬world.Pushed ticket →
    (world.memory.slots (ticket % size)).sequence = ticket
  pushed : ∀ ticket, world.cursor ≤ ticket → world.Pushed ticket →
    (world.memory.slots (ticket % size)).sequence = ticket + 1 ∧
      world.claims[ticket]? = some (world.memory.slots (ticket % size)).frame
  written : ∀ index frame ticket, world.producers index = .written frame ticket →
    (world.memory.slots (ticket % size)).frame = frame
  matched : world.consumer = .matched → world.Pushed world.cursor
  loaded : ∀ frame, world.consumer = .loaded frame →
    world.Pushed world.cursor ∧ world.claims[world.cursor]? = some frame ∧
      world.cursor + 1 + size ≤ 2 ^ 64
  stopped : ∀ assertion, world.consumer = .panicked assertion → 2 ^ 64 ≤ world.cursor + size
  assertion : ∀ index ticket assertion, world.producers index = .panicked ticket assertion →
    assertion = ⟨"release-ring ticket never wraps"⟩

theorem Sound.initial {size : ℕ} (hsize : size ≤ 2 ^ 64) : Sound size initial where
  tail := rfl
  cursor_le := le_rfl
  bound := Nat.zero_le _
  limit := by simpa [Ring.initial] using hsize
  popped := rfl
  held index ticket hticket := by cases hticket
  distinct first second ticket hfirst := by cases hfirst
  named index ticket frame hticket := by cases hticket
  free ticket _ hlt _ := by
    have hlt : ticket < size := by simpa [Ring.initial] using hlt
    change ticket % size = ticket
    exact Nat.mod_eq_of_lt hlt
  pushed ticket _ hpushed := absurd hpushed.1 (Nat.not_lt_zero _)
  written index frame ticket hwritten := by cases hwritten
  matched hmatched := by cases hmatched
  loaded frame hloaded := by cases hloaded
  stopped assertion hstopped := by cases hstopped
  assertion index ticket assertion hpanicked := by cases hpanicked

section Steps

variable {size : ℕ} {world : World}

/-- A ticket from the cursor on that was handed out is one of the lap. -/
theorem Sound.window (h : Sound size world) {ticket : ℕ} (hlt : ticket < world.claims.length) :
    ticket < world.cursor + size := lt_of_lt_of_le hlt h.bound

theorem Sound.popped_length (h : Sound size world) : world.popped.length = world.cursor := by
  rw [h.popped, List.length_take, min_eq_left h.cursor_le]

theorem not_pushed {index ticket : ℕ}
    (hticket : (world.producers index).ticket = some ticket) : ¬world.Pushed ticket :=
  fun hpushed ↦ hpushed.2 index hticket

/-- The slots of two tickets that were handed out and not popped differ. -/
theorem Sound.slot_ne (h : Sound size world) {first second : ℕ} (hne : first ≠ second)
    (hfirst : world.cursor ≤ first ∧ first < world.claims.length)
    (hsecond : world.cursor ≤ second ∧ second < world.cursor + size) :
    first % size ≠ second % size :=
  mod_ne_of_window hne ⟨hfirst.1, h.window hfirst.2⟩ hsecond

/-- The tickets of the producers, one of which has moved on. -/
theorem ticket_update {producers : ℕ → Producer} {index other : ℕ} {producer : Producer} :
    (Function.update producers index producer other).ticket =
      if other = index then producer.ticket else (producers other).ticket := by
  by_cases heq : other = index
  · rw [heq, Function.update_self, if_pos rfl]
  · rw [Function.update_of_ne heq, if_neg heq]

/-- A producer that keeps its ticket changes nothing about what is pushed. -/
theorem pushed_setProducer {index ticket : ℕ} {producer : Producer}
    (hsame : producer.ticket = (world.producers index).ticket) :
    (world.setProducer index producer).Pushed ticket ↔ world.Pushed ticket := by
  have htickets : ∀ other, ((world.setProducer index producer).producers other).ticket =
      (world.producers other).ticket := by
    intro other
    rw [World.setProducer, ticket_update]
    split
    · rename_i heq
      rw [heq, hsame]
    · rfl
  simp only [World.Pushed, htickets]
  rfl

/-! ### A ticket is handed out -/

theorem Producer.begin_ticket (frame ticket : ℕ) :
    (Producer.begin frame ticket).ticket = some ticket := by
  unfold Producer.begin
  split <;> rfl

theorem Producer.begin_frame {frame ticket named : ℕ}
    (hnamed : (Producer.begin frame ticket).frame = some named) : named = frame := by
  unfold Producer.begin at hnamed
  split at hnamed
  · exact (Option.some.inj hnamed).symm
  · cases hnamed

theorem Producer.begin_ne_written {frame ticket named other : ℕ} :
    Producer.begin frame ticket ≠ .written named other := by
  unfold Producer.begin
  split <;> exact Producer.noConfusion

theorem Producer.begin_panicked {frame ticket other : ℕ} {assertion : Assertion}
    (hpanicked : Producer.begin frame ticket = .panicked other assertion) :
    assertion = ⟨"release-ring ticket never wraps"⟩ := by
  unfold Producer.begin at hpanicked
  split at hpanicked
  · cases hpanicked
  · cases hpanicked
    rfl

/-- The tail has not come around. -/
theorem Sound.tail_eq (h : Sound size world) (hroom : world.claims.length < world.cursor + size) :
    world.memory.tail = world.claims.length := by
  rw [h.tail]
  exact Nat.mod_eq_of_lt (lt_of_lt_of_le hroom h.limit)

/-- Room for one more ticket. -/
theorem Sound.claim_room (h : Sound size world) {index frame : ℕ}
    (hbound : (world.claim index frame).claims.length ≤
      (world.claim index frame).popped.length + size) :
    world.claims.length < world.cursor + size := by
  have hlength : (world.claims ++ [frame]).length ≤ world.popped.length + size := hbound
  rw [List.length_append, List.length_singleton, h.popped_length] at hlength
  exact Nat.lt_of_succ_le hlength

/-- A ticket that was just handed out is not pushed, and nothing else changes. -/
theorem Sound.pushed_claim (h : Sound size world) {index frame : ℕ}
    (hidle : world.producers index = .idle) (hroom : world.claims.length < world.cursor + size)
    (ticket : ℕ) : (world.claim index frame).Pushed ticket ↔ world.Pushed ticket := by
  simp only [World.Pushed, World.claim, World.setProducer, ticket_update, Producer.begin_ticket,
    h.tail_eq hroom, List.length_append, List.length_singleton]
  constructor
  · rintro ⟨hlt, hnone⟩
    have hne : ticket ≠ world.claims.length := by
      rintro rfl
      exact hnone index (if_pos rfl)
    refine ⟨by omega, fun other hother ↦ ?_⟩
    by_cases heq : other = index
    · rw [heq, hidle] at hother
      cases hother
    · exact hnone other (by rw [if_neg heq, hother])
  · rintro ⟨hlt, hnone⟩
    refine ⟨by omega, fun other ↦ ?_⟩
    split
    · intro heq
      exact hlt.ne (Option.some.inj heq).symm
    · exact hnone other

theorem Sound.claim (h : Sound size world) {index frame : ℕ} (hidle : world.producers index = .idle)
    (hroom : world.claims.length < world.cursor + size) : Sound size (world.claim index frame) := by
  have htail := h.tail_eq hroom
  have hpushed : ∀ ticket, (world.claim index frame).Pushed ticket ↔ world.Pushed ticket :=
    h.pushed_claim hidle hroom
  have hkeep : ∀ (ticket named : ℕ), world.claims[ticket]? = some named →
      (world.claims ++ [frame])[ticket]? = some named := by
    intro ticket named hnamed
    obtain ⟨hlt, -⟩ := List.getElem?_eq_some_iff.mp hnamed
    rw [List.getElem?_append_left hlt, hnamed]
  have hlength : (world.claim index frame).claims.length = world.claims.length + 1 := by
    simp only [World.claim, World.setProducer, List.length_append, List.length_singleton]
  -- nobody else holds the new ticket
  have hfresh : ∀ other, (world.producers other).ticket ≠ some world.claims.length :=
    fun other hother ↦ lt_irrefl _ (h.held other _ hother).2
  have hticket : ∀ other, ((world.claim index frame).producers other).ticket =
      if other = index then some world.claims.length else (world.producers other).ticket := by
    intro other
    rw [World.claim, World.setProducer, ticket_update, Producer.begin_ticket, htail]
  constructor
  case tail =>
    rw [hlength, ← htail]
    rfl
  case cursor_le => exact hlength ▸ h.cursor_le.trans (Nat.le_succ _)
  case bound => exact hlength ▸ hroom
  case limit => exact h.limit
  case popped => exact h.popped.trans (List.take_append_of_le_length h.cursor_le).symm
  case held =>
    intro other ticket hother
    rw [hticket] at hother
    rw [hlength]
    split at hother
    · cases hother
      exact ⟨h.cursor_le, Nat.lt_succ_self _⟩
    · obtain ⟨hle, hlt⟩ := h.held other ticket hother
      exact ⟨hle, hlt.trans (Nat.lt_succ_self _)⟩
  case distinct =>
    intro first second ticket hfirst hsecond
    rw [hticket] at hfirst hsecond
    split at hfirst <;> split at hsecond
    · rename_i hindex hindex'
      rw [hindex, hindex']
    · cases hfirst
      exact absurd hsecond (hfresh second)
    · cases hsecond
      exact absurd hfirst (hfresh first)
    · exact h.distinct first second ticket hfirst hsecond
  case named =>
    intro other ticket named hother hnamed
    rw [hticket] at hother
    simp only [World.claim, World.setProducer] at hnamed ⊢
    split at hother
    · rename_i heq
      cases hother
      rw [heq, Function.update_self] at hnamed
      rw [Producer.begin_frame hnamed, List.getElem?_concat_length]
    · rename_i hne
      rw [Function.update_of_ne hne] at hnamed
      exact hkeep ticket named (h.named other ticket named hother hnamed)
  case free =>
    intro ticket hle hlt hnot
    exact h.free ticket hle hlt fun hp ↦ hnot ((hpushed ticket).mpr hp)
  case pushed =>
    intro ticket hle hp
    obtain ⟨hsequence, hnamed⟩ := h.pushed ticket hle ((hpushed ticket).mp hp)
    exact ⟨hsequence, hkeep ticket _ hnamed⟩
  case written =>
    intro other named ticket hother
    simp only [World.claim, World.setProducer] at hother
    by_cases heq : other = index
    · rw [heq, Function.update_self] at hother
      exact absurd hother Producer.begin_ne_written
    · rw [Function.update_of_ne heq] at hother
      exact h.written other named ticket hother
  case matched => exact fun hmatched ↦ (hpushed _).mpr (h.matched hmatched)
  case loaded =>
    intro named hloaded
    obtain ⟨hp, hnamed, hlimit⟩ := h.loaded named hloaded
    exact ⟨(hpushed _).mpr hp, hkeep _ _ hnamed, hlimit⟩
  case stopped => exact h.stopped
  case assertion =>
    intro other ticket assertion hother
    simp only [World.claim, World.setProducer] at hother
    by_cases heq : other = index
    · rw [heq, Function.update_self] at hother
      exact Producer.begin_panicked hother
    · rw [Function.update_of_ne heq] at hother
      exact h.assertion other ticket assertion hother

/-! ### A producer goes on -/

/-- A producer goes on with its ticket, and writes at most the frame of a slot. -/
theorem Sound.proceed (h : Sound size world) {index : ℕ} {producer : Producer} {memory : Memory}
    (hticket : producer.ticket = (world.producers index).ticket)
    (hframe : ∀ named, producer.frame = some named → (world.producers index).frame = some named)
    (hassertion : ∀ ticket assertion, producer = .panicked ticket assertion →
      assertion = ⟨"release-ring ticket never wraps"⟩)
    (htail : memory.tail = world.memory.tail)
    (hsequence : ∀ slot, (memory.slots slot).sequence = (world.memory.slots slot).sequence)
    (hpushed : ∀ ticket, world.cursor ≤ ticket → world.Pushed ticket →
      (memory.slots (ticket % size)).frame = (world.memory.slots (ticket % size)).frame)
    (hwritten : ∀ other named ticket,
      Function.update world.producers index producer other = .written named ticket →
        (memory.slots (ticket % size)).frame = named) :
    Sound size ({ world with memory }.setProducer index producer) := by
  have htickets : ∀ other, (Function.update world.producers index producer other).ticket =
      (world.producers other).ticket := by
    intro other
    rw [ticket_update, hticket]
    split
    · rename_i heq
      rw [heq]
    · rfl
  have hiff : ∀ ticket, ({ world with memory }.setProducer index producer).Pushed ticket ↔
      world.Pushed ticket := fun ticket ↦ pushed_setProducer hticket
  constructor
  case tail => exact htail.trans h.tail
  case cursor_le => exact h.cursor_le
  case bound => exact h.bound
  case limit => exact h.limit
  case popped => exact h.popped
  case held =>
    intro other ticket hother
    exact h.held other ticket ((htickets other).symm.trans hother)
  case distinct =>
    intro first second ticket hfirst hsecond
    exact h.distinct first second ticket ((htickets first).symm.trans hfirst)
      ((htickets second).symm.trans hsecond)
  case named =>
    intro other ticket named hother hnamed
    refine h.named other ticket named ((htickets other).symm.trans hother) ?_
    simp only [World.setProducer] at hnamed
    by_cases heq : other = index
    · rw [heq, Function.update_self] at hnamed
      exact heq ▸ hframe named hnamed
    · rwa [Function.update_of_ne heq] at hnamed
  case free =>
    intro ticket hle hlt hnot
    exact (hsequence _).trans (h.free ticket hle hlt fun hp ↦ hnot ((hiff ticket).mpr hp))
  case pushed =>
    intro ticket hle hp
    have hp := (hiff ticket).mp hp
    obtain ⟨hnext, hnamed⟩ := h.pushed ticket hle hp
    refine ⟨(hsequence _).trans hnext, hnamed.trans ?_⟩
    exact congrArg some (hpushed ticket hle hp).symm
  case written => exact hwritten
  case matched => exact fun hmatched ↦ (hiff _).mpr (h.matched hmatched)
  case loaded =>
    intro named hloaded
    obtain ⟨hp, hloaded⟩ := h.loaded named hloaded
    exact ⟨(hiff _).mpr hp, hloaded⟩
  case stopped => exact h.stopped
  case assertion =>
    intro other ticket assertion hother
    simp only [World.setProducer] at hother
    by_cases heq : other = index
    · rw [heq, Function.update_self] at hother
      exact hassertion ticket assertion hother
    · rw [Function.update_of_ne heq] at hother
      exact h.assertion other ticket assertion hother

/-- The slot of a ticket is free when its producer looks. -/
theorem Sound.slot_free (h : Sound size world) {index ticket : ℕ}
    (hticket : (world.producers index).ticket = some ticket) :
    (world.memory.slots (ticket % size)).sequence = ticket := by
  obtain ⟨hle, hlt⟩ := h.held index ticket hticket
  exact h.free ticket hle (h.window hlt) (not_pushed hticket)

theorem Sound.check (h : Sound size world) {index frame ticket : ℕ}
    (hclaimed : world.producers index = .claimed frame ticket) :
    Sound size (world.setProducer index (.checked frame ticket)) := by
  refine h.proceed (by rw [hclaimed]; rfl) ?_ ?_ rfl (fun _ ↦ rfl)
    (fun _ _ _ ↦ rfl) ?_
  · intro named hnamed
    rw [hclaimed]
    exact hnamed
  · intro other assertion hpanicked
    cases hpanicked
  · intro other named written hother
    by_cases heq : other = index
    · rw [heq, Function.update_self] at hother
      cases hother
    · rw [Function.update_of_ne heq] at hother
      exact h.written other named written hother

theorem storeFrame_sequence (memory : Memory) (index frame slot : ℕ) :
    ((memory.storeFrame index frame).slots slot).sequence = (memory.slots slot).sequence := by
  by_cases heq : slot = index
  · simp only [Memory.storeFrame, heq, Function.update_self]
  · simp only [Memory.storeFrame, Function.update_of_ne heq]

/-- A frame is written into a slot that no other ticket uses. -/
theorem Sound.write (h : Sound size world) {index frame ticket : ℕ}
    (hchecked : world.producers index = .checked frame ticket) :
    Sound size ({ world with memory := world.memory.storeFrame (ticket % size) frame }.setProducer
      index (.written frame ticket)) := by
  have hticket : (world.producers index).ticket = some ticket := by
    rw [hchecked]
    rfl
  have hheld := h.held index ticket hticket
  have hother : ∀ other, other ≠ ticket → world.cursor ≤ other → other < world.claims.length →
      ((world.memory.storeFrame (ticket % size) frame).slots (other % size)).frame =
        (world.memory.slots (other % size)).frame := by
    intro other hne hle hlt
    have hslot := h.slot_ne hne ⟨hle, hlt⟩ ⟨hheld.1, h.window hheld.2⟩
    simp only [Memory.storeFrame, Function.update_of_ne hslot]
  refine h.proceed (by rw [hticket]; rfl) ?_ ?_ rfl (storeFrame_sequence _ _ _) ?_ ?_
  · intro named hnamed
    rw [hchecked]
    exact hnamed
  · intro other assertion hpanicked
    cases hpanicked
  · intro other hle hpushed
    refine hother other ?_ hle hpushed.1
    rintro rfl
    exact not_pushed hticket hpushed
  · intro other named written hwritten
    by_cases heq : other = index
    · rw [heq, Function.update_self] at hwritten
      cases hwritten
      simp only [Memory.storeFrame, Function.update_self]
    · rw [Function.update_of_ne heq] at hwritten
      have hholds : (world.producers other).ticket = some written := by
        rw [hwritten]
        rfl
      obtain ⟨hle, hlt⟩ := h.held other written hholds
      have hne : written ≠ ticket := by
        rintro rfl
        exact heq (h.distinct other index _ hholds hticket)
      rw [hother written hne hle hlt]
      exact h.written other named written hwritten

/-- Where a sequence was stored, and where not. -/
theorem storeSequence_slots (memory : Memory) (index sequence slot : ℕ) :
    (memory.storeSequence index sequence).slots slot =
      if slot = index then ⟨sequence, (memory.slots slot).frame⟩ else memory.slots slot := by
  by_cases heq : slot = index
  · simp only [Memory.storeSequence, heq, Function.update_self, if_pos]
  · simp only [Memory.storeSequence, Function.update_of_ne heq, if_neg heq]

/-- The state after a producer has published its slot. -/
def World.published (size : ℕ) (world : World) (index ticket : ℕ) : World :=
  { world with memory := world.memory.storeSequence (ticket % size) (ticket + 1) }.setProducer
    index .idle

theorem Sound.pushed_published (h : Sound size world) {index ticket : ℕ}
    (hticket : (world.producers index).ticket = some ticket) (other : ℕ) :
    (world.published size index ticket).Pushed other ↔ world.Pushed other ∨ other = ticket := by
  simp only [World.Pushed, World.published, World.setProducer, ticket_update]
  constructor
  · rintro ⟨hlt, hnone⟩
    by_cases heq : other = ticket
    · exact .inr heq
    · refine .inl ⟨hlt, fun producer hholds ↦ ?_⟩
      by_cases hindex : producer = index
      · rw [hindex, hticket] at hholds
        exact heq (Option.some.inj hholds).symm
      · exact hnone producer (by rw [if_neg hindex, hholds])
  · rintro (⟨hlt, hnone⟩ | rfl)
    · refine ⟨hlt, fun producer ↦ ?_⟩
      split
      · exact Option.some_ne_none _ ∘ Eq.symm
      · exact hnone producer
    · refine ⟨(h.held index _ hticket).2, fun producer ↦ ?_⟩
      split
      · exact Option.some_ne_none _ ∘ Eq.symm
      · rename_i hindex
        exact fun hholds ↦ hindex (h.distinct producer index _ hholds hticket)

theorem Sound.publish (h : Sound size world) {index frame ticket : ℕ}
    (hwritten : world.producers index = .written frame ticket) :
    Sound size (world.published size index ticket) := by
  have hticket : (world.producers index).ticket = some ticket := by
    rw [hwritten]
    rfl
  have hheld := h.held index ticket hticket
  have hiff := h.pushed_published hticket
  have hslots : ∀ other, other ≠ ticket → world.cursor ≤ other → other < world.cursor + size →
      (world.published size index ticket).memory.slots (other % size) =
        world.memory.slots (other % size) := by
    intro other hne hle hlt
    have hslot := h.slot_ne hne.symm hheld ⟨hle, hlt⟩
    exact (storeSequence_slots _ _ _ _).trans (if_neg hslot.symm)
  have hframes : ∀ slot, ((world.published size index ticket).memory.slots slot).frame =
      (world.memory.slots slot).frame := by
    intro slot
    simp only [World.published, World.setProducer, storeSequence_slots]
    split <;> rfl
  -- who still holds a ticket held it before
  have hproducers : ∀ other ticket',
      ((world.published size index ticket).producers other).ticket = some ticket' →
        (world.published size index ticket).producers other = world.producers other := by
    intro other ticket' hother
    by_cases heq : other = index
    · simp only [World.published, World.setProducer, heq, Function.update_self] at hother
      cases hother
    · exact Function.update_of_ne heq _ _
  constructor
  case tail => exact h.tail
  case cursor_le => exact h.cursor_le
  case bound => exact h.bound
  case limit => exact h.limit
  case popped => exact h.popped
  case held =>
    intro other ticket' hother
    rw [hproducers other ticket' hother] at hother
    exact h.held other ticket' hother
  case distinct =>
    intro first second ticket' hfirst hsecond
    rw [hproducers first ticket' hfirst] at hfirst
    rw [hproducers second ticket' hsecond] at hsecond
    exact h.distinct first second ticket' hfirst hsecond
  case named =>
    intro other ticket' named hother hnamed
    have hsame := hproducers other ticket' hother
    rw [hsame] at hother hnamed
    exact h.named other ticket' named hother hnamed
  case free =>
    intro other hle hlt hnot
    have hne : other ≠ ticket := fun heq ↦ hnot ((hiff other).mpr (.inr heq))
    rw [hslots other hne hle hlt]
    exact h.free other hle hlt fun hp ↦ hnot ((hiff other).mpr (.inl hp))
  case pushed =>
    intro other hle hp
    rcases (hiff other).mp hp with hp | rfl
    · have hne : other ≠ ticket := fun heq ↦ not_pushed hticket (heq ▸ hp)
      rw [hslots other hne hle (h.window hp.1)]
      exact h.pushed other hle hp
    · rw [hframes]
      refine ⟨?_, ?_⟩
      · simp only [World.published, World.setProducer, storeSequence_slots, if_pos]
      · rw [h.written index frame _ hwritten]
        exact h.named index _ frame hticket (by rw [hwritten]; rfl)
  case written =>
    intro other named ticket' hother
    have hholds : ((world.published size index ticket).producers other).ticket = some ticket' := by
      rw [hother]
      rfl
    rw [hproducers other ticket' hholds] at hother
    rw [hframes]
    exact h.written other named ticket' hother
  case matched => exact fun hmatched ↦ (hiff _).mpr (.inl (h.matched hmatched))
  case loaded =>
    intro named hloaded
    obtain ⟨hp, hloaded⟩ := h.loaded named hloaded
    exact ⟨(hiff _).mpr (.inl hp), hloaded⟩
  case stopped => exact h.stopped
  case assertion =>
    intro other ticket' assertion hother
    have hholds : ((world.published size index ticket).producers other).ticket = some ticket' := by
      rw [hother]
      rfl
    rw [hproducers other ticket' hholds] at hother
    exact h.assertion other ticket' assertion hother

/-! ### The consumer goes on -/

/-- The slot of the cursor shows whether the push of its ticket is over. -/
theorem Sound.ready_iff (h : Sound size world) (hpos : 0 < size) :
    (world.memory.slots (world.cursor % size)).sequence = world.cursor + 1 ↔
      world.Pushed world.cursor := by
  constructor
  · intro hsequence
    by_contra hnot
    have hfree := h.free world.cursor le_rfl (Nat.lt_add_of_pos_right hpos) hnot
    omega
  · exact fun hpushed ↦ (h.pushed world.cursor le_rfl hpushed).1

theorem Sound.find (h : Sound size world) (hpushed : world.Pushed world.cursor) :
    Sound size { world with consumer := .matched } :=
  { h with
    matched := fun _ ↦ hpushed
    loaded := fun _ hloaded ↦ Consumer.noConfusion hloaded
    stopped := fun _ hstopped ↦ Consumer.noConfusion hstopped }

/-- The consumer reads the frame of its slot. -/
theorem Sound.load (h : Sound size world) (hmatched : world.consumer = .matched)
    (hlimit : world.cursor + 1 + size ≤ 2 ^ 64) :
    Sound size { world with
      consumer := .loaded (world.memory.slots (world.cursor % size)).frame } := by
  have hpushed := h.matched hmatched
  refine { h with matched := ?_, loaded := ?_, stopped := ?_ }
  · exact fun hmatched ↦ Consumer.noConfusion hmatched
  · rintro frame hloaded
    cases hloaded
    exact ⟨hpushed, (h.pushed world.cursor le_rfl hpushed).2, hlimit⟩
  · exact fun _ hstopped ↦ Consumer.noConfusion hstopped

theorem Sound.stop (h : Sound size world) (hlimit : 2 ^ 64 ≤ world.cursor + size)
    (assertion : Assertion) : Sound size { world with consumer := .panicked assertion } :=
  { h with
    matched := fun hmatched ↦ Consumer.noConfusion hmatched
    loaded := fun _ hloaded ↦ Consumer.noConfusion hloaded
    stopped := fun _ _ ↦ hlimit }

/-- The state after the consumer has given a slot to the next lap. -/
def World.consumed (size : ℕ) (world : World) (frame : ℕ) : World :=
  { world with
    memory := world.memory.storeSequence (world.cursor % size) (world.cursor + size)
    cursor := world.cursor + 1
    consumer := .idle
    popped := world.popped ++ [frame] }

theorem Sound.consumed (h : Sound size world) {frame : ℕ}
    (hloaded : world.consumer = .loaded frame) : Sound size (world.consumed size frame) := by
  obtain ⟨hcursor, hframe, hlimit⟩ := h.loaded frame hloaded
  have hslots : ∀ other, world.cursor < other → other < world.cursor + size →
      (world.consumed size frame).memory.slots (other % size) =
        world.memory.slots (other % size) := by
    intro other hlt hwindow
    have hslot := h.slot_ne hlt.ne ⟨le_rfl, hcursor.1⟩ ⟨hlt.le, hwindow⟩
    exact (storeSequence_slots _ _ _ _).trans (if_neg hslot.symm)
  have hframes : ∀ slot, ((world.consumed size frame).memory.slots slot).frame =
      (world.memory.slots slot).frame := by
    intro slot
    simp only [World.consumed, storeSequence_slots]
    split <;> rfl
  constructor
  case tail => exact h.tail
  case cursor_le => exact hcursor.1
  case bound =>
    have hbound := h.bound
    simp only [World.consumed]
    omega
  case limit => exact hlimit
  case popped =>
    change world.popped ++ [frame] = world.claims.take (world.cursor + 1)
    rw [List.take_add_one, hframe, h.popped]
    rfl
  case held =>
    intro other ticket hother
    obtain ⟨hle, hlt⟩ := h.held other ticket hother
    have hne : world.cursor ≠ ticket := by
      rintro rfl
      exact not_pushed hother hcursor
    exact ⟨Nat.succ_le_of_lt (lt_of_le_of_ne hle hne), hlt⟩
  case distinct => exact h.distinct
  case named => exact h.named
  case free =>
    intro ticket hle hlt hnot
    have hle : world.cursor < ticket := hle
    have hlt : ticket < world.cursor + 1 + size := hlt
    by_cases hlap : ticket = world.cursor + size
    · rw [hlap, Nat.add_mod_right]
      simp only [World.consumed, storeSequence_slots, if_pos]
    · rw [hslots ticket hle (by omega)]
      exact h.free ticket hle.le (by omega) hnot
  case pushed =>
    intro ticket hle hp
    have hp : world.Pushed ticket := hp
    have hle : world.cursor < ticket := hle
    rw [hslots ticket hle (h.window hp.1)]
    exact h.pushed ticket hle.le hp
  case written =>
    intro other named ticket hother
    rw [hframes]
    exact h.written other named ticket hother
  case matched =>
    intro hmatched
    cases hmatched
  case loaded =>
    intro named hloaded
    cases hloaded
  case stopped =>
    intro assertion hstopped
    cases hstopped
  case assertion => exact h.assertion

end Steps

/-! ## Runs -/

section Runs

variable {maxRetainedFrames : ℕ} {world : World}

/-- What the next step of a producer does. -/
inductive Produced (size : ℕ) (world : World) (index : ℕ) : World → Prop
  | rest : Produced size world index world
  | check {frame ticket : ℕ} (hclaimed : world.producers index = .claimed frame ticket) :
    Produced size world index (world.setProducer index (.checked frame ticket))
  | write {frame ticket : ℕ} (hchecked : world.producers index = .checked frame ticket) :
    Produced size world index
      ({ world with memory := world.memory.storeFrame (ticket % size) frame }.setProducer index
        (.written frame ticket))
  | publish {frame ticket : ℕ} (hwritten : world.producers index = .written frame ticket) :
    Produced size world index (world.published size index ticket)

/-- A producer finds its slot free. -/
theorem Sound.produced (h : Sound (capacity maxRetainedFrames) world) (index : ℕ) :
    Produced (capacity maxRetainedFrames) world index (world.produce maxRetainedFrames index) := by
  unfold World.produce
  simp only [and_mask]
  cases hproducer : world.producers index with
  | idle => exact .rest
  | claimed frame ticket =>
    have hfree := h.slot_free (congrArg Producer.ticket hproducer)
    simp only [if_pos hfree]
    exact .check hproducer
  | checked frame ticket => exact .write hproducer
  | written frame ticket => exact .publish hproducer
  | panicked ticket assertion => exact .rest

/-- What the next step of the consumer does. -/
inductive Consumed (size : ℕ) (world : World) : World → Prop
  | wait (hidle : world.consumer = .idle) (hnot : ¬world.Pushed world.cursor) :
    Consumed size world world
  | find (hidle : world.consumer = .idle) (hpushed : world.Pushed world.cursor) :
    Consumed size world { world with consumer := .matched }
  | load (hmatched : world.consumer = .matched) (hlimit : world.cursor + 1 + size ≤ 2 ^ 64) :
    Consumed size world { world with
      consumer := .loaded (world.memory.slots (world.cursor % size)).frame }
  | pop {frame : ℕ} (hloaded : world.consumer = .loaded frame) :
    Consumed size world (world.consumed size frame)
  | stop {assertion : Assertion} (hlimit : 2 ^ 64 ≤ world.cursor + size)
      (hloaded : ∀ frame, world.consumer ≠ .loaded frame) :
    Consumed size world { world with consumer := .panicked assertion }

theorem Sound.consume (h : Sound (capacity maxRetainedFrames) world)
    (hsize : capacity maxRetainedFrames < 2 ^ 64) :
    Consumed (capacity maxRetainedFrames) world (world.consume maxRetainedFrames) := by
  have hpos := capacity_pos maxRetainedFrames
  unfold World.consume
  simp only [and_mask, ticketMax]
  cases hconsumer : world.consumer with
  | idle =>
    have hloaded : ∀ frame, world.consumer ≠ .loaded frame := by simp [hconsumer]
    dsimp only
    split
    · split
      · rename_i hready
        exact .wait hconsumer fun hpushed ↦ hready ((h.ready_iff hpos).mpr hpushed)
      · rename_i hready
        exact .find hconsumer ((h.ready_iff hpos).mp (not_not.mp hready))
    · exact .stop (by omega) hloaded
  | matched =>
    have hloaded : ∀ frame, world.consumer ≠ .loaded frame := by simp [hconsumer]
    dsimp only
    split
    · exact .load hconsumer (by omega)
    · exact .stop (by omega) hloaded
  | loaded frame => exact .pop hconsumer
  | panicked assertion => exact .stop (h.stopped assertion hconsumer) (by simp [hconsumer])

theorem Sound.of_produced {size index : ℕ} {after : World} (h : Sound size world)
    (hstep : Produced size world index after) : Sound size after := by
  cases hstep with
  | rest => exact h
  | check hclaimed => exact h.check hclaimed
  | write hchecked => exact h.write hchecked
  | publish hwritten => exact h.publish hwritten

theorem Sound.of_consumed {size : ℕ} {after : World} (h : Sound size world)
    (hstep : Consumed size world after) : Sound size after := by
  cases hstep with
  | wait => exact h
  | find hidle hpushed => exact h.find hpushed
  | load hmatched hlimit => exact h.load hmatched hlimit
  | pop hloaded => exact h.consumed hloaded
  | stop hlimit => exact h.stop hlimit _

/-- What is pushed stays pushed. -/
theorem Produced.pushed {size index ticket : ℕ} {after : World}
    (hstep : Produced size world index after) (h : Sound size world)
    (hpushed : world.Pushed ticket) : after.Pushed ticket := by
  cases hstep with
  | rest => exact hpushed
  | check hclaimed =>
    refine (pushed_setProducer ?_).mpr hpushed
    rw [hclaimed]
    rfl
  | write hchecked =>
    refine (pushed_setProducer ?_).mpr hpushed
    change _ = (world.producers index).ticket
    rw [hchecked]
    rfl
  | publish hwritten =>
    exact (h.pushed_published (congrArg Producer.ticket hwritten) ticket).mpr (.inl hpushed)

theorem Consumed.pushed {size ticket : ℕ} {after : World} (hstep : Consumed size world after)
    (hpushed : world.Pushed ticket) : after.Pushed ticket := by
  cases hstep <;> exact hpushed

theorem World.next_push_idle {index frame : ℕ} (hidle : world.producers index = .idle) :
    world.next maxRetainedFrames (.push index frame) = world.claim index frame := by
  simp only [World.next, hidle]

theorem World.next_push_busy {index frame : ℕ} (hbusy : world.producers index ≠ .idle) :
    world.next maxRetainedFrames (.push index frame) = world := by
  unfold World.next
  dsimp only
  split
  · rename_i hidle
    exact absurd hidle hbusy
  · rfl

/-- One step, after which there are not too many tickets. -/
theorem Sound.next (h : Sound (capacity maxRetainedFrames) world)
    (hsize : capacity maxRetainedFrames < 2 ^ 64) (choice : Choice)
    (hbound : (world.next maxRetainedFrames choice).claims.length ≤
      (world.next maxRetainedFrames choice).popped.length + capacity maxRetainedFrames) :
    Sound (capacity maxRetainedFrames) (world.next maxRetainedFrames choice) := by
  cases choice with
  | push index frame =>
    by_cases hidle : world.producers index = .idle
    · rw [World.next_push_idle hidle] at hbound ⊢
      exact h.claim hidle (h.claim_room hbound)
    · rw [World.next_push_busy hidle]
      exact h
  | step index => exact h.of_produced (h.produced index)
  | pop => exact h.of_consumed (h.consume hsize)

theorem run_concat (schedule : List Choice) (choice : Choice) :
    run maxRetainedFrames (schedule ++ [choice]) =
      (run maxRetainedFrames schedule).next maxRetainedFrames choice := by
  rw [run, List.foldl_concat, run]

/-- The beginning of a schedule keeps to the bound as well. -/
theorem Bounded.of_append {first second : List Choice}
    (hbounded : Bounded maxRetainedFrames (first ++ second)) : Bounded maxRetainedFrames first := by
  intro count
  have hcount := hbounded (min count first.length)
  rwa [List.take_append_of_le_length (min_le_right _ _), ← List.take_take, List.take_length]
    at hcount

theorem Bounded.last {schedule : List Choice} (hbounded : Bounded maxRetainedFrames schedule) :
    (run maxRetainedFrames schedule).claims.length ≤
      (run maxRetainedFrames schedule).popped.length + capacity maxRetainedFrames := by
  have hlast := hbounded schedule.length
  rwa [List.take_length] at hlast

theorem sound_run (hsize : capacity maxRetainedFrames < 2 ^ 64) {schedule : List Choice}
    (hbounded : Bounded maxRetainedFrames schedule) :
    Sound (capacity maxRetainedFrames) (run maxRetainedFrames schedule) := by
  induction schedule using List.reverseRecOn with
  | nil => exact Sound.initial hsize.le
  | append_singleton schedule choice ih =>
    have hlast := hbounded.last
    rw [run_concat] at hlast ⊢
    exact (ih hbounded.of_append).next hsize choice hlast

/-! ## Progress -/

/-- How far a pop has come. -/
def Consumer.phase : Consumer → ℕ
  | .idle => 0
  | .matched => 1
  | .loaded _ => 2
  | .panicked _ => 2

/-- How many steps the consumer has got ahead. -/
def World.progress (world : World) : ℕ := 3 * world.cursor + world.consumer.phase

theorem Consumer.phase_lt (consumer : Consumer) : consumer.phase < 3 := by
  cases consumer <;> simp [Consumer.phase]

theorem Sound.pushed_next (h : Sound (capacity maxRetainedFrames) world)
    (hsize : capacity maxRetainedFrames < 2 ^ 64) {choice : Choice}
    (hbound : (world.next maxRetainedFrames choice).claims.length ≤
      (world.next maxRetainedFrames choice).popped.length + capacity maxRetainedFrames)
    {ticket : ℕ} (hpushed : world.Pushed ticket) :
    (world.next maxRetainedFrames choice).Pushed ticket := by
  cases choice with
  | push index frame =>
    by_cases hidle : world.producers index = .idle
    · rw [World.next_push_idle hidle] at hbound ⊢
      exact (h.pushed_claim hidle (h.claim_room hbound) ticket).mpr hpushed
    · rw [World.next_push_busy hidle]
      exact hpushed
  | step index => exact (h.produced index).pushed h hpushed
  | pop => exact (h.consume hsize).pushed hpushed

theorem Produced.progress {size index : ℕ} {after : World}
    (hstep : Produced size world index after) : after.progress = world.progress := by
  cases hstep <;> rfl

/-- The consumer never falls back. -/
theorem Consumed.progress_le {size : ℕ} {after : World} (hstep : Consumed size world after) :
    world.progress ≤ after.progress := by
  cases hstep with
  | wait => exact le_rfl
  | find hidle => simp [World.progress, hidle, Consumer.phase]
  | load hmatched => simp [World.progress, hmatched, Consumer.phase]
  | pop hloaded =>
    simp only [World.progress, World.consumed, hloaded, Consumer.phase]
    omega
  | stop hlimit =>
    exact Nat.add_le_add_left (Nat.le_of_lt_succ world.consumer.phase_lt) _

/-- If the ticket of the cursor is pushed, the consumer gets ahead. -/
theorem Consumed.progress {size : ℕ} {after : World} (hstep : Consumed size world after)
    (hpushed : world.Pushed world.cursor) (hlimit : world.cursor + 1 + size ≤ 2 ^ 64) :
    after.progress = world.progress + 1 := by
  cases hstep with
  | wait hidle hnot => exact absurd hpushed hnot
  | find hidle => simp [World.progress, hidle, Consumer.phase]
  | load hmatched => simp [World.progress, hmatched, Consumer.phase]
  | pop hloaded =>
    simp only [World.progress, World.consumed, hloaded, Consumer.phase]
    omega
  | stop hstop => omega

theorem Sound.progress_le (h : Sound (capacity maxRetainedFrames) world)
    (hsize : capacity maxRetainedFrames < 2 ^ 64) (choice : Choice) :
    world.progress ≤ (world.next maxRetainedFrames choice).progress := by
  cases choice with
  | push index frame =>
    by_cases hidle : world.producers index = .idle
    · rw [World.next_push_idle hidle]
      exact le_rfl
    · rw [World.next_push_busy hidle]
  | step index => exact (h.produced index).progress.ge
  | pop => exact (h.consume hsize).progress_le

theorem pushed_run (hsize : capacity maxRetainedFrames < 2 ^ 64) {schedule later : List Choice}
    (hbounded : Bounded maxRetainedFrames (schedule ++ later)) {ticket : ℕ}
    (hpushed : (run maxRetainedFrames schedule).Pushed ticket) :
    (run maxRetainedFrames (schedule ++ later)).Pushed ticket := by
  induction later using List.reverseRecOn with
  | nil => rwa [List.append_nil]
  | append_singleton later choice ih =>
    rw [← List.append_assoc] at hbounded ⊢
    have hbefore := hbounded.of_append
    have hlast := hbounded.last
    rw [run_concat] at hlast ⊢
    exact (sound_run hsize hbefore).pushed_next hsize hlast (ih hbefore)

/-- Every step that the consumer gets takes it ahead, until it has popped what was pushed. -/
theorem progress_run (hsize : capacity maxRetainedFrames < 2 ^ 64) {schedule later : List Choice}
    (hbounded : Bounded maxRetainedFrames (schedule ++ later)) {ticket : ℕ}
    (hpushed : ∀ earlier ≤ ticket, (run maxRetainedFrames schedule).Pushed earlier)
    (hlimit : ticket + 1 + capacity maxRetainedFrames ≤ 2 ^ 64) :
    min (3 * (ticket + 1)) ((run maxRetainedFrames schedule).progress + later.count .pop) ≤
      (run maxRetainedFrames (schedule ++ later)).progress := by
  induction later using List.reverseRecOn with
  | nil =>
    rw [List.append_nil, List.count_nil]
    exact min_le_right _ _
  | append_singleton later choice ih =>
    rw [← List.append_assoc] at hbounded ⊢
    have hbefore := hbounded.of_append
    have hsound := sound_run hsize hbefore
    have ih := ih hbefore
    have hle := hsound.progress_le hsize choice
    rw [run_concat, List.count_append]
    by_cases hdone : 3 * (ticket + 1) ≤ (run maxRetainedFrames (schedule ++ later)).progress
    · exact (min_le_left _ _).trans (hdone.trans hle)
    · have hcursor : (run maxRetainedFrames (schedule ++ later)).cursor ≤ ticket := by
        unfold World.progress at hdone
        omega
      have hready := pushed_run hsize hbefore (hpushed _ hcursor)
      by_cases hpop : choice = .pop
      · rw [hpop]
        have hnext := (hsound.consume hsize).progress hready (by omega)
        change _ ≤ ((run maxRetainedFrames (schedule ++ later)).consume maxRetainedFrames).progress
        rw [hnext, List.count_singleton_self]
        omega
      · rw [List.count_singleton, beq_eq_false_iff_ne.mpr hpop]
        simp only [Bool.false_eq_true, if_false, add_zero]
        exact ih.trans hle

theorem claims_run (maxRetainedFrames : ℕ) (schedule later : List Choice) :
    (run maxRetainedFrames schedule).claims <+:
      (run maxRetainedFrames (schedule ++ later)).claims := by
  induction later using List.reverseRecOn with
  | nil => rw [List.append_nil]
  | append_singleton later choice ih =>
    rw [← List.append_assoc, run_concat]
    refine ih.trans ?_
    generalize run maxRetainedFrames (schedule ++ later) = world
    cases choice with
    | push index frame =>
      by_cases hidle : world.producers index = .idle
      · rw [World.next_push_idle hidle]
        exact List.prefix_append _ _
      · rw [World.next_push_busy hidle]
    | step index =>
      simp only [World.next, World.produce]
      split <;> exact List.prefix_refl _
    | pop =>
      simp only [World.next, World.consume]
      split
      · split <;> [split; skip] <;> exact List.prefix_refl _
      · split <;> exact List.prefix_refl _
      · exact List.prefix_refl _
      · exact List.prefix_refl _

theorem capacity_lt (hmax : maxRetainedFrames ≤ ringCapacityMax) :
    capacity maxRetainedFrames < 2 ^ 64 := by
  have hclog : Nat.clog 2 maxRetainedFrames ≤ 31 := by
    rw [← Nat.clog_pow 2 31 one_lt_two]
    exact Nat.clog_mono_right 2 hmax
  have hpow : 2 ^ Nat.clog 2 maxRetainedFrames ≤ 2 ^ 31 := Nat.pow_le_pow_right two_pos hclog
  exact max_lt (lt_of_le_of_lt hpow (by decide)) (by decide)

/-- The frames come out of the ring in the order of their tickets, each of them once and not before
its push is over. A producer always finds its slot free. Whatever the others do, three steps of the
consumer for each ticket suffice to pop everything that was pushed, as long as the sequence of the
slot for the next lap is representable. -/
theorem pops_in_ticket_order (maxRetainedFrames : ℕ) (hmax : maxRetainedFrames ≤ ringCapacityMax)
    (schedule : List Choice) (hbounded : Bounded maxRetainedFrames schedule) :
    let world := run maxRetainedFrames schedule
    world.popped = world.claims.take world.popped.length ∧
    (∀ ticket < world.popped.length, world.Pushed ticket) ∧
    (∀ index ticket assertion, world.producers index = .panicked ticket assertion →
      assertion ≠ ⟨"release-ring capacity proof keeps a claimed slot free"⟩) ∧
    ∀ later, Bounded maxRetainedFrames (schedule ++ later) →
      ∀ ticket, (∀ earlier ≤ ticket, world.Pushed earlier) →
        ticket ≤ ticketMax - capacity maxRetainedFrames →
        3 * (ticket + 1 - world.popped.length) ≤ later.count .pop →
          (run maxRetainedFrames (schedule ++ later)).popped[ticket]? = world.claims[ticket]? := by
  have hsize := capacity_lt hmax
  have hsound := sound_run hsize hbounded
  refine ⟨?_, ?_, ?_, ?_⟩
  · rw [hsound.popped_length]
    exact hsound.popped
  · intro ticket hticket
    rw [hsound.popped_length] at hticket
    refine ⟨lt_of_lt_of_le hticket hsound.cursor_le, fun producer hholds ↦ ?_⟩
    exact absurd (hsound.held producer ticket hholds).1 (not_le_of_gt hticket)
  · intro index ticket assertion hpanicked heq
    rw [hsound.assertion index ticket assertion hpanicked] at heq
    exact absurd (congrArg Assertion.message heq) (by decide)
  · intro later hlater ticket hpushed hlimit hcount
    have hafter := sound_run hsize hlater
    rw [ticketMax] at hlimit
    have hprogress := progress_run hsize hlater hpushed (by omega)
    have hphase := (run maxRetainedFrames (schedule ++ later)).consumer.phase_lt
    have hcursor : ticket < (run maxRetainedFrames (schedule ++ later)).cursor := by
      rw [hsound.popped_length] at hcount
      unfold World.progress at hprogress
      omega
    rw [hafter.popped, List.getElem?_take_of_lt hcursor]
    obtain ⟨rest, hrest⟩ := claims_run maxRetainedFrames schedule later
    rw [← hrest, List.getElem?_append_left (hpushed ticket le_rfl).1]

theorem bounded_iff {schedule : List Choice} :
    Bounded maxRetainedFrames schedule ↔ ∀ count ≤ schedule.length,
      (run maxRetainedFrames (schedule.take count)).claims.length ≤
        (run maxRetainedFrames (schedule.take count)).popped.length +
          capacity maxRetainedFrames := by
  refine ⟨fun hbounded count _ ↦ hbounded count, fun hbounded count ↦ ?_⟩
  rcases le_total count schedule.length with hle | hle
  · exact hbounded count hle
  · rw [List.take_of_length_le hle, ← List.take_length (l := schedule)]
    exact hbounded schedule.length le_rfl

instance {schedule : List Choice} : Decidable (Bounded maxRetainedFrames schedule) :=
  decidable_of_iff _ bounded_iff.symm

end Runs

/-- A producer is overtaken by the next one, and its slot is used again in the next lap. -/
def overtaken : List Choice :=
  [.push 0 7, .push 1 9, .step 1, .step 1, .step 1, .pop, .step 0, .step 0, .step 0, .pop, .pop,
    .pop, .push 0 8, .step 0, .step 0, .step 0]

theorem overtaken_idle (producer : ℕ) : (run 2 overtaken).producers producer = .idle := by
  rcases producer with _ | _ | producer
  · decide +kernel
  · decide +kernel
  · rfl

theorem overtaken_pops : Bounded 2 overtaken ∧ Bounded 2 (overtaken ++ List.replicate 6 .pop) ∧
    (run 2 overtaken).popped = [7] ∧
    (run 2 (overtaken ++ List.replicate 6 .pop)).popped[2]? = some 8 := by
  have hbounded : Bounded 2 overtaken := by decide +kernel
  have hlater : Bounded 2 (overtaken ++ List.replicate 6 .pop) := by decide +kernel
  obtain ⟨-, -, -, hpops⟩ := pops_in_ticket_order 2 (by decide) overtaken hbounded
  refine ⟨hbounded, hlater, by decide +kernel, ?_⟩
  rw [hpops (List.replicate 6 .pop) hlater 2 ?_ (by decide +kernel) (by decide +kernel)]
  · decide +kernel
  · intro earlier hearlier
    refine ⟨lt_of_le_of_lt hearlier (by decide +kernel), fun producer ↦ ?_⟩
    rw [overtaken_idle producer]
    exact Option.some_ne_none _ ∘ Eq.symm

end DiosPool.Ring
