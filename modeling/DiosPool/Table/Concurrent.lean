import DiosPool.Table.Sequential

/-!
# Lookups beside the writer

Any number of readers look pages up while one writer inserts, updates and removes. A schedule
chooses which party takes the next atomic step, so every sequentially consistent interleaving is a
schedule, and an instant of the run is a prefix of it.

A lookup that finds a frame returns right after the load that confirmed the version of a slot. At
that instant the slot is at rest and agrees with the announced map.
-/

namespace DiosPool.Table

open Foundation

section Reading

variable {capacity slot : ℕ} {first memory : Memory}

/-- A value read while the slot evolves from `first`. It is worth something only if the version of
the slot turns out to be still the same. -/
def Fresh {α : Type} (capacity slot : ℕ) (first : Memory) (value expected : α)
    (seen : Memory) : Prop :=
  ∀ later, Evolves capacity seen later →
    (later.cells slot).seq = (first.cells slot).seq → value = expected

theorem holds_loadField {α : Type} (field : Cell → α)
    (heven : (first.cells slot).seq % 2 = 0) (h : Evolves capacity first memory) :
    (loadField slot field).holds (Evolves capacity) (fun value seen ↦
      Evolves capacity memory seen ∧
        Fresh capacity slot first value (field (first.cells slot)) seen) memory := by
  refine Program.holds_load fun seen hseen ↦ ⟨hseen, fun later hlater hversion ↦ ?_⟩
  have hfirst := h.trans hseen
  have hle := hfirst.version_le slot
  have hle' := hlater.version_le slot
  rw [hfirst.unchanged slot heven (by omega)]

/-- The loads between the two loads of the version. -/
theorem holds_loadEntry (heven : (first.cells slot).seq % 2 = 0)
    (h : Evolves capacity first memory) :
    (loadEntry slot).holds (Evolves capacity) (fun snapshot seen ↦
      Evolves capacity first seen ∧
        Fresh capacity slot first snapshot (first.cells slot).entry seen) memory := by
  rw [loadEntry, Program.holds_bind]
  refine Program.holds_mono (fun occupied m₀ known ↦ ?_) (holds_loadField _ heven h)
  obtain ⟨e₀, f₀⟩ := known
  replace e₀ := h.trans e₀
  cases occupied with
  | false =>
    refine ⟨e₀, fun later hlater hversion ↦ ?_⟩
    simp [Cell.entry, ← f₀ later hlater hversion]
  | true =>
    rw [if_pos rfl, Program.holds_bind]
    refine Program.holds_mono (fun driver m₁ known ↦ ?_) (holds_loadField _ heven e₀)
    obtain ⟨e₁, f₁⟩ := known
    rw [Program.holds_bind]
    refine Program.holds_mono (fun fileSlot m₂ known ↦ ?_)
      (holds_loadField _ heven (e₀.trans e₁))
    obtain ⟨e₂, f₂⟩ := known
    rw [Program.holds_bind]
    refine Program.holds_mono (fun fileGeneration m₃ known ↦ ?_)
      (holds_loadField _ heven (e₀.trans (e₁.trans e₂)))
    obtain ⟨e₃, f₃⟩ := known
    rw [Program.holds_bind]
    refine Program.holds_mono (fun granuleIdx m₄ known ↦ ?_)
      (holds_loadField _ heven (e₀.trans (e₁.trans (e₂.trans e₃))))
    obtain ⟨e₄, f₄⟩ := known
    rw [Program.holds_bind]
    refine Program.holds_mono (fun frame m₅ known ↦ ?_)
      (holds_loadField _ heven (e₀.trans (e₁.trans (e₂.trans (e₃.trans e₄)))))
    obtain ⟨e₅, f₅⟩ := known
    refine ⟨e₀.trans (e₁.trans (e₂.trans (e₃.trans (e₄.trans e₅)))), fun later hlater hversion ↦ ?_⟩
    have l₅ := hlater
    have l₄ := e₅.trans l₅
    have l₃ := e₄.trans l₄
    have l₂ := e₃.trans l₃
    have l₁ := e₂.trans l₂
    simp only [Cell.entry, Cell.page, ← f₀ later (e₁.trans l₁) hversion, if_true,
      f₁ later l₁ hversion, f₂ later l₂ hversion, f₃ later l₃ hversion, f₄ later l₄ hversion,
      f₅ later l₅ hversion]

/-- A read returns an entry only if, at the instant it returns, the entry is announced. -/
theorem holds_read (hslot : slot < capacity) (memory : Memory) :
    (read slot).holds (Evolves capacity) (fun entry seen ↦
      ∀ page frame, entry = some (page, frame) → seen.live page = some frame) memory := by
  have hloop : ∀ spins memory, (readLoop slot spins).holds (Evolves capacity)
      (fun entry seen ↦ ∀ page frame, entry = some (page, frame) →
        seen.live page = some frame) memory := by
    intro spins
    induction spins with
    | zero => exact fun _ _ _ ↦ trivial
    | succ spins ih =>
      intro memory
      rw [readLoop, Program.holds_bind]
      refine Program.holds_load fun first hfirst ↦ ?_
      by_cases hodd : (first.cells slot).seq % 2 ≠ 0
      · rw [if_pos hodd]
        exact ih first
      · have heven : (first.cells slot).seq % 2 = 0 := by omega
        rw [if_neg hodd, Program.holds_bind]
        refine Program.holds_mono (fun snapshot m known ↦ ?_)
          (holds_loadEntry heven (Evolves.refl hfirst.consistent))
        obtain ⟨hm, hfresh⟩ := known
        rw [Program.holds_bind]
        refine Program.holds_load fun seen hseen ↦ ?_
        by_cases hversion : (seen.cells slot).seq = (first.cells slot).seq
        · rw [if_pos hversion]
          intro page frame hentry
          have hsnapshot := hfresh seen hseen hversion
          rw [← (hm.trans hseen).unchanged slot heven hversion] at hsnapshot
          exact hseen.consistent slot hslot (by omega) page frame (hsnapshot ▸ hentry)
        · rw [if_neg hversion]
          exact ih seen
  exact hloop _ memory

end Reading

namespace Geometry

variable (G : Geometry)

/-- A lookup returns a frame only if, at the instant it returns, the page is mapped to it. -/
theorem holds_lookup (page : PageId) (memory : Memory) :
    (G.lookup page).holds (Evolves G.capacity) (fun found seen ↦
      ∀ frame, found = some frame → seen.live page = some frame) memory := by
  have hloop : ∀ fuel slot memory, slot < G.capacity →
      (G.lookupLoop page fuel slot).holds (Evolves G.capacity) (fun found seen ↦
        ∀ frame, found = some frame → seen.live page = some frame) memory := by
    intro fuel
    induction fuel with
    | zero =>
      intro slot memory _ frame hfound
      cases hfound
    | succ fuel ih =>
      intro slot memory hslot
      rw [lookupLoop, Program.holds_bind]
      refine Program.holds_mono (fun entry seen hentry ↦ ?_) (holds_read hslot memory)
      cases entry with
      | none =>
        intro frame hfound
        cases hfound
      | some entry =>
        by_cases hkey : entry.1 = page
        · simp only [hkey, if_true]
          intro frame hfound
          cases hfound
          exact hentry page entry.2 (by rw [← hkey])
        · simp only [hkey, if_false]
          refine ih _ _ ?_
          rw [nextSlot, and_mask]
          exact Nat.mod_lt _ G.capacity_pos
  exact hloop _ _ memory (G.probing.home_lt page)

end Geometry

/-- The abstract effect of one operation of the writer. -/
def Pages.apply (pages : Pages) : Op → Pages
  | .lookup _ => pages
  | .insert page frame => pages.insert page frame
  | .remove page => pages.erase page

theorem Pages.exec_eq_apply {capacity : ℕ} {op : Op} {pages pages' : Pages}
    {answer : Option ℕ × ℕ} (h : Pages.exec capacity op pages = .ok (answer, pages')) :
    pages' = pages.apply op := by
  cases op with
  | lookup page => cases h; rfl
  | remove page => cases h; rfl
  | insert page frame =>
    rw [Pages.exec] at h
    split at h
    · cases h
    · cases h; rfl

/-- A reader: between lookups, inside one since the instant of its first step, or returned from
one whose first and last steps were taken at the two instants. -/
inductive Reader : Type 1
  | idle
  | running (page : PageId) (start : Option ℕ) (program : TableM (Option ℕ))
  | returned (page : PageId) (start stop : ℕ) (result : Option ℕ)
  | panicked

/-- The page, the instants and the result of a lookup that has returned. -/
def Reader.outcome : Reader → Option (PageId × ℕ × ℕ × Option ℕ)
  | .returned page start stop result => some (page, start, stop, result)
  | _ => none

/-- The memory with all parties. The writer is lost once it has panicked. -/
structure World where
  memory : Memory
  writer : Option (TableM (Option ℕ × ℕ))
  begun : List Op
  readers : ℕ → Reader
  now : ℕ

/-- Which party moves next: one begins an operation, or takes one atomic step of it. -/
inductive Choice
  | beginWrite (op : Op)
  | writerStep
  | beginLookup (reader : ℕ) (page : PageId)
  | readerStep (reader : ℕ)

namespace World

def initial : World := ⟨Memory.empty, some (.done (none, 0)), [], fun _ ↦ .idle, 0⟩

/-- A reader after one atomic step, taken at the instant `now`. -/
def Reader.settle (page : PageId) (start now : ℕ) : TableM (Option ℕ) → Reader
  | .done result => .returned page start now result
  | program => .running page (some start) program

def stepReader (memory : Memory) (now : ℕ) : Reader → Reader × Memory
  | .running page start program =>
    match program.advance memory with
    | .ok (program', memory') => (Reader.settle page (start.getD now) now program', memory')
    | .error _ => (.panicked, memory)
  | reader => (reader, memory)

def beginLookup (G : Geometry) (page : PageId) : Reader → Reader
  | .running page' start program => .running page' start program
  | _ => .running page none (G.lookup page)

def step (G : Geometry) (world : World) : Choice → World
  | .beginWrite op =>
    match world.writer with
    | some (.done _) =>
      { world with
        writer := some (G.exec op), begun := world.begun ++ [op], now := world.now + 1 }
    | _ => { world with now := world.now + 1 }
  | .writerStep =>
    match world.writer with
    | some program =>
      match program.advance world.memory with
      | .ok (program', memory') =>
        { world with writer := some program', memory := memory', now := world.now + 1 }
      | .error _ => { world with writer := none, now := world.now + 1 }
    | none => { world with now := world.now + 1 }
  | .beginLookup reader page =>
    { world with
      readers := Function.update world.readers reader
        (beginLookup G page (world.readers reader))
      now := world.now + 1 }
  | .readerStep reader =>
    let (reader', memory') := stepReader world.memory world.now (world.readers reader)
    { world with
      readers := Function.update world.readers reader reader', memory := memory'
      now := world.now + 1 }

end World

/-- The world after a schedule. -/
def Geometry.world (G : Geometry) (schedule : List Choice) : World :=
  schedule.foldl (World.step G) World.initial

/-- The map after the operations the writer has begun. -/
def Pages.after (begun : List Op) : Pages := begun.foldl Pages.apply ∅

namespace Geometry

variable (G : Geometry)

theorem world_append (schedule : List Choice) (choice : Choice) :
    G.world (schedule ++ [choice]) = (G.world schedule).step G choice := by
  simp [world, List.foldl_append]

/-- The writer completes the operation it is in, or runs into the panic of a full table. -/
def WriterSound (begun : List Op) (memory : Memory) : Option (TableM (Option ℕ × ℕ)) → Prop
  | none => True
  | some program => ∃ last final, G.Reaches program memory last final ∧
    ((∃ answer, last = .done answer ∧ G.Refines final (Pages.after begun)) ∨
      ∃ error, ∀ seen, last.advance seen = .error error)

/-- A running lookup returns only what is announced when it returns. A returned one did so. -/
def ReaderSound (schedule : List Choice) (memory : Memory) : Reader → Prop
  | .running page start program =>
    (∀ first, start = some first → first < schedule.length) ∧ (∀ value, program ≠ .done value) ∧
      program.holds (Evolves G.capacity)
        (fun found seen ↦ ∀ frame, found = some frame → seen.live page = some frame) memory
  | .returned page start stop result =>
    start ≤ stop ∧ stop < schedule.length ∧ ∀ frame, result = some frame →
      (G.world (schedule.take stop)).memory.live page = some frame
  | _ => True

/-- What holds after every schedule. -/
structure Sound (schedule : List Choice) (world : World) : Prop where
  now_eq : world.now = schedule.length
  consistent : world.memory.Consistent G.capacity
  writer : G.WriterSound world.begun world.memory world.writer
  readers : ∀ reader, G.ReaderSound schedule world.memory (world.readers reader)

variable {G}

/-- A reader that does not move bears any step of the others. -/
theorem ReaderSound.bystander {schedule : List Choice} {memory memory' : Memory} {reader : Reader}
    (h : G.ReaderSound schedule memory reader) (hevolves : Evolves G.capacity memory memory')
    (choice : Choice) : G.ReaderSound (schedule ++ [choice]) memory' reader := by
  cases reader with
  | idle => trivial
  | panicked => trivial
  | running page start program =>
    obtain ⟨hstart, hrunning, hholds⟩ := h
    refine ⟨fun first hfirst ↦ ?_, hrunning, ?_⟩
    · rw [List.length_append]
      exact Nat.lt_add_right _ (hstart first hfirst)
    · exact Program.holds_of_rely (fun _ _ _ ↦ Evolves.trans) hrunning hholds hevolves
  | returned page start stop result =>
    obtain ⟨hle, hlt, hlive⟩ := h
    refine ⟨hle, ?_, ?_⟩
    · rw [List.length_append]
      exact Nat.lt_add_right _ hlt
    · rwa [List.take_append_of_le_length (Nat.le_of_lt hlt)]

/-- One step of a reader. -/
theorem ReaderSound.stepReader {schedule : List Choice} {reader : Reader} {memory : Memory}
    (hmemory : (G.world schedule).memory = memory) (hconsistent : memory.Consistent G.capacity)
    (h : G.ReaderSound schedule memory reader) (choice : Choice) :
    (World.stepReader memory schedule.length reader).2 = memory ∧
      G.ReaderSound (schedule ++ [choice]) memory
        (World.stepReader memory schedule.length reader).1 := by
  have hrefl := Evolves.refl hconsistent
  cases reader with
  | idle => exact ⟨rfl, trivial⟩
  | panicked => exact ⟨rfl, trivial⟩
  | returned page start stop result => exact ⟨rfl, h.bystander hrefl choice⟩
  | running page start program =>
    obtain ⟨hstart, hrunning, hholds⟩ := h
    simp only [World.stepReader]
    cases hadvance : program.advance memory with
    | error error => exact ⟨rfl, trivial⟩
    | ok outcome =>
      obtain ⟨program', memory'⟩ := outcome
      obtain ⟨hsame, hnext⟩ := Program.holds_advance hholds hrefl hadvance
      have hfirst : start.getD schedule.length ≤ schedule.length := by
        cases start with
        | none => exact Nat.le_refl _
        | some first => exact Nat.le_of_lt (hstart first rfl)
      refine ⟨hsame, ?_⟩
      cases program' with
      | done result =>
        refine ⟨hfirst, by simp, fun frame hframe ↦ ?_⟩
        rw [List.take_left, hmemory]
        exact hnext frame hframe
      | step action next =>
        refine ⟨fun first heq ↦ ?_, ?_, hnext⟩
        swap
        · intro value hvalue
          cases hvalue
        cases heq
        simpa using Nat.lt_succ_of_le hfirst

theorem lookup_ne_done (page : PageId) (value : Option ℕ) : G.lookup page ≠ .done value := by
  obtain ⟨fuel, hfuel⟩ : ∃ fuel, G.capacity = fuel + 1 :=
    ⟨G.capacity - 1, by have := G.capacity_pos; omega⟩
  rw [lookup, hfuel]
  intro h
  cases h

/-- One step of the writer. -/
theorem WriterSound.advance {begun : List Op} {memory : Memory}
    {program : TableM (Option ℕ × ℕ)} (hconsistent : memory.Consistent G.capacity)
    (h : G.WriterSound begun memory (some program)) :
    match program.advance memory with
    | .ok (program', memory') =>
      Evolves G.capacity memory memory' ∧ G.WriterSound begun memory' (some program')
    | .error _ => True := by
  obtain ⟨last, final, hreach, hend⟩ := h
  rcases hreach.advance with ⟨rfl, rfl⟩ | ⟨program', memory', hadvance, hevolves, hrest⟩
  · rcases hend with ⟨answer, rfl, hrefines⟩ | ⟨error, herror⟩
    · exact ⟨Evolves.refl hconsistent, _, _, .refl _ _, Or.inl ⟨answer, rfl, hrefines⟩⟩
    · rw [herror]
      trivial
  · rw [hadvance]
    exact ⟨hevolves, last, final, hrest, hend⟩

/-- Beginning an operation at rest. -/
theorem WriterSound.exec {begun : List Op} {memory : Memory} {answer : Option ℕ × ℕ}
    (h : G.WriterSound begun memory (some (.done answer))) (op : Op) :
    G.WriterSound (begun ++ [op]) memory (some (G.exec op)) := by
  obtain ⟨last, final, hreach, hend⟩ := h
  cases hreach
  rcases hend with ⟨_, -, hrefines⟩ | ⟨error, herror⟩
  · have hexec := hrefines.reaches_exec op
    cases hspec : Pages.exec G.capacity op (Pages.after begun) with
    | error error =>
      rw [hspec] at hexec
      obtain ⟨last, hreach, hfails⟩ := hexec
      exact ⟨last, _, hreach, Or.inr ⟨error, hfails⟩⟩
    | ok outcome =>
      rw [hspec] at hexec
      obtain ⟨memory', hreach, hrefines'⟩ := hexec
      refine ⟨_, memory', hreach, Or.inl ⟨_, rfl, ?_⟩⟩
      rw [Pages.exec_eq_apply hspec] at hrefines'
      simpa [Pages.after, List.foldl_append] using hrefines'
  · cases herror memory

/-- Every choice of the schedule keeps all parties sound. -/
theorem Sound.step {schedule : List Choice} (h : G.Sound schedule (G.world schedule))
    (choice : Choice) : G.Sound (schedule ++ [choice]) (G.world (schedule ++ [choice])) := by
  rw [world_append]
  have hrefl := Evolves.refl h.consistent
  have hnow : (G.world schedule).now + 1 = (schedule ++ [choice]).length := by
    rw [h.now_eq, List.length_append, List.length_singleton]
  cases choice with
  | beginWrite op =>
    have hstay : G.Sound (schedule ++ [.beginWrite op])
        { G.world schedule with now := (G.world schedule).now + 1 } :=
      ⟨hnow, h.consistent, h.writer, fun reader ↦ (h.readers reader).bystander hrefl _⟩
    simp only [World.step]
    split
    case h_1 answer hwriter =>
      have hw := h.writer
      rw [hwriter] at hw
      exact ⟨hnow, h.consistent, hw.exec op, hstay.readers⟩
    case h_2 => exact hstay
  | writerStep =>
    simp only [World.step]
    cases hwriter : (G.world schedule).writer with
    | none =>
      exact ⟨hnow, h.consistent, trivial, fun reader ↦ (h.readers reader).bystander hrefl _⟩
    | some program =>
      have hw := h.writer
      rw [hwriter] at hw
      have hadvance := hw.advance h.consistent
      cases hstep : program.advance (G.world schedule).memory with
      | error error =>
        simp only [hstep]
        exact ⟨hnow, h.consistent, trivial, fun reader ↦ (h.readers reader).bystander hrefl _⟩
      | ok outcome =>
        rw [hstep] at hadvance
        simp only [hstep]
        exact ⟨hnow, hadvance.1.consistent, hadvance.2,
          fun reader ↦ (h.readers reader).bystander hadvance.1 _⟩
  | beginLookup reader page =>
    refine ⟨hnow, h.consistent, h.writer, fun other ↦ ?_⟩
    by_cases hother : other = reader
    · subst hother
      simp only [World.step, Function.update_self]
      have hreader := h.readers other
      cases hstate : (G.world schedule).readers other with
      | running page' start program =>
        rw [hstate] at hreader
        exact hreader.bystander hrefl _
      | _ => exact ⟨by simp, G.lookup_ne_done page, G.holds_lookup page _⟩
    · simp only [World.step, Function.update_of_ne hother]
      exact (h.readers other).bystander hrefl _
  | readerStep reader =>
    obtain ⟨hmemory, hreader⟩ :=
      (h.readers reader).stepReader rfl h.consistent (.readerStep reader)
    simp only [World.step, h.now_eq, hmemory]
    refine ⟨by rw [List.length_append, List.length_singleton], h.consistent, h.writer,
      fun other ↦ ?_⟩
    by_cases hother : other = reader
    · subst hother
      simpa using hreader
    · simp only [Function.update_of_ne hother]
      exact (h.readers other).bystander hrefl _

variable (G)

theorem sound_world (schedule : List Choice) : G.Sound schedule (G.world schedule) := by
  induction schedule using List.reverseRecOn with
  | nil =>
    refine ⟨rfl, G.refines_empty.settled.consistent, ?_, fun _ ↦ trivial⟩
    exact ⟨_, _, .refl _ _, Or.inl ⟨_, rfl, G.refines_empty⟩⟩
  | append_singleton schedule choice ih => exact ih.step choice

/-- In every interleaving, a lookup that returned a frame was entitled to it: at some instant
between its first and its last step, the writer had the page mapped to that frame. -/
theorem returned_frame_was_mapped (schedule : List Choice) (reader : ℕ) (page : PageId)
    (start stop frame : ℕ)
    (h : ((G.world schedule).readers reader).outcome = some (page, start, stop, some frame)) :
    ∃ instant, start ≤ instant ∧ instant ≤ stop ∧
      (G.world (schedule.take instant)).memory.live page = some frame := by
  have hreader := (G.sound_world schedule).readers reader
  cases hstate : (G.world schedule).readers reader with
  | returned page' start' stop' result =>
    rw [hstate] at h hreader
    cases h
    exact ⟨stop, hreader.1, Nat.le_refl _, hreader.2.2 frame rfl⟩
  | _ =>
    rw [hstate] at h
    cases h

/-- A table of two slots, an insertion, and a lookup of the inserted page that overlaps the last
step of the insertion. -/
def overlappingLookup : List Choice :=
  .beginWrite (.insert ⟨⟨1, 0, 0⟩, 3⟩ 7) :: List.replicate 13 .writerStep ++
    .beginLookup 0 ⟨⟨1, 0, 0⟩, 3⟩ :: .readerStep 0 :: .writerStep ::
      List.replicate 7 (.readerStep 0)

theorem overlappingLookup_was_mapped :
    ∃ instant, 15 ≤ instant ∧ instant ≤ 23 ∧
      ((⟨1, by decide, fun _ ↦ 0⟩ : Geometry).world
        (overlappingLookup.take instant)).memory.live ⟨⟨1, 0, 0⟩, 3⟩ = some 7 :=
  returned_frame_was_mapped ⟨1, by decide, fun _ ↦ 0⟩ overlappingLookup 0 _ 15 23 7
    (by decide +kernel)

end Geometry

end DiosPool.Table
