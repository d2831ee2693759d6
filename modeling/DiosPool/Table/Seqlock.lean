import DiosPool.Table.PageTable

/-!
# The seqlock of a slot

What one write of a slot does to the memory, and what a reader can count on while it happens. A
slot whose version is even is consistent with the announced map. Versions only grow, and a slot
whose even version is unchanged has not been touched.
-/

namespace DiosPool.Table

open Foundation

/-- What every slot holds. -/
def Memory.slots (memory : Memory) : ℕ → Option (PageId × ℕ) :=
  fun slot ↦ (memory.cells slot).entry

/-- The slot after a whole write. -/
def Cell.written (cell : Cell) : Option (PageId × ℕ) → Cell
  | some (page, frame) =>
    ⟨cell.seq + 2, true, page.file.driver, page.file.slot, page.file.generation,
      page.granuleIdx, frame⟩
  | none => { cell with seq := cell.seq + 2, occupied := false }

def Memory.written (memory : Memory) (slot : ℕ) (entry : Option (PageId × ℕ))
    (announce : Mapping → Mapping) : Memory :=
  { memory.modify slot (·.written entry) with live := announce memory.live }

@[simp] theorem Cell.entry_written (cell : Cell) (entry : Option (PageId × ℕ)) :
    (cell.written entry).entry = entry := by
  cases entry <;> rfl

@[simp] theorem Cell.seq_written (cell : Cell) (entry : Option (PageId × ℕ)) :
    (cell.written entry).seq = cell.seq + 2 := by
  cases entry <;> rfl

theorem Memory.slots_written (memory : Memory) (slot : ℕ) (entry : Option (PageId × ℕ))
    (announce : Mapping → Mapping) :
    (memory.written slot entry announce).slots = Function.update memory.slots slot entry := by
  funext i
  by_cases hi : i = slot
  · subst hi
    simp [Memory.slots, Memory.written, Memory.modify]
  · simp [Memory.slots, Memory.written, Memory.modify, hi]

/-- No write is under way. -/
def Memory.Quiet (memory : Memory) : Prop := ∀ slot, (memory.cells slot).seq % 2 = 0

theorem Memory.Quiet.written {memory : Memory} (h : memory.Quiet) (slot : ℕ)
    (entry : Option (PageId × ℕ)) (announce : Mapping → Mapping) :
    (memory.written slot entry announce).Quiet := by
  intro i
  have hi := h i
  by_cases heq : i = slot
  · subst heq
    simpa [Memory.written, Memory.modify] using hi
  · simpa [Memory.written, Memory.modify, heq] using hi

/-- Every slot at rest agrees with the announced map. -/
def Memory.Consistent (capacity : ℕ) (memory : Memory) : Prop :=
  ∀ slot < capacity, (memory.cells slot).seq % 2 = 0 →
    ∀ page frame, (memory.cells slot).entry = some (page, frame) → memory.live page = some frame

/-- What the writer may do to the memory between two steps of a reader. -/
structure Evolves (capacity : ℕ) (before after : Memory) : Prop where
  consistent : after.Consistent capacity
  version_le : ∀ slot, (before.cells slot).seq ≤ (after.cells slot).seq
  unchanged : ∀ slot, (before.cells slot).seq % 2 = 0 →
    (after.cells slot).seq = (before.cells slot).seq → after.cells slot = before.cells slot

theorem Evolves.refl {capacity : ℕ} {memory : Memory} (h : memory.Consistent capacity) :
    Evolves capacity memory memory :=
  ⟨h, fun _ ↦ Nat.le_refl _, fun _ _ _ ↦ rfl⟩

theorem Evolves.trans {capacity : ℕ} {first second third : Memory}
    (h : Evolves capacity first second) (h' : Evolves capacity second third) :
    Evolves capacity first third where
  consistent := h'.consistent
  version_le slot := (h.version_le slot).trans (h'.version_le slot)
  unchanged slot heven heq := by
    have hle := h.version_le slot
    have hle' := h'.version_le slot
    have hsame : (second.cells slot).seq = (first.cells slot).seq := by omega
    rw [h'.unchanged slot (by omega) (by omega), h.unchanged slot heven hsame]

/-- A write of `slot` is under way: its version is odd and the new map is announced. -/
structure Writing (start : Memory) (slot : ℕ) (announce : Mapping → Mapping)
    (memory : Memory) : Prop where
  others : ∀ i, i ≠ slot → memory.cells i = start.cells i
  version : (memory.cells slot).seq = (start.cells slot).seq + 1
  live : memory.live = announce start.live

section Write

variable {capacity slot : ℕ} {start memory : Memory} {announce : Mapping → Mapping}
  (hquiet : start.Quiet)
  (hothers : ∀ i < capacity, i ≠ slot → ∀ page frame, start.slots i = some (page, frame) →
    announce start.live page = some frame)

include hquiet hothers

theorem Writing.consistent (h : Writing start slot announce memory) :
    memory.Consistent capacity := by
  intro i hi heven page frame hentry
  have hne : i ≠ slot := by
    rintro rfl
    have := hquiet i
    have := h.version
    omega
  rw [h.others i hne] at hentry
  rw [h.live]
  exact hothers i hi hne page frame hentry

/-- The store of one field while the write is under way. -/
theorem Writing.storeField (h : Writing start slot announce memory) (change : Cell → Cell)
    (hversion : ∀ cell, (change cell).seq = cell.seq) :
    Program.Reaches (Evolves capacity) (storeField slot change) memory (.done ())
        (memory.modify slot change) ∧
      Writing start slot announce (memory.modify slot change) := by
  have hcell : ∀ i, ((memory.modify slot change).cells i).seq = (memory.cells i).seq := by
    intro i
    by_cases hi : i = slot
    · subst hi
      simp [Memory.modify, hversion]
    · simp [Memory.modify, hi]
  have hwriting : Writing start slot announce (memory.modify slot change) := by
    constructor
    · intro i hi
      simpa [Memory.modify, hi] using h.others i hi
    · rw [hcell, h.version]
    · exact h.live
  refine ⟨Program.Reaches.store ⟨hwriting.consistent hquiet hothers, fun i ↦ (hcell i).ge, ?_⟩,
    hwriting⟩
  intro i heven _
  have hne : i ≠ slot := by
    rintro rfl
    have := hquiet i
    have := h.version
    omega
  simp [Memory.modify, hne]

/-- All the stores between the two stores of the version. -/
theorem Writing.storeEntry (h : Writing start slot announce memory)
    (entry : Option (PageId × ℕ)) :
    ∃ memory', Program.Reaches (Evolves capacity) (storeEntry slot entry) memory (.done ())
        memory' ∧
      Writing start slot announce memory' ∧ memory'.len = memory.len ∧
      { memory'.cells slot with seq := (start.cells slot).seq + 2 } =
        ({ memory.cells slot with seq := (start.cells slot).seq }).written entry := by
  rcases entry with _ | ⟨page, frame⟩
  · obtain ⟨hreach, hwriting⟩ := h.storeField hquiet hothers ({ · with occupied := false })
      fun _ ↦ rfl
    exact ⟨_, hreach, hwriting, rfl, by simp [Memory.modify, Cell.written]⟩
  · obtain ⟨h₁, w₁⟩ := h.storeField hquiet hothers ({ · with driver := page.file.driver })
      fun _ ↦ rfl
    obtain ⟨h₂, w₂⟩ := w₁.storeField hquiet hothers ({ · with fileSlot := page.file.slot })
      fun _ ↦ rfl
    obtain ⟨h₃, w₃⟩ := w₂.storeField hquiet hothers
      ({ · with fileGeneration := page.file.generation }) fun _ ↦ rfl
    obtain ⟨h₄, w₄⟩ := w₃.storeField hquiet hothers ({ · with granuleIdx := page.granuleIdx })
      fun _ ↦ rfl
    obtain ⟨h₅, w₅⟩ := w₄.storeField hquiet hothers ({ · with frame := frame }) fun _ ↦ rfl
    obtain ⟨h₆, w₆⟩ := w₅.storeField hquiet hothers ({ · with occupied := true }) fun _ ↦ rfl
    refine ⟨_, ?_, w₆, rfl, by simp [Memory.modify, Cell.written]⟩
    exact h₁.bind_done (h₂.bind_done (h₃.bind_done (h₄.bind_done (h₅.bind_done h₆))))

variable (announce) in
/-- A whole write. The other slots must agree with the map it announces, and so must the entry it
stores. -/
theorem reaches_write (hconsistent : start.Consistent capacity) (entry : Option (PageId × ℕ))
    (hentry : ∀ page frame, entry = some (page, frame) →
      announce start.live page = some frame) :
    Program.Reaches (Evolves capacity) (write slot entry announce) start (.done ())
      (start.written slot entry announce) := by
  have hload : Program.Reaches (Evolves capacity) (loadField slot (·.seq)) start
      (.done (start.cells slot).seq) start :=
    Program.Reaches.load _ (Evolves.refl hconsistent)
  have hopen : Writing start slot announce
      { start.modify slot ({ · with seq := (start.cells slot).seq + 1 }) with
        live := announce start.live } := by
    constructor
    · intro i hi
      simp [Memory.modify, hi]
    · simp [Memory.modify]
    · rfl
  have hbegin : Program.Reaches (Evolves capacity)
      (beginWrite slot (start.cells slot).seq announce) start (.done ()) _ :=
    Program.Reaches.store ⟨hopen.consistent hquiet hothers, fun i ↦ ?_, fun i _ hsame ↦ ?_⟩
  · obtain ⟨memory', hstores, hwriting, hlen, hcell⟩ :=
      hopen.storeEntry hquiet hothers entry
    have hfinal : memory'.modify slot ({ · with seq := (start.cells slot).seq + 2 }) =
        start.written slot entry announce := by
      have hcells : (memory'.modify slot ({ · with seq := (start.cells slot).seq + 2 })).cells =
          (start.written slot entry announce).cells := by
        funext i
        by_cases hi : i = slot
        · subst hi
          simpa [Memory.modify, Memory.written] using hcell
        · simpa [Memory.modify, Memory.written, hi] using hwriting.others i hi
      have hlive := hwriting.live
      cases memory'
      simp only [Memory.modify, Memory.written, Memory.mk.injEq] at hcells hlen hlive ⊢
      exact ⟨hcells, hlen, hlive⟩
    have hclose : Program.Reaches (Evolves capacity)
        (storeField slot ({ · with seq := (start.cells slot).seq + 2 })) memory' (.done ())
        (start.written slot entry announce) := by
      rw [← hfinal]
      refine Program.Reaches.store ⟨?_, fun i ↦ ?_, fun i _ hsame ↦ ?_⟩
      all_goals rw [hfinal]
      · intro i hi _ page frame hslot
        by_cases hne : i = slot
        · subst hne
          exact hentry page frame (by simpa [Memory.written, Memory.modify] using hslot)
        · exact hothers i hi hne page frame
            (by simpa [Memory.slots, Memory.written, Memory.modify, hne] using hslot)
      · by_cases hne : i = slot
        · subst hne
          simp [Memory.written, Memory.modify, hwriting.version]
        · simp [Memory.written, Memory.modify, hne, hwriting.others i hne]
      · by_cases hne : i = slot
        · subst hne
          have hversion := hwriting.version
          simp only [Memory.modify, Function.update_self] at hsame
          omega
        · simp [Memory.written, Memory.modify, hne, hwriting.others i hne]
    exact hload.bind_done (hbegin.bind_done (hstores.bind_done hclose))
  · by_cases hne : i = slot
    · subst hne
      simp [Memory.modify]
    · simp [Memory.modify, hne]
  · by_cases hne : i = slot
    · subst hne
      simp [Memory.modify] at hsame
    · simp [Memory.modify, hne]

end Write

section Read

variable {capacity : ℕ} {memory : Memory} (hconsistent : memory.Consistent capacity) (slot : ℕ)

include hconsistent

theorem reaches_loadField {α : Type} (field : Cell → α) :
    Program.Reaches (Evolves capacity) (loadField slot field) memory
      (.done (field (memory.cells slot))) memory :=
  Program.Reaches.load _ (Evolves.refl hconsistent)

theorem reaches_loadEntry :
    Program.Reaches (Evolves capacity) (loadEntry slot) memory
      (.done (memory.cells slot).entry) memory := by
  refine (reaches_loadField hconsistent slot _).bind_done ?_
  cases hocc : (memory.cells slot).occupied
  · simp only [Cell.entry, hocc]
    exact .refl _ _
  · simp only [Cell.entry, hocc, if_true]
    refine (reaches_loadField hconsistent slot _).bind_done ?_
    refine (reaches_loadField hconsistent slot _).bind_done ?_
    refine (reaches_loadField hconsistent slot _).bind_done ?_
    refine (reaches_loadField hconsistent slot _).bind_done ?_
    exact (reaches_loadField hconsistent slot _).bind_done (.refl _ _)

/-- At rest the first attempt of a read succeeds. -/
theorem reaches_read (hquiet : memory.Quiet) :
    Program.Reaches (Evolves capacity) (read slot) memory (.done (memory.slots slot)) memory := by
  have hspin : ∀ spins, Program.Reaches (Evolves capacity) (readLoop slot (spins + 1)) memory
      (.done (memory.slots slot)) memory := by
    intro spins
    refine (reaches_loadField hconsistent slot _).bind_done ?_
    simp only [hquiet slot]
    refine (reaches_loadEntry hconsistent slot).bind_done ?_
    refine (reaches_loadField hconsistent slot _).bind_done ?_
    simp only [if_true]
    exact .refl _ _
  exact hspin 999999

end Read

end DiosPool.Table
