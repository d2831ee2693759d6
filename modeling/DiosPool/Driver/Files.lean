import DiosPool.Driver.Slab

/-!
# The files of the driver

A file slot counts the operations of its file, and an operation keeps the incarnation of its file in
place.
-/

namespace DiosPool.Driver

open Foundation

/-- Whether a slot holds an operation of the file slot. -/
def slotFile (file : ℕ) (content : SlabSlot) : ℕ :=
  if content.payload.any fun entry ↦ entry.fd.slot == file then 1 else 0

structure FileInv (id capacity fileCapacity : ℕ) (slots : ℕ → SlabSlot)
    (files : ℕ → FileSlot) : Prop where
  inflight : ∀ file, (files file).inflight =
    ∑ slot ∈ Finset.range capacity, slotFile file (slots slot)
  driver : ∀ slot entry, (slots slot).payload = some entry → entry.fd.driver = id
  generation : ∀ slot entry, (slots slot).payload = some entry →
    (files entry.fd.slot).generation = entry.fd.generation
  state : ∀ slot entry, (slots slot).payload = some entry →
    (files entry.fd.slot).state = .opened ∨ (files entry.fd.slot).state = .closing
  range : ∀ file, (files file).state ≠ .free → file < fileCapacity

namespace FileInv

variable {id capacity fileCapacity slot : ℕ} {slots : ℕ → SlabSlot} {files : ℕ → FileSlot}

/-- An entry changes, but not its file. -/
theorem replace (h : FileInv id capacity fileCapacity slots files) {generation : ℕ}
    {entry next : OpEntry} (hslot : slots slot = ⟨generation, some entry⟩) (hfd : next.fd = entry.fd) :
    FileInv id capacity fileCapacity (Function.update slots slot ⟨generation, some next⟩) files := by
  have hentry : (slots slot).payload = some entry := by rw [hslot]
  have hold : ∀ other found, (Function.update slots slot ⟨generation, some next⟩ other).payload =
      some found → ∃ before, (slots other).payload = some before ∧ found.fd = before.fd := by
    intro other found hfound
    by_cases hother : other = slot
    · subst hother
      rw [Function.update_self] at hfound
      cases hfound
      exact ⟨entry, hentry, hfd⟩
    · rw [Function.update_of_ne hother] at hfound
      exact ⟨found, hfound, rfl⟩
  refine ⟨fun file ↦ ?_, ?_, ?_, ?_, h.range⟩
  · rw [h.inflight, sum_range_update_of_eq capacity (fun _ ↦ slotFile file) slots]
    simp [slotFile, hslot, hfd]
  · intro other found hfound
    obtain ⟨before, hbefore, hsame⟩ := hold other found hfound
    rw [hsame]
    exact h.driver other before hbefore
  · intro other found hfound
    obtain ⟨before, hbefore, hsame⟩ := hold other found hfound
    rw [hsame]
    exact h.generation other before hbefore
  · intro other found hfound
    obtain ⟨before, hbefore, hsame⟩ := hold other found hfound
    rw [hsame]
    exact h.state other before hbefore

/-- The count of a file changes with an operation of the file. -/
theorem recount (h : FileInv id capacity fileCapacity slots files) (hslot : slot < capacity)
    {content : SlabSlot} {file inflight : ℕ}
    (hcount : inflight + slotFile file (slots slot) = (files file).inflight + slotFile file content)
    (hothers : ∀ other, other ≠ file → slotFile other content = slotFile other (slots slot))
    (hentry : ∀ entry, content.payload = some entry → entry.fd.driver = id ∧
      (files entry.fd.slot).generation = entry.fd.generation ∧
      ((files entry.fd.slot).state = .opened ∨ (files entry.fd.slot).state = .closing)) :
    FileInv id capacity fileCapacity (Function.update slots slot content)
      (Function.update files file { files file with inflight }) := by
  have hfile : ∀ other,
      (Function.update files file { files file with inflight } other).generation =
        (files other).generation ∧
      (Function.update files file { files file with inflight } other).state =
        (files other).state := by
    intro other
    by_cases hother : other = file
    · subst hother
      simp
    · simp [hother]
  have hold : ∀ other entry, (Function.update slots slot content other).payload = some entry →
      entry.fd.driver = id ∧ (files entry.fd.slot).generation = entry.fd.generation ∧
      ((files entry.fd.slot).state = .opened ∨ (files entry.fd.slot).state = .closing) := by
    intro other entry hfound
    by_cases hother : other = slot
    · subst hother
      rw [Function.update_self] at hfound
      exact hentry entry hfound
    · rw [Function.update_of_ne hother] at hfound
      exact ⟨h.driver _ _ hfound, h.generation _ _ hfound, h.state _ _ hfound⟩
  constructor
  · intro other
    have hsum := sum_range_update_add hslot (fun _ ↦ slotFile other) slots content
    have hinflight := h.inflight other
    by_cases hother : other = file
    · subst hother
      simp only [Function.update_self]
      omega
    · rw [Function.update_of_ne hother]
      have hsame := hothers other hother
      omega
  · exact fun other entry hfound ↦ (hold other entry hfound).1
  · intro other entry hfound
    rw [(hfile _).1]
    exact (hold other entry hfound).2.1
  · intro other entry hfound
    rw [(hfile _).2]
    exact (hold other entry hfound).2.2
  · intro other hstate
    rw [(hfile other).2] at hstate
    exact h.range other hstate

/-- The state of a file changes. Only a file without operations may close or reopen. -/
theorem setFile (h : FileInv id capacity fileCapacity slots files) {file : ℕ}
    {next : FileSlot} (hinflight : next.inflight = (files file).inflight)
    (hlive : (next.generation = (files file).generation ∧
        (next.state = .opened ∨ next.state = .closing)) ∨
      ∀ slot entry, (slots slot).payload = some entry → entry.fd.slot ≠ file)
    (hrange : next.state ≠ .free → file < fileCapacity) :
    FileInv id capacity fileCapacity slots (Function.update files file next) := by
  refine ⟨fun other ↦ ?_, h.driver, fun slot entry hentry ↦ ?_, fun slot entry hentry ↦ ?_,
    fun other hstate ↦ ?_⟩
  · by_cases hother : other = file
    · subst hother
      rw [Function.update_self, hinflight]
      exact h.inflight other
    · rw [Function.update_of_ne hother]
      exact h.inflight other
  · by_cases hother : entry.fd.slot = file
    · rcases hlive with hlive | hnone
      · have hold := h.generation slot entry hentry
        rw [hother] at hold ⊢
        rw [Function.update_self, hlive.1]
        exact hold
      · exact absurd hother (hnone slot entry hentry)
    · rw [Function.update_of_ne hother]
      exact h.generation slot entry hentry
  · by_cases hother : entry.fd.slot = file
    · rcases hlive with hlive | hnone
      · rw [hother, Function.update_self]
        exact hlive.2
      · exact absurd hother (hnone slot entry hentry)
    · rw [Function.update_of_ne hother]
      exact h.state slot entry hentry
  · by_cases hother : other = file
    · subst hother
      rw [Function.update_self] at hstate
      exact hrange hstate
    · rw [Function.update_of_ne hother] at hstate
      exact h.range other hstate

/-- A file without operations has no entry in the slab. -/
theorem no_entry (h : FileInv id capacity fileCapacity slots files)
    (hbeyond : ∀ slot, capacity ≤ slot → (slots slot).payload = none) {file : ℕ}
    (hinflight : (files file).inflight = 0) :
    ∀ slot entry, (slots slot).payload = some entry → entry.fd.slot ≠ file := by
  intro slot entry hentry hfile
  have hlt : slot ∈ Finset.range capacity := by
    rw [Finset.mem_range]
    by_contra hge
    rw [hbeyond slot (by omega)] at hentry
    cases hentry
  rw [h.inflight file] at hinflight
  have hzero := Finset.sum_eq_zero_iff.mp hinflight slot hlt
  simp [slotFile, hentry, hfile] at hzero

theorem vacate (h : FileInv id capacity fileCapacity slots files) (hslot : slot < capacity)
    {entry : OpEntry} (hentry : (slots slot).payload = some entry) (generation : ℕ) :
    FileInv id capacity fileCapacity (Function.update slots slot ⟨generation, none⟩)
      (Function.update files entry.fd.slot { files entry.fd.slot with
        inflight := (files entry.fd.slot).inflight - 1 }) := by
  have hone : slotFile entry.fd.slot (slots slot) = 1 := by simp [slotFile, hentry]
  have hle : 1 ≤ (files entry.fd.slot).inflight := by
    rw [h.inflight, ← hone]
    exact Finset.single_le_sum (f := fun slot ↦ slotFile entry.fd.slot (slots slot))
      (fun _ _ ↦ Nat.zero_le _) (Finset.mem_range.mpr hslot)
  refine h.recount hslot ?_ ?_ (by simp)
  · rw [hone]
    simp only [slotFile, Option.any_none, Bool.false_eq_true, if_false]
    omega
  · intro other hother
    simp [slotFile, hentry, Ne.symm hother]

theorem submit (h : FileInv id capacity fileCapacity slots files) (hslot : slot < capacity)
    (hvacant : (slots slot).payload = none) {entry : OpEntry} (hdriver : entry.fd.driver = id)
    (hgeneration : (files entry.fd.slot).generation = entry.fd.generation)
    (hstate : (files entry.fd.slot).state = .opened) (generation : ℕ) :
    FileInv id capacity fileCapacity (Function.update slots slot ⟨generation, some entry⟩)
      (Function.update files entry.fd.slot { files entry.fd.slot with
        inflight := (files entry.fd.slot).inflight + 1 }) := by
  refine h.recount hslot ?_ ?_ ?_
  · simp [slotFile, hvacant]
  · intro other hother
    simp [slotFile, hvacant, Ne.symm hother]
  · intro found hfound
    cases hfound
    exact ⟨hdriver, hgeneration, Or.inl hstate⟩

/-- The file of an operation is one of the table. -/
theorem lt_of_payload (h : FileInv id capacity fileCapacity slots files) {entry : OpEntry}
    (hentry : (slots slot).payload = some entry) : entry.fd.slot < fileCapacity := by
  apply h.range
  rcases h.state slot entry hentry with hstate | hstate <;> simp [hstate]

/-- The operations of all files are the occupied slots. -/
theorem sum_inflight (h : FileInv id capacity fileCapacity slots files) :
    ∑ file ∈ Finset.range fileCapacity, (files file).inflight =
      ((Finset.range capacity).filter fun slot ↦ (slots slot).payload.isSome).card := by
  have hslot (slot : ℕ) : ∑ file ∈ Finset.range fileCapacity, slotFile file (slots slot) =
      if (slots slot).payload.isSome then 1 else 0 := by
    cases hentry : (slots slot).payload with
    | none => simp [slotFile, hentry]
    | some entry =>
      have hone : ∀ file, slotFile file (slots slot) = if entry.fd.slot = file then 1 else 0 := by
        intro file
        simp [slotFile, hentry]
      simp only [hone, Finset.sum_ite_eq, Finset.mem_range, h.lt_of_payload hentry, if_true,
        Option.isSome_some]
  simp only [h.inflight]
  rw [Finset.sum_comm, Finset.card_filter]
  exact Finset.sum_congr rfl fun slot _ ↦ hslot slot

end FileInv

end DiosPool.Driver
