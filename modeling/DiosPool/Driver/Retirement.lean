import DiosPool.Driver.Machine

/-!
# The life of a file

A file id is given out once. It is open until it is closed or its registration fails. A closed file
waits for its last operation, then some thread has the duty to retire it, then it is retired on the
backend, and only then the slot can be opened again. The duty falls to whoever sees the last
operation go: the call that closes the file, a completion or the release of a lease, which leaves
it to the next flush.
-/

namespace DiosPool.Driver

open Foundation

/-- The files that a flush has to retire. -/
def Shared.deferredRetires (shared : Shared) : List FileId :=
  (shared.deferred.filter DeferredCompletion.retire).map DeferredCompletion.fd

/-- The stages of a file id by the slot it names, with the number of times that it was given out,
closed and retired on the backend, and the number of threads that have the duty to retire it or are
about to finish. -/
inductive FileHistory (driver : ℕ) (id : FileId) (file : FileSlot) : ℕ → ℕ → ℕ → ℕ → ℕ → Prop
  | unissued (hnew : id.driver ≠ driver ∨ id.generation = 0 ∨ file.generation < id.generation) :
    FileHistory driver id file 0 0 0 0 0
  | usable (hdriver : id.driver = driver) (hpos : 0 < id.generation)
    (hcurrent : file.generation = id.generation)
    (hstate : file.state = .opened ∨ file.state = .free) : FileHistory driver id file 1 0 0 0 0
  | closing {duties finishing : ℕ} (hdriver : id.driver = driver) (hpos : 0 < id.generation)
    (hcurrent : file.generation = id.generation) (hstate : file.state = .closing)
    (hduty : duties + finishing = if file.inflight = 0 then 1 else 0) :
    FileHistory driver id file 1 1 finishing duties finishing
  | closed (hdriver : id.driver = driver) (hpos : 0 < id.generation)
    (hcurrent : file.generation = id.generation) (hstate : file.state = .closed) :
    FileHistory driver id file 1 1 1 0 0
  | past {closes : ℕ} (hdriver : id.driver = driver) (hpos : 0 < id.generation)
    (hpast : id.generation < file.generation) (hcloses : closes ≤ 1) :
    FileHistory driver id file 1 closes closes 0 0

namespace FileHistory

variable {driver issued closes retirements duties finishing : ℕ} {id : FileId} {file : FileSlot}

/-- The slot is opened again. -/
theorem opened (h : FileHistory driver id file issued closes retirements duties finishing)
    (hstate : file.state = .free ∨ file.state = .closed) :
    FileHistory driver id ⟨file.generation + 1, .opened, 0⟩
      (issued + if id.driver = driver ∧ id.generation = file.generation + 1 then 1 else 0) closes
      retirements duties finishing := by
  cases h with
  | unissued hnew =>
    split
    · rename_i hid
      exact .usable hid.1 (by omega) hid.2.symm (.inl rfl)
    · refine .unissued ?_
      dsimp only
      omega
  | usable hdriver hpos hcurrent hopen =>
    rw [if_neg (by omega)]
    exact .past hdriver hpos (by dsimp only; omega) (by omega)
  | closing hdriver hpos hcurrent hclosing hduty => simp [hclosing] at hstate
  | closed hdriver hpos hcurrent hclosed =>
    rw [if_neg (by omega)]
    exact .past hdriver hpos (by dsimp only; omega) le_rfl
  | past hdriver hpos hpast hcloses =>
    rw [if_neg (by omega)]
    exact .past hdriver hpos (by dsimp only; omega) hcloses

/-- The state of the slot changes for no operation and no duty. -/
theorem usable_of_opened (h : FileHistory driver id file issued closes retirements duties finishing)
    (hopened : file.state = .opened) {next : FileSlot} (hgeneration : next.generation = file.generation)
    (hnext : next.state = .opened ∨ next.state = .free) :
    FileHistory driver id next issued closes retirements duties finishing := by
  cases h with
  | unissued hnew => exact .unissued (by rw [hgeneration]; exact hnew)
  | usable hdriver hpos hcurrent hopen =>
    exact .usable hdriver hpos (hgeneration.trans hcurrent) hnext
  | closing hdriver hpos hcurrent hclosing hduty => simp [hclosing] at hopened
  | closed hdriver hpos hcurrent hclosed => simp [hclosed] at hopened
  | past hdriver hpos hpast hcloses => exact .past hdriver hpos (by omega) hcloses

/-- The file of the slot is closed. It is due at once if no operation is left. -/
theorem close (h : FileHistory driver id file issued closes retirements duties finishing)
    (hopened : file.state = .opened) (hpositive : 0 < file.generation) :
    FileHistory driver id { file with state := .closing } issued
      (closes + if id.driver = driver ∧ id.generation = file.generation then 1 else 0) retirements
      (duties + if (id.driver = driver ∧ id.generation = file.generation) ∧ file.inflight = 0
        then 1 else 0) finishing := by
  cases h with
  | unissued hnew =>
    have hother : ¬ (id.driver = driver ∧ id.generation = file.generation) := by omega
    simp only [hother, false_and, if_false]
    exact .unissued hnew
  | usable hdriver hpos hcurrent hopen =>
    have hid : id.driver = driver ∧ id.generation = file.generation := ⟨hdriver, hcurrent.symm⟩
    simp only [if_pos hid, and_iff_right hid]
    exact .closing hdriver hpos hcurrent rfl (by simp)
  | closing hdriver hpos hcurrent hclosing hduty => simp [hclosing] at hopened
  | closed hdriver hpos hcurrent hclosed => simp [hclosed] at hopened
  | past hdriver hpos hpast hcloses =>
    have hother : ¬ (id.driver = driver ∧ id.generation = file.generation) := by omega
    simp only [hother, false_and, if_false]
    exact .past hdriver hpos hpast hcloses

/-- An operation of the file goes. The last one of a closing file makes it due. -/
theorem complete (h : FileHistory driver id file issued closes retirements duties finishing)
    (hstate : file.state = .opened ∨ file.state = .closing) (hpositive : 0 < file.generation)
    (hinflight : 0 < file.inflight) :
    FileHistory driver id { file with inflight := file.inflight - 1 } issued closes retirements
      (duties + if (id.driver = driver ∧ id.generation = file.generation) ∧ file.inflight = 1 ∧
        file.state = .closing then 1 else 0) finishing := by
  cases h with
  | unissued hnew =>
    have hother : ¬ (id.driver = driver ∧ id.generation = file.generation) := by omega
    simp only [hother, false_and, if_false]
    exact .unissued hnew
  | usable hdriver hpos hcurrent hopen =>
    have hopened : file.state ≠ .closing := by
      rcases hopen with hopen | hopen <;> simp [hopen]
    simp only [hopened, and_false, if_false]
    exact .usable hdriver hpos hcurrent hopen
  | closing hdriver hpos hcurrent hclosing hduty =>
    rw [if_neg (by omega)] at hduty
    refine .closing hdriver hpos hcurrent hclosing ?_
    simp only [hdriver, hcurrent, hclosing, and_self, and_true, true_and]
    split_ifs <;> omega
  | closed hdriver hpos hcurrent hclosed => simp [hclosed] at hstate
  | past hdriver hpos hpast hcloses =>
    have hother : ¬ (id.driver = driver ∧ id.generation = file.generation) := by omega
    simp only [hother, false_and, if_false]
    exact .past hdriver hpos hpast hcloses

/-- Some thread does its duty. -/
theorem retire (h : FileHistory driver id file issued closes retirements (duties + 1) finishing) :
    FileHistory driver id file issued closes (retirements + 1) duties (finishing + 1) := by
  cases h with
  | closing hdriver hpos hcurrent hclosing hduty =>
    exact .closing hdriver hpos hcurrent hclosing (by omega)

/-- What a thread knows when it is about to finish. -/
theorem of_finishing
    (h : FileHistory driver id file issued closes retirements duties (finishing + 1)) :
    id.driver = driver ∧ file.generation = id.generation ∧ file.state = .closing ∧
      file.inflight = 0 ∧ duties = 0 ∧ finishing = 0 := by
  cases h with
  | closing hdriver hpos hcurrent hclosing hduty =>
    split at hduty
    · exact ⟨hdriver, hcurrent, hclosing, ‹_›, by omega, by omega⟩
    · omega

/-- The retirement of the file of the slot is finished. -/
theorem finish (h : FileHistory driver id file issued closes retirements duties finishing)
    (hclosing : file.state = .closing)
    (hfinishing : id.driver = driver → id.generation = file.generation → finishing = 1)
    (hinflight : file.inflight = 0) :
    FileHistory driver id { file with state := .closed } issued closes retirements duties
      (finishing - if id.driver = driver ∧ id.generation = file.generation then 1 else 0) := by
  cases h with
  | unissued hnew =>
    simp only [Nat.zero_sub]
    exact .unissued hnew
  | usable hdriver hpos hcurrent hopen => simp [hclosing] at hopen
  | closing hdriver hpos hcurrent _ hduty =>
    have hone := hfinishing hdriver hcurrent.symm
    rw [if_pos hinflight] at hduty
    subst hone
    obtain rfl : duties = 0 := by omega
    rw [if_pos ⟨hdriver, hcurrent.symm⟩]
    exact .closed hdriver hpos hcurrent rfl
  | closed hdriver hpos hcurrent hclosed => simp [hclosed] at hclosing
  | past hdriver hpos hpast hcloses =>
    simp only [Nat.zero_sub]
    exact .past hdriver hpos hpast hcloses

theorem retirements_le (h : FileHistory driver id file issued closes retirements duties finishing) :
    retirements ≤ closes ∧ closes ≤ 1 ∧ issued ≤ 1 := by
  cases h with
  | unissued hnew => omega
  | usable hdriver hpos hcurrent hopen => omega
  | closing hdriver hpos hcurrent hclosing hduty => split at hduty <;> omega
  | closed hdriver hpos hcurrent hclosed => omega
  | past hdriver hpos hpast hcloses => omega

/-- A file that is closed and not retired waits for its operations or for one duty. -/
theorem of_waiting (h : FileHistory driver id file issued closes retirements duties finishing)
    (hcloses : 0 < closes) (hretirements : retirements = 0) :
    file.generation = id.generation ∧ file.state = .closing ∧
      (0 < file.inflight ∨ duties = 1) := by
  cases h with
  | unissued hnew => omega
  | usable hdriver hpos hcurrent hopen => omega
  | closing hdriver hpos hcurrent hclosing hduty =>
    refine ⟨hcurrent, hclosing, ?_⟩
    split at hduty <;> omega
  | closed hdriver hpos hcurrent hclosed => omega
  | past hdriver hpos hpast hle => omega

/-- Nobody can submit to a retired file or waits for it. -/
theorem of_retired (h : FileHistory driver id file issued closes retirements duties finishing)
    (hretirements : 0 < retirements) : id.generation < file.generation ∨
      file.generation = id.generation ∧
        (file.state = .closed ∨ file.state = .closing ∧ file.inflight = 0) := by
  cases h with
  | unissued hnew => omega
  | usable hdriver hpos hcurrent hopen => omega
  | closing hdriver hpos hcurrent hclosing hduty =>
    refine .inr ⟨hcurrent, .inr ⟨hclosing, ?_⟩⟩
    split at hduty <;> omega
  | closed hdriver hpos hcurrent hclosed => exact .inr ⟨hcurrent, .inl hclosed⟩
  | past hdriver hpos hpast hle => exact .inl hpast

/-- A file is due after its last operation. -/
theorem of_duty (h : FileHistory driver id file issued closes retirements duties finishing)
    (hduties : 0 < duties) :
    file.generation = id.generation ∧ file.state = .closing ∧ file.inflight = 0 := by
  cases h with
  | closing hdriver hpos hcurrent hclosing hduty =>
    refine ⟨hcurrent, hclosing, ?_⟩
    split at hduty <;> omega
  | unissued hnew => omega
  | usable hdriver hpos hcurrent hopen => omega
  | closed hdriver hpos hcurrent hclosed => omega
  | past hdriver hpos hpast hle => omega

/-- The closed files of a slot that can be opened are retired for good. -/
theorem of_reusable (h : FileHistory driver id file issued closes retirements duties finishing)
    (hstate : file.state = .free ∨ file.state = .closed) (hcloses : 0 < closes) :
    0 < retirements ∧ finishing = 0 := by
  cases h with
  | unissued hnew => omega
  | usable hdriver hpos hcurrent hopen => omega
  | closing hdriver hpos hcurrent hclosing hduty => simp [hclosing] at hstate
  | closed hdriver hpos hcurrent hclosed => omega
  | past hdriver hpos hpast hle => omega

end FileHistory

namespace Machine

variable {C : Config} {machine after : Machine}

/-- The duties to retire a file, of threads and of the next flush. -/
def dutyCount (machine : Machine) (id : FileId) : ℕ :=
  machine.duties.count id + machine.shared.deferredRetires.count id

/-- Every file id is in one of its stages. -/
structure Histories (C : Config) (machine : Machine) : Prop where
  positive : ∀ slot, (machine.shared.files slot).state ≠ .free →
    0 < (machine.shared.files slot).generation
  history : ∀ id, FileHistory C.id id (machine.shared.files id.slot) (machine.issued.count id)
    (machine.closes.count id) (machine.retirements.count id) (machine.dutyCount id)
    (machine.finishing.count id)

theorem Histories.new (C : Config) : Histories C (Machine.new C) := by
  constructor
  · simp [Machine.new, Shared.new]
  · intro id
    simp only [Machine.new, Shared.new, dutyCount, Shared.deferredRetires, List.count_nil,
      List.filter_nil, List.map_nil]
    refine .unissued ?_
    dsimp only
    omega

/-- One slot of the file table changes, and with it the history of the ids that name it. -/
theorem Histories.update (h : Histories C machine) {slot : ℕ} {next : FileSlot}
    (hfiles : after.shared.files = Function.update machine.shared.files slot next)
    (hpositive : 0 < next.generation)
    (hsame : ∀ id : FileId, id.slot = slot →
      FileHistory C.id id (machine.shared.files slot) (machine.issued.count id)
        (machine.closes.count id) (machine.retirements.count id) (machine.dutyCount id)
        (machine.finishing.count id) →
      FileHistory C.id id next (after.issued.count id) (after.closes.count id)
        (after.retirements.count id) (after.dutyCount id) (after.finishing.count id))
    (hothers : ∀ id : FileId, id.slot ≠ slot → after.issued.count id = machine.issued.count id ∧
      after.closes.count id = machine.closes.count id ∧
      after.retirements.count id = machine.retirements.count id ∧
      after.dutyCount id = machine.dutyCount id ∧
      after.finishing.count id = machine.finishing.count id) : Histories C after := by
  constructor
  · intro other
    rw [hfiles]
    by_cases hother : other = slot
    · subst hother
      rw [Function.update_self]
      exact fun _ ↦ hpositive
    · rw [Function.update_of_ne hother]
      exact h.positive other
  · intro id
    rw [hfiles]
    by_cases hslot : id.slot = slot
    · have hhistory := h.history id
      rw [hslot] at hhistory
      rw [hslot, Function.update_self]
      exact hsame id hslot hhistory
    · obtain ⟨hissued, hcloses, hretirements, hduties, hfinishing⟩ := hothers id hslot
      rw [Function.update_of_ne hslot, hissued, hcloses, hretirements, hduties, hfinishing]
      exact h.history id

/-- The ids of one slot differ in their driver or their generation. -/
theorem fileId_eq_iff {fd id : FileId} (hslot : id.slot = fd.slot) :
    fd = id ↔ id.driver = fd.driver ∧ id.generation = fd.generation := by
  cases fd
  cases id
  simp_all [eq_comm]

theorem count_cons_of_slot_ne {fd id : FileId} (hslot : id.slot ≠ fd.slot) (ids : List FileId) :
    (fd :: ids).count id = ids.count id := by
  refine List.count_cons_of_ne ?_
  rintro rfl
  exact hslot rfl

theorem count_cons_of_slot_eq {fd id : FileId} (hslot : id.slot = fd.slot) (ids : List FileId) :
    (fd :: ids).count id =
      ids.count id + if id.driver = fd.driver ∧ id.generation = fd.generation then 1 else 0 := by
  simp only [List.count_cons, beq_iff_eq, fileId_eq_iff hslot]

/-- An operation of the file `fd` goes. -/
theorem Histories.complete (h : Histories C machine) (hinv : Inv C machine) {slot : ℕ}
    {entry : OpEntry} (hentry : (machine.shared.slots slot).payload = some entry)
    (hinflight : 0 < (machine.shared.files entry.fd.slot).inflight)
    (hfiles : after.shared.files = Function.update machine.shared.files entry.fd.slot
      { machine.shared.files entry.fd.slot with
        inflight := (machine.shared.files entry.fd.slot).inflight - 1 })
    (hissued : after.issued = machine.issued) (hcloses : after.closes = machine.closes)
    (hretirements : after.retirements = machine.retirements)
    (hfinishing : after.finishing = machine.finishing)
    (hduties : ∀ id, after.dutyCount id = machine.dutyCount id +
      if entry.fd = id ∧ (machine.shared.files entry.fd.slot).inflight = 1 ∧
        (machine.shared.files entry.fd.slot).state = .closing then 1 else 0) : Histories C after := by
  have hstate := hinv.files.state slot entry hentry
  have hdriver := hinv.files.driver slot entry hentry
  have hgeneration := hinv.files.generation slot entry hentry
  have hpositive := h.positive entry.fd.slot (by rcases hstate with hstate | hstate <;> simp [hstate])
  refine h.update hfiles hpositive ?_ ?_
  · intro id hslot hhistory
    have hcompleted := hhistory.complete hstate hpositive hinflight
    rw [hissued, hcloses, hretirements, hfinishing, hduties]
    simp only [fileId_eq_iff hslot, hdriver, ← hgeneration]
    exact hcompleted
  · intro id hslot
    have hne : entry.fd ≠ id := by
      rintro rfl
      exact hslot rfl
    rw [hissued, hcloses, hretirements, hfinishing, hduties]
    simp [hne]

/-- The end of an attempt: an operation that is over may leave a file to retire. -/
theorem Histories.attempted {token : OpToken} {entry next : OpEntry}
    {held : Option ReadDestination} {result : IoResult} {completion : Completion}
    {retire : Option FileId} {released : Shared.Released} {shared : Shared} {cqes : List Cqe}
    (h : Histories C machine) (hinv : Inv C machine)
    (executing : List (OpToken × Option ReadDestination))
    (hholds : machine.shared.Holds token entry) (hsame : next.SameOwner entry)
    (hattempted : Shared.Attempted { machine.shared with cqes } token next held result completion
      retire released shared) :
    Histories C ({ machine with executing }.completed shared completion retire released) := by
  cases hattempted with
  | lease hvector hbytes => exact ⟨h.positive, h.history⟩
  | finish hframes hpool hinflight hretire =>
    rw [hsame.fd] at hinflight hretire
    refine h.complete hinv hholds.payload hinflight ?_ rfl rfl rfl rfl ?_
    · simp only [completed, Shared.vacated, hsame.fd]
    · intro id
      subst hretire
      simp only [dutyCount, completed, Shared.vacated, Shared.deferredRetires, List.count_append]
      split
      · rename_i hlast
        simp only [Option.toList_some, List.count_singleton, beq_iff_eq, hlast, and_self, and_true]
        omega
      · rename_i hlast
        simp [hlast]

/-- A thread takes up one of its files. -/
theorem count_eraseIdx {ids : List FileId} {index : ℕ} {id : FileId} (hindex : ids[index]? = some id)
    (other : FileId) :
    ids.count other = (ids.eraseIdx index).count other + if id = other then 1 else 0 := by
  obtain ⟨hlt, hget⟩ := List.getElem?_eq_some_iff.mp hindex
  have hperm := (List.getElem_cons_eraseIdx_perm hlt).count_eq other
  rw [hget, List.count_cons] at hperm
  simp only [beq_iff_eq] at hperm
  exact hperm.symm

theorem CallEffect.histories (heffect : CallEffect C machine after) (hinv : Inv C machine)
    (h : Histories C machine) : Histories C after := by
  cases heffect with
  | @submit entry token shared hsubmitted hqueued hread hwrite =>
    have hlive := hsubmitted.live
    simp only [Shared.isLive, Bool.and_eq_true, beq_iff_eq] at hlive
    obtain ⟨slot, free, hfree, rfl, rfl⟩ := hsubmitted.step
    have hpositive := h.positive entry.fd.slot (by simp [hlive.2])
    refine h.update rfl hpositive ?_ ?_
    · intro id hslot hhistory
      exact hhistory.usable_of_opened hlive.2 rfl (.inl hlive.2)
    · exact fun _ _ ↦ ⟨rfl, rfl, rfl, rfl, rfl⟩
  | resume hmem hcontinue =>
    obtain ⟨-, entry, hholds, hstate, _, _, _, _, rfl⟩ := Shared.continueReadVector_eq_ok hcontinue
    exact ⟨h.positive, h.history⟩
  | @release token shared hmem hrelease =>
    obtain ⟨entry, retire, outcome, hholds, -, hinflight, hretire, rfl⟩ :=
      Shared.releaseReadLease_eq_ok (DriverInv.contains_of_mem_leases hinv hmem) hrelease
    refine h.complete hinv hholds.payload hinflight rfl rfl rfl rfl rfl ?_
    intro id
    simp only [dutyCount, Shared.deferredRetires, List.filter_append, List.map_append,
      List.count_append]
    cases retire with
    | true =>
      have hlast := hretire.mp rfl
      simp only [hlast, and_self, and_true, List.filter_singleton, Bool.cond_true, List.map_cons,
        List.map_nil, List.count_singleton, beq_iff_eq]
      omega
    | false =>
      have hlast := hretire.not.mp (by simp)
      simp [hlast]
  | @flush completion deferred hdeferred =>
    refine ⟨h.positive, fun id ↦ ?_⟩
    have hduties : Machine.dutyCount { machine with
        shared := { machine.shared with deferred }
        duties := (if completion.retire then [completion.fd] else []) ++ machine.duties } id =
        machine.dutyCount id := by
      simp only [dutyCount, Shared.deferredRetires, hdeferred, List.count_append]
      cases hretire : completion.retire with
      | true =>
        simp only [if_true, hretire, List.filter_cons_of_pos, List.map_cons, List.count_cons,
          List.count_nil]
        omega
      | false => simp [hretire]
    rw [hduties]
    exact h.history id
  | drain hbacklog => exact ⟨h.positive, h.history⟩
  | @openFile id shared hopen =>
    obtain ⟨hslot, hstate, hid, rfl⟩ := Shared.openFile_eq_some hopen
    have hdriver : id.driver = C.id := by rw [hid]
    have hgeneration : id.generation = (machine.shared.files id.slot).generation + 1 := by
      conv_lhs => rw [hid]
    refine h.update rfl (by dsimp only; omega) ?_ ?_
    · intro other hother hhistory
      have hopened := hhistory.opened hstate
      rw [count_cons_of_slot_eq hother, hdriver, hgeneration]
      exact hopened
    · exact fun other hother ↦ ⟨count_cons_of_slot_ne hother _, rfl, rfl, rfl, rfl⟩
  | @abortFile id shared habort =>
    obtain ⟨-, hgeneration, hopened, hinflight, rfl⟩ := Shared.abortFile_eq_ok habort
    have hpositive := h.positive id.slot (by simp [hopened])
    refine h.update rfl hpositive ?_ ?_
    · intro other hother hhistory
      exact hhistory.usable_of_opened hopened rfl (.inr rfl)
    · exact fun _ _ ↦ ⟨rfl, rfl, rfl, rfl, rfl⟩
  | @close id due shared hdriver hclose =>
    obtain ⟨hgeneration, hopened, hdue, rfl⟩ := Shared.closeFile_eq_ok hclose
    have hpositive := h.positive id.slot (by simp [hopened])
    refine h.update rfl hpositive ?_ ?_
    · intro other hother hhistory
      have hclosed := hhistory.close hopened hpositive
      have hduties : dutyCount { machine with
          shared := machine.shared.setFile id.slot
            { machine.shared.files id.slot with state := .closing }
          closes := id :: machine.closes
          duties := if due then id :: machine.duties else machine.duties } other =
          machine.dutyCount other + if (other.driver = C.id ∧ other.generation =
            (machine.shared.files id.slot).generation) ∧ (machine.shared.files id.slot).inflight = 0
            then 1 else 0 := by
        simp only [dutyCount, ← hdue]
        cases due with
        | true =>
          simp only [if_true, and_true, count_cons_of_slot_eq hother, hdriver, hgeneration]
          exact Nat.add_right_comm _ _ _
        | false => simp [Shared.setFile, Shared.deferredRetires]
      rw [hduties, count_cons_of_slot_eq hother, hdriver, ← hgeneration]
      exact hclosed
    · intro other hother
      refine ⟨rfl, count_cons_of_slot_ne hother _, rfl, ?_, rfl⟩
      simp only [dutyCount]
      cases due with
      | true =>
        rw [if_pos rfl, count_cons_of_slot_ne hother]
        rfl
      | false => rfl
  | @retire index id hindex =>
    refine ⟨h.positive, fun other ↦ ?_⟩
    have hhistory := h.history other
    have hcount := count_eraseIdx hindex other
    by_cases hother : id = other
    · subst hother
      have hduties : machine.dutyCount id =
          ((machine.duties.eraseIdx index).count id + machine.shared.deferredRetires.count id) + 1 := by
        rw [if_pos rfl] at hcount
        simp only [dutyCount]
        omega
      rw [hduties] at hhistory
      simp only [List.count_cons_self]
      exact hhistory.retire
    · rw [if_neg hother] at hcount
      simp only [dutyCount, List.count_cons_of_ne hother] at hhistory ⊢
      rw [hcount] at hhistory
      exact hhistory
  | @finishRetire index id shared hindex hfinish =>
    obtain ⟨hclosing, hinflight, rfl⟩ := Shared.finishRetire_eq_ok hfinish
    have hpositive := h.positive id.slot (by simp [hclosing])
    have hhistory := h.history id
    have hcount := count_eraseIdx hindex id
    rw [if_pos rfl] at hcount
    rw [hcount] at hhistory
    obtain ⟨hdriver, hgeneration, -, -, -, hlast⟩ := hhistory.of_finishing
    refine h.update rfl hpositive ?_ ?_
    · intro other hother hhistory
      have hone : other.driver = C.id → other.generation = (machine.shared.files id.slot).generation →
          machine.finishing.count other = 1 := by
        intro hdriver' hgeneration'
        have hsame : id = other := (fileId_eq_iff hother).mpr
          ⟨hdriver'.trans hdriver.symm, hgeneration'.trans hgeneration⟩
        rw [← hsame]
        omega
      have hfinished := hhistory.finish hclosing hone hinflight
      have herased := count_eraseIdx hindex other
      simp only [fileId_eq_iff hother, hdriver, ← hgeneration] at herased
      rw [herased, Nat.add_sub_cancel] at hfinished
      exact hfinished
    · intro other hother
      have herased := count_eraseIdx hindex other
      have hne : id ≠ other := by
        rintro rfl
        exact hother rfl
      rw [if_neg hne] at herased
      exact ⟨rfl, rfl, rfl, rfl, herased.symm⟩

theorem Effect.histories (heffect : Effect C machine after) (hinv : Inv C machine)
    (h : Histories C machine) : Histories C after := by
  cases heffect with
  | call hcall => exact hcall.histories hinv h
  | fill hfill =>
    obtain ⟨slot, ready, entry, hready, hholds, hqueued, rfl⟩ := Shared.fillNext_eq_ok hfill
    exact ⟨h.positive, h.history⟩
  | post hmem result => exact ⟨h.positive, h.history⟩
  | retry hcqes hholds hsame => exact ⟨h.positive, h.history⟩
  | reap hcqes hholds hsame hattempted =>
    exact h.attempted hinv machine.executing hholds hsame hattempted
  | @publish index token destination entry result completion retire released shared
      completionBacklog hindex hholds hattempted =>
    have hfinished := h.attempted hinv (machine.executing.eraseIdx index) hholds (.refl entry)
      hattempted
    exact ⟨hfinished.positive, hfinished.history⟩
  | prepare hready hholds hqueued => exact ⟨h.positive, h.history⟩

end Machine

/-! ## Closed files stay closed -/

/-- A slot of the file table at a later moment. -/
def FileSlot.Later (next file : FileSlot) : Prop :=
  file.generation < next.generation ∨
    next.generation = file.generation ∧ (file.state = .closed → next.state = .closed)

theorem FileSlot.Later.refl (file : FileSlot) : file.Later file := .inr ⟨rfl, id⟩

theorem FileSlot.Later.update {files : ℕ → FileSlot} {slot : ℕ} {next : FileSlot}
    (h : next.Later (files slot)) (other : ℕ) :
    (Function.update files slot next other).Later (files other) := by
  by_cases hother : other = slot
  · subst hother
    rw [Function.update_self]
    exact h
  · rw [Function.update_of_ne hother]
    exact .refl _

/-- An id that names a closed file names a closed file ever after. -/
theorem Shared.isClosed_of_later {shared after : Shared}
    (h : ∀ slot, (after.files slot).Later (shared.files slot)) {id : FileId}
    (hclosed : shared.isClosed id) : after.isClosed id := by
  simp only [Shared.isClosed, Bool.or_eq_true, decide_eq_true_eq, Bool.and_eq_true,
    beq_iff_eq] at hclosed ⊢
  rcases h id.slot with hlater | ⟨hgeneration, hstate⟩
  · omega
  · rw [hgeneration]
    exact hclosed.imp_right fun hcurrent ↦ ⟨hcurrent.1, hstate hcurrent.2⟩

namespace Machine

variable {C : Config} {machine after : Machine}

theorem CallEffect.later (heffect : CallEffect C machine after) (hinv : Inv C machine) (slot : ℕ) :
    (after.shared.files slot).Later (machine.shared.files slot) := by
  cases heffect with
  | submit hsubmitted hqueued hread hwrite =>
    obtain ⟨_, _, _, _, rfl⟩ := hsubmitted.step
    refine FileSlot.Later.update ?_ slot
    exact .inr ⟨rfl, id⟩
  | resume hmem hcontinue =>
    obtain ⟨-, entry, hholds, hstate, _, _, _, _, rfl⟩ := Shared.continueReadVector_eq_ok hcontinue
    exact .refl _
  | release hmem hrelease =>
    obtain ⟨entry, retire, outcome, -, -, -, -, rfl⟩ :=
      Shared.releaseReadLease_eq_ok (DriverInv.contains_of_mem_leases hinv hmem) hrelease
    refine FileSlot.Later.update ?_ slot
    exact .inr ⟨rfl, id⟩
  | flush hdeferred => exact .refl _
  | drain hbacklog => exact .refl _
  | @openFile fd shared hopen =>
    obtain ⟨-, -, hid, rfl⟩ := Shared.openFile_eq_some hopen
    refine FileSlot.Later.update (.inl ?_) slot
    have hgeneration : fd.generation = (machine.shared.files fd.slot).generation + 1 := by
      conv_lhs => rw [hid]
    dsimp only
    omega
  | abortFile habort =>
    obtain ⟨-, -, hopened, -, rfl⟩ := Shared.abortFile_eq_ok habort
    refine FileSlot.Later.update ?_ slot
    exact .inr ⟨rfl, by simp [hopened]⟩
  | close hdriver hclose =>
    obtain ⟨-, hopened, -, rfl⟩ := Shared.closeFile_eq_ok hclose
    refine FileSlot.Later.update ?_ slot
    exact .inr ⟨rfl, by simp [hopened]⟩
  | retire hindex => exact .refl _
  | finishRetire hindex hfinish =>
    obtain ⟨-, -, rfl⟩ := Shared.finishRetire_eq_ok hfinish
    refine FileSlot.Later.update ?_ slot
    exact .inr ⟨rfl, fun _ ↦ rfl⟩

theorem Effect.later (heffect : Effect C machine after) (hinv : Inv C machine) (slot : ℕ) :
    (after.shared.files slot).Later (machine.shared.files slot) := by
  cases heffect with
  | call hcall => exact hcall.later hinv slot
  | fill hfill =>
    obtain ⟨_, _, _, _, _, _, rfl⟩ := Shared.fillNext_eq_ok hfill
    exact .refl _
  | post hmem result => exact .refl _
  | retry hcqes hholds hsame => exact .refl _
  | reap hcqes hholds hsame hattempted =>
    cases hattempted with
    | lease hvector hbytes => exact .refl _
    | finish hframes hpool hinflight hretire =>
      refine FileSlot.Later.update ?_ slot
      exact .inr ⟨rfl, id⟩
  | publish completionBacklog hindex hholds hattempted =>
    cases hattempted with
    | lease hvector hbytes => exact .refl _
    | finish hframes hpool hinflight hretire =>
      refine FileSlot.Later.update ?_ slot
      exact .inr ⟨rfl, id⟩
  | prepare hready hholds hqueued => exact .refl _

/-! ## Runs -/

/-- Closed files are retired once and in time. -/
structure RetiresOnce (C : Config) (machine : Machine) : Prop where
  /-- No file id is given out twice. -/
  issued : machine.issued.Nodup
  /-- No file id is closed twice. -/
  closes : machine.closes.Nodup
  /-- No file id is retired on the backend twice, and only closed ones are. -/
  retirements : machine.retirements.Nodup ∧ ∀ id ∈ machine.retirements, id ∈ machine.closes
  /-- A closed file that is not retired yet waits for its operations or for the one thread or flush
  that has the duty to retire it. -/
  waiting : ∀ id ∈ machine.closes, id ∉ machine.retirements →
    (machine.shared.files id.slot).generation = id.generation ∧
      (machine.shared.files id.slot).state = .closing ∧
      (0 < (machine.shared.files id.slot).inflight ∨ machine.dutyCount id = 1)
  /-- A retired file has no operations. -/
  idle : ∀ id ∈ machine.retirements, ∀ slot entry,
    (machine.shared.slots slot).payload = some entry → entry.fd ≠ id
  /-- The end of a retirement never fails. -/
  finishes : ∀ index, ∃ next, machine.next C (.finishRetire index) = .ok next

/-- What one more event can do to the files. -/
structure KeepsFiles (machine next : Machine) : Prop where
  /-- A file is retired after its last operation. -/
  retired : ∀ id, next.retirements = id :: machine.retirements →
    (machine.shared.files id.slot).generation = id.generation ∧
      (machine.shared.files id.slot).state = .closing ∧
      (machine.shared.files id.slot).inflight = 0
  /-- A slot is opened again after the retirement of its closed file is finished. -/
  reopened : ∀ id, next.issued = id :: machine.issued → ∀ old ∈ machine.closes, old.slot = id.slot →
    old ∈ machine.retirements ∧ old ∉ machine.finishing
  /-- A closed file stays closed. -/
  isClosed : ∀ id, machine.shared.isClosed id = true → next.shared.isClosed id = true

/-- A retired file has no operations. -/
theorem Histories.idle (h : Histories C machine) (hinv : Inv C machine) {id : FileId}
    (hmem : id ∈ machine.retirements) {slot : ℕ} {entry : OpEntry}
    (hentry : (machine.shared.slots slot).payload = some entry) : entry.fd ≠ id := by
  rintro rfl
  have hgeneration := hinv.files.generation slot entry hentry
  have hstate := hinv.files.state slot entry hentry
  rcases (h.history entry.fd).of_retired (List.count_pos_iff.mpr hmem) with
    hpast | ⟨-, hclosed | ⟨-, hzero⟩⟩
  · omega
  · simp [hclosed] at hstate
  · exact hinv.files.no_entry hinv.slab.beyond hzero slot entry hentry rfl

theorem Histories.retiresOnce (h : Histories C machine) (hinv : Inv C machine) :
    machine.RetiresOnce C := by
  have hle (id : FileId) := (h.history id).retirements_le
  refine ⟨?_, ?_, ⟨?_, ?_⟩, ?_, fun id hmem slot entry hentry ↦ h.idle hinv hmem hentry, ?_⟩
  · exact List.nodup_iff_count_le_one.mpr fun id ↦ (hle id).2.2
  · exact List.nodup_iff_count_le_one.mpr fun id ↦ (hle id).2.1
  · exact List.nodup_iff_count_le_one.mpr fun id ↦ (hle id).1.trans (hle id).2.1
  · intro id hmem
    exact List.count_pos_iff.mp ((List.count_pos_iff.mpr hmem).trans_le (hle id).1)
  · intro id hcloses hretirements
    exact (h.history id).of_waiting (List.count_pos_iff.mpr hcloses)
      (List.count_eq_zero.mpr hretirements)
  · intro index
    simp only [next]
    cases hindex : machine.finishing[index]? with
    | none => exact ⟨machine, rfl⟩
    | some id =>
      have hhistory := h.history id
      have hcount := count_eraseIdx hindex id
      rw [if_pos rfl] at hcount
      rw [hcount] at hhistory
      obtain ⟨-, -, hclosing, hinflight, -, -⟩ := hhistory.of_finishing
      have hfinish : machine.shared.finishRetire id = .ok (machine.shared.setFile id.slot
          { machine.shared.files id.slot with state := .closed }) := by
        simp only [Shared.finishRetire, ensure_true hclosing, ensure_true hinflight, ok_bind, pure_ok]
      dsimp only
      rw [hfinish]
      exact ⟨_, rfl⟩

/-- An event that retires nothing and opens nothing. -/
theorem KeepsFiles.of_eq (hretirements : after.retirements = machine.retirements)
    (hissued : after.issued = machine.issued)
    (hlater : ∀ slot, (after.shared.files slot).Later (machine.shared.files slot)) :
    machine.KeepsFiles after := by
  refine ⟨fun id hid ↦ ?_, fun id hid ↦ ?_, fun id ↦ Shared.isClosed_of_later hlater⟩
  · exact absurd (hid.symm.trans hretirements) (List.cons_ne_self _ _)
  · exact absurd (hid.symm.trans hissued) (List.cons_ne_self _ _)

theorem CallEffect.keepsFiles (heffect : CallEffect C machine after) (hinv : Inv C machine)
    (h : Histories C machine) : machine.KeepsFiles after := by
  have hlater := heffect.later hinv
  cases heffect with
  | @openFile id shared hopen =>
    obtain ⟨-, hstate, -, -⟩ := Shared.openFile_eq_some hopen
    refine ⟨fun other hother ↦ absurd hother.symm (List.cons_ne_self _ _), ?_,
      fun other ↦ Shared.isClosed_of_later hlater⟩
    intro other hother old hold hslot
    obtain rfl : id = other := (List.cons.inj hother).1
    rw [← hslot] at hstate
    obtain ⟨hretired, hfinishing⟩ :=
      (h.history old).of_reusable hstate (List.count_pos_iff.mpr hold)
    exact ⟨List.count_pos_iff.mp hretired, List.count_eq_zero.mp hfinishing⟩
  | @retire index id hindex =>
    refine ⟨?_, fun other hother ↦ absurd hother.symm (List.cons_ne_self _ _),
      fun other ↦ Shared.isClosed_of_later hlater⟩
    intro other hother
    obtain rfl : id = other := (List.cons.inj hother).1
    refine (h.history id).of_duty ?_
    exact Nat.add_pos_left (List.count_pos_iff.mpr (List.mem_of_getElem? hindex)) _
  | _ => exact .of_eq rfl rfl hlater

theorem Effect.keepsFiles (heffect : Effect C machine after) (hinv : Inv C machine)
    (h : Histories C machine) : machine.KeepsFiles after := by
  have hlater := heffect.later hinv
  cases heffect with
  | call hcall => exact hcall.keepsFiles hinv h
  | _ => exact .of_eq rfl rfl hlater

/-- Whatever happens, every closed file is retired once, after its last operation and before its slot
is opened again, and no id is given out twice. -/
theorem run_retires_once {events : List DriverEvent}
    (hrun : (Machine.new C).run C events = .ok machine) :
    machine.RetiresOnce C ∧
      ∀ event after, machine.next C event = .ok after → machine.KeepsFiles after := by
  obtain ⟨hinv, hhistories⟩ := run_induct (P := Histories C)
    (fun hinv hhistories heffect ↦ heffect.histories hinv hhistories) (Inv.new C)
    (Histories.new C) hrun
  refine ⟨hhistories.retiresOnce hinv, fun event after hnext ↦ ?_⟩
  rcases next_eq_ok hinv hnext with rfl | heffect
  · exact .of_eq rfl rfl fun slot ↦ .refl _
  · exact heffect.keepsFiles hinv hhistories

/-- A driver with one slot, one file and frames of four bytes. -/
def singleFile : Config := ⟨0, 1, 1, 1, 2, 4⟩

/-- A file that is closed while its only operation is leased, and opened again. -/
def closeAndReopen : List DriverEvent :=
  let token : OpToken := ⟨0, 1⟩
  let id : FileId := ⟨0, 0, 1⟩
  [.openFile, .submitReadVector .pool ⟨id, .buffered⟩ ⟨[0, 1], 0, 0, 8, 4, none, none⟩ 0, .fill,
    .complete token (.ok 8), .reap, .close id, .dropLease token, .flush, .retire 0, .finishRetire 0,
    .openFile]

theorem run_retires_once_closeAndReopen : ∃ machine,
    (Machine.new singleFile).run singleFile closeAndReopen = .ok machine ∧
      machine.retirements = [⟨0, 0, 1⟩] ∧ machine.issued = [⟨0, 0, 2⟩, ⟨0, 0, 1⟩] ∧
      machine.RetiresOnce singleFile ∧
      ∀ event after, machine.next singleFile event = .ok after → machine.KeepsFiles after := by
  have hrun : (Machine.new singleFile).run singleFile closeAndReopen = .ok _ := rfl
  exact ⟨_, hrun, rfl, rfl, run_retires_once hrun⟩

end Machine

end DiosPool.Driver
