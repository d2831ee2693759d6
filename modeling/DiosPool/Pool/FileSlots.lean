import DiosPool.Driver.Operation

/-!
# Fixed slots with a list for each file

Every occupied slot belongs to a file slot, and the members of a file are linked through their
slots. A link is an index plus one, so that the zero of fresh memory means vacancy; the last member
of a list links to itself, and so does the first one backwards.
-/

namespace DiosPool.Pool

/-- A value that belongs to a file slot. -/
class FileOwned (α : Type) where
  fileSlot : α → ℕ

/-- A link to the slot `index`. -/
def slotLink (index : ℕ) : ℕ := index + 1

structure FileSlot (α : Type) where
  previous : ℕ
  next : ℕ
  value : Option α

namespace FileSlot

variable {α : Type}

def vacant : FileSlot α := ⟨0, 0, none⟩

def get (slot : FileSlot α) : Option α := if slot.next = 0 then none else slot.value

end FileSlot

structure FileSlots (α : Type) where
  slots : ℕ → FileSlot α
  heads : ℕ → ℕ
  capacity : ℕ

namespace FileSlots

variable {α : Type}

def new (capacity : ℕ) : FileSlots α := ⟨fun _ ↦ .vacant, fun _ ↦ 0, capacity⟩

def get (table : FileSlots α) (index : ℕ) : Option α := (table.slots index).get

/-- Changes one slot. -/
def modify (table : FileSlots α) (index : ℕ) (change : FileSlot α → FileSlot α) : FileSlots α :=
  { table with slots := Function.update table.slots index (change (table.slots index)) }

/-- Changes the value of an occupied slot. -/
def modifyValue (table : FileSlots α) (index : ℕ) (change : α → α) : FileSlots α :=
  table.modify index fun slot ↦ { slot with value := slot.value.map change }

/-- The old head of a list gets a predecessor. -/
def linkHead (table : FileSlots α) (head link : ℕ) : Except Assertion (FileSlots α) :=
  if head = 0 then
    return table
  else do
    ensure ((table.slots (head - 1)).previous = head) "the head has no predecessor"
    return table.modify (head - 1) fun slot ↦ { slot with previous := link }

/-- The predecessor of a slot, or the head of its list, skips the slot. -/
def unlinkPrevious (table : FileSlots α) (owner link previous next : ℕ) :
    Except Assertion (FileSlots α) :=
  if previous = link then do
    ensure (table.heads owner = link) "only the head has no predecessor"
    return { table with
      heads := Function.update table.heads owner (if next = link then 0 else next) }
  else do
    ensure (previous ≠ 0) "occupied predecessor"
    ensure ((table.slots (previous - 1)).next = link) "predecessor links back"
    return table.modify (previous - 1) fun slot ↦
      { slot with next := if next = link then previous else next }

/-- The successor of a slot skips the slot. -/
def unlinkNext (table : FileSlots α) (link previous next : ℕ) : Except Assertion (FileSlots α) :=
  if next = link then
    return table
  else do
    ensure ((table.slots (next - 1)).previous = link) "successor links back"
    return table.modify (next - 1) fun slot ↦
      { slot with previous := if previous = link then next else previous }

variable [FileOwned α]

def insert (table : FileSlots α) (index : ℕ) (value : α) : Except Assertion (FileSlots α) := do
  ensure (table.get index).isNone "insertion claims a vacant slot"
  let owner := FileOwned.fileSlot value
  let link := slotLink index
  let head := table.heads owner
  let table := table.modify index fun _ ↦ ⟨link, if head = 0 then link else head, some value⟩
  let table ← table.linkHead head link
  return { table with heads := Function.update table.heads owner link }

def remove (table : FileSlots α) (index : ℕ) : Except Assertion (FileSlots α) := do
  let value ← expect (table.get index) "removal names an occupied slot"
  let owner := FileOwned.fileSlot value
  let link := slotLink index
  let slot := table.slots index
  let table ← table.unlinkPrevious owner link slot.previous slot.next
  let table ← table.unlinkNext link slot.previous slot.next
  return table.modify index fun slot ↦ { slot with previous := 0, next := 0 }

section Get

variable {table table' : FileSlots α} {index : ℕ}

omit [FileOwned α] in
theorem get_modify_same (change : FileSlot α → FileSlot α) :
    (table.modify index change).get index = (change (table.slots index)).get := by
  simp [get, modify]

omit [FileOwned α] in
theorem get_modify_of_ne (change : FileSlot α → FileSlot α) {other : ℕ} (h : other ≠ index) :
    (table.modify index change).get other = table.get other := by
  simp [get, modify, h]

omit [FileOwned α] in
theorem get_modify_of_get_eq {change : FileSlot α → FileSlot α}
    (h : (change (table.slots index)).get = (table.slots index).get) :
    (table.modify index change).get = table.get := by
  funext other
  by_cases hother : other = index
  · subst hother
    rw [get_modify_same, h, get]
  · exact get_modify_of_ne change hother

omit [FileOwned α] in
theorem get_modifyValue (change : α → α) (other : ℕ) :
    (table.modifyValue index change).get other =
      if other = index then (table.get index).map change else table.get other := by
  by_cases hother : other = index
  · subst hother
    rw [modifyValue, get_modify_same, if_pos rfl, get]
    simp only [FileSlot.get]
    split <;> rfl
  · rw [if_neg hother]
    exact get_modify_of_ne _ hother

omit [FileOwned α] in
theorem get_linkHead {head link : ℕ} (h : table.linkHead head link = .ok table') :
    table'.get = table.get := by
  unfold linkHead at h
  split at h
  · cases h
    rfl
  · simp only [bind_eq_ok, ensure_eq_ok, pure_ok, Except.ok.injEq] at h
    obtain ⟨_, _, rfl⟩ := h
    exact get_modify_of_get_eq rfl

omit [FileOwned α] in
theorem get_unlinkPrevious {owner link previous next : ℕ} (hlink : link ≠ 0) (hnext : next ≠ 0)
    (h : table.unlinkPrevious owner link previous next = .ok table') :
    table'.get = table.get := by
  unfold unlinkPrevious at h
  split at h
  · simp only [bind_eq_ok, ensure_eq_ok, pure_ok, Except.ok.injEq] at h
    obtain ⟨_, _, rfl⟩ := h
    rfl
  · simp only [bind_eq_ok, ensure_eq_ok, pure_ok, Except.ok.injEq] at h
    obtain ⟨_, hprevious, _, hback, rfl⟩ := h
    apply get_modify_of_get_eq
    have hnew : (if next = link then previous else next) ≠ 0 := by
      split <;> assumption
    have hold : (table.slots (previous - 1)).next ≠ 0 := by
      rw [hback]
      exact hlink
    exact (if_neg hnew).trans (if_neg hold).symm

omit [FileOwned α] in
theorem get_unlinkNext {link previous next : ℕ}
    (h : table.unlinkNext link previous next = .ok table') : table'.get = table.get := by
  unfold unlinkNext at h
  split at h
  · cases h
    rfl
  · simp only [bind_eq_ok, ensure_eq_ok, pure_ok, Except.ok.injEq] at h
    obtain ⟨_, _, rfl⟩ := h
    exact get_modify_of_get_eq rfl

/-- An insertion changes the value of its slot only. -/
theorem get_insert {value : α} (h : table.insert index value = .ok table') :
    table.get index = none ∧ table'.get = Function.update table.get index (some value) := by
  simp only [insert, bind_eq_ok, ensure_eq_ok, pure_ok, Except.ok.injEq] at h
  obtain ⟨_, hvacant, linked, hlinked, rfl⟩ := h
  refine ⟨by simpa using hvacant, ?_⟩
  refine (get_linkHead hlinked).trans (funext fun other ↦ ?_)
  by_cases hother : other = index
  · subst hother
    rw [get_modify_same, Function.update_self]
    simp only [FileSlot.get, slotLink]
    split <;> simp_all
  · rw [Function.update_of_ne hother]
    exact get_modify_of_ne _ hother

/-- A removal clears its slot and changes no other value. -/
theorem get_remove (h : table.remove index = .ok table') :
    (table.get index).isSome ∧ table'.get = Function.update table.get index none := by
  simp only [remove, bind_eq_ok, expect_eq_ok, pure_ok, Except.ok.injEq] at h
  obtain ⟨value, hvalue, first, hfirst, second, hsecond, rfl⟩ := h
  refine ⟨by simp [hvalue], funext fun other ↦ ?_⟩
  have hoccupied : (table.slots index).next ≠ 0 := by
    intro hzero
    simp [get, FileSlot.get, hzero] at hvalue
  have hget : second.get = table.get :=
    (get_unlinkNext hsecond).trans
      (get_unlinkPrevious (Nat.succ_ne_zero index) hoccupied hfirst)
  by_cases hother : other = index
  · subst hother
    rw [get_modify_same, Function.update_self]
    rfl
  · rw [Function.update_of_ne hother, ← hget]
    exact get_modify_of_ne _ hother

end Get

/-- The iterator of `for_file`, from a link on. `remaining` bounds the traversal. -/
def forFileFrom (table : FileSlots α) (owner : ℕ) : ℕ → ℕ → Except Assertion (List (ℕ × α))
  | _, 0 => return []
  | 0, _ + 1 => .error ⟨"membership traversal cannot cycle"⟩
  | remaining + 1, link + 1 => do
    let value ← expect (table.get link) "membership names an occupied slot"
    ensure (FileOwned.fileSlot value = owner) "membership owner is exact"
    let next := (table.slots link).next
    let rest ← forFileFrom table owner remaining (if next = link + 1 then 0 else next)
    return (link, value) :: rest

def forFile (table : FileSlots α) (file : FileId) : Except Assertion (List (ℕ × α)) :=
  table.forFileFrom file.slot table.capacity (table.heads file.slot)

end FileSlots

/-- The file slot a frame's page belongs to. -/
structure FrameFileSlot where
  slot : ℕ
  deriving DecidableEq, Repr

instance : FileOwned FrameFileSlot := ⟨FrameFileSlot.slot⟩

abbrev FramePages := FileSlots FrameFileSlot

end DiosPool.Pool
