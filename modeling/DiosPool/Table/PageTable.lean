import DiosPool.Foundation.Program
import DiosPool.Identity

/-!
# The page table

The open-addressed map from pages to read frames, as programs of atomic loads and stores. Every
slot is a seqlock: its writer makes the version odd, stores the fields one by one and makes the
version even again, and a reader retries until it sees one even version around its loads.

The memory carries one field that the source does not have. `live` is the map the writer has
announced: each operation updates it in the same step in which it makes a slot's version odd.
-/

namespace DiosPool.Table

open Foundation

/-- The fields of one slot, each its own atomic. -/
structure Cell where
  seq : ℕ
  occupied : Bool
  driver : ℕ
  fileSlot : ℕ
  fileGeneration : ℕ
  granuleIdx : ℕ
  frame : ℕ
  deriving DecidableEq, Repr

def Cell.vacant : Cell := ⟨0, false, 0, 0, 0, 0, 0⟩

/-- The page named by the four identity fields of a slot. -/
def Cell.page (cell : Cell) : PageId :=
  ⟨⟨cell.driver, cell.fileSlot, cell.fileGeneration⟩, cell.granuleIdx⟩

/-- What a slot holds, read at one instant. -/
def Cell.entry (cell : Cell) : Option (PageId × ℕ) :=
  if cell.occupied then some (cell.page, cell.frame) else none

/-- The map from pages to frames that the table stands for. -/
abbrev Mapping := PageId → Option ℕ

structure Memory where
  cells : ℕ → Cell
  len : ℕ
  live : Mapping

def Memory.empty : Memory := ⟨fun _ ↦ Cell.vacant, 0, fun _ ↦ none⟩

def Memory.modify (memory : Memory) (slot : ℕ) (change : Cell → Cell) : Memory :=
  { memory with cells := Function.update memory.cells slot (change (memory.cells slot)) }

inductive Panic
  | seqlockReadExceeded
  | capacityExceeded (capacity : ℕ)
  deriving DecidableEq, Repr

abbrev TableM := Program Memory Panic

def seqlockReadSpinsMax : ℕ := 1000000

/-- One atomic load of a field of a slot. -/
def loadField {α : Type} (slot : ℕ) (field : Cell → α) : TableM α :=
  Program.load fun memory ↦ field (memory.cells slot)

/-- One atomic store to a field of a slot. -/
def storeField (slot : ℕ) (change : Cell → Cell) : TableM Unit :=
  Program.store fun memory ↦ memory.modify slot change

/-- The store that opens a write, together with what it announces. -/
def beginWrite (slot version : ℕ) (announce : Mapping → Mapping) : TableM Unit :=
  Program.store fun memory ↦
    { memory.modify slot ({ · with seq := version + 1 }) with live := announce memory.live }

def storeEntry (slot : ℕ) : Option (PageId × ℕ) → TableM Unit
  | some (page, frame) => do
    storeField slot ({ · with driver := page.file.driver })
    storeField slot ({ · with fileSlot := page.file.slot })
    storeField slot ({ · with fileGeneration := page.file.generation })
    storeField slot ({ · with granuleIdx := page.granuleIdx })
    storeField slot ({ · with frame := frame })
    storeField slot ({ · with occupied := true })
  | none => storeField slot ({ · with occupied := false })

/-- `Cell::write`. -/
def write (slot : ℕ) (entry : Option (PageId × ℕ)) (announce : Mapping → Mapping) :
    TableM Unit := do
  let version ← loadField slot (·.seq)
  beginWrite slot version announce
  storeEntry slot entry
  storeField slot ({ · with seq := version + 2 })

def loadEntry (slot : ℕ) : TableM (Option (PageId × ℕ)) := do
  let occupied ← loadField slot (·.occupied)
  if occupied then
    let driver ← loadField slot (·.driver)
    let fileSlot ← loadField slot (·.fileSlot)
    let fileGeneration ← loadField slot (·.fileGeneration)
    let granuleIdx ← loadField slot (·.granuleIdx)
    let frame ← loadField slot (·.frame)
    pure (some (⟨⟨driver, fileSlot, fileGeneration⟩, granuleIdx⟩, frame))
  else
    pure none

def readLoop (slot : ℕ) : ℕ → TableM (Option (PageId × ℕ))
  | 0 => Program.fail .seqlockReadExceeded
  | spins + 1 => do
    let before ← loadField slot (·.seq)
    if before % 2 ≠ 0 then
      readLoop slot spins
    else
      let snapshot ← loadEntry slot
      let after ← loadField slot (·.seq)
      if after = before then pure snapshot else readLoop slot spins

/-- `Cell::read`. -/
def read (slot : ℕ) : TableM (Option (PageId × ℕ)) :=
  readLoop slot seqlockReadSpinsMax

/-- The fixed size of a table and the hash of its pages. -/
structure Geometry where
  bits : ℕ
  bits_le : bits ≤ 31
  hash : PageId → UInt64

namespace Geometry

variable (G : Geometry)

def capacity : ℕ := 2 ^ G.bits

def mask : ℕ := G.capacity - 1

def homeSlot (page : PageId) : ℕ := (G.hash page).toNat &&& G.mask

def nextSlot (slot : ℕ) : ℕ := (slot + 1) &&& G.mask

/-- Subtraction of 32-bit words. -/
def wrappingSub (left right : ℕ) : ℕ := (left + 2 ^ 32 - right) % 2 ^ 32

def fillsGap (home gap scan : ℕ) : Bool :=
  let scanFromGap := wrappingSub scan gap &&& G.mask
  let homeFromGap := wrappingSub home gap &&& G.mask
  homeFromGap == 0 || scanFromGap < homeFromGap

def lookupLoop (page : PageId) : ℕ → ℕ → TableM (Option ℕ)
  | 0, _ => pure none
  | fuel + 1, slot => do
    match ← read slot with
    | some (key, frame) =>
      if key = page then pure (some frame) else lookupLoop page fuel (G.nextSlot slot)
    | none => pure none

def lookup (page : PageId) : TableM (Option ℕ) :=
  lookupLoop G page G.capacity (G.homeSlot page)

def loadLen : TableM ℕ := Program.load (·.len)

def storeLen (len : ℕ) : TableM Unit := Program.store ({ · with len := len })

def insertLoop (page : PageId) (frame : ℕ) : ℕ → ℕ → TableM Unit
  | 0, _ => Program.fail (.capacityExceeded G.capacity)
  | fuel + 1, slot => do
    match ← read slot with
    | some (key, _) =>
      if key = page then
        write slot (some (page, frame)) (Function.update · page (some frame))
      else
        insertLoop page frame fuel (G.nextSlot slot)
    | none => do
      write slot (some (page, frame)) (Function.update · page (some frame))
      let len ← loadLen
      storeLen (len + 1)

def insertShared (page : PageId) (frame : ℕ) : TableM Unit :=
  insertLoop G page frame G.capacity (G.homeSlot page)

def backwardShiftLoop : ℕ → ℕ → ℕ → TableM Unit
  | 0, _, _ => pure ()
  | fuel + 1, gap, scan => do
    match ← read scan with
    | none => pure ()
    | some (key, _) =>
      if G.fillsGap (G.homeSlot key) gap scan then do
        let moved ← read scan
        write gap moved id
        write scan none id
        backwardShiftLoop fuel scan (G.nextSlot scan)
      else
        backwardShiftLoop fuel gap (G.nextSlot scan)

def backwardShift (gap : ℕ) : TableM Unit :=
  backwardShiftLoop G G.capacity gap (G.nextSlot gap)

/-- The probe of a removal: the slot of the page and the frame it maps to. -/
def findLoop (page : PageId) : ℕ → ℕ → TableM (Option (ℕ × ℕ))
  | 0, _ => pure none
  | fuel + 1, slot => do
    match ← read slot with
    | some (key, frame) =>
      if key = page then pure (some (slot, frame)) else findLoop page fuel (G.nextSlot slot)
    | none => pure none

def removeShared (page : PageId) : TableM (Option ℕ) := do
  match ← findLoop G page G.capacity (G.homeSlot page) with
  | none => pure none
  | some (gap, frame) => do
    write gap none (Function.update · page none)
    let len ← loadLen
    storeLen (len - 1)
    backwardShift G gap
    pure (some frame)

end Geometry

end DiosPool.Table
