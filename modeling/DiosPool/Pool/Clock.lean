import DiosPool.Foundation.Program
import DiosPool.Driver.Operation

/-!
# The replacement clock and its notifications

The clock keeps a reference bit for every frame and a marker for every speculative frame. Readers set
both without a lock. Two bitmaps tell the control plane which frames changed: a leaf word for every
64 frames, and above it one bit for every word that may be nonempty. Every load, swap and update of
a word is a step of its own.
-/

namespace DiosPool.Pool

open Foundation

abbrev ClockM (σ : Type) := Program σ Assertion

/-- Sixty-four bits. -/
abbrev BitWord := ℕ → Bool

namespace BitWord

def empty : BitWord := fun _ ↦ false

/-- `trailing_zeros` of a nonzero word. -/
def first (word : BitWord) : Option ℕ := (List.range 64).find? word

def clear (word : BitWord) (bit : ℕ) : BitWord := Function.update word bit false

end BitWord

/-- The words of every level, level 0 being the leaves. -/
abbrev DirtyFrames := ℕ → ℕ → BitWord

namespace DirtyFrames

def levelsMax : ℕ := 6

/-- The number of levels above `count` items, for at most `fuel` levels. -/
def heightFrom : ℕ → ℕ → ℕ
  | 0, _ => 0
  | fuel + 1, count => if count ≤ 64 then 1 else 1 + heightFrom fuel ((count + 63) / 64)

def height (frames : ℕ) : ℕ := heightFrom levelsMax frames

theorem height_pos {frames : ℕ} : 0 < height frames := by
  unfold height levelsMax heightFrom
  split <;> omega

/-- `fetch_or` of the bit that stands for `index` on a level. -/
def mark (dirty : DirtyFrames) (level index : ℕ) : DirtyFrames :=
  Function.update dirty level
    (Function.update (dirty level) (index / 64)
      (Function.update (dirty level (index / 64)) (index % 64) true))

variable {σ : Type} (lens : Lens σ DirtyFrames)

/-- `swap(0)` of one word. -/
def take (level word : ℕ) : ClockM σ BitWord :=
  Program.act fun memory ↦
    let dirty := lens.get memory
    .ok (dirty level word,
      lens.set (Function.update dirty level
        (Function.update (dirty level) word BitWord.empty)) memory)

def notifyFrom : ℕ → ℕ → ℕ → ClockM σ Unit
  | 0, _, _ => return ()
  | levels + 1, level, index => do
    Program.store fun memory ↦ lens.set (mark (lens.get memory) level index) memory
    notifyFrom levels (level + 1) (index / 64)

def notify (frames frame : ℕ) : ClockM σ Unit := do
  ensure (frame < frames) "a notification names a frame"
  notifyFrom lens (height frames) 0 frame

/-- Where a drain stands: the current level, and for every level the word it looks at and the bits of
it that are left. -/
structure Cursor where
  level : ℕ
  words : ℕ → ℕ
  bits : ℕ → BitWord

def drainLoop (frames : ℕ) (visit : ℕ → ClockM σ Unit) : ℕ → Cursor → ℕ → ClockM σ ℕ
  | 0, _, _ => Program.fail ⟨"each bounded bitmap node is visited at most once"⟩
  | fuel + 1, ⟨level, words, bits⟩, visited =>
    match (bits level).first with
    | none =>
      if level + 1 = height frames then
        return visited
      else
        drainLoop frames visit fuel ⟨level + 1, words, bits⟩ visited
    | some bit => do
      let bits := Function.update bits level ((bits level).clear bit)
      let index := words level * 64 + bit
      if level = 0 then
        ensure (index < frames) "a notification names a frame"
        visit index
        drainLoop frames visit fuel ⟨level, words, bits⟩ (visited + 1)
      else
        let child ← take lens (level - 1) index
        drainLoop frames visit fuel
          ⟨level - 1, Function.update words (level - 1) index,
            Function.update bits (level - 1) child⟩ visited

/-- Takes the notified frames and visits them. -/
def drain (frames : ℕ) (visit : ℕ → ClockM σ Unit) : ClockM σ ℕ := do
  let root := height frames - 1
  let bits ← take lens root 0
  drainLoop lens frames visit (frames * (levelsMax + 1) + levelsMax)
    ⟨root, fun _ ↦ 0, Function.update (fun _ ↦ BitWord.empty) root bits⟩ 0

end DirtyFrames

/-- The speculation marker of a frame. -/
inductive Speculation
  | absent
  | unconsumed
  | consumed (reader : Option ℕ)
  deriving DecidableEq, Repr

structure Clock where
  referenceBits : ℕ → Bool
  hand : ℕ
  speculation : ℕ → Speculation
  consumed : DirtyFrames
  completed : DirtyFrames

namespace Clock

def new : Clock where
  referenceBits := fun _ ↦ false
  hand := 0
  speculation := fun _ ↦ .absent
  consumed := fun _ _ ↦ BitWord.empty
  completed := fun _ _ ↦ BitWord.empty

/-- Where a reference of a frame stands: its bit is loaded, then its marker, which is exchanged and
notified level by level, and at last the bit is set. -/
inductive ReferenceStage
  | bit
  | marker
  | exchange
  | notify (level index : ℕ)
  | store
  | done (set : Bool)
  deriving DecidableEq, Repr

/-- One atomic step of a reference. -/
def referenceStep (frames frame : ℕ) (reader : Option ℕ) :
    ReferenceStage → Clock → ReferenceStage × Clock
  | .bit, clock => (if clock.referenceBits frame then .done false else .marker, clock)
  | .marker, clock =>
    (if clock.speculation frame = .unconsumed then .exchange else .store, clock)
  | .exchange, clock =>
    if clock.speculation frame = .unconsumed then
      (.notify 0 frame, { clock with
        speculation := Function.update clock.speculation frame (.consumed reader) })
    else
      (.store, clock)
  | .notify level index, clock =>
    (if level + 1 = DirtyFrames.height frames then .store else .notify (level + 1) (index / 64),
      { clock with consumed := clock.consumed.mark level index })
  | .store, clock =>
    (.done true, { clock with referenceBits := Function.update clock.referenceBits frame true })
  | .done set, clock => (.done set, clock)

section Steps

variable {σ : Type} (lens : Lens σ Clock) (frames : ℕ)

def consumedLens : Lens σ DirtyFrames where
  get memory := (lens.get memory).consumed
  set dirty memory := lens.set { lens.get memory with consumed := dirty } memory

def completedLens : Lens σ DirtyFrames where
  get memory := (lens.get memory).completed
  set dirty memory := lens.set { lens.get memory with completed := dirty } memory

def setReference (frame : ℕ) (bit : Bool) : ClockM σ Unit :=
  Program.store fun memory ↦
    let clock := lens.get memory
    lens.set { clock with referenceBits := Function.update clock.referenceBits frame bit } memory

def swapSpeculation (frame : ℕ) (marker : Speculation) : ClockM σ Speculation :=
  Program.act fun memory ↦
    let clock := lens.get memory
    .ok (clock.speculation frame,
      lens.set { clock with speculation := Function.update clock.speculation frame marker } memory)

/-- The turns of `reference_observed`, at most `fuel` of them. -/
def referenceLoop (frame : ℕ) (reader : Option ℕ) : ℕ → ReferenceStage → ClockM σ Bool
  | _, .done set => return set
  | 0, _ => Program.fail ⟨"a reference takes one turn for each level"⟩
  | fuel + 1, stage => do
    let stage ← Program.act fun memory ↦
      let (stage, clock) := referenceStep frames frame reader stage (lens.get memory)
      .ok (stage, lens.set clock memory)
    referenceLoop frame reader fuel stage

/-- `reference_observed`: only the first reference after a sweep does anything. -/
def referenceObserved (frame : ℕ) (reader : Option ℕ) : ClockM σ Bool := do
  ensure (frame < frames) "frame index out of range"
  referenceLoop lens frames frame reader (DirtyFrames.height frames + 4) .bit

def beginSpeculation (frame : ℕ) : ClockM σ Unit := do
  ensure (frame < frames) "frame index out of range"
  let marker ← Program.load fun memory ↦ (lens.get memory).speculation frame
  ensure (marker = .absent) "a speculation starts once"
  setReference lens frame false
  let _ ← swapSpeculation lens frame .unconsumed

def speculationConsumed (frame : ℕ) : ClockM σ Bool := do
  ensure (frame < frames) "frame index out of range"
  let marker ← Program.load fun memory ↦ (lens.get memory).speculation frame
  return match marker with
    | .consumed _ => true
    | _ => false

def isSpeculative (frame : ℕ) : ClockM σ Bool := do
  ensure (frame < frames) "frame index out of range"
  let marker ← Program.load fun memory ↦ (lens.get memory).speculation frame
  return marker ≠ .absent

def takeSpeculation (frame : ℕ) : ClockM σ Speculation := do
  ensure (frame < frames) "frame index out of range"
  swapSpeculation lens frame .absent

def setHand (hand : ℕ) : ClockM σ Unit :=
  Program.store fun memory ↦ lens.set { lens.get memory with hand := hand } memory

def sweep : ℕ → ℕ → ClockM σ ℕ
  | 0, hand => do
    setHand lens hand
    return hand
  | fuel + 1, hand => do
    let next := (hand + 1) % frames
    if ← Program.load fun memory ↦ (lens.get memory).referenceBits hand then
      setReference lens hand false
      sweep fuel next
    else
      setHand lens next
      return hand

/-- The second-chance sweep: at most one turn and one step. -/
def evictVictimShared : ClockM σ ℕ := do
  let hand ← Program.load fun memory ↦ (lens.get memory).hand
  sweep lens frames (frames + 1) hand

end Steps

end Clock

end DiosPool.Pool
