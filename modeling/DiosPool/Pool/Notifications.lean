import DiosPool.Foundation.Counting
import DiosPool.Pool.Clock

/-!
# Notified frames

Any number of threads notify frames while others drain what was notified. A notification sets a bit
on every level from the leaves to the root, a drain takes words from the root to the leaves. Between
two of these steps the other threads may do anything.
-/

namespace DiosPool.Dirty

open Foundation Pool Pool.DirtyFrames

/-! ## One turn of a drain -/

/-- The number of bits that a level uses. A bit above the leaves stands for a word of the level
below. -/
def levelCount (frames : ℕ) : ℕ → ℕ
  | 0 => frames
  | level + 1 => (levelCount frames level + 63) / 64

/-- What a drain does in one turn of its loop. -/
inductive Turn
  | finish
  | climb (cursor : Cursor)
  | visit (frame : ℕ) (cursor : Cursor)
  | descend (level word : ℕ) (cursor : BitWord → Cursor)

/-- The turn of a drain that stands at a cursor. -/
def turn (frames : ℕ) (cursor : Cursor) : Turn :=
  match (cursor.bits cursor.level).first with
  | none =>
    if cursor.level + 1 = height frames then .finish
    else .climb ⟨cursor.level + 1, cursor.words, cursor.bits⟩
  | some bit =>
    let bits := Function.update cursor.bits cursor.level ((cursor.bits cursor.level).clear bit)
    let index := cursor.words cursor.level * 64 + bit
    if cursor.level = 0 then .visit index ⟨cursor.level, cursor.words, bits⟩
    else .descend (cursor.level - 1) index fun child ↦
      ⟨cursor.level - 1, Function.update cursor.words (cursor.level - 1) index,
        Function.update bits (cursor.level - 1) child⟩

/-! ## Threads -/

/-- Where a notification stands: the next level, and the bit it sets there. -/
inductive Notifier
  | idle
  | marking (level index : ℕ)
  | panicked (assertion : Assertion)

/-- The notification after it has set a bit. -/
def Notifier.after (frames level index : ℕ) : Notifier :=
  if level + 1 = height frames then
    if index / 64 = 0 then .idle else .panicked ⟨"a notification ends at the root"⟩
  else
    .marking (level + 1) (index / 64)

/-- Where a drain stands: the turns that its bound leaves, and its cursor. -/
inductive Drainer
  | idle
  | running (turns : ℕ) (cursor : Cursor)
  | panicked (assertion : Assertion)

/-- What happens to leaf bits. -/
inductive Event
  | marked (frame : ℕ)
  | taken (drain word : ℕ)
  | visited (drain frame : ℕ)
  deriving DecidableEq, Repr

/-- The bitmap with its threads. For each drain the frames are noted that it has visited, for each
frame whether it was notified since its last visit, and everything that happened to leaf bits. -/
structure World where
  dirty : DirtyFrames
  notifiers : ℕ → Notifier
  drainers : ℕ → Drainer
  visits : ℕ → List ℕ
  due : ℕ → Bool
  trace : List Event

def initial : World :=
  ⟨fun _ _ ↦ BitWord.empty, fun _ ↦ .idle, fun _ ↦ .idle, fun _ ↦ [], fun _ ↦ false, []⟩

inductive Choice
  | notify (notifier frame : ℕ)
  | mark (notifier : ℕ)
  | drain (drainer : ℕ)
  | step (drainer : ℕ)
  deriving DecidableEq, Repr

/-- A word after its `swap(0)`. -/
def clearWord (dirty : DirtyFrames) (level word : ℕ) : DirtyFrames :=
  Function.update dirty level (Function.update (dirty level) word BitWord.empty)

/-- The bound on the turns of a drain. -/
def turnsMax (frames : ℕ) : ℕ := frames * (levelsMax + 1) + levelsMax

/-- The cursor of a drain that has taken the root. -/
def rootCursor (frames : ℕ) (bits : BitWord) : Cursor :=
  ⟨height frames - 1, fun _ ↦ 0, Function.update (fun _ ↦ BitWord.empty) (height frames - 1) bits⟩

namespace World

def setNotifier (world : World) (index : ℕ) (notifier : Notifier) : World :=
  { world with notifiers := Function.update world.notifiers index notifier }

def setDrainer (world : World) (index : ℕ) (drainer : Drainer) : World :=
  { world with drainers := Function.update world.drainers index drainer }

/-- `fetch_or` of a notification. -/
def mark (frames : ℕ) (world : World) (notifier level index : ℕ) : World :=
  setNotifier { world with
    dirty := world.dirty.mark level index
    due := if level = 0 then Function.update world.due index true else world.due
    trace := if level = 0 then world.trace ++ [.marked index] else world.trace }
    notifier (Notifier.after frames level index)

/-- `swap(0)` of a drain, which goes on with what it got. -/
def take (world : World) (drainer level word turns : ℕ) (cursor : BitWord → Cursor) : World :=
  setDrainer { world with
    dirty := clearWord world.dirty level word
    trace := if level = 0 then world.trace ++ [.taken drainer word] else world.trace }
    drainer (.running turns (cursor (world.dirty level word)))

/-- A drain visits a frame. -/
def visit (world : World) (drainer frame turns : ℕ) (cursor : Cursor) : World :=
  setDrainer { world with
    visits := Function.update world.visits drainer (world.visits drainer ++ [frame])
    due := Function.update world.due frame false
    trace := world.trace ++ [.visited drainer frame] }
    drainer (.running turns cursor)

/-- A drain begins. -/
def begin (frames : ℕ) (world : World) (drainer : ℕ) : World :=
  take { world with visits := Function.update world.visits drainer [] } drainer
    (height frames - 1) 0 (turnsMax frames) (rootCursor frames)

/-- What a drain does with a turn. -/
def follow (frames : ℕ) (world : World) (drainer turns : ℕ) : Turn → World
  | .finish => world.setDrainer drainer .idle
  | .climb cursor => world.setDrainer drainer (.running turns cursor)
  | .visit frame cursor =>
    if frame < frames then world.visit drainer frame turns cursor
    else world.setDrainer drainer (.panicked ⟨"a notification names a frame"⟩)
  | .descend level word cursor =>
    if word < levelCount frames (level + 1) then world.take drainer level word turns cursor
    else world.setDrainer drainer (.panicked ⟨"index out of bounds"⟩)

/-- The world after one choice. -/
def next (frames : ℕ) (world : World) : Choice → World
  | .notify index frame =>
    match world.notifiers index with
    | .idle =>
      world.setNotifier index <|
        if frame < frames then .marking 0 frame
        else .panicked ⟨"a notification names a frame"⟩
    | _ => world
  | .mark index =>
    match world.notifiers index with
    | .marking level bit => world.mark frames index level bit
    | _ => world
  | .drain index =>
    match world.drainers index with
    | .idle => world.begin frames index
    | _ => world
  | .step index =>
    match world.drainers index with
    | .running 0 _ =>
      world.setDrainer index (.panicked ⟨"each bounded bitmap node is visited at most once"⟩)
    | .running (turns + 1) cursor => world.follow frames index turns (turn frames cursor)
    | _ => world

end World

/-- The world after a schedule. -/
def runFrom (frames : ℕ) (world : World) (schedule : List Choice) : World :=
  schedule.foldl (World.next frames) world

def run (frames : ℕ) (schedule : List Choice) : World := runFrom frames initial schedule

/-! ## Levels -/

section Levels

variable {frames level index : ℕ}

theorem levelCount_shift (count level : ℕ) :
    levelCount count (level + 1) = levelCount ((count + 63) / 64) level := by
  induction level with
  | zero => rfl
  | succ level ih =>
    rw [levelCount, ih]
    rfl

theorem heightFrom_le (fuel count : ℕ) : heightFrom fuel count ≤ fuel := by
  induction fuel generalizing count with
  | zero => exact le_rfl
  | succ fuel ih =>
    unfold heightFrom
    split
    · omega
    · have hle := ih ((count + 63) / 64)
      omega

theorem height_le : height frames ≤ 6 := heightFrom_le levelsMax frames

/-- As many levels as it takes to get to a single word. -/
theorem levelCount_heightFrom {fuel count : ℕ} (hpos : 0 < count) (hle : count ≤ 64 ^ (fuel + 1)) :
    levelCount count (heightFrom (fuel + 1) count) = 1 := by
  induction fuel generalizing count with
  | zero =>
    have hone : heightFrom 1 count = 1 := by
      unfold heightFrom
      rw [if_pos (by simpa using hle)]
    rw [hone, levelCount, levelCount]
    have hle : count ≤ 64 := by simpa using hle
    omega
  | succ fuel ih =>
    unfold heightFrom
    split
    · rw [levelCount, levelCount]
      omega
    · rw [Nat.add_comm, levelCount_shift]
      refine ih (by omega) ?_
      rw [pow_succ] at hle
      omega

theorem levelCount_height (hpos : 0 < frames) (hlt : frames < 2 ^ 32) :
    levelCount frames (height frames) = 1 :=
  levelCount_heightFrom hpos (hlt.le.trans (by decide))

/-- A bit of a level belongs to a word, which is a bit of the next level. -/
theorem div_lt_levelCount (hindex : index < levelCount frames level) :
    index / 64 < levelCount frames (level + 1) := by
  rw [levelCount]
  omega

theorem root_word (hpos : 0 < frames) (hlt : frames < 2 ^ 32) (hroot : level + 1 = height frames)
    (hindex : index < levelCount frames level) : index / 64 = 0 := by
  have hdiv := div_lt_levelCount hindex
  rw [hroot, levelCount_height hpos hlt] at hdiv
  exact Nat.lt_one_iff.mp hdiv

theorem levelCount_le (level : ℕ) : levelCount frames (level + 1) ≤ (frames + 63) / 64 := by
  induction level with
  | zero => exact le_rfl
  | succ level ih =>
    rw [levelCount]
    omega

end Levels

/-! ## Bits of a word -/

section Bits

variable {word : BitWord} {bit other : ℕ}

theorem first_eq_none (hnone : word.first = none) (hbit : bit < 64) : word bit = false := by
  have hall := List.find?_eq_none.mp hnone bit (List.mem_range.mpr hbit)
  exact Bool.eq_false_iff.mpr hall

theorem first_eq_some (hfirst : word.first = some bit) :
    bit < 64 ∧ word bit = true ∧ ∀ earlier < bit, word earlier = false := by
  obtain ⟨hset, hmem, hearlier⟩ := List.find?_range_eq_some.mp hfirst
  refine ⟨List.mem_range.mp hmem, hset, fun earlier hlt ↦ ?_⟩
  simpa using hearlier earlier hlt

theorem clear_eq_true (hset : word.clear bit other = true) : other ≠ bit ∧ word other = true := by
  unfold BitWord.clear at hset
  by_cases heq : other = bit
  · rw [heq, Function.update_self] at hset
    cases hset
  · rw [Function.update_of_ne heq] at hset
    exact ⟨heq, hset⟩

end Bits

/-! ## The way of a drain -/

/-- The way of a drain through the levels. On each level the bits before the frontier are behind it,
and the bits of its cursor lie ahead. The word it looks at on a level is the last bit it took on the
level above. -/
structure Tour (frames : ℕ) (cursor : Cursor) (visits : List ℕ) (frontier : ℕ → ℕ) : Prop where
  level_lt : cursor.level < height frames
  below : ∀ level < cursor.level, ∀ bit, cursor.bits level bit = false
  ahead : ∀ level bit, cursor.bits level bit = true → level < height frames ∧ bit < 64 ∧
    frontier level ≤ cursor.words level * 64 + bit ∧
    cursor.words level * 64 + bit < levelCount frames level
  passed : ∀ level < cursor.level, frontier level ≤ 64 * frontier (level + 1)
  word : ∀ level, cursor.level ≤ level → level + 1 < height frames →
    frontier (level + 1) = cursor.words level + 1
  reach : ∀ level, cursor.level ≤ level → level < height frames →
    frontier level ≤ 64 * (cursor.words level + 1)
  root : cursor.words (height frames - 1) = 0
  bound : ∀ level < height frames, frontier level ≤ levelCount frames level
  visited : ∀ frame ∈ visits, frame < frontier 0
  ascending : visits.Pairwise (· < ·)

/-- The turns that a drain may still take: one for each frame ahead, two for each word, one for each
level it has to climb and the last one. -/
def turnsLeft (frames : ℕ) (cursor : Cursor) (frontier : ℕ → ℕ) : ℕ :=
  ∑ level ∈ Finset.range (height frames),
    (if level = 0 then 1 else 2) * (levelCount frames level - frontier level) +
  (height frames - 1 - cursor.level) + 1

/-- Bits that a level has. -/
def Within (frames level word : ℕ) (bits : BitWord) : Prop :=
  ∀ bit, bits bit = true → bit < 64 ∧ word * 64 + bit < levelCount frames level

section Tours

variable {frames : ℕ} {cursor : Cursor} {visits : List ℕ} {frontier : ℕ → ℕ}

/-- A frontier that moves costs turns. -/
theorem turnsLeft_update {level index : ℕ} (hlevel : level < height frames)
    (hahead : frontier level ≤ index) (hindex : index < levelCount frames level)
    (cursor after : Cursor) :
    turnsLeft frames after (Function.update frontier level (index + 1)) +
        ((if level = 0 then 1 else 2) + (height frames - 1 - cursor.level)) ≤
      turnsLeft frames cursor frontier + (height frames - 1 - after.level) := by
  have hsum := sum_range_update_add hlevel
    (fun level value ↦ (if level = 0 then 1 else 2) * (levelCount frames level - value)) frontier
    (index + 1)
  have hcost : (if level = 0 then 1 else 2) * (levelCount frames level - (index + 1)) +
      (if level = 0 then 1 else 2) ≤
        (if level = 0 then 1 else 2) * (levelCount frames level - frontier level) := by
    split <;> omega
  unfold turnsLeft
  omega

/-- A drain that has taken the root. -/
theorem tour_root {bits : BitWord}
    (hbits : Within frames (height frames - 1) 0 bits) :
    Tour frames (rootCursor frames bits) [] fun _ ↦ 0 := by
  have hheight : 0 < height frames := height_pos
  constructor
  case level_lt => exact Nat.sub_lt hheight one_pos
  case below =>
    intro level hlevel bit
    have hne : level ≠ height frames - 1 := hlevel.ne
    simp only [rootCursor, Function.update_of_ne hne]
    rfl
  case ahead =>
    intro level bit hbit
    by_cases heq : level = height frames - 1
    · simp only [rootCursor, heq, Function.update_self] at hbit
      obtain ⟨hlt, hcount⟩ := hbits bit hbit
      rw [heq]
      exact ⟨Nat.sub_lt hheight one_pos, hlt, Nat.zero_le _, hcount⟩
    · simp only [rootCursor, Function.update_of_ne heq] at hbit
      cases hbit
  case passed => exact fun level _ ↦ Nat.zero_le _
  case word =>
    intro level hlevel hroot
    have hlevel : height frames - 1 ≤ level := hlevel
    omega
  case reach => exact fun level _ _ ↦ Nat.zero_le _
  case root => rfl
  case bound => exact fun level _ ↦ Nat.zero_le _
  case visited => exact fun frame hmem ↦ absurd hmem List.not_mem_nil
  case ascending => exact List.Pairwise.nil

/-- The bound of a drain leaves it enough turns. -/
theorem turnsLeft_root (hpos : 0 < frames) (bits : BitWord) :
    turnsLeft frames (rootCursor frames bits) (fun _ ↦ 0) ≤ turnsMax frames := by
  have hle : height frames ≤ 6 := height_le
  have hheight : height frames ≠ 0 := height_pos.ne'
  obtain ⟨above, habove⟩ : ∃ above, height frames = above + 1 :=
    Nat.exists_eq_succ_of_ne_zero hheight
  have hwords : ∑ level ∈ Finset.range above, 2 * levelCount frames (level + 1) ≤
      above * (2 * ((frames + 63) / 64)) := by
    calc ∑ level ∈ Finset.range above, 2 * levelCount frames (level + 1)
        ≤ ∑ _level ∈ Finset.range above, 2 * ((frames + 63) / 64) :=
          Finset.sum_le_sum fun level _ ↦ Nat.mul_le_mul_left _ (levelCount_le level)
      _ = above * (2 * ((frames + 63) / 64)) := by simp
  have hfive : above * (2 * ((frames + 63) / 64)) ≤ 5 * (2 * ((frames + 63) / 64)) :=
    Nat.mul_le_mul_right _ (by omega)
  have hterm : ∀ level, (if level + 1 = 0 then 1 else 2) * (levelCount frames (level + 1) - 0) =
      2 * levelCount frames (level + 1) := fun level ↦ rfl
  unfold turnsLeft turnsMax levelsMax
  rw [habove, Finset.sum_range_succ', Finset.sum_congr rfl fun level _ ↦ hterm level]
  have hleaf : (if 0 = 0 then 1 else 2) * (levelCount frames 0 - 0) = frames := one_mul _
  rw [hleaf, rootCursor, habove]
  dsimp only
  omega

/-- The bits that are left of a word after the first one lie behind it. -/
theorem clear_first {word : BitWord} {bit other : ℕ} (hfirst : word.first = some bit)
    (hother : word.clear bit other = true) : bit < other ∧ word other = true := by
  obtain ⟨hne, hset⟩ := clear_eq_true hother
  obtain ⟨-, -, hearlier⟩ := first_eq_some hfirst
  refine ⟨lt_of_le_of_ne (not_lt.mp fun hlt ↦ ?_) hne.symm, hset⟩
  rw [hearlier other hlt] at hset
  cases hset

theorem Tour.empty (h : Tour frames cursor visits frontier)
    (hnone : (cursor.bits cursor.level).first = none) (bit : ℕ) :
    cursor.bits cursor.level bit = false := by
  by_contra hset
  obtain ⟨-, hlt, -⟩ := h.ahead cursor.level bit (Bool.not_eq_false _ ▸ hset)
  exact hset (first_eq_none hnone hlt)

/-- The drain climbs from a word that is used up. -/
theorem Tour.climb (h : Tour frames cursor visits frontier)
    (hnone : (cursor.bits cursor.level).first = none)
    (hroot : cursor.level + 1 ≠ height frames) :
    Tour frames ⟨cursor.level + 1, cursor.words, cursor.bits⟩ visits frontier := by
  have hlevel := h.level_lt
  have hnext : cursor.level + 1 < height frames := by omega
  constructor
  case level_lt => exact hnext
  case below =>
    intro level hlt bit
    rcases Nat.lt_succ_iff_lt_or_eq.mp hlt with hlt | rfl
    · exact h.below level hlt bit
    · exact h.empty hnone bit
  case ahead => exact h.ahead
  case passed =>
    intro level hlt
    rcases Nat.lt_succ_iff_lt_or_eq.mp hlt with hlt | rfl
    · exact h.passed level hlt
    · rw [h.word cursor.level le_rfl hnext]
      exact h.reach cursor.level le_rfl hlevel
  case word =>
    intro level hle hlt
    exact h.word level ((Nat.le_succ _).trans hle) hlt
  case reach =>
    intro level hle hlt
    exact h.reach level ((Nat.le_succ _).trans hle) hlt
  case root => exact h.root
  case bound => exact h.bound
  case visited => exact h.visited
  case ascending => exact h.ascending

/-- The bits ahead after a bit was taken from the current word. -/
theorem Tour.ahead_of_first (h : Tour frames cursor visits frontier) {bit level other : ℕ}
    (hfirst : (cursor.bits cursor.level).first = some bit)
    (hother : Function.update cursor.bits cursor.level ((cursor.bits cursor.level).clear bit) level
      other = true) :
    level < height frames ∧ other < 64 ∧
      Function.update frontier cursor.level (cursor.words cursor.level * 64 + bit + 1) level ≤
        cursor.words level * 64 + other ∧
      cursor.words level * 64 + other < levelCount frames level := by
  by_cases heq : level = cursor.level
  · subst heq
    rw [Function.update_self] at hother ⊢
    obtain ⟨hlt, hset⟩ := clear_first hfirst hother
    obtain ⟨hlevel, hbit, -, hcount⟩ := h.ahead cursor.level other hset
    exact ⟨hlevel, hbit, by omega, hcount⟩
  · rw [Function.update_of_ne heq] at hother ⊢
    exact h.ahead level other hother

/-- The first bit of the current word lies ahead. -/
theorem Tour.first (h : Tour frames cursor visits frontier) {bit : ℕ}
    (hfirst : (cursor.bits cursor.level).first = some bit) :
    bit < 64 ∧ frontier cursor.level ≤ cursor.words cursor.level * 64 + bit ∧
      cursor.words cursor.level * 64 + bit < levelCount frames cursor.level :=
  (h.ahead cursor.level bit (first_eq_some hfirst).2.1).2

/-- The drain visits the frame of a leaf bit. -/
theorem Tour.visit (h : Tour frames cursor visits frontier) {bit : ℕ}
    (hfirst : (cursor.bits cursor.level).first = some bit) (hleaf : cursor.level = 0) :
    Tour frames ⟨cursor.level, cursor.words,
        Function.update cursor.bits cursor.level ((cursor.bits cursor.level).clear bit)⟩
      (visits ++ [cursor.words cursor.level * 64 + bit])
      (Function.update frontier cursor.level (cursor.words cursor.level * 64 + bit + 1)) := by
  obtain ⟨hbit, hfrontier, hcount⟩ := h.first hfirst
  constructor
  case level_lt => exact h.level_lt
  case below =>
    intro level hlt
    exact absurd (hleaf ▸ hlt) (Nat.not_lt_zero _)
  case ahead => exact fun level other hother ↦ h.ahead_of_first hfirst hother
  case passed =>
    intro level hlt
    exact absurd (hleaf ▸ hlt) (Nat.not_lt_zero _)
  case word =>
    intro level hle hlt
    have hne : level + 1 ≠ cursor.level := by omega
    rw [Function.update_of_ne hne]
    exact h.word level hle hlt
  case reach =>
    intro level hle hlt
    by_cases heq : level = cursor.level
    · subst heq
      rw [Function.update_self]
      dsimp only
      omega
    · rw [Function.update_of_ne heq]
      exact h.reach level hle hlt
  case root => exact h.root
  case bound =>
    intro level hlt
    by_cases heq : level = cursor.level
    · subst heq
      rw [Function.update_self]
      exact hcount
    · rw [Function.update_of_ne heq]
      exact h.bound level hlt
  case visited =>
    intro frame hmem
    rw [← hleaf, Function.update_self]
    rcases List.mem_append.mp hmem with hmem | hmem
    · have hlt := h.visited frame hmem
      rw [← hleaf] at hlt
      omega
    · rw [List.mem_singleton.mp hmem]
      exact Nat.lt_succ_self _
  case ascending =>
    rw [List.pairwise_append]
    refine ⟨h.ascending, List.pairwise_singleton _ _, fun frame hmem last hlast ↦ ?_⟩
    rw [List.mem_singleton.mp hlast]
    have hlt := h.visited frame hmem
    rw [← hleaf] at hlt
    omega

/-- The drain takes the word that a bit above the leaves stands for. -/
theorem Tour.descend (h : Tour frames cursor visits frontier) {bit : ℕ}
    (hfirst : (cursor.bits cursor.level).first = some bit) (habove : cursor.level ≠ 0)
    {child : BitWord}
    (hchild : Within frames (cursor.level - 1) (cursor.words cursor.level * 64 + bit) child) :
    Tour frames ⟨cursor.level - 1,
        Function.update cursor.words (cursor.level - 1) (cursor.words cursor.level * 64 + bit),
        Function.update (Function.update cursor.bits cursor.level
          ((cursor.bits cursor.level).clear bit)) (cursor.level - 1) child⟩
      visits
      (Function.update frontier cursor.level (cursor.words cursor.level * 64 + bit + 1)) := by
  have hahead := fun level other ↦ @Tour.ahead_of_first _ _ _ _ h _ level other hfirst
  obtain ⟨hbit, hfrontier, hcount⟩ := h.first hfirst
  have hlevel := h.level_lt
  obtain ⟨level, words, bits⟩ := cursor
  obtain ⟨lower, rfl⟩ : ∃ lower, level = lower + 1 := Nat.exists_eq_succ_of_ne_zero habove
  dsimp only at *
  simp only [Nat.add_sub_cancel] at *
  have hpassed := h.passed lower (Nat.lt_succ_self _)
  have hne : lower ≠ lower + 1 := (Nat.lt_succ_self _).ne
  constructor
  case level_lt => exact (Nat.lt_succ_self _).trans hlevel
  case below =>
    intro other hlt bit'
    have hlt : other < lower := hlt
    have hother : other ≠ lower := hlt.ne
    have hother' : other ≠ lower + 1 := by omega
    simp only [Function.update_of_ne hother, Function.update_of_ne hother']
    exact h.below other (hlt.trans (Nat.lt_succ_self _)) bit'
  case ahead =>
    intro other bit' hset
    dsimp only at hset ⊢
    by_cases heq : other = lower
    · subst heq
      rw [Function.update_self] at hset
      rw [Function.update_self, Function.update_of_ne hne]
      obtain ⟨hlt, hwithin⟩ := hchild bit' hset
      exact ⟨(Nat.lt_succ_self _).trans hlevel, hlt, by omega, hwithin⟩
    · rw [Function.update_of_ne heq] at hset ⊢
      exact hahead other bit' hset
  case passed =>
    intro other hlt
    have hlt : other < lower := hlt
    have hother : other ≠ lower + 1 := by omega
    have hother' : other + 1 ≠ lower + 1 := by omega
    rw [Function.update_of_ne hother, Function.update_of_ne hother']
    exact h.passed other (hlt.trans (Nat.lt_succ_self _))
  case word =>
    intro other hle hlt
    have hle : lower ≤ other := hle
    dsimp only
    by_cases heq : other = lower
    · subst heq
      rw [Function.update_self, Function.update_self]
    · have hother : other + 1 ≠ lower + 1 := by omega
      rw [Function.update_of_ne heq, Function.update_of_ne hother]
      have hle : lower + 1 ≤ other := by omega
      exact h.word other hle hlt
  case reach =>
    intro other hle hlt
    have hle : lower ≤ other := hle
    dsimp only
    by_cases heq : other = lower
    · subst heq
      rw [Function.update_self, Function.update_of_ne hne]
      omega
    · rw [Function.update_of_ne heq]
      by_cases heq' : other = lower + 1
      · subst heq'
        rw [Function.update_self]
        omega
      · rw [Function.update_of_ne heq']
        have hle : lower + 1 ≤ other := by omega
        exact h.reach other hle hlt
  case root =>
    have hother : height frames - 1 ≠ lower := by omega
    exact (Function.update_of_ne hother _ _).trans h.root
  case bound =>
    intro other hlt
    by_cases heq : other = lower + 1
    · subst heq
      rw [Function.update_self]
      exact hcount
    · rw [Function.update_of_ne heq]
      exact h.bound other hlt
  case visited =>
    intro frame hmem
    have hzero : 0 ≠ lower + 1 := (Nat.succ_ne_zero _).symm
    rw [Function.update_of_ne hzero]
    exact h.visited frame hmem
  case ascending => exact h.ascending

end Tours

/-! ## Steps -/

/-- The bits of the map and of the notifications are bits that the levels have, and every drain is on
its way with turns enough. -/
structure Sound (frames : ℕ) (world : World) : Prop where
  within : ∀ level word, Within frames level word (world.dirty level word)
  marking : ∀ index level bit, world.notifiers index = .marking level bit →
    level < height frames ∧ bit < levelCount frames level
  touring : ∀ drainer turns cursor, world.drainers drainer = .running turns cursor →
    ∃ frontier, Tour frames cursor (world.visits drainer) frontier ∧
      turnsLeft frames cursor frontier ≤ turns
  ascending : ∀ drainer, (world.visits drainer).Pairwise (· < ·)
  unharmed : ∀ drainer assertion, world.drainers drainer ≠ .panicked assertion

theorem sound_initial (frames : ℕ) : Sound frames initial where
  within level word bit hbit := by cases hbit
  marking index level bit hmarking := by cases hmarking
  touring drainer turns cursor hrunning := by cases hrunning
  ascending drainer := List.Pairwise.nil
  unharmed drainer assertion hpanicked := by cases hpanicked

/-- The cursor after a leaf bit was taken from it. -/
def leafCursor (cursor : Cursor) (bit : ℕ) : Cursor :=
  ⟨cursor.level, cursor.words,
    Function.update cursor.bits cursor.level ((cursor.bits cursor.level).clear bit)⟩

/-- The cursor after a bit above the leaves was taken from it, in the word of that bit. -/
def childCursor (cursor : Cursor) (bit : ℕ) (child : BitWord) : Cursor :=
  ⟨cursor.level - 1,
    Function.update cursor.words (cursor.level - 1) (cursor.words cursor.level * 64 + bit),
    Function.update (Function.update cursor.bits cursor.level
      ((cursor.bits cursor.level).clear bit)) (cursor.level - 1) child⟩

/-- What one choice does. No thread but a notification of no frame fails an assertion. -/
inductive Stepped (frames : ℕ) (world : World) : World → Prop
  | rest : Stepped frames world world
  | start {index frame : ℕ} (hidle : world.notifiers index = .idle) (hframe : frame < frames) :
    Stepped frames world (world.setNotifier index (.marking 0 frame))
  | refuse {index : ℕ} {assertion : Assertion} (hidle : world.notifiers index = .idle) :
    Stepped frames world (world.setNotifier index (.panicked assertion))
  | mark {index level bit : ℕ} (hmarking : world.notifiers index = .marking level bit) :
    Stepped frames world (world.mark frames index level bit)
  | begin {drainer : ℕ} (hidle : world.drainers drainer = .idle) :
    Stepped frames world (world.begin frames drainer)
  | finish {drainer turns : ℕ} {cursor : Cursor}
      (hrunning : world.drainers drainer = .running (turns + 1) cursor)
      (hnone : (cursor.bits cursor.level).first = none) (hroot : cursor.level + 1 = height frames) :
    Stepped frames world (world.setDrainer drainer .idle)
  | climb {drainer turns : ℕ} {cursor : Cursor}
      (hrunning : world.drainers drainer = .running (turns + 1) cursor)
      (hnone : (cursor.bits cursor.level).first = none) (hroot : cursor.level + 1 ≠ height frames) :
    Stepped frames world
      (world.setDrainer drainer (.running turns ⟨cursor.level + 1, cursor.words, cursor.bits⟩))
  | visit {drainer turns bit : ℕ} {cursor : Cursor}
      (hrunning : world.drainers drainer = .running (turns + 1) cursor)
      (hfirst : (cursor.bits cursor.level).first = some bit) (hleaf : cursor.level = 0) :
    Stepped frames world (world.visit drainer (cursor.words cursor.level * 64 + bit) turns
      (leafCursor cursor bit))
  | descend {drainer turns bit : ℕ} {cursor : Cursor}
      (hrunning : world.drainers drainer = .running (turns + 1) cursor)
      (hfirst : (cursor.bits cursor.level).first = some bit) (habove : cursor.level ≠ 0) :
    Stepped frames world (world.take drainer (cursor.level - 1)
      (cursor.words cursor.level * 64 + bit) turns (childCursor cursor bit))

section Steps

variable {frames : ℕ} {world : World}

theorem Sound.stepped (h : Sound frames world) (choice : Choice) :
    Stepped frames world (world.next frames choice) := by
  cases choice with
  | notify index frame =>
    unfold World.next
    dsimp only
    split
    · rename_i hidle
      split
      · rename_i hframe
        exact .start hidle hframe
      · exact .refuse hidle
    · exact .rest
  | mark index =>
    unfold World.next
    dsimp only
    split
    · rename_i hmarking
      exact .mark hmarking
    · exact .rest
  | drain drainer =>
    unfold World.next
    dsimp only
    split
    · rename_i hidle
      exact .begin hidle
    · exact .rest
  | step drainer =>
    unfold World.next
    dsimp only
    split
    · rename_i cursor hrunning
      obtain ⟨frontier, -, hturns⟩ := h.touring drainer 0 cursor hrunning
      exact absurd (Nat.le_zero.mp hturns) (Nat.succ_ne_zero _)
    · rename_i turns cursor hrunning
      obtain ⟨frontier, htour, -⟩ := h.touring drainer _ cursor hrunning
      unfold turn
      cases hfirst : (cursor.bits cursor.level).first with
      | none =>
        dsimp only
        split
        · rename_i hroot
          exact .finish hrunning hfirst hroot
        · rename_i hroot
          exact .climb hrunning hfirst hroot
      | some bit =>
        obtain ⟨hbit, -, hcount⟩ := htour.first hfirst
        dsimp only
        split
        · rename_i hleaf
          have hframe : cursor.words cursor.level * 64 + bit < frames := by
            rw [hleaf] at hcount ⊢
            exact hcount
          simp only [World.follow, if_pos hframe]
          exact .visit hrunning hfirst hleaf
        · rename_i habove
          have hword : cursor.words cursor.level * 64 + bit <
              levelCount frames (cursor.level - 1 + 1) := by
            rw [Nat.sub_add_cancel (Nat.pos_of_ne_zero habove)]
            exact hcount
          simp only [World.follow, if_pos hword]
          exact .descend hrunning hfirst habove
    · exact .rest

theorem mark_apply (dirty : DirtyFrames) (level index level' word bit : ℕ) :
    dirty.mark level index level' word bit =
      if level' = level ∧ word = index / 64 ∧ bit = index % 64 then true
      else dirty level' word bit := by
  unfold DirtyFrames.mark
  by_cases hlevel : level' = level
  · subst hlevel
    rw [Function.update_self]
    by_cases hword : word = index / 64
    · subst hword
      rw [Function.update_self]
      by_cases hbit : bit = index % 64
      · subst hbit
        rw [Function.update_self, if_pos ⟨rfl, rfl, rfl⟩]
      · rw [Function.update_of_ne hbit, if_neg fun h ↦ hbit h.2.2]
    · rw [Function.update_of_ne hword, if_neg fun h ↦ hword h.2.1]
  · rw [Function.update_of_ne hlevel, if_neg fun h ↦ hlevel h.1]

theorem clearWord_apply (dirty : DirtyFrames) (level word level' word' : ℕ) :
    clearWord dirty level word level' word' =
      if level' = level ∧ word' = word then BitWord.empty else dirty level' word' := by
  unfold clearWord
  by_cases hlevel : level' = level
  · subst hlevel
    rw [Function.update_self]
    by_cases hword : word' = word
    · subst hword
      rw [Function.update_self, if_pos ⟨rfl, rfl⟩]
    · rw [Function.update_of_ne hword, if_neg fun h ↦ hword h.2]
  · rw [Function.update_of_ne hlevel, if_neg fun h ↦ hlevel h.1]

theorem after_eq (hpos : 0 < frames) (hlt : frames < 2 ^ 32) {level bit : ℕ}
    (hbit : bit < levelCount frames level) :
    Notifier.after frames level bit =
      if level + 1 = height frames then .idle else .marking (level + 1) (bit / 64) := by
  unfold Notifier.after
  split
  · rename_i hroot
    rw [if_pos (root_word hpos hlt hroot hbit)]
  · rfl

/-- A notification moves on. -/
theorem Sound.notifier (h : Sound frames world) {after : World} {index : ℕ}
    (hwithin : ∀ level word, Within frames level word (after.dirty level word))
    (hother : ∀ other ≠ index, after.notifiers other = world.notifiers other)
    (hmarking : ∀ level bit, after.notifiers index = .marking level bit →
      level < height frames ∧ bit < levelCount frames level)
    (hdrainers : after.drainers = world.drainers) (hvisits : after.visits = world.visits) :
    Sound frames after where
  within := hwithin
  marking other level bit hbit := by
    by_cases heq : other = index
    · exact hmarking level bit (heq ▸ hbit)
    · exact h.marking other level bit ((hother other heq).symm.trans hbit)
  touring drainer turns cursor hrunning := by
    rw [hvisits]
    exact h.touring drainer turns cursor (hdrainers ▸ hrunning)
  ascending drainer := hvisits ▸ h.ascending drainer
  unharmed drainer assertion := hdrainers ▸ h.unharmed drainer assertion

/-- A drain moves on. -/
theorem Sound.drainer (h : Sound frames world) {after : World} (drainer : ℕ)
    (hwithin : ∀ level word, Within frames level word (after.dirty level word))
    (hnotifiers : after.notifiers = world.notifiers)
    (hother : ∀ other ≠ drainer, after.drainers other = world.drainers other ∧
      after.visits other = world.visits other)
    (htouring : ∀ turns cursor, after.drainers drainer = .running turns cursor →
      ∃ frontier, Tour frames cursor (after.visits drainer) frontier ∧
        turnsLeft frames cursor frontier ≤ turns)
    (hascending : (after.visits drainer).Pairwise (· < ·))
    (hunharmed : ∀ assertion, after.drainers drainer ≠ .panicked assertion) :
    Sound frames after where
  within := hwithin
  marking := hnotifiers ▸ h.marking
  touring other turns cursor hrunning := by
    by_cases heq : other = drainer
    · subst heq
      exact htouring turns cursor hrunning
    · obtain ⟨hsame, hvisits⟩ := hother other heq
      rw [hvisits]
      exact h.touring other turns cursor (hsame.symm.trans hrunning)
  ascending other := by
    by_cases heq : other = drainer
    · subst heq
      exact hascending
    · rw [(hother other heq).2]
      exact h.ascending other
  unharmed other assertion := by
    by_cases heq : other = drainer
    · subst heq
      exact hunharmed assertion
    · rw [(hother other heq).1]
      exact h.unharmed other assertion

theorem within_mark {dirty : DirtyFrames}
    (h : ∀ level word, Within frames level word (dirty level word)) {level index : ℕ}
    (hindex : index < levelCount frames level) (level' word : ℕ) :
    Within frames level' word (dirty.mark level index level' word) := by
  intro bit hbit
  rw [mark_apply] at hbit
  split at hbit
  · rename_i heq
    obtain ⟨rfl, rfl, rfl⟩ := heq
    exact ⟨Nat.mod_lt _ (by decide), by omega⟩
  · exact h level' word bit hbit

theorem within_clearWord {dirty : DirtyFrames}
    (h : ∀ level word, Within frames level word (dirty level word)) (level word level' word' : ℕ) :
    Within frames level' word' (clearWord dirty level word level' word') := by
  intro bit hbit
  rw [clearWord_apply] at hbit
  split at hbit
  · cases hbit
  · exact h level' word' bit hbit

/-- The way of a drain that takes a turn. -/
theorem Sound.of_stepped (h : Sound frames world) (hpos : 0 < frames) (hlt : frames < 2 ^ 32)
    {after : World} (hstep : Stepped frames world after) : Sound frames after := by
  cases hstep with
  | rest => exact h
  | start hidle hframe =>
    refine h.notifier h.within (fun other hne ↦ Function.update_of_ne hne _ _) ?_ rfl rfl
    intro level bit hmarking
    simp only [World.setNotifier, Function.update_self, Notifier.marking.injEq] at hmarking
    obtain ⟨rfl, rfl⟩ := hmarking
    exact ⟨height_pos, hframe⟩
  | refuse hidle =>
    refine h.notifier h.within (fun other hne ↦ Function.update_of_ne hne _ _) ?_ rfl rfl
    intro level bit hmarking
    simp only [World.setNotifier, Function.update_self, reduceCtorEq] at hmarking
  | @mark index level bit hmarking =>
    obtain ⟨hlevel, hbit⟩ := h.marking index level bit hmarking
    refine h.notifier (within_mark h.within hbit) (fun other hne ↦ Function.update_of_ne hne _ _) ?_
      rfl rfl
    intro level' bit' hmarking'
    simp only [World.mark, World.setNotifier, Function.update_self, after_eq hpos hlt hbit]
      at hmarking'
    split at hmarking'
    · cases hmarking'
    · cases hmarking'
      exact ⟨by omega, div_lt_levelCount hbit⟩
  | @begin drainer hidle =>
    refine h.drainer drainer (within_clearWord h.within _ _) rfl ?_ ?_ ?_ ?_
    · intro other hne
      exact ⟨Function.update_of_ne hne _ _, Function.update_of_ne hne _ _⟩
    · intro turns cursor hrunning
      simp only [World.begin, World.take, World.setDrainer, Function.update_self] at hrunning ⊢
      cases hrunning
      exact ⟨_, tour_root (h.within _ _), turnsLeft_root hpos _⟩
    · simp only [World.begin, World.take, World.setDrainer, Function.update_self]
      exact List.Pairwise.nil
    · intro assertion
      simp only [World.begin, World.take, World.setDrainer, Function.update_self]
      exact Drainer.noConfusion
  | @finish drainer turns cursor hrunning =>
    refine h.drainer drainer h.within rfl ?_ ?_ (h.ascending drainer) ?_
    · exact fun other hne ↦ ⟨Function.update_of_ne hne _ _, rfl⟩
    · intro turns cursor hrunning
      simp only [World.setDrainer, Function.update_self, reduceCtorEq] at hrunning
    · intro assertion
      simp only [World.setDrainer, Function.update_self]
      exact Drainer.noConfusion
  | @climb drainer turns cursor hrunning hnone hroot =>
    obtain ⟨frontier, htour, hturns⟩ := h.touring drainer _ cursor hrunning
    refine h.drainer drainer h.within rfl ?_ ?_ (h.ascending drainer) ?_
    · exact fun other hne ↦ ⟨Function.update_of_ne hne _ _, rfl⟩
    · intro turns' cursor' hrunning'
      simp only [World.setDrainer, Function.update_self, Drainer.running.injEq] at hrunning'
      obtain ⟨rfl, rfl⟩ := hrunning'
      refine ⟨frontier, htour.climb hnone hroot, ?_⟩
      have hlevel := htour.level_lt
      unfold turnsLeft at hturns ⊢
      dsimp only
      omega
    · intro assertion
      simp only [World.setDrainer, Function.update_self]
      exact Drainer.noConfusion
  | @visit drainer turns bit cursor hrunning hfirst hleaf =>
    obtain ⟨frontier, htour, hturns⟩ := h.touring drainer _ cursor hrunning
    obtain ⟨-, hahead, hcount⟩ := htour.first hfirst
    have hvisit := htour.visit hfirst hleaf
    refine h.drainer drainer h.within rfl ?_ ?_ ?_ ?_
    · exact fun other hne ↦ ⟨Function.update_of_ne hne _ _, Function.update_of_ne hne _ _⟩
    · intro turns' cursor' hrunning'
      simp only [World.visit, World.setDrainer, Function.update_self, Drainer.running.injEq]
        at hrunning' ⊢
      obtain ⟨rfl, rfl⟩ := hrunning'
      refine ⟨_, hvisit, ?_⟩
      have hless := turnsLeft_update htour.level_lt hahead hcount cursor
        (leafCursor cursor bit)
      rw [if_pos hleaf] at hless
      have hsame : (leafCursor cursor bit).level = cursor.level := rfl
      rw [hsame] at hless
      omega
    · simp only [World.visit, World.setDrainer, Function.update_self]
      exact hvisit.ascending
    · intro assertion
      simp only [World.visit, World.setDrainer, Function.update_self]
      exact Drainer.noConfusion
  | @descend drainer turns bit cursor hrunning hfirst habove =>
    obtain ⟨frontier, htour, hturns⟩ := h.touring drainer _ cursor hrunning
    obtain ⟨-, hahead, hcount⟩ := htour.first hfirst
    have hdescend := htour.descend hfirst habove (h.within _ _)
    refine h.drainer drainer (within_clearWord h.within _ _) rfl ?_ ?_
      (h.ascending drainer) ?_
    · exact fun other hne ↦ ⟨Function.update_of_ne hne _ _, rfl⟩
    · intro turns' cursor' hrunning'
      simp only [World.take, World.setDrainer, Function.update_self, Drainer.running.injEq]
        at hrunning'
      obtain ⟨rfl, rfl⟩ := hrunning'
      refine ⟨_, hdescend, ?_⟩
      have hless := turnsLeft_update htour.level_lt hahead hcount cursor
        (childCursor cursor bit (world.dirty (cursor.level - 1)
          (cursor.words cursor.level * 64 + bit)))
      rw [if_neg habove] at hless
      have hlower : (childCursor cursor bit (world.dirty (cursor.level - 1)
          (cursor.words cursor.level * 64 + bit))).level = cursor.level - 1 := rfl
      rw [hlower] at hless
      have hlevel := htour.level_lt
      omega
    · intro assertion
      simp only [World.take, World.setDrainer, Function.update_self]
      exact Drainer.noConfusion

end Steps

end DiosPool.Dirty
