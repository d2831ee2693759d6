import Mathlib

/-!
# Positions on a ring

Arithmetic of slots on a ring of `capacity` positions: walking forward from a slot, and how far
one slot lies ahead of another. Reading every slot through its distance from one chosen base
unrolls the ring into a line.
-/

namespace DiosPool.Foundation.Cyclic

/-- The slot `distance` steps after `slot`. -/
def walk (capacity slot distance : ℕ) : ℕ := (slot + distance) % capacity

/-- How many steps lead from `source` forward to `target`. -/
def ahead (capacity source target : ℕ) : ℕ := (target + capacity - source) % capacity

/-- Reduction of a number that passed the end of the ring at most once. -/
theorem mod_of_lt_two_mul {capacity value : ℕ} (h : value < 2 * capacity) :
    value % capacity = if value < capacity then value else value - capacity := by
  split
  case isTrue hlt => exact Nat.mod_eq_of_lt hlt
  case isFalse hle =>
    rw [Nat.mod_eq_sub_mod (Nat.le_of_not_lt hle)]
    exact Nat.mod_eq_of_lt (by omega)

variable {capacity : ℕ}

theorem walk_lt (hpos : 0 < capacity) (slot distance : ℕ) :
    walk capacity slot distance < capacity :=
  Nat.mod_lt _ hpos

theorem ahead_lt (hpos : 0 < capacity) (source target : ℕ) :
    ahead capacity source target < capacity :=
  Nat.mod_lt _ hpos

theorem walk_eq {slot distance : ℕ} (hslot : slot < capacity) (hdistance : distance ≤ capacity) :
    walk capacity slot distance =
      if slot + distance < capacity then slot + distance else slot + distance - capacity :=
  mod_of_lt_two_mul (by omega)

theorem ahead_eq {source target : ℕ} (hsource : source < capacity) (htarget : target < capacity) :
    ahead capacity source target =
      if source ≤ target then target - source else target + capacity - source := by
  rw [ahead, mod_of_lt_two_mul (by omega)]
  split <;> split <;> omega

theorem walk_walk (slot first second : ℕ) :
    walk capacity (walk capacity slot first) second = walk capacity slot (first + second) := by
  simp [walk, Nat.add_assoc]

@[simp] theorem walk_zero {slot : ℕ} (hslot : slot < capacity) : walk capacity slot 0 = slot :=
  Nat.mod_eq_of_lt hslot

theorem walk_mod (slot distance : ℕ) :
    walk capacity slot (distance % capacity) = walk capacity slot distance := by
  simp [walk]

theorem walk_ahead {source target : ℕ} (hsource : source < capacity) (htarget : target < capacity) :
    walk capacity source (ahead capacity source target) = target := by
  have hlt := ahead_lt (Nat.zero_lt_of_lt hsource) source target
  rw [walk_eq hsource (Nat.le_of_lt hlt), ahead_eq hsource htarget]
  split <;> split <;> omega

theorem ahead_walk {source distance : ℕ} (hsource : source < capacity)
    (hdistance : distance < capacity) :
    ahead capacity source (walk capacity source distance) = distance := by
  have hpos := Nat.zero_lt_of_lt hsource
  rw [ahead_eq hsource (walk_lt hpos _ _), walk_eq hsource (Nat.le_of_lt hdistance)]
  split <;> split <;> omega

theorem walk_injective {source first second : ℕ} (hsource : source < capacity)
    (hfirst : first < capacity) (hsecond : second < capacity)
    (h : walk capacity source first = walk capacity source second) : first = second := by
  rw [← ahead_walk hsource hfirst, h, ahead_walk hsource hsecond]

theorem ahead_injective {base first second : ℕ} (hbase : base < capacity)
    (hfirst : first < capacity) (hsecond : second < capacity)
    (h : ahead capacity base first = ahead capacity base second) : first = second := by
  rw [← walk_ahead hbase hfirst, h, walk_ahead hbase hsecond]

/-- On the line that starts at `base`, going forward without passing its end is subtraction. -/
theorem ahead_of_line_le {base source target : ℕ} (hbase : base < capacity)
    (hsource : source < capacity) (htarget : target < capacity)
    (h : ahead capacity base source ≤ ahead capacity base target) :
    ahead capacity source target = ahead capacity base target - ahead capacity base source := by
  rw [ahead_eq hbase hsource, ahead_eq hbase htarget] at *
  rw [ahead_eq hsource htarget]
  split <;> split at h <;> split at h <;> split <;> omega

/-- On the line that starts at `base`, going back passes the end of the line once. -/
theorem ahead_of_line_gt {base source target : ℕ} (hbase : base < capacity)
    (hsource : source < capacity) (htarget : target < capacity)
    (h : ahead capacity base target < ahead capacity base source) :
    ahead capacity source target =
      ahead capacity base target + capacity - ahead capacity base source := by
  rw [ahead_eq hbase hsource, ahead_eq hbase htarget] at *
  rw [ahead_eq hsource htarget]
  split <;> split at h <;> split at h <;> split <;> omega

/-- A stretch of the ring that does not pass `cut` is a stretch of the line that starts right
after it. -/
theorem line_le_of_ahead_le {source target cut : ℕ} (hsource : source < capacity)
    (htarget : target < capacity) (hcut : cut < capacity)
    (h : ahead capacity source target ≤ ahead capacity source cut) :
    ahead capacity (walk capacity cut 1) source ≤ ahead capacity (walk capacity cut 1) target := by
  have hpos := Nat.zero_lt_of_lt hsource
  have hwalk := walk_lt hpos cut 1
  rw [ahead_eq hsource htarget, ahead_eq hsource hcut] at h
  rw [ahead_eq hwalk hsource, ahead_eq hwalk htarget, walk_eq hcut (by omega)] at *
  split at h <;> split at h <;> split <;> split <;> split <;> omega

end DiosPool.Foundation.Cyclic
