import DiosPool.Foundation.Cyclic

/-!
# Linear probing with backward-shift deletion

A table of `capacity` slots holds each key at or after its home slot, with no vacant slot in
between. No load bound is assumed: the table may be completely full. A full ring has no vacant
slot to bound the probe chains, so the invariant carries a base slot from which the ring unrolls
into a line that no chain leaves. Deletion then works on that line, and the part of the backward
shift that runs past its end moves nothing.
-/

namespace DiosPool.Foundation

open Cyclic

/-- The geometry of a probed table: how many slots there are and where each key starts. -/
structure Probing (κ : Type) where
  capacity : ℕ
  capacity_pos : 0 < capacity
  home : κ → ℕ
  home_lt : ∀ key, home key < capacity

namespace Probing

variable {κ ω : Type} (P : Probing κ) {slots : ℕ → Option (κ × ω)} {map : κ → Option ω}

/-- The slot that the probe for `key` visits after `distance` steps. -/
def slotAt (key : κ) (distance : ℕ) : ℕ := walk P.capacity (P.home key) distance

/-- The slots hold exactly the entries of `map`, each reachable from its home slot. -/
structure Represents (slots : ℕ → Option (κ × ω)) (map : κ → Option ω) : Prop where
  agrees : ∀ key value, map key = some value ↔ ∃ i < P.capacity, slots i = some (key, value)
  unique : ∀ i j key v w, i < P.capacity → j < P.capacity →
    slots i = some (key, v) → slots j = some (key, w) → i = j
  chain : ∀ i key value, i < P.capacity → slots i = some (key, value) →
    ∀ distance < ahead P.capacity (P.home key) i, (slots (P.slotAt key distance)).isSome
  line : ∃ base < P.capacity, ∀ i key value, i < P.capacity → slots i = some (key, value) →
    ahead P.capacity base (P.home key) ≤ ahead P.capacity base i

theorem slotAt_lt (key : κ) (distance : ℕ) : P.slotAt key distance < P.capacity :=
  walk_lt P.capacity_pos _ _

theorem slotAt_zero (key : κ) : P.slotAt key 0 = P.home key :=
  walk_zero (P.home_lt key)

theorem slotAt_succ (key : κ) (distance : ℕ) :
    walk P.capacity (P.slotAt key distance) 1 = P.slotAt key (distance + 1) :=
  walk_walk _ _ _

theorem slotAt_ahead (key : κ) {i : ℕ} (hi : i < P.capacity) :
    P.slotAt key (ahead P.capacity (P.home key) i) = i :=
  walk_ahead (P.home_lt key) hi

theorem slotAt_eq_walk {base : ℕ} (hbase : base < P.capacity) (key : κ) (distance : ℕ) :
    P.slotAt key distance =
      walk P.capacity base (ahead P.capacity base (P.home key) + distance) := by
  rw [← walk_walk, walk_ahead hbase (P.home_lt key)]
  rfl

theorem represents_empty :
    P.Represents (fun _ ↦ (none : Option (κ × ω))) (fun _ ↦ none) where
  agrees := by simp
  unique := by simp
  chain := by simp
  line := ⟨0, P.capacity_pos, by simp⟩

namespace Represents

variable {P} (h : P.Represents slots map)

include h

/-- The probe for a present key passes only other keys before it meets its own entry. -/
theorem probe_hit {key : κ} {value : ω} (hkey : map key = some value) :
    ∃ distance < P.capacity, slots (P.slotAt key distance) = some (key, value) ∧
      ∀ j < distance, ∃ other, slots (P.slotAt key j) = some other ∧ other.1 ≠ key := by
  obtain ⟨i, hi, hslot⟩ := (h.agrees key value).mp hkey
  refine ⟨ahead P.capacity (P.home key) i, ahead_lt P.capacity_pos _ _, ?_, fun j hj ↦ ?_⟩
  · rw [P.slotAt_ahead key hi, hslot]
  · obtain ⟨other, hother⟩ := Option.isSome_iff_exists.mp (h.chain i key value hi hslot j hj)
    refine ⟨other, hother, fun heq ↦ ?_⟩
    subst heq
    have hlt : j < P.capacity := hj.trans (ahead_lt P.capacity_pos _ _)
    have hsame := h.unique _ i other.1 other.2 value (P.slotAt_lt _ _) hi hother hslot
    rw [← hsame, slotAt, ahead_walk (P.home_lt _) hlt] at hj
    exact Nat.lt_irrefl _ hj

/-- The probe for an absent key never meets it. -/
theorem probe_miss {key : κ} (hkey : map key = none) {i : ℕ} (hi : i < P.capacity)
    {other : κ × ω} (hslot : slots i = some other) : other.1 ≠ key := by
  rintro rfl
  have := (h.agrees other.1 other.2).mpr ⟨i, hi, hslot⟩
  rw [hkey] at this
  cases this

/-- A vacant slot lies beyond every probe chain, seen from that chain's home. -/
theorem ahead_lt_of_vacant {vacant : ℕ} (hvacant : vacant < P.capacity)
    (hnone : slots vacant = none) {i : ℕ} {key : κ} {value : ω} (hi : i < P.capacity)
    (hslot : slots i = some (key, value)) :
    ahead P.capacity (P.home key) i < ahead P.capacity (P.home key) vacant := by
  by_contra hle
  rcases Nat.lt_or_eq_of_le (Nat.le_of_not_lt hle) with hlt | heq
  · have hsome := h.chain i key value hi hslot _ hlt
    rw [P.slotAt_ahead key hvacant, hnone] at hsome
    cases hsome
  · have hsame := ahead_injective (P.home_lt key) hvacant hi heq
    rw [hsame, hslot] at hnone
    cases hnone

variable [DecidableEq κ]

/-- Overwriting the value of a present key. -/
theorem update_value {key : κ} {old : ω} (new : ω) {i : ℕ} (hi : i < P.capacity)
    (hslot : slots i = some (key, old)) :
    P.Represents (Function.update slots i (some (key, new)))
      (Function.update map key (some new)) := by
  have hkeys : ∀ j k v, Function.update slots i (some (key, new)) j = some (k, v) →
      ∃ w, slots j = some (k, w) := by
    intro j k v hj
    by_cases hji : j = i
    · subst hji
      rw [Function.update_self] at hj
      obtain ⟨rfl, -⟩ := Prod.mk.inj (Option.some.inj hj)
      exact ⟨old, hslot⟩
    · rw [Function.update_of_ne hji] at hj
      exact ⟨v, hj⟩
  constructor
  · intro k v
    by_cases hk : k = key
    · subst hk
      rw [Function.update_self]
      constructor
      · intro hv
        exact ⟨i, hi, by rw [Function.update_self, Option.some.inj hv]⟩
      · rintro ⟨j, hj, hjv⟩
        obtain ⟨w, hw⟩ := hkeys j k v hjv
        rw [h.unique j i k w old hj hi hw hslot, Function.update_self] at hjv
        rw [(Prod.mk.inj (Option.some.inj hjv)).2]
    · rw [Function.update_of_ne hk, h.agrees]
      refine exists_congr fun j ↦ and_congr_right fun _ ↦ ?_
      by_cases hji : j = i
      · subst hji
        rw [Function.update_self, hslot]
        simp [Ne.symm hk]
      · rw [Function.update_of_ne hji]
  · intro j j' k v w hj hj' hv hw
    obtain ⟨v', hv'⟩ := hkeys j k v hv
    obtain ⟨w', hw'⟩ := hkeys j' k w hw
    exact h.unique j j' k v' w' hj hj' hv' hw'
  · intro j k v hj hv distance hdistance
    obtain ⟨v', hv'⟩ := hkeys j k v hv
    have hchain := h.chain j k v' hj hv' distance hdistance
    by_cases hi' : P.slotAt k distance = i
    · simp [hi']
    · rwa [Function.update_of_ne hi']
  · obtain ⟨base, hbase, hline⟩ := h.line
    refine ⟨base, hbase, fun j k v hj hv ↦ ?_⟩
    obtain ⟨v', hv'⟩ := hkeys j k v hv
    exact hline j k v' hj hv'

/-- Storing a new key in the first vacant slot of its probe. The slot just filled becomes the end
of the line, which keeps the invariant when it was the last vacant one. -/
theorem insert_new {key : κ} (value : ω) (hkey : map key = none) {distance : ℕ}
    (hdistance : distance < P.capacity) (hvacant : slots (P.slotAt key distance) = none)
    (hpassed : ∀ j < distance, (slots (P.slotAt key j)).isSome) :
    P.Represents (Function.update slots (P.slotAt key distance) (some (key, value)))
      (Function.update map key (some value)) := by
  have hfilled : P.slotAt key distance < P.capacity := P.slotAt_lt _ _
  have hother : ∀ j k v, j ≠ P.slotAt key distance →
      (Function.update slots (P.slotAt key distance) (some (key, value)) j = some (k, v) ↔
        slots j = some (k, v)) := fun j k v hj ↦ by rw [Function.update_of_ne hj]
  constructor
  · intro k v
    by_cases hk : k = key
    · subst hk
      rw [Function.update_self]
      constructor
      · intro hv
        exact ⟨_, hfilled, by rw [Function.update_self, Option.some.inj hv]⟩
      · rintro ⟨j, hj, hjv⟩
        by_cases hji : j = P.slotAt k distance
        · rw [hji, Function.update_self] at hjv
          rw [(Prod.mk.inj (Option.some.inj hjv)).2]
        · exact absurd rfl (h.probe_miss hkey hj ((hother j k v hji).mp hjv))
    · rw [Function.update_of_ne hk, h.agrees]
      refine exists_congr fun j ↦ and_congr_right fun _ ↦ ?_
      by_cases hji : j = P.slotAt key distance
      · rw [hji, Function.update_self, hvacant]
        simp [Ne.symm hk]
      · exact (hother j k v hji).symm
  · intro j j' k v w hj hj' hv hw
    by_cases hji : j = P.slotAt key distance <;> by_cases hji' : j' = P.slotAt key distance
    · rw [hji, hji']
    · rw [hji, Function.update_self] at hv
      rw [hother _ _ _ hji'] at hw
      exact absurd (Prod.mk.inj (Option.some.inj hv)).1.symm (h.probe_miss hkey hj' hw)
    · rw [hji', Function.update_self] at hw
      rw [hother _ _ _ hji] at hv
      exact absurd (Prod.mk.inj (Option.some.inj hw)).1.symm (h.probe_miss hkey hj hv)
    · rw [hother _ _ _ hji] at hv
      rw [hother _ _ _ hji'] at hw
      exact h.unique j j' k v w hj hj' hv hw
  · intro j k v hj hv d hd
    by_cases hsame : P.slotAt k d = P.slotAt key distance
    · simp [hsame]
    · rw [Function.update_of_ne hsame]
      by_cases hji : j = P.slotAt key distance
      · rw [hji, Function.update_self] at hv
        obtain ⟨rfl, -⟩ := Prod.mk.inj (Option.some.inj hv)
        rw [hji, slotAt, ahead_walk (P.home_lt _) hdistance] at hd
        exact hpassed d hd
      · exact h.chain j k v hj ((hother _ _ _ hji).mp hv) d hd
  · refine ⟨walk P.capacity (P.slotAt key distance) 1, walk_lt P.capacity_pos _ _,
      fun j k v hj hv ↦ line_le_of_ahead_le (P.home_lt k) hj hfilled ?_⟩
    by_cases hji : j = P.slotAt key distance
    · rw [hji]
    · exact Nat.le_of_lt
        (h.ahead_lt_of_vacant hfilled hvacant hj ((hother _ _ _ hji).mp hv))

end Represents

/-- The state of a backward shift, on the line that starts at `base`. Line position `gap` is vacant
and positions up to `scan` have been examined: none of their chains still passes the gap. -/
structure Shifting (base gap scan : ℕ) (slots : ℕ → Option (κ × ω)) (map : κ → Option ω) :
    Prop where
  base_lt : base < P.capacity
  gap_lt : gap < scan
  scan_le : scan ≤ P.capacity
  vacant : slots (walk P.capacity base gap) = none
  examined : ∀ y, gap < y → y < scan → ∃ key value,
    slots (walk P.capacity base y) = some (key, value) ∧
      gap < ahead P.capacity base (P.home key)
  onLine : ∀ y key value, y < P.capacity → slots (walk P.capacity base y) = some (key, value) →
    ahead P.capacity base (P.home key) ≤ y
  chain : ∀ y key value, y < P.capacity → slots (walk P.capacity base y) = some (key, value) →
    ∀ z, ahead P.capacity base (P.home key) ≤ z → z < y → z ≠ gap →
      (slots (walk P.capacity base z)).isSome
  unique : ∀ y z key v w, y < P.capacity → z < P.capacity →
    slots (walk P.capacity base y) = some (key, v) →
    slots (walk P.capacity base z) = some (key, w) → y = z
  agrees : ∀ key value, map key = some value ↔
    ∃ y < P.capacity, slots (walk P.capacity base y) = some (key, value)

/-- The test a backward shift makes before it moves the entry at `scan` into the gap. -/
def Fills (home gap scan : ℕ) : Prop :=
  ahead P.capacity gap home = 0 ∨ ahead P.capacity gap scan < ahead P.capacity gap home

variable {P} in
/-- Clearing the slot of a key opens a gap, and the shift starts right after it. -/
theorem Represents.clear [DecidableEq κ] (h : P.Represents slots map) {key : κ} {value : ω}
    {i : ℕ} (hi : i < P.capacity) (hslot : slots i = some (key, value)) :
    ∃ base gap, walk P.capacity base gap = i ∧
      P.Shifting base gap (gap + 1) (Function.update slots i none)
        (Function.update map key none) := by
  obtain ⟨base, hbase, hline⟩ := h.line
  have hcap := P.capacity_pos
  have hgap := walk_ahead hbase hi
  have hlt := ahead_lt hcap base i
  have hkept : ∀ y k v, Function.update slots i none (walk P.capacity base y) = some (k, v) →
      walk P.capacity base y ≠ i ∧ slots (walk P.capacity base y) = some (k, v) := by
    intro y k v hy
    by_cases hyi : walk P.capacity base y = i
    · rw [hyi, Function.update_self] at hy
      cases hy
    · exact ⟨hyi, by rwa [Function.update_of_ne hyi] at hy⟩
  have hhome : ∀ y k v, y < P.capacity →
      Function.update slots i none (walk P.capacity base y) = some (k, v) →
      ahead P.capacity base (P.home k) ≤ y := by
    intro y k v hyc hy
    have hle := hline _ k v (walk_lt hcap _ _) (hkept y k v hy).2
    rwa [ahead_walk hbase hyc] at hle
  refine ⟨base, ahead P.capacity base i, hgap, ?_⟩
  constructor
  case base_lt => exact hbase
  case gap_lt => omega
  case scan_le => omega
  case vacant => rw [hgap, Function.update_self]
  case examined => intro y h1 h2; omega
  case onLine => exact hhome
  case chain =>
    intro y k v hyc hy z hhz hzy hzgap
    have hpos := hline _ k v (walk_lt hcap base y) (hkept y k v hy).2
    have hdist := ahead_of_line_le hbase (P.home_lt k) (walk_lt hcap base y) hpos
    rw [ahead_walk hbase hyc] at hdist
    have hchain := h.chain _ k v (walk_lt hcap base y) (hkept y k v hy).2
      (z - ahead P.capacity base (P.home k)) (by omega)
    rw [P.slotAt_eq_walk hbase, Nat.add_sub_cancel' hhz] at hchain
    have hne : walk P.capacity base z ≠ i := by
      rintro rfl
      exact hzgap (ahead_walk hbase (by omega)).symm
    rwa [Function.update_of_ne hne]
  case unique =>
    intro y z k v w hyc hzc hy hz
    have hsame := h.unique _ _ k v w (walk_lt hcap base y) (walk_lt hcap base z)
      (hkept y k v hy).2 (hkept z k w hz).2
    exact walk_injective hbase hyc hzc hsame
  case agrees =>
    intro k v
    by_cases hk : k = key
    · subst hk
      rw [Function.update_self]
      refine ⟨by simp, ?_⟩
      rintro ⟨y, hyc, hy⟩
      obtain ⟨hne, hy⟩ := hkept y k v hy
      exact absurd (h.unique _ _ k v value (walk_lt hcap base y) hi hy hslot) hne
    · rw [Function.update_of_ne hk, h.agrees]
      constructor
      · rintro ⟨j, hj, hjv⟩
        refine ⟨ahead P.capacity base j, ahead_lt hcap _ _, ?_⟩
        rw [walk_ahead hbase hj, Function.update_of_ne, hjv]
        rintro rfl
        rw [hjv] at hslot
        exact hk (Prod.mk.inj (Option.some.inj hslot)).1
      · rintro ⟨y, -, hy⟩
        exact ⟨_, walk_lt hcap base y, (hkept y k v hy).2⟩

namespace Shifting

variable {P} {base gap scan : ℕ} (h : P.Shifting base gap scan slots map)

include h

/-- Before the end of the line, the test holds exactly for the entries whose chain passes the
gap. -/
theorem fills_iff {key : κ} {value : ω} (hscan : scan < P.capacity)
    (hslot : slots (walk P.capacity base scan) = some (key, value)) :
    P.Fills (P.home key) (walk P.capacity base gap) (walk P.capacity base scan) ↔
      ahead P.capacity base (P.home key) ≤ gap := by
  have hcap := P.capacity_pos
  have hbase := h.base_lt
  have hgs := h.gap_lt
  have hgap : ahead P.capacity base (walk P.capacity base gap) = gap :=
    ahead_walk hbase (by omega)
  have hsc : ahead P.capacity base (walk P.capacity base scan) = scan := ahead_walk hbase hscan
  have hscanGap := ahead_of_line_le hbase (walk_lt hcap base gap) (walk_lt hcap base scan)
    (by omega)
  have hhome := h.onLine scan key value hscan hslot
  have hhlt := ahead_lt hcap base (P.home key)
  rw [Fills, hscanGap, hgap, hsc]
  rcases Nat.lt_or_ge (ahead P.capacity base (P.home key)) gap with hlt | hge
  · rw [ahead_of_line_gt hbase (walk_lt hcap base gap) (P.home_lt key) (by omega), hgap]
    omega
  · rw [ahead_of_line_le hbase (walk_lt hcap base gap) (P.home_lt key) (by omega), hgap]
    omega

/-- Once the whole line is examined, the test fails everywhere: the wrapped part of the shift
moves nothing. -/
theorem not_fills_of_wrapped (hend : scan = P.capacity) {y : ℕ} (hy : y < P.capacity) {key : κ}
    {value : ω} (hslot : slots (walk P.capacity base y) = some (key, value)) :
    ¬ P.Fills (P.home key) (walk P.capacity base gap) (walk P.capacity base y) := by
  have hcap := P.capacity_pos
  have hbase := h.base_lt
  have hgs := h.gap_lt
  have hgap : ahead P.capacity base (walk P.capacity base gap) = gap :=
    ahead_walk hbase (by omega)
  have hya : ahead P.capacity base (walk P.capacity base y) = y := ahead_walk hbase hy
  have hhome := h.onLine y key value hy hslot
  have hne : y ≠ gap := by
    rintro rfl
    rw [h.vacant] at hslot
    cases hslot
  rw [Fills]
  rcases Nat.lt_or_ge y gap with hlt | hge
  · rw [ahead_of_line_gt hbase (walk_lt hcap base gap) (walk_lt hcap base y) (by omega),
      ahead_of_line_gt hbase (walk_lt hcap base gap) (P.home_lt key) (by omega), hgap, hya]
    omega
  · obtain ⟨k, v, hk, hgk⟩ := h.examined y (by omega) (by omega)
    rw [hslot] at hk
    obtain ⟨rfl, -⟩ := Prod.mk.inj (Option.some.inj hk)
    rw [ahead_of_line_le hbase (walk_lt hcap base gap) (walk_lt hcap base y) (by omega),
      ahead_of_line_le hbase (walk_lt hcap base gap) (P.home_lt key) (by omega), hgap, hya]
    omega

/-- An entry whose chain starts after the gap stays where it is. -/
theorem keep {key : κ} {value : ω} (hscan : scan < P.capacity)
    (hslot : slots (walk P.capacity base scan) = some (key, value))
    (hhome : gap < ahead P.capacity base (P.home key)) :
    P.Shifting base gap (scan + 1) slots map where
  base_lt := h.base_lt
  gap_lt := Nat.lt_succ_of_lt h.gap_lt
  scan_le := hscan
  vacant := h.vacant
  examined y hgap hy := by
    rcases Nat.lt_succ_iff_lt_or_eq.mp hy with hlt | rfl
    · exact h.examined y hgap hlt
    · exact ⟨key, value, hslot, hhome⟩
  onLine := h.onLine
  chain := h.chain
  unique := h.unique
  agrees := h.agrees

/-- An entry whose chain passes the gap fills it, and leaves a gap where it was. -/
theorem move {key : κ} {value : ω} (hscan : scan < P.capacity)
    (hslot : slots (walk P.capacity base scan) = some (key, value))
    (hhome : ahead P.capacity base (P.home key) ≤ gap) :
    P.Shifting base scan (scan + 1)
      (Function.update (Function.update slots (walk P.capacity base gap) (some (key, value)))
        (walk P.capacity base scan) none) map := by
  have hbase := h.base_lt
  have hgs := h.gap_lt
  have happly : ∀ y < P.capacity,
      Function.update (Function.update slots (walk P.capacity base gap) (some (key, value)))
        (walk P.capacity base scan) none (walk P.capacity base y) =
      if y = scan then none else if y = gap then some (key, value)
        else slots (walk P.capacity base y) := by
    intro y hy
    have hinj : ∀ z < P.capacity, y ≠ z → walk P.capacity base y ≠ walk P.capacity base z :=
      fun z hz hne heq ↦ hne (walk_injective hbase hy hz heq)
    split
    case isTrue heq => rw [heq, Function.update_self]
    case isFalse hne =>
      rw [Function.update_of_ne (hinj scan hscan hne)]
      split
      case isTrue heq => rw [heq, Function.update_self]
      case isFalse hne' => rw [Function.update_of_ne (hinj gap (by omega) hne')]
  -- every entry after the move stood before it somewhere at or after its new place
  have hfrom : ∀ y k v, y < P.capacity →
      Function.update (Function.update slots (walk P.capacity base gap) (some (key, value)))
        (walk P.capacity base scan) none (walk P.capacity base y) = some (k, v) →
      (y = gap ∧ k = key ∧ v = value) ∨
        (y ≠ scan ∧ y ≠ gap ∧ slots (walk P.capacity base y) = some (k, v)) := by
    intro y k v hy hyv
    rw [happly y hy] at hyv
    split at hyv
    case isTrue => cases hyv
    case isFalse hne =>
      split at hyv
      case isTrue heq =>
        obtain ⟨rfl, rfl⟩ := Prod.mk.inj (Option.some.inj hyv)
        exact Or.inl ⟨heq, rfl, rfl⟩
      case isFalse hne' => exact Or.inr ⟨hne, hne', hyv⟩
  constructor
  case base_lt => exact hbase
  case gap_lt => omega
  case scan_le => omega
  case vacant => rw [Function.update_self]
  case examined => intro y h1 h2; omega
  case onLine =>
    intro y k v hy hyv
    rcases hfrom y k v hy hyv with ⟨rfl, rfl, rfl⟩ | ⟨-, -, hold⟩
    · exact hhome
    · exact h.onLine y k v hy hold
  case chain =>
    intro y k v hy hyv z hhz hzy hzscan
    rw [happly z (by omega), if_neg hzscan]
    split
    case isTrue => rfl
    case isFalse hzgap =>
      rcases hfrom y k v hy hyv with ⟨rfl, rfl, rfl⟩ | ⟨-, -, hold⟩
      · exact h.chain scan k v hscan hslot z hhz (by omega) hzgap
      · exact h.chain y k v hy hold z hhz hzy hzgap
  case unique =>
    intro y z k v w hy hz hyv hzw
    rcases hfrom y k v hy hyv with ⟨rfl, rfl, rfl⟩ | ⟨hys, -, hold⟩ <;>
      rcases hfrom z k w hz hzw with ⟨rfl, hk, rfl⟩ | ⟨hzs, -, hold'⟩
    · rfl
    · exact absurd (h.unique z scan _ _ _ hz hscan hold' hslot) hzs
    · subst hk
      exact absurd (h.unique y scan _ _ _ hy hscan hold hslot) hys
    · exact h.unique y z k v w hy hz hold hold'
  case agrees =>
    intro k v
    rw [h.agrees]
    constructor
    · rintro ⟨y, hy, hyv⟩
      by_cases hys : y = scan
      · subst hys
        rw [hslot] at hyv
        obtain ⟨rfl, rfl⟩ := Prod.mk.inj (Option.some.inj hyv)
        refine ⟨gap, by omega, ?_⟩
        rw [happly gap (by omega), if_neg (by omega), if_pos rfl]
      · refine ⟨y, hy, ?_⟩
        have hyg : y ≠ gap := by
          rintro rfl
          rw [h.vacant] at hyv
          cases hyv
        rw [happly y hy, if_neg hys, if_neg hyg, hyv]
    · rintro ⟨y, hy, hyv⟩
      rcases hfrom y k v hy hyv with ⟨-, rfl, rfl⟩ | ⟨-, -, hold⟩
      · exact ⟨scan, hscan, hslot⟩
      · exact ⟨y, hy, hold⟩

/-- When no entry after the gap has a chain passing it, the slots represent the map again. -/
theorem represents_of_clear
    (hclear : ∀ y key value, gap < y → y < P.capacity →
      slots (walk P.capacity base y) = some (key, value) →
      gap < ahead P.capacity base (P.home key)) :
    P.Represents slots map := by
  have hcap := P.capacity_pos
  have hbase := h.base_lt
  have hrow : ∀ i < P.capacity, slots i = slots (walk P.capacity base (ahead P.capacity base i)) :=
    fun i hi ↦ by rw [walk_ahead hbase hi]
  constructor
  case agrees =>
    intro k v
    rw [h.agrees]
    constructor
    · rintro ⟨y, -, hy⟩
      exact ⟨_, walk_lt hcap _ _, hy⟩
    · rintro ⟨i, hi, hv⟩
      exact ⟨_, ahead_lt hcap _ _, by rwa [walk_ahead hbase hi]⟩
  case unique =>
    intro i j k v w hi hj hv hw
    rw [hrow i hi] at hv
    rw [hrow j hj] at hw
    exact ahead_injective hbase hi hj
      (h.unique _ _ k v w (ahead_lt hcap _ _) (ahead_lt hcap _ _) hv hw)
  case chain =>
    intro i k v hi hv d hd
    rw [hrow i hi] at hv
    have hlt := ahead_lt hcap base i
    have hle := h.onLine _ k v hlt hv
    rw [ahead_of_line_le hbase (P.home_lt k) hi hle] at hd
    rw [P.slotAt_eq_walk hbase]
    refine h.chain _ k v hlt hv _ (by omega) (by omega) fun hgap ↦ ?_
    have := hclear _ k v (by omega) hlt hv
    omega
  case line =>
    refine ⟨base, hbase, fun i k v hi hv ↦ ?_⟩
    rw [hrow i hi] at hv
    exact h.onLine _ k v (ahead_lt hcap _ _) hv

/-- The shift stops at a vacant slot. -/
theorem represents_of_vacant (hscan : scan < P.capacity)
    (hvacant : slots (walk P.capacity base scan) = none) : P.Represents slots map := by
  refine h.represents_of_clear fun y key value hgap hy hslot ↦ ?_
  rcases Nat.lt_trichotomy y scan with hlt | rfl | hgt
  · obtain ⟨k, v, hk, hgk⟩ := h.examined y hgap hlt
    rw [hslot] at hk
    obtain ⟨rfl, -⟩ := Prod.mk.inj (Option.some.inj hk)
    exact hgk
  · rw [hvacant] at hslot
    cases hslot
  · have hgs := h.gap_lt
    by_contra hle
    have hsome := h.chain y key value hy hslot scan (by omega) hgt (by omega)
    rw [hvacant] at hsome
    cases hsome

/-- The shift has examined the whole line. -/
theorem represents_of_wrapped (hend : scan = P.capacity) : P.Represents slots map := by
  refine h.represents_of_clear fun y key value hgap hy hslot ↦ ?_
  obtain ⟨k, v, hk, hgk⟩ := h.examined y hgap (hend ▸ hy)
  rw [hslot] at hk
  obtain ⟨rfl, -⟩ := Prod.mk.inj (Option.some.inj hk)
  exact hgk

end Shifting

/-- The number of occupied slots. -/
def occupancy (slots : ℕ → Option (κ × ω)) : ℕ :=
  ((Finset.range P.capacity).filter fun i ↦ (slots i).isSome).card

variable {P} in
/-- The occupied slots are as many as the keys of the represented finite map. -/
theorem Represents.occupancy_eq [DecidableEq κ] {entries : Finmap fun _ : κ ↦ ω}
    (h : P.Represents slots fun key ↦ entries.lookup key) :
    P.occupancy slots = entries.keys.card := by
  have hkey : ∀ i (hi : i ∈ (Finset.range P.capacity).filter fun i ↦ (slots i).isSome),
      ∃ entry, slots i = some entry := fun i hi ↦
    Option.isSome_iff_exists.mp (Finset.mem_filter.mp hi).2
  refine Finset.card_bij (fun i hi ↦ ((slots i).get (Finset.mem_filter.mp hi).2).1) ?_ ?_ ?_
  · intro i hi
    obtain ⟨entry, hentry⟩ := hkey i hi
    have hmap := (h.agrees entry.1 entry.2).mpr
      ⟨i, Finset.mem_range.mp (Finset.mem_filter.mp hi).1, hentry⟩
    simp only [hentry, Option.get_some]
    exact Finmap.mem_keys.mpr (Finmap.mem_of_lookup_eq_some hmap)
  · intro i hi j hj heq
    obtain ⟨entry, hentry⟩ := hkey i hi
    obtain ⟨entry', hentry'⟩ := hkey j hj
    simp only [hentry, hentry', Option.get_some] at heq
    refine h.unique i j entry.1 entry.2 entry'.2
      (Finset.mem_range.mp (Finset.mem_filter.mp hi).1)
      (Finset.mem_range.mp (Finset.mem_filter.mp hj).1) hentry ?_
    rw [hentry', heq]
  · intro key hmem
    obtain ⟨value, hvalue⟩ := Finmap.mem_iff.mp (Finmap.mem_keys.mp hmem)
    obtain ⟨i, hi, hslot⟩ := (h.agrees key value).mp hvalue
    exact ⟨i, Finset.mem_filter.mpr ⟨Finset.mem_range.mpr hi, by rw [hslot]; rfl⟩,
      by simp only [hslot, Option.get_some]⟩

/-- A table is full exactly when no slot is vacant. -/
theorem occupancy_eq_capacity_iff :
    P.occupancy slots = P.capacity ↔ ∀ i < P.capacity, (slots i).isSome := by
  have hcard := Finset.card_filter_eq_iff (s := Finset.range P.capacity)
    (p := fun i ↦ (slots i).isSome = true)
  rw [Finset.card_range] at hcard
  exact hcard.trans (by simp)

end Probing

end DiosPool.Foundation
