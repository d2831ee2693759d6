import Mathlib

/-!
# Distribution by keys

A counting sort distributes the members of a list over buckets by a key. The bucket of a key starts
behind the members with smaller keys, and each member goes to the next free place of its bucket. What
comes out is the list of the buckets, each in the order of the input, so that passes over the digits
of a number sort by the number.
-/

namespace DiosPool.Foundation.CountingSort

variable {α : Type*} (key : α → ℕ)

/-- The members with one key, in their order. -/
def bucket (list : List α) (value : ℕ) : List α := list.filter fun member ↦ key member = value

/-- The members with keys below a bound, bucket after bucket. -/
def distribute (bound : ℕ) (list : List α) : List α :=
  (List.range bound).flatMap (bucket key list)

variable {key} {list : List α} {relation : α → α → Prop}

theorem distribute_succ (bound : ℕ) (list : List α) :
    distribute key (bound + 1) list = distribute key bound list ++ bucket key list bound := by
  simp [distribute, List.range_succ]

theorem mem_bucket {value : ℕ} {member : α} :
    member ∈ bucket key list value ↔ member ∈ list ∧ key member = value := by
  simp [bucket]

theorem key_lt_of_mem_distribute {bound : ℕ} {member : α} (h : member ∈ distribute key bound list) :
    key member < bound := by
  obtain ⟨value, hvalue, hmem⟩ := List.mem_flatMap.mp h
  rw [(mem_bucket.mp hmem).2]
  exact List.mem_range.mp hvalue

/-- A distribution is the part of the list with keys below the bound, in another order. -/
theorem distribute_perm_filter (bound : ℕ) (list : List α) :
    (distribute key bound list).Perm (list.filter fun member ↦ key member < bound) := by
  induction bound with
  | zero => simp [distribute]
  | succ bound ih =>
    have hsplit := List.filter_append_perm (fun member ↦ decide (key member < bound))
      (list.filter fun member ↦ key member < bound + 1)
    rw [distribute_succ]
    refine (ih.append_right _).trans (List.Perm.trans ?_ hsplit)
    rw [List.filter_filter, List.filter_filter, bucket]
    apply List.Perm.append
    · apply List.Perm.of_eq
      apply List.filter_congr
      grind
    · apply List.Perm.of_eq
      apply List.filter_congr
      grind

theorem distribute_perm {bound : ℕ} (h : ∀ member ∈ list, key member < bound) :
    (distribute key bound list).Perm list := by
  have hall : list.filter (fun member ↦ key member < bound) = list := by
    rw [List.filter_eq_self]
    simpa using h
  exact (distribute_perm_filter bound list).trans (.of_eq hall)

theorem length_distribute_le (bound : ℕ) (list : List α) :
    (distribute key bound list).length ≤ list.length :=
  calc (distribute key bound list).length
      = (list.filter fun member ↦ key member < bound).length :=
        (distribute_perm_filter bound list).length_eq
    _ ≤ list.length := List.length_filter_le _ _

/-- A distribution orders by the key, and by the old order where the keys agree. -/
theorem pairwise_distribute (h : list.Pairwise relation) (bound : ℕ) :
    (distribute key bound list).Pairwise fun left right ↦
      key left < key right ∨ key left = key right ∧ relation left right := by
  induction bound with
  | zero => simp [distribute]
  | succ bound ih =>
    rw [distribute_succ, List.pairwise_append]
    refine ⟨ih, ?_, fun left hleft right hright ↦ .inl ?_⟩
    · refine (h.filter _).imp_of_mem fun {left right} hleft hright hrelation ↦ .inr ⟨?_, hrelation⟩
      exact (mem_bucket.mp hleft).2.trans (mem_bucket.mp hright).2.symm
    · rw [(mem_bucket.mp hright).2]
      exact key_lt_of_mem_distribute hleft

/-! ## The passes of a radix sort -/

/-- Passes over the digits of a number, the lowest first, order by the number. -/
theorem pairwise_digits {base : ℕ} (hbase : 0 < base) (number : α → ℕ) (digit : ℕ → α → ℕ)
    (list : List α)
    (hdigit : ∀ place, ∀ member, digit place member = number member / base ^ place % base)
    (places : ℕ) :
    ((List.range places).foldl (fun list place ↦ distribute (digit place) base list) list).Pairwise
      fun left right ↦ number left % base ^ places ≤ number right % base ^ places := by
  induction places with
  | zero => exact List.pairwise_of_forall fun left right ↦ by simp [Nat.mod_one]
  | succ places ih =>
    rw [List.range_succ, List.foldl_append]
    refine (pairwise_distribute ih base).imp fun {left right} h ↦ ?_
    rw [hdigit, hdigit] at h
    rw [Nat.mod_pow_succ, Nat.mod_pow_succ]
    rcases h with hlt | ⟨heq, hle⟩
    · have hleft : number left % base ^ places < base ^ places := Nat.mod_lt _ (Nat.pow_pos hbase)
      calc number left % base ^ places + base ^ places * (number left / base ^ places % base)
          ≤ base ^ places * (number left / base ^ places % base + 1) := by
            rw [Nat.mul_add, Nat.mul_one]
            omega
        _ ≤ base ^ places * (number right / base ^ places % base) := Nat.mul_le_mul_left _ hlt
        _ ≤ _ := Nat.le_add_left _ _
    · rw [heq]
      exact Nat.add_le_add_right hle _

theorem perm_digits {base : ℕ} (digit : ℕ → α → ℕ) (hdigit : ∀ place member, digit place member < base)
    (places : ℕ) (list : List α) :
    ((List.range places).foldl (fun list place ↦ distribute (digit place) base list) list).Perm
      list := by
  induction places with
  | zero => rfl
  | succ places ih =>
    rw [List.range_succ, List.foldl_append]
    exact (distribute_perm fun member _ ↦ hdigit places member).trans ih

/-! ## The loops of a pass -/

/-- An array holds a list from an offset on. -/
def Holds (array : ℕ → Option α) (offset : ℕ) (list : List α) : Prop :=
  ∀ place < list.length, array (offset + place) = list[place]?

theorem Holds.append {array : ℕ → Option α} {offset : ℕ} {front rest : List α}
    (hfront : Holds array offset front) (hrest : Holds array (offset + front.length) rest) :
    Holds array offset (front ++ rest) := by
  intro place hplace
  rw [List.getElem?_append]
  split
  case isTrue hlt => exact hfront place hlt
  case isFalse hle =>
    rw [List.length_append] at hplace
    have hshift := hrest (place - front.length) (by omega)
    rwa [Nat.add_assoc, Nat.add_sub_cancel' (Nat.le_of_not_lt hle)] at hshift

/-- Where the bucket of a key starts. -/
def start (key : α → ℕ) (list : List α) (value : ℕ) : ℕ := (distribute key value list).length

theorem start_succ (key : α → ℕ) (list : List α) (value : ℕ) :
    start key list (value + 1) = start key list value + (bucket key list value).length := by
  rw [start, distribute_succ, List.length_append]
  rfl

theorem start_mono (key : α → ℕ) (list : List α) {value value' : ℕ} (h : value ≤ value') :
    start key list value ≤ start key list value' := by
  induction h with
  | refl => exact le_rfl
  | step _ ih => exact ih.trans (start_succ key list _ ▸ Nat.le_add_right _ _)

/-- What the counting loop leaves in the counters. -/
theorem count_foldl (key : α → ℕ) (list : List α) (counts : ℕ → ℕ) (value : ℕ) :
    list.foldl (fun counts member ↦ Function.update counts (key member) (counts (key member) + 1))
      counts value = counts value + (bucket key list value).length := by
  induction list generalizing counts with
  | nil => rfl
  | cons member list ih =>
    rw [List.foldl_cons, ih]
    by_cases hkey : key member = value
    · subst hkey
      rw [Function.update_self, bucket, bucket, List.filter_cons_of_pos (by simp), List.length_cons]
      omega
    · rw [Function.update_of_ne (Ne.symm hkey), bucket, bucket,
        List.filter_cons_of_neg (by simpa using hkey)]

/-- The summing loop turns the counters into the starts of the buckets. -/
theorem offsets_foldl {counts : ℕ → ℕ} (hcounts : ∀ value, counts value = (bucket key list value).length)
    (bound : ℕ) :
    (List.range bound).foldl (fun (state : (ℕ → ℕ) × ℕ) value ↦
        (Function.update state.1 value state.2, state.2 + state.1 value)) (counts, 0) =
      (fun value ↦ if value < bound then start key list value else counts value,
        start key list bound) := by
  induction bound with
  | zero => simp [start, distribute]
  | succ bound ih =>
    rw [List.range_succ, List.foldl_append, ih, List.foldl_cons, List.foldl_nil, Prod.mk.injEq]
    constructor
    · funext value
      rw [Function.update_apply]
      grind
    · dsimp only
      rw [start_succ, if_neg (Nat.lt_irrefl bound), hcounts]

/-- The distributing loop after the members `done` of a list: the places of their buckets are filled,
and the counters are behind them. -/
structure Scattered (key : α → ℕ) (list done : List α) (old array : ℕ → Option α)
    (counts : ℕ → ℕ) (bound : ℕ) : Prop where
  counts : ∀ value < bound, counts value = start key list value + (bucket key done value).length
  holds : ∀ value < bound, Holds array (start key list value) (bucket key done value)
  rest : ∀ place, list.length ≤ place → array place = old place

namespace Scattered

variable {done rest : List α} {member : α} {old array : ℕ → Option α} {counts : ℕ → ℕ} {bound : ℕ}

theorem length_bucket_lt (key : α → ℕ) (h : done ++ member :: rest = list) :
    (bucket key done (key member)).length < (bucket key list (key member)).length := by
  rw [← h, bucket, bucket, List.filter_append, List.filter_cons, List.length_append]
  simp

theorem length_bucket_le (key : α → ℕ) (h : done ++ rest = list) (value : ℕ) :
    (bucket key done value).length ≤ (bucket key list value).length := by
  rw [← h, bucket, bucket, List.filter_append, List.length_append]
  exact Nat.le_add_right _ _

/-- The next place is inside the array that holds the list. -/
theorem place_lt (h : Scattered key list done old array counts bound)
    (hlist : done ++ member :: rest = list) (hkey : key member < bound) :
    counts (key member) < list.length :=
  calc counts (key member)
      = start key list (key member) + (bucket key done (key member)).length := h.counts _ hkey
    _ < start key list (key member) + (bucket key list (key member)).length :=
        Nat.add_lt_add_left (length_bucket_lt key hlist) _
    _ = start key list (key member + 1) := (start_succ key list _).symm
    _ ≤ list.length := length_distribute_le _ _

theorem step (h : Scattered key list done old array counts bound)
    (hlist : done ++ member :: rest = list) (hkey : key member < bound) :
    Scattered key list (done ++ [member]) old
      (Function.update array (counts (key member)) (some member))
      (Function.update counts (key member) (counts (key member) + 1)) bound := by
  have hbucket : ∀ value, bucket key (done ++ [member]) value =
      bucket key done value ++ if key member = value then [member] else [] := by
    intro value
    by_cases hvalue : key member = value <;> simp [bucket, hvalue]
  refine ⟨fun value hvalue ↦ ?_, fun value hvalue place hplace ↦ ?_, fun place hplace ↦ ?_⟩
  · rw [hbucket, Function.update_apply]
    have hold := h.counts value hvalue
    split
    case isTrue heq => simp [heq ▸ hold, heq, Nat.add_assoc]
    case isFalse hne => simpa [Ne.symm hne] using hold
  · have hcount := h.counts _ hkey
    by_cases heq : key member = value
    · subst heq
      rw [hbucket, if_pos rfl] at hplace ⊢
      rw [List.length_append, List.length_singleton] at hplace
      rw [List.getElem?_append, Function.update_apply]
      by_cases hlast : place < (bucket key done (key member)).length
      · rw [if_pos hlast, if_neg (by omega)]
        exact h.holds _ hvalue place hlast
      · obtain rfl : place = (bucket key done (key member)).length := by omega
        rw [if_neg hlast, if_pos hcount.symm]
        simp
    · rw [hbucket, if_neg heq, List.append_nil] at hplace ⊢
      -- The buckets of different keys do not overlap.
      have hdistinct : start key list value + place ≠ counts (key member) := by
        have hmember := length_bucket_lt key hlist
        have hother := length_bucket_le key hlist value
        rcases Nat.lt_or_gt_of_ne heq with hlt | hlt
        · have hstart := start_mono key list (Nat.succ_le_of_lt hlt)
          rw [start_succ] at hstart
          omega
        · have hstart := start_mono key list (Nat.succ_le_of_lt hlt)
          rw [start_succ] at hstart
          omega
      rw [Function.update_of_ne hdistinct]
      exact h.holds value hvalue place hplace
  · rw [Function.update_of_ne (Nat.ne_of_gt (Nat.lt_of_lt_of_le (h.place_lt hlist hkey) hplace))]
    exact h.rest place hplace

/-- After all members the array holds the distribution. -/
theorem holds_distribute (h : Scattered key list list old array counts bound) :
    Holds array 0 (distribute key bound list) := by
  have hbuckets : ∀ value ≤ bound, Holds array 0 (distribute key value list) := by
    intro value hvalue
    induction value with
    | zero => exact fun place hplace ↦ absurd hplace (by simp [distribute])
    | succ value ih =>
      rw [distribute_succ]
      refine (ih (by omega)).append ?_
      rw [Nat.zero_add]
      exact h.holds value hvalue
  exact hbuckets bound le_rfl

end Scattered

end DiosPool.Foundation.CountingSort
