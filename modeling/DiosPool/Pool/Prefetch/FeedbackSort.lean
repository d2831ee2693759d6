import DiosPool.Foundation.CountingSort
import DiosPool.Pool.Prefetch.Ledger

/-!
# The feedback buffers

A ledger keeps its feedback in the front of a buffer of fixed size. A flush sorts it by sixteen
counting passes between this buffer and a second one, which holds what earlier flushes left there, and
takes the records out one by one.
-/

namespace DiosPool.Pool

open Foundation Foundation.CountingSort

/-- `feedback`, `feedback_scratch` and `feedback_count` of a ledger. Both buffers have the capacity of
the ledger. -/
structure FeedbackBuffers where
  capacity : ℕ
  feedback : ℕ → Option Feedback
  feedbackScratch : ℕ → Option Feedback
  feedbackCount : ℕ

/-- What `flush_feedback` does with one record. -/
def Ledger.applyFeedback (G : PrefetchGeometry) (ledger : Ledger) (record : Feedback) :
    Except Assertion Ledger := do
  let pattern ← (ledger.patterns record.reader).promoted record.page record.incarnation G.capacity
  ledger.setPattern G record.reader pattern

namespace FeedbackBuffers

/-- The part of `finish_index_feedback` that stores a record. -/
def store (buffers : FeedbackBuffers) (record : Feedback) : Except Assertion FeedbackBuffers := do
  let index := buffers.feedbackCount
  ensure (index < buffers.capacity) "index < self.feedback.len()"
  ensure (buffers.feedback index).isNone "self.feedback[index].is_none()"
  return { buffers with
    feedback := Function.update buffers.feedback index (some record)
    feedbackCount := index + 1 }

/-- A loop over `&self.feedback[..count]`. -/
def overPrefix {σ : Type} (buffers : FeedbackBuffers) (turn : σ → Feedback → Except Assertion σ)
    (state : σ) : Except Assertion σ := do
  ensure (buffers.feedbackCount ≤ buffers.capacity) "range end index out of range"
  (List.range buffers.feedbackCount).foldlM (fun state index ↦ do
    turn state (← expect (buffers.feedback index) "feedback prefix")) state

/-- The first loop of a pass counts the records by their key byte. -/
def countBytes (buffers : FeedbackBuffers) (ordinal : ℕ) : Except Assertion (ℕ → ℕ) :=
  buffers.overPrefix (fun counts record ↦
    return Function.update counts (record.byte ordinal) (counts (record.byte ordinal) + 1))
    fun _ ↦ 0

/-- The second loop turns the counters into offsets. -/
def offsets (counts : ℕ → ℕ) : ℕ → ℕ :=
  ((List.range 256).foldl (fun (state : (ℕ → ℕ) × ℕ) byte ↦
    (Function.update state.1 byte state.2, state.2 + state.1 byte)) (counts, 0)).1

/-- A turn of the third loop writes a record to the next place of its bucket. -/
def placeRecord (capacity ordinal : ℕ) (state : (ℕ → Option Feedback) × (ℕ → ℕ))
    (record : Feedback) : Except Assertion ((ℕ → Option Feedback) × (ℕ → ℕ)) := do
  let place := state.2 (record.byte ordinal)
  ensure (place < capacity) "index out of bounds"
  return (Function.update state.1 place (some record),
    Function.update state.2 (record.byte ordinal) (place + 1))

def scatter (buffers : FeedbackBuffers) (ordinal : ℕ) (counts : ℕ → ℕ) :
    Except Assertion ((ℕ → Option Feedback) × (ℕ → ℕ)) :=
  buffers.overPrefix (placeRecord buffers.capacity ordinal) (buffers.feedbackScratch, counts)

/-- One pass. The buffers change places at its end. -/
def sortPass (buffers : FeedbackBuffers) (ordinal : ℕ) : Except Assertion FeedbackBuffers := do
  let counts ← buffers.countBytes ordinal
  let scattered ← buffers.scatter ordinal (offsets counts)
  return { buffers with feedback := scattered.1, feedbackScratch := buffers.feedback }

def flushFeedbackSort (buffers : FeedbackBuffers) : Except Assertion FeedbackBuffers :=
  (List.range 16).foldlM sortPass buffers

/-- A turn of the last loop of `flush_feedback` takes a record out of its place. -/
def takeAndApply {σ : Type} (apply : σ → Feedback → Except Assertion σ)
    (state : FeedbackBuffers × σ) (index : ℕ) : Except Assertion (FeedbackBuffers × σ) := do
  ensure (index < state.1.capacity) "index out of bounds"
  let record ← expect (state.1.feedback index) "feedback prefix"
  return ({ state.1 with feedback := Function.update state.1.feedback index none },
    ← apply state.2 record)

/-- `flush_feedback` for what it does with a record. -/
def flushWith {σ : Type} (apply : σ → Feedback → Except Assertion σ) (buffers : FeedbackBuffers)
    (state : σ) : Except Assertion (FeedbackBuffers × σ) :=
  if buffers.feedbackCount = 0 then
    return (buffers, state)
  else do
    let buffers ← if 1 < buffers.feedbackCount then buffers.flushFeedbackSort else pure buffers
    let result ← (List.range buffers.feedbackCount).foldlM (takeAndApply apply) (buffers, state)
    return ({ result.1 with feedbackCount := 0 }, result.2)

def flushFeedback (G : PrefetchGeometry) (buffers : FeedbackBuffers) (ledger : Ledger) :
    Except Assertion (FeedbackBuffers × Ledger) :=
  buffers.flushWith (Ledger.applyFeedback G) ledger

end FeedbackBuffers

/-! ## The order of the keys -/

namespace Feedback

/-- The ranges of the fields. -/
structure Fits (record : Feedback) : Prop where
  reader : record.reader < 2 ^ 32
  incarnation : record.incarnation < 2 ^ 64
  page : record.page.granuleIdx < 2 ^ 32

/-- Ascending order by reader, incarnation and page index. -/
def Ascending (left right : Feedback) : Prop :=
  left.reader < right.reader ∨ left.reader = right.reader ∧
    (left.incarnation < right.incarnation ∨ left.incarnation = right.incarnation ∧
      left.page.granuleIdx ≤ right.page.granuleIdx)

/-- The number whose bytes are the key. -/
def number (record : Feedback) : ℕ :=
  record.page.granuleIdx % 2 ^ 32 +
    (2 ^ 32 * (record.incarnation % 2 ^ 64) + 2 ^ 96 * record.reader)

theorem byte_eq (ordinal : ℕ) (record : Feedback) :
    record.byte ordinal = record.number / 256 ^ ordinal % 256 := by
  unfold byte number
  rcases Nat.lt_or_ge ordinal 12 with hlow | hhigh
  · interval_cases ordinal <;> norm_num <;> omega
  · obtain ⟨place, rfl⟩ := Nat.exists_eq_add_of_le hhigh
    have hpower : 2 ^ ((12 + place - 12) * 8) = 256 ^ place := by
      rw [Nat.add_sub_cancel_left, Nat.mul_comm, Nat.pow_mul]
    rw [if_neg (by omega), if_neg (by omega), hpower, Nat.pow_add, ← Nat.div_div_eq_div_mul]
    congr 2
    norm_num
    omega

theorem byte_lt (ordinal : ℕ) (record : Feedback) : record.byte ordinal < 256 := by
  rw [byte_eq]
  exact Nat.mod_lt _ (by decide)

theorem ascending_of_number_le {left right : Feedback} (hleft : left.Fits) (hright : right.Fits)
    (hle : left.number % 256 ^ 16 ≤ right.number % 256 ^ 16) : left.Ascending right := by
  obtain ⟨hreader, hincarnation, hpage⟩ := hleft
  obtain ⟨hreader', hincarnation', hpage'⟩ := hright
  unfold number at hle
  unfold Ascending
  norm_num at hle hreader hincarnation hpage hreader' hincarnation' hpage'
  omega

end Feedback

namespace Ledger

theorem sortByByte_eq : sortByByte = fun records ordinal ↦
    distribute (fun record ↦ record.byte ordinal) 256 records := rfl

theorem sortByByte_perm (records : List Feedback) (ordinal : ℕ) :
    (sortByByte records ordinal).Perm records :=
  distribute_perm fun record _ ↦ Feedback.byte_lt ordinal record

theorem sortByBytes_perm (records : List Feedback) (passes : ℕ) :
    ((List.range passes).foldl sortByByte records).Perm records := by
  rw [sortByByte_eq]
  exact perm_digits (fun ordinal record ↦ record.byte ordinal) Feedback.byte_lt passes records

/-- Sixteen passes sort by the whole key. -/
theorem flushFeedbackSort_pairwise {records : List Feedback}
    (hfits : ∀ record ∈ records, record.Fits) :
    (flushFeedbackSort records).Pairwise Feedback.Ascending := by
  have hperm := sortByBytes_perm records 16
  have hsorted := pairwise_digits (by decide) Feedback.number
    (fun ordinal record ↦ record.byte ordinal) records Feedback.byte_eq 16
  rw [flushFeedbackSort]
  rw [sortByByte_eq] at hperm ⊢
  refine List.Pairwise.imp_of_mem ?_ hsorted
  intro left right hleft hright hle
  exact Feedback.ascending_of_number_le (hfits left (hperm.mem_iff.mp hleft))
    (hfits right (hperm.mem_iff.mp hright)) hle

end Ledger

/-! ## The loops over the buffers -/

/-- A loop over the places of an array that holds a list is a loop over the list. -/
theorem foldlM_range_expect {σ : Type} {array : ℕ → Option Feedback} {message : String}
    (turn : σ → Feedback → Except Assertion σ) {records : List Feedback} {offset : ℕ}
    (h : Holds array offset records) (state : σ) :
    (List.range' offset records.length).foldlM (fun state index ↦ do
      turn state (← expect (array index) message)) state = records.foldlM turn state := by
  induction records generalizing offset state with
  | nil => rfl
  | cons record records ih =>
    have hrecord : array offset = some record := by simpa using h 0 (by simp)
    have hrest : Holds array (offset + 1) records := by
      intro place hplace
      have hshift := h (place + 1) (by simpa using hplace)
      rw [List.getElem?_cons_succ] at hshift
      rw [← hshift]
      congr 1
      omega
    rw [List.length_cons, List.range'_succ, List.foldlM_cons, List.foldlM_cons, hrecord, expect_some,
      ok_bind]
    congr 1
    funext state
    exact ih hrest state

namespace FeedbackBuffers

variable {buffers : FeedbackBuffers} {records : List Feedback}

/-- The front of the buffer holds the records. -/
structure Front (buffers : FeedbackBuffers) (records : List Feedback) : Prop where
  count : buffers.feedbackCount = records.length
  fits : records.length ≤ buffers.capacity
  holds : Holds buffers.feedback 0 records

/-- The buffer holds the records in its front and nothing behind them. What the second buffer holds
does not matter. -/
structure Queued (buffers : FeedbackBuffers) (records : List Feedback) : Prop
    extends Front buffers records where
  vacant : ∀ place, records.length ≤ place → buffers.feedback place = none

/-- A record is stored as long as there is room. -/
theorem Queued.store (h : buffers.Queued records) (hroom : records.length < buffers.capacity)
    (record : Feedback) :
    ∃ stored, buffers.store record = .ok stored ∧ stored.Queued (records ++ [record]) ∧
      stored.capacity = buffers.capacity := by
  have hvacant : (buffers.feedback buffers.feedbackCount).isNone := by
    rw [h.vacant _ (le_of_eq h.count.symm)]
    rfl
  have hstore : buffers.store record = .ok { buffers with
      feedback := Function.update buffers.feedback buffers.feedbackCount (some record)
      feedbackCount := buffers.feedbackCount + 1 } := by
    rw [FeedbackBuffers.store, ensure_true (h.count ▸ hroom), ok_bind, ensure_true hvacant, ok_bind,
      pure_ok]
  refine ⟨_, hstore, ⟨⟨?_, ?_, ?_⟩, ?_⟩, rfl⟩
  · simp [h.count]
  · simpa using hroom
  · apply Holds.append
    · intro place hplace
      have hother : 0 + place ≠ buffers.feedbackCount := by
        rw [h.count]
        omega
      exact (Function.update_of_ne hother _ _).trans (h.holds place hplace)
    · intro place hplace
      obtain rfl : place = 0 := by simpa using hplace
      simp [h.count]
  · intro place hplace
    rw [List.length_append, List.length_singleton] at hplace
    have hother : place ≠ buffers.feedbackCount := by
      rw [h.count]
      omega
    exact (Function.update_of_ne hother _ _).trans (h.vacant place (by omega))

theorem Front.overPrefix (h : buffers.Front records) {σ : Type}
    (turn : σ → Feedback → Except Assertion σ) (state : σ) :
    buffers.overPrefix turn state = records.foldlM turn state := by
  have hfits : buffers.feedbackCount ≤ buffers.capacity := h.count ▸ h.fits
  rw [FeedbackBuffers.overPrefix, ensure_true hfits, ok_bind, h.count, List.range_eq_range']
  exact foldlM_range_expect turn h.holds state

theorem Front.countBytes (h : buffers.Front records) (ordinal : ℕ) :
    ∃ counts, buffers.countBytes ordinal = .ok counts ∧
      ∀ byte, counts byte = (bucket (fun record ↦ record.byte ordinal) records byte).length := by
  refine ⟨_, (h.overPrefix _ _).trans (List.foldlM_pure ..), fun byte ↦ ?_⟩
  rw [count_foldl fun record : Feedback ↦ record.byte ordinal, Nat.zero_add]

theorem offsets_eq {key : Feedback → ℕ} {counts : ℕ → ℕ}
    (hcounts : ∀ byte, counts byte = (bucket key records byte).length) {byte : ℕ}
    (hbyte : byte < 256) : offsets counts byte = start key records byte := by
  rw [offsets, offsets_foldl hcounts 256]
  exact if_pos hbyte

/-- The last loop of a pass, with the records `done` in their places, stays inside the buffer and
distributes the others. -/
theorem scattered_foldlM {capacity ordinal : ℕ} {old : ℕ → Option Feedback}
    (hfits : records.length ≤ capacity) {done rest : List Feedback}
    (hdone : done ++ rest = records) {state : (ℕ → Option Feedback) × (ℕ → ℕ)}
    (h : Scattered (fun record ↦ record.byte ordinal) records done old state.1 state.2 256) :
    ∃ scattered, rest.foldlM (placeRecord capacity ordinal) state = .ok scattered ∧
      Scattered (fun record ↦ record.byte ordinal) records records old
        scattered.1 scattered.2 256 := by
  induction rest generalizing done state with
  | nil =>
    rw [List.append_nil] at hdone
    exact ⟨state, rfl, hdone ▸ h⟩
  | cons record rest ih =>
    have hbyte := Feedback.byte_lt ordinal record
    have hplace := (h.place_lt hdone hbyte).trans_le hfits
    rw [List.foldlM_cons, placeRecord, ensure_true hplace, ok_bind, pure_ok, ok_bind]
    exact ih (by simpa using hdone) (h.step hdone hbyte)

theorem Front.scatter (h : buffers.Front records) (ordinal : ℕ) {counts : ℕ → ℕ}
    (hcounts : ∀ byte < 256,
      counts byte = start (fun record ↦ record.byte ordinal) records byte) :
    ∃ scattered, buffers.scatter ordinal counts = .ok scattered ∧
      Scattered (fun record ↦ record.byte ordinal) records records buffers.feedbackScratch
        scattered.1 scattered.2 256 := by
  rw [FeedbackBuffers.scatter, h.overPrefix]
  apply scattered_foldlM h.fits (List.nil_append records)
  refine ⟨?_, fun byte _ place hplace ↦ absurd hplace (Nat.not_lt_zero _), fun _ _ ↦ rfl⟩
  exact fun byte hbyte ↦ hcounts byte hbyte

/-- A pass distributes the records into the second buffer, and leaves what is behind them there. -/
theorem Front.sortPass (h : buffers.Front records) (ordinal : ℕ) :
    ∃ array, buffers.sortPass ordinal =
        .ok { buffers with feedback := array, feedbackScratch := buffers.feedback } ∧
      Holds array 0 (Ledger.sortByByte records ordinal) ∧
      ∀ place, records.length ≤ place → array place = buffers.feedbackScratch place := by
  obtain ⟨counts, hcount, hcounts⟩ := h.countBytes ordinal
  obtain ⟨scattered, hscatter, hscattered⟩ :=
    h.scatter ordinal fun byte hbyte ↦ offsets_eq hcounts hbyte
  refine ⟨scattered.1, ?_, hscattered.holds_distribute, hscattered.rest⟩
  rw [FeedbackBuffers.sortPass, hcount, ok_bind, hscatter, ok_bind, pure_ok]

/-- After passes over the lowest bytes the front holds the records distributed by these bytes. Behind
the front the buffers are as they were, in changed places after an odd number of passes. -/
theorem Front.sortPasses (h : buffers.Front records) (passes : ℕ) :
    ∃ sorted, (List.range passes).foldlM FeedbackBuffers.sortPass buffers = .ok sorted ∧
      sorted.capacity = buffers.capacity ∧
      sorted.Front ((List.range passes).foldl Ledger.sortByByte records) ∧
      ∀ place, records.length ≤ place →
        (sorted.feedback place, sorted.feedbackScratch place) =
          if passes % 2 = 0 then (buffers.feedback place, buffers.feedbackScratch place)
          else (buffers.feedbackScratch place, buffers.feedback place) := by
  induction passes with
  | zero => exact ⟨buffers, rfl, rfl, h, fun _ _ ↦ rfl⟩
  | succ passes ih =>
    obtain ⟨before, hbefore, hcapacity, hfront, hbehind⟩ := ih
    have hlength := (Ledger.sortByBytes_perm records passes).length_eq
    obtain ⟨array, hpass, hholds, hrest⟩ := hfront.sortPass passes
    have hsame := (Ledger.sortByByte_perm ((List.range passes).foldl Ledger.sortByByte records)
      passes).length_eq
    have hpasses : (List.range (passes + 1)).foldlM FeedbackBuffers.sortPass buffers =
        .ok { before with feedback := array, feedbackScratch := before.feedback } := by
      rw [List.range_succ, List.foldlM_append, hbefore, ok_bind, List.foldlM_cons, hpass, ok_bind]
      rfl
    refine ⟨_, hpasses, hcapacity, ?_, fun place hplace ↦ ?_⟩
    · rw [List.range_succ, List.foldl_append]
      exact ⟨hfront.count.trans hsame.symm, hsame.trans_le hfront.fits, hholds⟩
    · have hold := hbehind place hplace
      dsimp only
      rw [hrest place (hlength.trans_le hplace)]
      rcases Nat.mod_two_eq_zero_or_one passes with heven | hodd
      · rw [if_pos heven, Prod.mk.injEq] at hold
        rw [if_neg (by omega), hold.1, hold.2]
      · rw [if_neg (by omega), Prod.mk.injEq] at hold
        rw [if_pos (by omega), hold.1, hold.2]

theorem Queued.flushFeedbackSort (h : buffers.Queued records) :
    ∃ sorted, buffers.flushFeedbackSort = .ok sorted ∧ sorted.capacity = buffers.capacity ∧
      sorted.Queued (Ledger.flushFeedbackSort records) := by
  obtain ⟨sorted, hsorted, hcapacity, hfront, hbehind⟩ := h.toFront.sortPasses 16
  refine ⟨sorted, hsorted, hcapacity, hfront, fun place hplace ↦ ?_⟩
  have hlength := (Ledger.sortByBytes_perm records 16).length_eq
  have hplaces := hbehind place (hlength.symm.trans_le hplace)
  rw [if_pos (by decide), Prod.mk.injEq] at hplaces
  exact hplaces.1.trans (h.vacant place (hlength.symm.trans_le hplace))

/-- The last loop of a flush applies the records in their order and leaves the buffer empty. -/
theorem foldlM_takeAndApply {σ : Type} (apply : σ → Feedback → Except Assertion σ) {offset : ℕ}
    (hfits : offset + records.length ≤ buffers.capacity)
    (hholds : Holds buffers.feedback offset records)
    (hvacant : ∀ place, place < offset ∨ offset + records.length ≤ place →
      buffers.feedback place = none) (state : σ) :
    (List.range' offset records.length).foldlM (takeAndApply apply) (buffers, state) = do
      let state ← records.foldlM apply state
      return ({ buffers with feedback := fun _ ↦ none }, state) := by
  induction records generalizing buffers offset state with
  | nil =>
    have hempty : buffers = { buffers with feedback := fun _ ↦ none } := by
      have hnone : buffers.feedback = fun _ ↦ none := by
        funext place
        apply hvacant place
        rw [List.length_nil, Nat.add_zero]
        exact Nat.lt_or_ge place offset
      rw [← hnone]
    rw [List.length_nil, List.range'_zero, List.foldlM_nil, List.foldlM_nil, pure_bind, ← hempty]
  | cons record records ih =>
    have hrecord : buffers.feedback offset = some record := by simpa using hholds 0 (by simp)
    rw [List.length_cons] at hfits hvacant
    rw [List.length_cons, List.range'_succ, List.foldlM_cons, List.foldlM_cons, takeAndApply,
      ensure_true (by dsimp only; omega), ok_bind, hrecord, expect_some, ok_bind, bind_assoc,
      bind_assoc]
    congr 1
    funext state
    rw [pure_bind]
    apply ih
    · dsimp only
      omega
    · intro place hplace
      have hshift := hholds (place + 1) (by simpa using hplace)
      rw [List.getElem?_cons_succ] at hshift
      have hother : offset + 1 + place ≠ offset := by omega
      have hindex : offset + (place + 1) = offset + 1 + place := by omega
      rw [← hshift, hindex]
      exact Function.update_of_ne hother _ _
    · intro place hplace
      by_cases hsame : place = offset
      · subst hsame
        exact Function.update_self ..
      · exact (Function.update_of_ne hsame _ _).trans (hvacant place (by omega))

theorem Queued.taken (h : buffers.Queued records) {σ : Type}
    (apply : σ → Feedback → Except Assertion σ) (state : σ) :
    (List.range buffers.feedbackCount).foldlM (takeAndApply apply) (buffers, state) = do
      let state ← records.foldlM apply state
      return ({ buffers with feedback := fun _ ↦ none }, state) := by
  have hplaces : List.range buffers.feedbackCount = List.range' 0 records.length := by
    rw [h.count, List.range_eq_range']
  rw [hplaces]
  apply foldlM_takeAndApply apply (by simpa using h.fits) h.holds
  intro place hplace
  rw [Nat.zero_add] at hplace
  exact h.vacant place (by omega)

/-- What a flush leaves. -/
theorem empty_queued (buffers : FeedbackBuffers) :
    Queued { buffers with feedback := fun _ ↦ none, feedbackCount := 0 } [] where
  count := rfl
  fits := Nat.zero_le _
  holds _ hplace := absurd hplace (Nat.not_lt_zero _)
  vacant _ _ := rfl

/-- A flush applies the sorted records and empties the buffer. -/
theorem Queued.flushWith (h : buffers.Queued records) {σ : Type}
    (apply : σ → Feedback → Except Assertion σ) (state : σ) :
    ∃ after : FeedbackBuffers, after.Queued [] ∧ after.capacity = buffers.capacity ∧
      buffers.flushWith apply state = do
        let state ← (Ledger.flushFeedbackSort records).foldlM apply state
        return (after, state) := by
  have hperm := Ledger.sortByBytes_perm records 16
  unfold FeedbackBuffers.flushWith
  by_cases hzero : buffers.feedbackCount = 0
  · obtain rfl : records = [] := List.length_eq_zero_iff.mp (h.count.symm.trans hzero)
    have hsorted : Ledger.flushFeedbackSort [] = [] := hperm.eq_nil
    exact ⟨buffers, h, rfl, by rw [if_pos hzero, hsorted]; rfl⟩
  rw [if_neg hzero]
  by_cases hmany : 1 < buffers.feedbackCount
  · obtain ⟨sorted, hsort, hcapacity, hsorted⟩ := h.flushFeedbackSort
    refine ⟨_, empty_queued sorted, hcapacity, ?_⟩
    rw [if_pos hmany, hsort, ok_bind]
    dsimp only
    rw [hsorted.taken, bind_assoc]
    rfl
  · obtain ⟨record, rfl⟩ : ∃ record, records = [record] :=
      List.length_eq_one_iff.mp (by have hcount := h.count; omega)
    have hsorted : Ledger.flushFeedbackSort [record] = [record] := List.perm_singleton.mp hperm
    refine ⟨_, empty_queued buffers, rfl, ?_⟩
    rw [if_neg hmany, pure_bind]
    dsimp only
    rw [h.taken, hsorted, bind_assoc]
    rfl

theorem Queued.foldlM_store (h : buffers.Queued records) (more : List Feedback)
    (hroom : records.length + more.length ≤ buffers.capacity) :
    ∃ stored, more.foldlM FeedbackBuffers.store buffers = .ok stored ∧
      stored.Queued (records ++ more) ∧ stored.capacity = buffers.capacity := by
  induction more generalizing buffers records with
  | nil => exact ⟨buffers, rfl, by rwa [List.append_nil], rfl⟩
  | cons record more ih =>
    rw [List.length_cons] at hroom
    obtain ⟨middle, hstore, hmiddle, hcapacity⟩ := h.store (by omega) record
    obtain ⟨stored, hrest, hstored, hsame⟩ := ih hmiddle (by
      rw [List.length_append, List.length_singleton, hcapacity]
      omega)
    refine ⟨stored, ?_, by rwa [List.append_assoc] at hstored, hsame.trans hcapacity⟩
    rw [List.foldlM_cons, hstore, ok_bind, hrest]

/-- As many records as the buffer has room for are stored. A flush applies each of them once, in
ascending order of reader, incarnation and page index. It leaves the count zero and the buffer empty,
so that the next record is stored. -/
theorem flushFeedback_applies_ascending (G : PrefetchGeometry) (hempty : buffers.Queued [])
    (hroom : records.length ≤ buffers.capacity) (hfits : ∀ record ∈ records, record.Fits)
    (ledger : Ledger) :
    ∃ (stored : FeedbackBuffers) (applied : List Feedback) (after : FeedbackBuffers),
      records.foldlM FeedbackBuffers.store buffers = .ok stored ∧
      applied.Perm records ∧ applied.Pairwise Feedback.Ascending ∧
      stored.flushFeedback G ledger = (do
        let ledger ← applied.foldlM (Ledger.applyFeedback G) ledger
        return (after, ledger)) ∧
      after.Queued [] ∧ after.capacity = buffers.capacity ∧ after.feedbackCount = 0 ∧
      (∀ place, after.feedback place = none) ∧
      ∀ record, 0 < buffers.capacity → ∃ again, after.store record = .ok again := by
  obtain ⟨stored, hstore, hstored, hcapacity⟩ := hempty.foldlM_store records (by
    rwa [List.length_nil, Nat.zero_add])
  rw [List.nil_append] at hstored
  obtain ⟨after, hafter, hsame, hflush⟩ := hstored.flushWith (Ledger.applyFeedback G) ledger
  have hperm := Ledger.sortByBytes_perm records 16
  rw [← Ledger.flushFeedbackSort] at hperm
  refine ⟨stored, Ledger.flushFeedbackSort records, after, hstore, hperm,
    Ledger.flushFeedbackSort_pairwise hfits, hflush, hafter, hsame.trans hcapacity, hafter.count,
    fun place ↦ hafter.vacant place (Nat.zero_le _), fun record hpos ↦ ?_⟩
  obtain ⟨again, hagain, -, -⟩ := hafter.store (by
    rw [hsame, hcapacity]
    exact hpos) record
  exact ⟨again, hagain⟩

/-- Buffers for two records, with an old record in every place of the second one. -/
def stale : FeedbackBuffers := ⟨2, fun _ ↦ none, fun _ ↦ some ⟨3, 1, ⟨⟨0, 0, 0⟩, 4⟩⟩, 0⟩

theorem stale_queued : stale.Queued [] := empty_queued stale

/-- A ledger for two readers. -/
def small : PrefetchGeometry := .new 2 2 4 .automatic 4 4096

def crossed : List Feedback := [⟨1, 0, ⟨⟨0, 0, 0⟩, 5⟩⟩, ⟨0, 2, ⟨⟨0, 0, 0⟩, 7⟩⟩]

theorem crossed_applies_ascending :
    crossed.length ≤ stale.capacity ∧
    ∃ (stored : FeedbackBuffers) (applied : List Feedback) (after : FeedbackBuffers),
      crossed.foldlM FeedbackBuffers.store stale = .ok stored ∧
      applied.Perm crossed ∧ applied.Pairwise Feedback.Ascending ∧
      stored.flushFeedback small (.new small) = (do
        let ledger ← applied.foldlM (Ledger.applyFeedback small) (.new small)
        return (after, ledger)) ∧
      after.Queued [] := by
  have hfits : ∀ record ∈ crossed, record.Fits := by
    intro record hrecord
    rcases List.mem_pair.mp hrecord with rfl | rfl
    · exact ⟨by decide, by decide, by decide⟩
    · exact ⟨by decide, by decide, by decide⟩
  obtain ⟨stored, applied, after, hstore, hperm, hsorted, hflush, hafter, -⟩ :=
    flushFeedback_applies_ascending small stale_queued (by decide) hfits (.new small)
  exact ⟨by decide, stored, applied, after, hstore, hperm, hsorted, hflush, hafter⟩

end FeedbackBuffers

end DiosPool.Pool
