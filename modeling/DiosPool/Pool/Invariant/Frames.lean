import DiosPool.Pool.Invariant.Custody

/-!
# Every frame is in one place

A frame is in the free list or the reserve, in the hands of one read, mapped under its page, or
evicting: queued once, held by retained handles, or on its way out of the queue. The state word of
the frame says which.
-/

namespace DiosPool.Pool

open Driver Foundation

/-- The places of one frame agree with its state word: how often it is listed as free, held by reads
and queued for reclamation, and the pages it is mapped under. -/
structure FrameAt (frameCount frame : ℕ) (word : Frame) (free holding queued : ℕ) (held : Bool)
    (unmapped evicting : Prop) [Decidable evicting] (mapped : PageId → Prop) : Prop where
  beyond : frameCount ≤ frame → word.state = .free
  free : free = if frame < frameCount ∧ word.state = .free then 1 else 0
  holding : holding = if word.state = .inFlight then 1 else 0
  mapped : ∀ page, mapped page ↔ word.state = .resident ∧ word.page = page ∧ ¬ unmapped
  unmapped : unmapped → word.state = .resident
  queued : queued + (if held then 1 else 0) + (if evicting then 1 else 0) =
    if word.state = .evicting then 1 else 0

theorem lookup_insert (table : Table.Pages) (page : PageId) (frame : ℕ) (mapped : PageId) :
    (table.insert page frame).lookup mapped =
      if mapped = page then some frame else table.lookup mapped :=
  (congrFun (Table.Pages.lookup_insert_eq table page frame) mapped).trans
    (Function.update_apply _ _ _ _)

theorem lookup_erase (table : Table.Pages) (page mapped : PageId) :
    (table.erase page).lookup mapped = if mapped = page then none else table.lookup mapped :=
  (congrFun (Table.Pages.lookup_erase_eq table page) mapped).trans (Function.update_apply _ _ _ _)

/-- Every frame is in the place that its state word tells. `holding` are the frames of reads. -/
def FramesInv (frameCount : ℕ) (unmapped evicting : Option ℕ) (frames : ℕ → Frame)
    (table : Table.Pages) (free reserve : List ℕ) (queue : List (ℕ × ℕ)) (words : ℕ → Word)
    (holding : Multiset ℕ) : Prop :=
  ∀ frame, FrameAt frameCount frame (frames frame) (free.count frame + reserve.count frame)
    (holding.count frame) ((queue.map Prod.fst).count frame) (words frame).held
    (unmapped = some frame) (evicting = some frame) fun page ↦ table.lookup page = some frame

namespace FramesInv

variable {frameCount : ℕ} {unmapped evicting unmapped' evicting' : Option ℕ}
  {frames frames' : ℕ → Frame} {table table' : Table.Pages}
  {free reserve free' reserve' : List ℕ} {queue queue' : List (ℕ × ℕ)} {words words' : ℕ → Word}
  {holding holding' : Multiset ℕ} {frame : ℕ}

section Facts

variable (h : FramesInv frameCount unmapped evicting frames table free reserve queue words holding)

include h

theorem lt_of_state_ne_free (hstate : (frames frame).state ≠ .free) : frame < frameCount := by
  by_contra hge
  exact hstate ((h frame).beyond (by omega))

theorem of_lookup {page : PageId} (hlookup : table.lookup page = some frame) :
    (frames frame).state = .resident ∧ (frames frame).page = page ∧ unmapped ≠ some frame :=
  ((h frame).mapped page).mp hlookup

/-- A frame outside the queue leaves room for it. -/
theorem queue_length_lt (hstate : (frames frame).state = .resident) :
    queue.length < frameCount := by
  rw [← List.length_map (f := Prod.fst)]
  have hlt : frame < frameCount := by
    apply h.lt_of_state_ne_free
    rw [hstate]
    decide
  apply length_lt_of_count_eq_zero hlt
  · have hframe := (h frame).queued
    simp only [hstate, reduceCtorEq, if_false] at hframe
    omega
  · intro other
    have hother := (h other).queued
    by_cases hevicting : (frames other).state = .evicting
    · have hlt : other < frameCount := h.lt_of_state_ne_free (by simp [hevicting])
      simp only [hevicting, if_true, hlt] at hother ⊢
      omega
    · simp only [hevicting, if_false] at hother
      omega

theorem state_of_held (hheld : (words frame).held) : (frames frame).state = .evicting := by
  by_contra hstate
  have hframe := (h frame).queued
  simp only [hstate, hheld, if_true, if_false] at hframe
  omega

theorem state_of_evicting (hevicting : evicting = some frame) :
    (frames frame).state = .evicting := by
  by_contra hstate
  have hframe := (h frame).queued
  simp only [hstate, hevicting, if_true, if_false] at hframe
  omega

theorem state_of_mem_holding (hmem : frame ∈ holding) : (frames frame).state = .inFlight := by
  by_contra hstate
  have hframe := (h frame).holding
  rw [if_neg hstate] at hframe
  exact Multiset.count_eq_zero.mp hframe hmem

end Facts

/-- Nothing changes but the places of one frame. -/
theorem change
    (h : FramesInv frameCount unmapped evicting frames table free reserve queue words holding)
    (frame : ℕ) (hframes : ∀ other, other ≠ frame → frames' other = frames other)
    (hfree : ∀ other, other ≠ frame → free'.count other + reserve'.count other =
      free.count other + reserve.count other)
    (hholding : ∀ other, other ≠ frame → holding'.count other = holding.count other)
    (hqueue : ∀ other, other ≠ frame → (queue'.map Prod.fst).count other =
      (queue.map Prod.fst).count other)
    (hheld : ∀ other, other ≠ frame → (words' other).held = (words other).held)
    (hunmapped : ∀ other, other ≠ frame → (unmapped' = some other ↔ unmapped = some other))
    (hevicting : ∀ other, other ≠ frame → (evicting' = some other ↔ evicting = some other))
    (htable : ∀ page other, other ≠ frame →
      (table'.lookup page = some other ↔ table.lookup page = some other))
    (hframe : FrameAt frameCount frame (frames' frame) (free'.count frame + reserve'.count frame)
      (holding'.count frame) ((queue'.map Prod.fst).count frame) (words' frame).held
      (unmapped' = some frame) (evicting' = some frame) fun page ↦
        table'.lookup page = some frame) :
    FramesInv frameCount unmapped' evicting' frames' table' free' reserve' queue' words'
      holding' := by
  intro other
  by_cases hother : other = frame
  · rw [hother]
    exact hframe
  · have hold := h other
    constructor
    · rw [hframes other hother]
      exact hold.beyond
    · rw [hframes other hother, hfree other hother]
      exact hold.free
    · rw [hframes other hother, hholding other hother]
      exact hold.holding
    · intro page
      rw [hframes other hother, htable page other hother, hunmapped other hother]
      exact hold.mapped page
    · rw [hframes other hother, hunmapped other hother]
      exact hold.unmapped
    · rw [hframes other hother, hqueue other hother, hheld other hother,
        if_congr (hevicting other hother) rfl rfl]
      exact hold.queued

/-! ## Moves of a frame -/

section Moves

variable (h : FramesInv frameCount unmapped evicting frames table free reserve queue words holding)

include h

/-- Frames move between the free list and the reserve. -/
theorem moveFree
    (hcount : ∀ other, free'.count other + reserve'.count other =
      free.count other + reserve.count other) :
    FramesInv frameCount unmapped evicting frames table free' reserve' queue words holding := by
  intro other
  have hother := h other
  rw [← hcount other] at hother
  exact hother

/-- The retention words change, but not which frames are held. -/
theorem setWords (hheld : ∀ other, (words' other).held = (words other).held) :
    FramesInv frameCount unmapped evicting frames table free reserve queue words' holding := by
  intro other
  have hother := h other
  rw [← hheld other] at hother
  exact hother

theorem claim (hstate : (frames frame).state = .free)
    (hcount : ∀ other, free'.count other + reserve'.count other + (if other = frame then 1 else 0) =
      free.count other + reserve.count other) (generation : ℕ) (page : PageId) :
    FramesInv frameCount unmapped evicting
      (Function.update frames frame ⟨.inFlight, generation, page⟩) table free' reserve' queue words
      (frame ::ₘ holding) := by
  have hframe := h frame
  have hcountFrame := hcount frame
  have hfree := hframe.free
  simp only [if_true] at hcountFrame
  simp only [hstate, and_true] at hfree
  have hlt : frame < frameCount := by
    by_contra hge
    rw [if_neg hge] at hfree
    omega
  rw [if_pos hlt] at hfree
  refine h.change frame ?_ ?_ ?_ (fun _ _ ↦ rfl) (fun _ _ ↦ rfl) (fun _ _ ↦ Iff.rfl)
    (fun _ _ ↦ Iff.rfl) (fun _ _ _ ↦ Iff.rfl) ?_
  · intro other hother
    exact Function.update_of_ne hother _ _
  · intro other hother
    simpa [hother] using hcount other
  · intro other hother
    exact Multiset.count_cons_of_ne hother _
  · rw [Function.update_self]
    constructor
    · intro hge
      omega
    · rw [if_neg (by simp)]
      omega
    · simp [hframe.holding, hstate]
    · intro mapped
      simp [hframe.mapped mapped, hstate]
    · intro hunmapped
      have hresident := hframe.unmapped hunmapped
      rw [hstate] at hresident
      cases hresident
    · simpa [hstate] using hframe.queued

/-- A frame in flight is free again. -/
theorem abort (hstate : (frames frame).state = .inFlight)
    (hcount : ∀ other, free'.count other + reserve'.count other =
      free.count other + reserve.count other + if other = frame then 1 else 0) (page : PageId)
    (generation : ℕ) :
    FramesInv frameCount unmapped evicting
      (Function.update frames frame ⟨.free, generation, page⟩) table free' reserve' queue words
      (holding.erase frame) := by
  have hframe := h frame
  have hlt : frame < frameCount := h.lt_of_state_ne_free (by simp [hstate])
  refine h.change frame ?_ ?_ ?_ (fun _ _ ↦ rfl) (fun _ _ ↦ rfl) (fun _ _ ↦ Iff.rfl)
    (fun _ _ ↦ Iff.rfl) (fun _ _ _ ↦ Iff.rfl) ?_
  · intro other hother
    exact Function.update_of_ne hother _ _
  · intro other hother
    simpa [hother] using hcount other
  · intro other hother
    exact Multiset.count_erase_of_ne hother _
  · rw [Function.update_self]
    constructor
    · exact fun _ ↦ rfl
    · have hnew := hcount frame
      have hold := hframe.free
      simp only [hstate, reduceCtorEq, and_false, if_false] at hold
      simp only [if_true] at hnew
      rw [if_pos ⟨hlt, rfl⟩]
      omega
    · rw [Multiset.count_erase_self, hframe.holding, if_pos hstate]
      rfl
    · intro mapped
      simp [hframe.mapped mapped, hstate]
    · intro hunmapped
      have hresident := hframe.unmapped hunmapped
      rw [hstate] at hresident
      cases hresident
    · simpa [hstate] using hframe.queued

/-- A frame in flight is published, and mapped afterwards. -/
theorem publish (hstate : (frames frame).state = .inFlight) (hunmapped : unmapped = none)
    (page : PageId) (generation : ℕ) :
    FramesInv frameCount (some frame) evicting
      (Function.update frames frame ⟨.resident, generation, page⟩) table free reserve queue words
      (holding.erase frame) := by
  have hframe := h frame
  have hlt : frame < frameCount := h.lt_of_state_ne_free (by simp [hstate])
  refine h.change frame ?_ (fun _ _ ↦ rfl) ?_ (fun _ _ ↦ rfl) (fun _ _ ↦ rfl) ?_ (fun _ _ ↦ Iff.rfl)
    (fun _ _ _ ↦ Iff.rfl) ?_
  · intro other hother
    exact Function.update_of_ne hother _ _
  · intro other hother
    exact Multiset.count_erase_of_ne hother _
  · intro other hother
    simp [hunmapped, Ne.symm hother]
  · rw [Function.update_self]
    constructor
    · intro hge
      omega
    · simpa [hstate] using hframe.free
    · rw [Multiset.count_erase_self, hframe.holding, if_pos hstate]
      rfl
    · intro mapped
      simp [hframe.mapped mapped, hstate]
    · exact fun _ ↦ rfl
    · simpa [hstate] using hframe.queued

/-- A published frame gets its mapping. -/
theorem map (hunmapped : unmapped = some frame) {page : PageId} (hpage : (frames frame).page = page)
    (habsent : table.lookup page = none) :
    FramesInv frameCount none evicting frames (table.insert page frame) free reserve queue words
      holding := by
  have hframe := h frame
  have hstate := hframe.unmapped hunmapped
  refine h.change frame (fun _ _ ↦ rfl) (fun _ _ ↦ rfl) (fun _ _ ↦ rfl) (fun _ _ ↦ rfl)
    (fun _ _ ↦ rfl) ?_ (fun _ _ ↦ Iff.rfl) ?_ ?_
  · intro other hother
    simp [hunmapped, Ne.symm hother]
  · intro mapped other hother
    rw [lookup_insert]
    split
    · rename_i hmapped
      rw [hmapped, habsent]
      simp [Ne.symm hother]
    · rfl
  · refine ⟨hframe.beyond, hframe.free, hframe.holding, ?_, ?_, hframe.queued⟩
    swap
    · intro hnone
      cases hnone
    intro mapped
    have hold := hframe.mapped mapped
    rw [lookup_insert]
    split
    · rename_i hmapped
      simp [hstate, hpage, hmapped]
    · rename_i hmapped
      simp only [hunmapped, not_true_eq_false, and_false, iff_false] at hold
      simp [hold, hpage, Ne.symm hmapped]

/-- A resident frame loses its mapping. -/
theorem unmap (hunmapped : unmapped = none) {page : PageId}
    (hlookup : table.lookup page = some frame) :
    FramesInv frameCount (some frame) evicting frames (table.erase page) free reserve queue words
      holding := by
  have hframe := h frame
  obtain ⟨hstate, hpage, -⟩ := (hframe.mapped page).mp hlookup
  refine h.change frame (fun _ _ ↦ rfl) (fun _ _ ↦ rfl) (fun _ _ ↦ rfl) (fun _ _ ↦ rfl)
    (fun _ _ ↦ rfl) ?_ (fun _ _ ↦ Iff.rfl) ?_ ?_
  · intro other hother
    simp [hunmapped, Ne.symm hother]
  · intro mapped other hother
    rw [lookup_erase]
    split
    · rename_i hmapped
      rw [hmapped, hlookup]
      simp [Ne.symm hother]
    · rfl
  · refine ⟨hframe.beyond, hframe.free, hframe.holding, ?_, fun _ ↦ hstate, hframe.queued⟩
    intro mapped
    have hold := hframe.mapped mapped
    rw [lookup_erase]
    split
    · simp
    · rename_i hmapped
      simp [hold, hpage, Ne.symm hmapped]

/-- An unmapped frame is queued for reclamation. -/
theorem enqueue (hunmapped : unmapped = some frame) (tag generation : ℕ) (page : PageId) :
    FramesInv frameCount none evicting
      (Function.update frames frame ⟨.evicting, generation, page⟩) table free reserve
      (queue ++ [(frame, tag)]) words holding := by
  have hframe := h frame
  have hstate := hframe.unmapped hunmapped
  have hlt : frame < frameCount := h.lt_of_state_ne_free (by simp [hstate])
  refine h.change frame ?_ (fun _ _ ↦ rfl) (fun _ _ ↦ rfl) ?_ (fun _ _ ↦ rfl) ?_ (fun _ _ ↦ Iff.rfl)
    (fun _ _ _ ↦ Iff.rfl) ?_
  · intro other hother
    exact Function.update_of_ne hother _ _
  · intro other hother
    simp [Ne.symm hother]
  · intro other hother
    simp [hunmapped, Ne.symm hother]
  · rw [Function.update_self]
    constructor
    · intro hge
      omega
    · simpa [hstate] using hframe.free
    · simpa [hstate] using hframe.holding
    · intro mapped
      simp [hframe.mapped mapped, hunmapped]
    · intro hnone
      cases hnone
    · have hold := hframe.queued
      simp only [hstate, reduceCtorEq, if_false] at hold
      simp only [List.map_append, List.map_cons, List.map_nil, List.count_append,
        List.count_singleton_self, if_true]
      omega

/-- A frame leaves the front of the queue. -/
theorem dequeue {rest : List (ℕ × ℕ)} {tag : ℕ} (hqueue : queue = (frame, tag) :: rest)
    (hevicting : evicting = none) :
    FramesInv frameCount unmapped (some frame) frames table free reserve rest words holding := by
  have hframe := h frame
  refine h.change frame (fun _ _ ↦ rfl) (fun _ _ ↦ rfl) (fun _ _ ↦ rfl) ?_ (fun _ _ ↦ rfl)
    (fun _ _ ↦ Iff.rfl) ?_ (fun _ _ _ ↦ Iff.rfl) ?_
  · intro other hother
    simp [hqueue, Ne.symm hother]
  · intro other hother
    simp [hevicting, Ne.symm hother]
  · refine ⟨hframe.beyond, hframe.free, hframe.holding, hframe.mapped, hframe.unmapped, ?_⟩
    have hold := hframe.queued
    simp only [hqueue, hevicting, List.map_cons, List.count_cons_self, reduceCtorEq,
      if_false] at hold
    simp only [if_true]
    omega

/-- A matured frame stays evicting for the sake of its handles. -/
theorem hold (hevicting : evicting = some frame) (hheld : ∀ other, other ≠ frame →
      (words' other).held = (words other).held) (hnew : (words' frame).held = true) :
    FramesInv frameCount unmapped none frames table free reserve queue words' holding := by
  have hframe := h frame
  have hstate := h.state_of_evicting hevicting
  refine h.change frame (fun _ _ ↦ rfl) (fun _ _ ↦ rfl) (fun _ _ ↦ rfl) (fun _ _ ↦ rfl) hheld
    (fun _ _ ↦ Iff.rfl) ?_ (fun _ _ _ ↦ Iff.rfl) ?_
  · intro other hother
    simp [hevicting, Ne.symm hother]
  · refine ⟨hframe.beyond, hframe.free, hframe.holding, hframe.mapped, hframe.unmapped, ?_⟩
    have hold := hframe.queued
    simp only [hstate, hevicting, if_true] at hold
    simp only [hnew, hstate, if_true, reduceCtorEq, if_false]
    omega

/-- An evicting frame is free. Either it has left the queue, or its held mark is taken off. -/
theorem reclaim (hheld : ∀ other, other ≠ frame → (words' other).held = (words other).held)
    (hevicting' : ∀ other, other ≠ frame → (evicting' = some other ↔ evicting = some other))
    (hstate : (frames frame).state = .evicting) (hnew : (words' frame).held = false)
    (hgone : evicting' ≠ some frame)
    (hplace : (words frame).held = true ∨ evicting = some frame)
    (hcount : ∀ other, free'.count other + reserve'.count other =
      free.count other + reserve.count other + if other = frame then 1 else 0) (page : PageId)
    (generation : ℕ) :
    FramesInv frameCount unmapped evicting'
      (Function.update frames frame ⟨.free, generation, page⟩) table free' reserve' queue words'
      holding := by
  have hframe := h frame
  have hlt : frame < frameCount := h.lt_of_state_ne_free (by simp [hstate])
  refine h.change frame ?_ ?_ (fun _ _ ↦ rfl) (fun _ _ ↦ rfl) hheld (fun _ _ ↦ Iff.rfl) hevicting'
    (fun _ _ _ ↦ Iff.rfl) ?_
  · intro other hother
    exact Function.update_of_ne hother _ _
  · intro other hother
    simpa [hother] using hcount other
  · rw [Function.update_self]
    constructor
    · exact fun _ ↦ rfl
    · have hnewCount := hcount frame
      have hold := hframe.free
      simp only [hstate, reduceCtorEq, and_false, if_false] at hold
      simp only [if_true] at hnewCount
      rw [if_pos ⟨hlt, rfl⟩]
      omega
    · simpa [hstate] using hframe.holding
    · intro mapped
      simp [hframe.mapped mapped, hstate]
    · intro hunmapped
      have hresident := hframe.unmapped hunmapped
      rw [hstate] at hresident
      cases hresident
    · have hold := hframe.queued
      rw [if_pos hstate] at hold
      simp only [hnew, hgone, if_false, reduceCtorEq]
      rcases hplace with hheld | hevicting
      · simp only [hheld, if_true] at hold
        omega
      · simp only [hevicting, if_true] at hold
        omega

end Moves

end FramesInv

end DiosPool.Pool
