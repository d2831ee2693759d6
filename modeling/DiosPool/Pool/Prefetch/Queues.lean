import DiosPool.Foundation.Neighbours
import DiosPool.Foundation.Simulation
import DiosPool.Pool.Prefetch.Ledger

/-!
# Index queues are queues

The links of an index queue are the neighbours in a list without duplicates. A push appends an index
that is not there, a removal takes one out of the middle, and neither fails an expectation on the way.
-/

namespace DiosPool.Pool

open Foundation Foundation.Neighbours

/-- A call of an index queue. -/
inductive QueueCall
  | front
  | push (index : ℕ)
  | remove (index : ℕ)
  | pop
  deriving DecidableEq, Repr

namespace QueueCall

/-- Whether the call names a link of a queue with `capacity` links. -/
def inBounds (capacity : ℕ) : QueueCall → Bool
  | .push index => index < capacity
  | .remove index => index < capacity
  | .front => true
  | .pop => true

end QueueCall

/-- The check of an array access. -/
def checkBounds (capacity index : ℕ) : Except Assertion Unit :=
  ensure (index < capacity) "index out of bounds"

namespace IndexQueue

def front (queue : IndexQueue) : Option ℕ := queue.first

/-- A call on a queue with `capacity` links, and its answer. -/
def call (capacity : ℕ) : QueueCall → IndexQueue → Except Assertion (Option ℕ × IndexQueue)
  | .front, queue => return (queue.front, queue)
  | .push index, queue => do
    checkBounds capacity index
    return (none, ← queue.push index)
  | .remove index, queue => do
    checkBounds capacity index
    return (none, ← queue.remove index)
  | .pop, queue => queue.pop

end IndexQueue

/-- What an index queue is for: a list of distinct indices in the order in which they came. -/
def fifoCall (capacity : ℕ) : QueueCall → List ℕ → Except Assertion (Option ℕ × List ℕ)
  | .front, members => return (members.head?, members)
  | .push index, members => do
    checkBounds capacity index
    return (none, if index ∈ members then members else members ++ [index])
  | .remove index, members => do
    checkBounds capacity index
    return (none, members.erase index)
  | .pop, members => return (members.head?, members.tail)

namespace IndexQueue

/-- The queue links the members of a list in its order. -/
structure Lists (queue : IndexQueue) (members : List ℕ) : Prop where
  nodup : members.Nodup
  first : queue.first = members.head?
  last : queue.last = members.getLast?
  links : ∀ index, queue.links index =
    if index ∈ members then some ⟨before members index, after members index⟩ else none

theorem new_lists : new.Lists [] := ⟨List.nodup_nil, rfl, rfl, fun _ ↦ rfl⟩

variable {queue : IndexQueue} {members : List ℕ} {index : ℕ}

namespace Lists

theorem links_of_mem (h : queue.Lists members) (hmem : index ∈ members) :
    queue.links index = some ⟨before members index, after members index⟩ := by
  rw [h.links, if_pos hmem]

theorem links_of_notMem (h : queue.Lists members) (hmem : index ∉ members) :
    queue.links index = none := by
  rw [h.links, if_neg hmem]

theorem isSome_links (h : queue.Lists members) (index : ℕ) :
    (queue.links index).isSome ↔ index ∈ members := by
  rw [h.links]
  split <;> simp_all

/-- A member of the queue stays where it is. -/
theorem push_mem (h : queue.Lists members) (hmem : index ∈ members) :
    queue.push index = .ok queue := by
  rw [push, if_pos ((h.isSome_links index).mpr hmem)]
  rfl

end Lists

theorem relink_eq {links : Links} (h : queue.links index = some links) (message : String)
    (change : Links → Links) :
    queue.relink index message change =
      .ok { queue with links := Function.update queue.links index (some (change links)) } := by
  rw [relink, h]
  rfl

/-- The links after a push behind the member `last`. -/
theorem Lists.push_behind (h : queue.Lists members) {last : ℕ}
    (hlast : members.getLast? = some last) (hindex : index ∉ members) :
    queue.push index = .ok
      { queue with
        links := Function.update (Function.update queue.links index (some ⟨some last, none⟩)) last
          (some ⟨before members last, some index⟩)
        last := some index } := by
  have hmem : last ∈ members := List.mem_of_getLast? hlast
  have hlinks : Function.update queue.links index (some ⟨some last, none⟩) last =
      some ⟨before members last, after members last⟩ := by
    rw [Function.update_of_ne (ne_of_mem_of_not_mem hmem hindex), h.links_of_mem hmem]
  rw [push, if_neg (by rw [h.isSome_links]; exact hindex)]
  simp only [h.last, hlast]
  rw [relink_eq hlinks]
  rfl

/-- An index that is not in the queue goes to its end. -/
theorem Lists.push_notMem (h : queue.Lists members) (hindex : index ∉ members) :
    ∃ queue', queue.push index = .ok queue' ∧ queue'.Lists (members ++ [index]) := by
  have hnodup : (members ++ [index]).Nodup :=
    List.nodup_append.mpr ⟨h.nodup, List.nodup_singleton _, by grind⟩
  cases hlast : members.getLast? with
  | none =>
    obtain rfl := List.getLast?_eq_none_iff.mp hlast
    refine ⟨⟨Function.update queue.links index (some ⟨none, none⟩), some index, some index⟩, ?_,
      hnodup, rfl, rfl, fun other ↦ ?_⟩
    · rw [push, if_neg (by rw [h.isSome_links]; exact hindex)]
      simp only [h.last, hlast]
      rfl
    · by_cases hother : other = index
      · subst hother
        simp [before, after]
      · simp [hother, h.links]
  | some last =>
    have hmem : last ∈ members := List.mem_of_getLast? hlast
    refine ⟨_, h.push_behind hlast hindex, hnodup, ?_, ?_, fun other ↦ ?_⟩
    · rw [h.first, List.head?_append_of_ne_nil _ (List.ne_nil_of_mem hmem)]
    · rw [List.getLast?_concat]
    · dsimp only
      rw [after_concat hnodup, before_concat, hlast]
      by_cases hother : other = last
      · subst hother
        rw [Function.update_self, if_neg (ne_of_mem_of_not_mem hmem hindex), if_pos rfl,
          if_pos (List.mem_append_left _ hmem)]
      · have hbehind : ¬some last = some other := by
          simpa using Ne.symm hother
        rw [Function.update_of_ne hother, if_neg hbehind]
        by_cases hnew : other = index
        · subst hnew
          rw [Function.update_self, if_pos rfl, if_pos (by simp), after_eq_none_of_notMem hindex]
        · rw [Function.update_of_ne hnew, if_neg hnew, h.links]
          simp [hnew]

/-- The links after the removal of a member. -/
def unlinked (queue : IndexQueue) (index : ℕ) (links : Links) : IndexQueue where
  links other :=
    if other = index then none
    else (queue.links other).map fun kept ↦
      { previous := if links.next = some other then links.previous else kept.previous
        next := if links.previous = some other then links.next else kept.next }
  first := if links.previous.isSome then queue.first else links.next
  last := if links.next.isSome then queue.last else links.previous

theorem Lists.unlinked (h : queue.Lists members) (hmem : index ∈ members) :
    (queue.unlinked index ⟨before members index, after members index⟩).Lists
      (members.erase index) := by
  refine ⟨h.nodup.erase index, ?_, ?_, fun other ↦ ?_⟩
  · rw [head?_erase h.nodup]
    dsimp only [IndexQueue.unlinked]
    by_cases hfirst : members.head? = some index
    · rw [if_pos hfirst, (before_eq_none_iff h.nodup hmem).mpr hfirst]
      rfl
    · have hbefore := Option.ne_none_iff_isSome.mp (mt (before_eq_none_iff h.nodup hmem).mp hfirst)
      rw [if_neg hfirst, if_pos hbefore, h.first]
  · rw [getLast?_erase h.nodup]
    dsimp only [IndexQueue.unlinked]
    by_cases hlast : members.getLast? = some index
    · rw [if_pos hlast, (after_eq_none_iff h.nodup hmem).mpr hlast]
      rfl
    · have hafter := Option.ne_none_iff_isSome.mp (mt (after_eq_none_iff h.nodup hmem).mp hlast)
      rw [if_neg hlast, if_pos hafter, h.last]
  · dsimp only [IndexQueue.unlinked]
    by_cases hother : other = index
    · subst hother
      rw [if_pos rfl, if_neg (List.Nodup.not_mem_erase h.nodup)]
    · rw [if_neg hother, h.links, before_erase h.nodup hother, after_erase h.nodup hother]
      simp only [before_eq_some_iff h.nodup, List.mem_erase_of_ne hother]
      by_cases hkept : other ∈ members
      · rw [if_pos hkept, if_pos hkept]
        rfl
      · rw [if_neg hkept, if_neg hkept]
        rfl

/-- The removal of a member joins its neighbours. -/
theorem Lists.remove_eq (h : queue.Lists members) (hmem : index ∈ members) :
    queue.remove index =
      .ok (queue.unlinked index ⟨before members index, after members index⟩) := by
  have hlinks := h.links_of_mem hmem
  -- A neighbour is another member, so that its links are there.
  have hneighbour : ∀ {other}, other ∈ members → other ≠ index →
      Function.update queue.links index none other =
        some ⟨before members other, after members other⟩ := by
    intro other hother hne
    rw [Function.update_of_ne hne, h.links_of_mem hother]
  rw [remove, hlinks]
  cases hbefore : before members index with
  | none =>
    cases hafter : after members index with
    | none =>
      simp only [pure_ok, ok_bind, Except.ok.injEq, IndexQueue.unlinked, mk.injEq,
        Function.update_apply, funext_iff]
      grind [h.links]
    | some next =>
      have hnext := (mem_of_after_eq_some h.nodup hafter).2
      have hne := (ne_of_after_eq_some h.nodup hafter).symm
      dsimp only [pure_ok, ok_bind]
      rw [relink_eq (hneighbour hnext hne)]
      simp only [Except.ok.injEq, IndexQueue.unlinked, mk.injEq, Function.update_apply, funext_iff]
      grind [h.links]
  | some previous =>
    have hforward := (before_eq_some_iff h.nodup).mp hbefore
    have hprevious := (mem_of_after_eq_some h.nodup hforward).1
    have hne := ne_of_after_eq_some h.nodup hforward
    dsimp only
    rw [relink_eq (hneighbour hprevious hne), ok_bind]
    cases hafter : after members index with
    | none =>
      simp only [pure_ok, Except.ok.injEq, IndexQueue.unlinked, mk.injEq, Function.update_apply,
        funext_iff]
      grind [h.links]
    | some next =>
      have hnext : Function.update (Function.update queue.links index none) previous
          (some ⟨before members previous, some next⟩) next =
            some ⟨before members next, after members next⟩ := by
        rw [Function.update_of_ne (ne_of_after_of_after h.nodup hforward hafter).symm]
        exact hneighbour (mem_of_after_eq_some h.nodup hafter).2
          (ne_of_after_eq_some h.nodup hafter).symm
      dsimp only
      rw [relink_eq hnext]
      simp only [Except.ok.injEq, IndexQueue.unlinked, mk.injEq, Function.update_apply, funext_iff]
      grind [h.links]

/-- A removal takes out one index, wherever it is. -/
theorem Lists.remove (h : queue.Lists members) (index : ℕ) :
    ∃ queue', queue.remove index = .ok queue' ∧ queue'.Lists (members.erase index) := by
  by_cases hmem : index ∈ members
  · exact ⟨_, h.remove_eq hmem, h.unlinked hmem⟩
  · refine ⟨queue, ?_, ?_⟩
    · rw [IndexQueue.remove, h.links_of_notMem hmem]
      rfl
    · rwa [List.erase_of_not_mem hmem]

theorem Lists.push (h : queue.Lists members) (index : ℕ) :
    ∃ queue', queue.push index = .ok queue' ∧
      queue'.Lists (if index ∈ members then members else members ++ [index]) := by
  by_cases hmem : index ∈ members
  · exact ⟨queue, h.push_mem hmem, by rwa [if_pos hmem]⟩
  · rw [if_neg hmem]
    exact h.push_notMem hmem

theorem Lists.pop (h : queue.Lists members) :
    ∃ queue', queue.pop = .ok (members.head?, queue') ∧ queue'.Lists members.tail := by
  cases members with
  | nil =>
    refine ⟨queue, ?_, h⟩
    rw [IndexQueue.pop, h.first]
    rfl
  | cons index rest =>
    obtain ⟨queue', hremove, hrest⟩ := h.remove index
    rw [List.erase_cons_head] at hrest
    refine ⟨queue', ?_, hrest⟩
    rw [IndexQueue.pop, h.first]
    simp only [List.head?_cons, hremove]
    rfl

/-! ## Runs -/

theorem call_lockstep (capacity : ℕ) (request : QueueCall) (queue : IndexQueue) (members : List ℕ)
    (h : queue.Lists members) :
    Lockstep Lists (call capacity request queue) (fifoCall capacity request members) := by
  cases request with
  | front =>
    dsimp only [call, fifoCall, front]
    rw [h.first]
    exact .answer _ h
  | push index =>
    obtain ⟨queue', hpush, hlists⟩ := h.push index
    by_cases hindex : index < capacity
    · simp only [call, fifoCall, checkBounds, ensure_true hindex, ok_bind, hpush]
      exact .answer _ hlists
    · simp only [call, fifoCall, checkBounds, ensure, if_neg hindex]
      exact .failure _
  | remove index =>
    obtain ⟨queue', hremove, hlists⟩ := h.remove index
    by_cases hindex : index < capacity
    · simp only [call, fifoCall, checkBounds, ensure_true hindex, ok_bind, hremove]
      exact .answer _ hlists
    · simp only [call, fifoCall, checkBounds, ensure, if_neg hindex]
      exact .failure _
  | pop =>
    obtain ⟨queue', hpop, hlists⟩ := h.pop
    simp only [call, fifoCall, hpop]
    exact .answer _ hlists

/-- A list of distinct indices fails only where a call is out of bounds. -/
theorem observe_fifoCall_failure (capacity : ℕ) (calls : List QueueCall) :
    ∀ members, (observe (fifoCall capacity) calls members).2 =
      if calls.all (·.inBounds capacity) then none else some ⟨"index out of bounds"⟩ := by
  induction calls with
  | nil => exact fun members ↦ rfl
  | cons request calls ih =>
    intro members
    rw [List.all_cons, observe]
    cases request with
    | front => exact ih _
    | pop => exact ih _
    | push index =>
      by_cases hindex : index < capacity
      · simp only [fifoCall, checkBounds, QueueCall.inBounds, hindex, decide_true,
          Bool.true_and]
        exact ih _
      · simp [fifoCall, checkBounds, ensure, hindex, QueueCall.inBounds]
    | remove index =>
      by_cases hindex : index < capacity
      · simp only [fifoCall, checkBounds, QueueCall.inBounds, hindex, decide_true,
          Bool.true_and]
        exact ih _
      · simp [fifoCall, checkBounds, ensure, hindex, QueueCall.inBounds]

/-- An index queue answers every sequence of calls as a list of distinct indices does, in the order
in which they came; the only failure is a call with an index outside the links. -/
theorem answers_as_fifo (capacity : ℕ) (calls : List QueueCall) :
    observe (call capacity) calls new = observe (fifoCall capacity) calls [] ∧
    (observe (call capacity) calls new).2 =
      if calls.all (·.inBounds capacity) then none else some ⟨"index out of bounds"⟩ := by
  have hobserve := observe_eq_of_lockstep (call_lockstep capacity) calls new_lists
  exact ⟨hobserve, hobserve ▸ observe_fifoCall_failure capacity calls []⟩

end IndexQueue

end DiosPool.Pool
