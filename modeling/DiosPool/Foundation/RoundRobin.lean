import Mathlib.Data.List.Basic
import Mathlib.Data.List.Nodup

/-!
# Round robin

A queue of those that ask for a turn. Who asks goes to the end unless already there, who stops asking
leaves. A turn takes its owner out and puts them back at the end. Nobody who keeps asking is overtaken.
-/

namespace DiosPool.Foundation

variable {α : Type} {members : List α} {asker owner waiter : α} {asks : Bool}

theorem sublist_of_concat (h : [owner, waiter].Sublist (members ++ [asker])) (hne : waiter ≠ asker) :
    [owner, waiter].Sublist members := by
  obtain ⟨left, right, hsplit, hleft, hright⟩ := List.sublist_append_iff.mp h
  cases List.sublist_singleton.mp hright with
  | inl hnil =>
    rw [hnil, List.append_nil] at hsplit
    rwa [hsplit]
  | inr hlast =>
    have hwaiter := congrArg List.getLast? hsplit
    rw [hlast, List.getLast?_concat] at hwaiter
    cases hwaiter
    exact absurd rfl hne

theorem sublist_of_head (hhead : members.head? = some owner) (hwaiter : waiter ∈ members)
    (hne : waiter ≠ owner) : [owner, waiter].Sublist members := by
  obtain ⟨rest, rfl⟩ := List.head?_eq_some_iff.mp hhead
  have hrest : waiter ∈ rest := (List.mem_cons.mp hwaiter).resolve_left hne
  exact (List.singleton_sublist.mpr hrest).cons_cons owner

variable [DecidableEq α]

/-- The queue after `asker` has said whether it asks for a turn. -/
def requeue (members : List α) (asker : α) (asks : Bool) : List α :=
  if asks then if asker ∈ members then members else members ++ [asker] else members.erase asker

theorem mem_requeue (hnodup : members.Nodup) :
    waiter ∈ requeue members asker asks ↔ if waiter = asker then asks = true else waiter ∈ members := by
  unfold requeue
  split <;> split <;> grind [List.Nodup.mem_erase_iff]

/-- Nobody gets ahead of a member, whoever asks. -/
theorem sublist_of_requeue (hwaiter : waiter ∈ members)
    (h : [owner, waiter].Sublist (requeue members asker asks)) : [owner, waiter].Sublist members := by
  unfold requeue at h
  split at h
  · split at h
    · exact h
    · exact sublist_of_concat h (ne_of_mem_of_not_mem hwaiter ‹_›)
  · exact h.trans List.erase_sublist

/-- What happens to the queue, with the owner of a turn. -/
inductive Rotates (members : List α) : Option α → List α → Prop
  | stay : Rotates members none members
  | ask (asker : α) (asks : Bool) : Rotates members none (requeue members asker asks)
  | turn (owner : α) (asks : Bool) :
      Rotates members (some owner) (requeue (members.erase owner) owner asks)

variable {turn : Option α} {after : List α}

/-- Nobody gets ahead of a member who does not have a turn. -/
theorem Rotates.sublist (h : Rotates members turn after) (hwaiter : waiter ∈ members)
    (hturn : turn ≠ some waiter) (hafter : [owner, waiter].Sublist after) :
    [owner, waiter].Sublist members := by
  cases h with
  | stay => exact hafter
  | ask asker asks => exact sublist_of_requeue hwaiter hafter
  | turn other asks =>
    have hother : waiter ≠ other := fun heq ↦ hturn (heq ▸ rfl)
    exact (sublist_of_requeue ((List.mem_erase_of_ne hother).mpr hwaiter) hafter).trans
      List.erase_sublist

/-- After its turn the owner is behind all other members. -/
theorem Rotates.not_sublist (h : Rotates members (some owner) after) (hnodup : members.Nodup)
    (hwaiter : waiter ∈ after) (hne : waiter ≠ owner) : ¬ [owner, waiter].Sublist after := by
  intro hafter
  cases h with
  | turn _ asks =>
    rw [mem_requeue (hnodup.erase owner), if_neg hne] at hwaiter
    exact hnodup.not_mem_erase ((sublist_of_requeue hwaiter hafter).subset List.mem_cons_self)

end DiosPool.Foundation
