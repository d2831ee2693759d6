import Mathlib

/-!
# Neighbours in a list

What a doubly linked list stores for each of its members is the member before it and the member
after it. Linking and unlinking one member are then equations about the neighbours of the others.
The member before is the member after in the reversed list, so that every equation is proved for one
direction.
-/

namespace DiosPool.Foundation.Neighbours

variable {ι : Type*} [DecidableEq ι]

/-- The member that follows `member`. -/
def after : List ι → ι → Option ι
  | [], _ => none
  | head :: tail, member => if member = head then tail.head? else after tail member

/-- The member that `member` follows. -/
def before (members : List ι) (member : ι) : Option ι := after members.reverse member

variable {members : List ι} {member other : ι}

theorem after_eq_none_of_notMem (h : member ∉ members) : after members member = none := by
  induction members with
  | nil => rfl
  | cons head tail ih =>
    obtain ⟨hhead, htail⟩ := List.ne_and_not_mem_of_not_mem_cons h
    rw [after, if_neg hhead, ih htail]

/-- A list is walked by following its members. -/
theorem after_append {front : List ι} (h : member ∉ front) (rest : List ι) :
    after (front ++ member :: rest) member = rest.head? := by
  induction front with
  | nil => rw [List.nil_append, after, if_pos rfl]
  | cons head tail ih =>
    obtain ⟨hhead, htail⟩ := List.ne_and_not_mem_of_not_mem_cons h
    rw [List.cons_append, after, if_neg hhead, ih htail]

theorem after_eq_some_iff (hnodup : members.Nodup) :
    after members member = some other ↔ [member, other] <:+: members := by
  constructor
  · intro h
    induction members with
    | nil => cases h
    | cons head tail ih =>
      rw [after] at h
      split at h
      case isTrue hmember =>
        obtain ⟨rest, rfl⟩ := List.head?_eq_some_iff.mp h
        exact ⟨[], rest, by rw [hmember]; rfl⟩
      case isFalse => exact (ih hnodup.of_cons h).trans (List.suffix_cons head tail).isInfix
  · rintro ⟨front, rest, rfl⟩
    have hfront : member ∉ front := by
      intro hmem
      rw [List.append_assoc, List.nodup_append] at hnodup
      exact hnodup.2.2 member hmem member (by simp) rfl
    rw [List.append_assoc]
    exact after_append hfront (other :: rest)

theorem before_eq_some_iff (hnodup : members.Nodup) :
    before members other = some member ↔ after members member = some other := by
  rw [before, after_eq_some_iff (List.nodup_reverse.mpr hnodup), after_eq_some_iff hnodup,
    ← List.reverse_infix, List.reverse_reverse]
  rfl

theorem mem_of_after_eq_some (hnodup : members.Nodup) (h : after members member = some other) :
    member ∈ members ∧ other ∈ members := by
  have hadjacent := (after_eq_some_iff hnodup).mp h
  exact ⟨hadjacent.subset (by simp), hadjacent.subset (by simp)⟩

theorem ne_of_after_eq_some (hnodup : members.Nodup) (h : after members member = some other) :
    member ≠ other := by
  have hpair := ((after_eq_some_iff hnodup).mp h).sublist.nodup hnodup
  simpa using hpair

/-- The neighbours of a member are different. -/
theorem ne_of_after_of_after {middle : ι} (hnodup : members.Nodup)
    (hfirst : after members member = some middle) (hsecond : after members middle = some other) :
    member ≠ other := by
  obtain ⟨front, rest, rfl⟩ := (after_eq_some_iff hnodup).mp hfirst
  have hmiddle : middle ∉ front ++ [member] := by
    grind [List.nodup_append]
  rw [show front ++ [member, middle] ++ rest = front ++ [member] ++ middle :: rest by simp,
    after_append hmiddle] at hsecond
  have hother : other ∈ rest := List.mem_of_head? hsecond
  grind [List.nodup_append]

/-! ## The ends -/

theorem after_eq_none_iff (hnodup : members.Nodup) (hmem : member ∈ members) :
    after members member = none ↔ members.getLast? = some member := by
  obtain ⟨front, rest, rfl⟩ := List.append_of_mem hmem
  have hfront : member ∉ front := by
    intro hmem
    exact (List.nodup_append.mp hnodup).2.2 member hmem member List.mem_cons_self rfl
  rw [after_append hfront]
  rcases List.eq_nil_or_concat' rest with rfl | ⟨inner, last, rfl⟩
  · simp
  · have hne : last ≠ member := by
      rintro rfl
      have hrest := (List.nodup_append.mp hnodup).2.1
      exact (List.nodup_cons.mp hrest).1 (by simp)
    constructor
    · intro h
      simp at h
    · intro h
      rw [← List.cons_append, ← List.append_assoc, List.getLast?_concat, Option.some.injEq] at h
      exact absurd h hne

theorem before_eq_none_iff (hnodup : members.Nodup) (hmem : member ∈ members) :
    before members member = none ↔ members.head? = some member := by
  rw [before, after_eq_none_iff (List.nodup_reverse.mpr hnodup) (List.mem_reverse.mpr hmem),
    List.getLast?_reverse]

/-! ## A new member at an end -/

theorem after_concat (hnodup : (members ++ [other]).Nodup) (member : ι) :
    after (members ++ [other]) member =
      if members.getLast? = some member then some other else after members member := by
  induction members with
  | nil =>
    simp [after]
  | cons head tail ih =>
    rw [List.cons_append, List.nodup_cons] at hnodup
    rw [List.cons_append, after, after, ih hnodup.2]
    rcases List.eq_nil_or_concat' tail with rfl | ⟨inner, last, rfl⟩
    · by_cases hmember : member = head
      · simp [hmember]
      · simp [hmember, Ne.symm hmember, after]
    · rw [← List.cons_append, List.getLast?_concat, List.getLast?_concat]
      by_cases hmember : member = head
      · have hlast : last ≠ member := by
          rintro rfl
          exact hnodup.1 (by simp [hmember])
        rw [if_pos hmember, if_pos hmember, if_neg (by simpa using hlast)]
        cases inner <;> rfl
      · rw [if_neg hmember, if_neg hmember]

theorem before_concat (member : ι) :
    before (members ++ [other]) member =
      if member = other then members.getLast? else before members member := by
  rw [before, List.reverse_concat, after, List.head?_reverse]
  rfl

theorem before_cons (hnodup : (other :: members).Nodup) (member : ι) :
    before (other :: members) member =
      if members.head? = some member then some other else before members member := by
  have hreverse : (members.reverse ++ [other]).Nodup := by
    rw [← List.reverse_cons]
    exact List.nodup_reverse.mpr hnodup
  rw [before, List.reverse_cons, after_concat hreverse, List.getLast?_reverse]
  rfl

/-! ## A member leaves -/

theorem reverse_erase (hnodup : members.Nodup) (other : ι) :
    (members.erase other).reverse = members.reverse.erase other := by
  rw [hnodup.erase_eq_filter, (List.nodup_reverse.mpr hnodup).erase_eq_filter, List.filter_reverse]

theorem head?_erase (hnodup : members.Nodup) (other : ι) :
    (members.erase other).head? =
      if members.head? = some other then after members other else members.head? := by
  cases members with
  | nil => rfl
  | cons head tail =>
    rw [List.erase_cons, after]
    by_cases hhead : head = other
    · simp [hhead]
    · simp [hhead]

theorem getLast?_erase (hnodup : members.Nodup) (other : ι) :
    (members.erase other).getLast? =
      if members.getLast? = some other then before members other else members.getLast? := by
  have hhead := head?_erase (List.nodup_reverse.mpr hnodup) other
  rwa [← reverse_erase hnodup, List.head?_reverse, List.head?_reverse] at hhead

theorem after_erase (hnodup : members.Nodup) (hne : member ≠ other) :
    after (members.erase other) member =
      if after members member = some other then after members other else after members member := by
  induction members with
  | nil => rfl
  | cons head tail ih =>
    obtain ⟨hhead, htail⟩ := List.nodup_cons.mp hnodup
    rw [List.erase_cons]
    by_cases hother : head = other
    · subst hother
      have hlater : after tail member ≠ some head := fun h ↦
        hhead (mem_of_after_eq_some htail h).2
      simp [after, hne, hlater]
    · rw [if_neg (by simpa using hother), after, after, after, if_neg (Ne.symm hother)]
      by_cases hmember : member = head
      · rw [if_pos hmember, if_pos hmember, head?_erase htail]
      · rw [if_neg hmember, if_neg hmember, ih htail]

theorem before_erase (hnodup : members.Nodup) (hne : member ≠ other) :
    before (members.erase other) member =
      if before members member = some other then before members other
      else before members member := by
  rw [before, reverse_erase hnodup, after_erase (List.nodup_reverse.mpr hnodup) hne]
  rfl

end DiosPool.Foundation.Neighbours
