import DiosPool.Foundation.Neighbours
import DiosPool.Pool.FileSlots

/-!
# The members of a file

The links of the occupied slots of a file are the neighbours in a list of its members, the newest
first. An end of the list is encoded by a link to the slot itself, so that a removal has the same four
cases as in any doubly linked list.
-/

namespace DiosPool.Pool

open Foundation Foundation.Neighbours

variable {α : Type}

/-- The link of a slot to its neighbour, or to itself at the end of the list. -/
def neighbourLink (index : ℕ) (neighbour : Option ℕ) : ℕ := slotLink (neighbour.getD index)

@[simp] theorem neighbourLink_none (index : ℕ) : neighbourLink index none = slotLink index := rfl

@[simp] theorem neighbourLink_some (index neighbour : ℕ) :
    neighbourLink index (some neighbour) = slotLink neighbour := rfl

@[simp] theorem slotLink_inj {left right : ℕ} : slotLink left = slotLink right ↔ left = right := by
  simp [slotLink]

@[simp] theorem slotLink_ne_zero (index : ℕ) : slotLink index ≠ 0 := Nat.succ_ne_zero index

@[simp] theorem slotLink_sub_one (index : ℕ) : slotLink index - 1 = index := rfl

namespace FileSlots

variable [FileOwned α]

/-- The slots link the members of every file in the order of its list. -/
structure Lists (table : FileSlots α) (members : ℕ → List ℕ) : Prop where
  nodup : ∀ owner, (members owner).Nodup
  occupied : ∀ index owner,
    index ∈ members owner ↔ (table.get index).map FileOwned.fileSlot = some owner
  heads : ∀ owner, table.heads owner = (members owner).head?.elim 0 slotLink
  previous : ∀ owner, ∀ index ∈ members owner,
    (table.slots index).previous = neighbourLink index (before (members owner) index)
  next : ∀ owner, ∀ index ∈ members owner,
    (table.slots index).next = neighbourLink index (after (members owner) index)

theorem new_lists (capacity : ℕ) : (new capacity : FileSlots α).Lists fun _ ↦ [] where
  nodup _ := List.nodup_nil
  occupied index owner := by simp [new, get, FileSlot.get, FileSlot.vacant]
  heads _ := rfl
  previous owner index hmem := absurd hmem List.not_mem_nil
  next owner index hmem := absurd hmem List.not_mem_nil

variable {table table' : FileSlots α} {members : ℕ → List ℕ} {index owner : ℕ} {value : α}

namespace Lists

theorem owner_eq (h : table.Lists members) (hmem : index ∈ members owner) {other : ℕ}
    (hother : index ∈ members other) : owner = other := by
  rw [h.occupied] at hmem hother
  exact Option.some.inj (hmem.symm.trans hother)

theorem notMem_of_vacant (h : table.Lists members) (hvacant : table.get index = none) (owner : ℕ) :
    index ∉ members owner := by
  rw [h.occupied, hvacant]
  simp

theorem mem_of_get (h : table.Lists members) (hvalue : table.get index = some value) :
    index ∈ members (FileOwned.fileSlot value) := by
  rw [h.occupied, hvalue]
  rfl

end Lists

omit [FileOwned α] in
theorem linkHead_slotLink {head : ℕ} (h : (table.slots head).previous = slotLink head) (link : ℕ) :
    table.linkHead (slotLink head) link =
      .ok (table.modify head fun slot ↦ { slot with previous := link }) := by
  simp [linkHead, slotLink, h]

/-- An insertion makes its slot the neighbour of the old head. -/
theorem Lists.insert_links (h : table.Lists members) (hvacant : table.get index = none)
    (howner : FileOwned.fileSlot value = owner) :
    ∃ table', table.insert index value = .ok table' ∧ table'.capacity = table.capacity ∧
      table'.heads = Function.update table.heads owner (slotLink index) ∧
      (∀ other, (table'.slots other).previous =
        if other = index ∨ (members owner).head? = some other then slotLink index
        else (table.slots other).previous) ∧
      ∀ other, (table'.slots other).next =
        if other = index then neighbourLink index (members owner).head?
        else (table.slots other).next := by
  have hensure : (table.get index).isNone := by rw [hvacant]; rfl
  rw [insert, ensure_true hensure, ok_bind, howner]
  dsimp only
  rw [h.heads]
  cases hhead : (members owner).head? with
  | none =>
    refine ⟨_, rfl, rfl, rfl, fun other ↦ ?_, fun other ↦ ?_⟩
    all_goals
      simp only [modify, Function.update_apply]
      grind [neighbourLink]
  | some head =>
    have hmem : head ∈ members owner := List.mem_of_head? hhead
    have hne : head ≠ index := ne_of_mem_of_not_mem hmem (h.notMem_of_vacant hvacant owner)
    have hprevious : (table.slots head).previous = slotLink head := by
      rw [h.previous owner head hmem, (before_eq_none_iff (h.nodup owner) hmem).mpr hhead]
      rfl
    rw [Option.elim_some, linkHead_slotLink]
    · refine ⟨_, rfl, rfl, rfl, fun other ↦ ?_, fun other ↦ ?_⟩
      all_goals
        simp only [modify, Function.update_apply]
        grind [neighbourLink, slotLink]
    · dsimp only [modify]
      rw [Function.update_of_ne hne, hprevious]

/-- A vacant slot becomes the first member of its file. -/
theorem Lists.insert (h : table.Lists members) (hvacant : table.get index = none)
    (howner : FileOwned.fileSlot value = owner) :
    ∃ table', table.insert index value = .ok table' ∧ table'.capacity = table.capacity ∧
      table'.Lists (Function.update members owner (index :: members owner)) := by
  obtain ⟨table', hinsert, hcapacity, hheads, hprevious, hnext⟩ := h.insert_links hvacant howner
  have hget := (get_insert hinsert).2
  have hnew : index ∉ members owner := h.notMem_of_vacant hvacant owner
  have hnodup : (index :: members owner).Nodup := List.nodup_cons.mpr ⟨hnew, h.nodup owner⟩
  refine ⟨table', hinsert, hcapacity, fun other ↦ ?_, fun slot other ↦ ?_, fun other ↦ ?_,
    fun other slot hslot ↦ ?_, fun other slot hslot ↦ ?_⟩
  · by_cases hother : other = owner
    · subst hother
      rwa [Function.update_self]
    · rw [Function.update_of_ne hother]
      exact h.nodup other
  · rw [hget]
    have hslot := h.occupied slot other
    have hvacancy := h.notMem_of_vacant hvacant other
    simp only [Function.update_apply]
    grind
  · rw [hheads]
    by_cases hother : other = owner
    · subst hother
      rw [Function.update_self, Function.update_self]
      rfl
    · rw [Function.update_of_ne hother, Function.update_of_ne hother, h.heads]
  · rw [hprevious]
    by_cases hother : other = owner
    · subst hother
      rw [Function.update_self] at hslot ⊢
      rw [before_cons hnodup]
      have hold := h.previous other slot
      have hfirst : (members other).head? ≠ some index := fun hhead ↦ hnew (List.mem_of_head? hhead)
      have hnone : before (members other) index = none :=
        after_eq_none_of_notMem (by simpa using hnew)
      grind [neighbourLink]
    · rw [Function.update_of_ne hother] at hslot ⊢
      have hne : slot ≠ index := ne_of_mem_of_not_mem hslot (h.notMem_of_vacant hvacant other)
      have hhead : (members owner).head? ≠ some slot := fun hhead ↦
        hother (h.owner_eq hslot (List.mem_of_head? hhead))
      rw [if_neg (by simp [hne, hhead]), h.previous other slot hslot]
  · rw [hnext]
    by_cases hother : other = owner
    · subst hother
      rw [Function.update_self] at hslot ⊢
      rw [after]
      have hold := h.next other slot
      grind
    · rw [Function.update_of_ne hother] at hslot ⊢
      have hne : slot ≠ index := ne_of_mem_of_not_mem hslot (h.notMem_of_vacant hvacant other)
      rw [if_neg hne, h.next other slot hslot]

/-! ## Removal -/

/-- The list forgets the slot forwards. -/
theorem Lists.unlinkPrevious_links (h : table.Lists members) (hmem : index ∈ members owner) :
    ∃ table', table.unlinkPrevious owner (slotLink index) (table.slots index).previous
        (table.slots index).next = .ok table' ∧ table'.capacity = table.capacity ∧
      table'.heads = Function.update table.heads owner
        (((members owner).erase index).head?.elim 0 slotLink) ∧
      (∀ other, (table'.slots other).previous = (table.slots other).previous) ∧
      ∀ other, (table'.slots other).next =
        if before (members owner) index = some other then
          neighbourLink other (after (members owner) index)
        else (table.slots other).next := by
  have hnodup := h.nodup owner
  rw [h.previous owner index hmem, h.next owner index hmem, unlinkPrevious, head?_erase hnodup]
  cases hbefore : before (members owner) index with
  | none =>
    have hhead := (before_eq_none_iff hnodup hmem).mp hbefore
    have hlink : table.heads owner = slotLink index := by rw [h.heads, hhead]; rfl
    rw [neighbourLink_none, if_pos rfl, ensure_true hlink]
    refine ⟨_, rfl, rfl, ?_, fun _ ↦ rfl, fun other ↦ by simp⟩
    rw [if_pos hhead]
    cases hafter : after (members owner) index with
    | none => simp
    | some next => simp [(ne_of_after_eq_some hnodup hafter).symm]
  | some previous =>
    have hforward := (before_eq_some_iff hnodup).mp hbefore
    have hprevious := (mem_of_after_eq_some hnodup hforward).1
    have hne := ne_of_after_eq_some hnodup hforward
    have hback : (table.slots previous).next = slotLink index := by
      rw [h.next owner previous hprevious, hforward, neighbourLink_some]
    have hhead : (members owner).head? ≠ some index := fun hhead ↦ by
      rw [(before_eq_none_iff hnodup hmem).mpr hhead] at hbefore
      cases hbefore
    rw [neighbourLink_some, if_neg (mt slotLink_inj.mp hne), slotLink_sub_one,
      ensure_true (slotLink_ne_zero previous), ok_bind, ensure_true hback, ok_bind]
    refine ⟨_, rfl, rfl, ?_, fun other ↦ ?_, fun other ↦ ?_⟩
    · rw [if_neg hhead, ← h.heads, Function.update_eq_self]
      rfl
    · simp only [modify, Function.update_apply]
      grind
    · simp only [modify, Function.update_apply]
      cases hafter : after (members owner) index with
      | none => grind [neighbourLink_none]
      | some next =>
        have hnext := (ne_of_after_eq_some hnodup hafter).symm
        grind [neighbourLink_some, slotLink_inj]

/-- The list forgets the slot backwards. -/
theorem Lists.unlinkNext_links (h : table.Lists members) (hmem : index ∈ members owner)
    {middle : FileSlots α}
    (hmiddle : ∀ other, (middle.slots other).previous = (table.slots other).previous) :
    ∃ table', middle.unlinkNext (slotLink index) (table.slots index).previous
        (table.slots index).next = .ok table' ∧ table'.capacity = middle.capacity ∧
      table'.heads = middle.heads ∧
      (∀ other, (table'.slots other).next = (middle.slots other).next) ∧
      ∀ other, (table'.slots other).previous =
        if after (members owner) index = some other then
          neighbourLink other (before (members owner) index)
        else (table.slots other).previous := by
  have hnodup := h.nodup owner
  rw [h.previous owner index hmem, h.next owner index hmem, unlinkNext]
  cases hafter : after (members owner) index with
  | none =>
    rw [neighbourLink_none, if_pos rfl]
    exact ⟨middle, rfl, rfl, rfl, fun _ ↦ rfl, fun other ↦ by simpa using hmiddle other⟩
  | some next =>
    have hnext := (mem_of_after_eq_some hnodup hafter).2
    have hne := (ne_of_after_eq_some hnodup hafter).symm
    have hback : (middle.slots next).previous = slotLink index := by
      rw [hmiddle, h.previous owner next hnext, (before_eq_some_iff hnodup).mpr hafter,
        neighbourLink_some]
    rw [neighbourLink_some, if_neg (mt slotLink_inj.mp hne), slotLink_sub_one, ensure_true hback,
      ok_bind]
    refine ⟨_, rfl, rfl, rfl, fun other ↦ ?_, fun other ↦ ?_⟩
    · simp only [modify, Function.update_apply]
      grind
    · simp only [modify, Function.update_apply]
      cases hbefore : before (members owner) index with
      | none => grind [neighbourLink_none]
      | some previous =>
        have hprevious := ne_of_after_eq_some hnodup ((before_eq_some_iff hnodup).mp hbefore)
        grind [neighbourLink_some, slotLink_inj]

/-- A removed slot leaves the list of its file. -/
theorem Lists.remove (h : table.Lists members) (hvalue : table.get index = some value)
    (howner : FileOwned.fileSlot value = owner) :
    ∃ table', table.remove index = .ok table' ∧ table'.capacity = table.capacity ∧
      table'.Lists (Function.update members owner ((members owner).erase index)) := by
  have hmem : index ∈ members owner := howner ▸ h.mem_of_get hvalue
  have hnodup := h.nodup owner
  obtain ⟨middle, hfirst, hcapacity, hheads, hprevious, hnext⟩ := h.unlinkPrevious_links hmem
  obtain ⟨last, hsecond, hcapacity', hheads', hnext', hprevious'⟩ := h.unlinkNext_links hmem hprevious
  have hremove : table.remove index =
      .ok (last.modify index fun slot ↦ { slot with previous := 0, next := 0 }) := by
    rw [FileSlots.remove, hvalue, expect_some, ok_bind]
    dsimp only
    rw [howner, hfirst, ok_bind, hsecond, ok_bind]
    rfl
  have hget := (get_remove hremove).2
  have hkept : ∀ other, other ≠ index →
      (last.modify index fun slot ↦ { slot with previous := 0, next := 0 }).slots other =
        last.slots other := fun other hother ↦ Function.update_of_ne hother _ _
  have hdistinct : ∀ other slot,
      slot ∈ Function.update members owner ((members owner).erase index) other → slot ≠ index := by
    rintro other slot hslot rfl
    by_cases hother : other = owner
    · subst hother
      rw [Function.update_self] at hslot
      exact hnodup.not_mem_erase hslot
    · rw [Function.update_of_ne hother] at hslot
      exact hother (h.owner_eq hslot hmem)
  refine ⟨_, hremove, hcapacity'.trans hcapacity, fun other ↦ ?_, fun slot other ↦ ?_, fun other ↦ ?_,
    fun other slot hslot ↦ ?_, fun other slot hslot ↦ ?_⟩
  · by_cases hother : other = owner
    · subst hother
      rw [Function.update_self]
      exact hnodup.erase index
    · rw [Function.update_of_ne hother]
      exact h.nodup other
  · rw [hget]
    have hslot := h.occupied slot other
    have hself : index ∈ members other → owner = other := h.owner_eq hmem
    simp only [Function.update_apply]
    grind [List.Nodup.mem_erase_iff]
  · change last.heads other = _
    rw [hheads', hheads]
    by_cases hother : other = owner
    · subst hother
      rw [Function.update_self, Function.update_self]
    · rw [Function.update_of_ne hother, Function.update_of_ne hother, h.heads]
  · have hne := hdistinct other slot hslot
    rw [hkept slot hne, hprevious']
    by_cases hother : other = owner
    · subst hother
      rw [Function.update_self] at hslot ⊢
      rw [before_erase hnodup hne, h.previous other slot (List.mem_of_mem_erase hslot)]
      simp only [before_eq_some_iff hnodup]
      split <;> rfl
    · rw [Function.update_of_ne hother] at hslot ⊢
      rw [if_neg fun hafter ↦ hother (h.owner_eq hslot (mem_of_after_eq_some hnodup hafter).2),
        h.previous other slot hslot]
  · have hne := hdistinct other slot hslot
    rw [hkept slot hne, hnext', hnext]
    by_cases hother : other = owner
    · subst hother
      rw [Function.update_self] at hslot ⊢
      rw [after_erase hnodup hne, h.next other slot (List.mem_of_mem_erase hslot)]
      simp only [before_eq_some_iff hnodup]
      split <;> rfl
    · rw [Function.update_of_ne hother] at hslot ⊢
      have hbefore : before (members owner) index ≠ some slot := fun hbefore ↦
        hother (h.owner_eq hslot
          (mem_of_after_eq_some hnodup ((before_eq_some_iff hnodup).mp hbefore)).1)
      rw [if_neg hbefore, h.next other slot hslot]

/-! ## The members of a file -/

/-- The traversal from a member lists the rest of its file. -/
theorem Lists.forFileFrom (h : table.Lists members) (rest : List ℕ) :
    ∀ (front : List ℕ) (remaining : ℕ), members owner = front ++ rest → rest.length ≤ remaining →
      ∃ found, table.forFileFrom owner remaining (rest.head?.elim 0 slotLink) = .ok found ∧
        found.map Prod.fst = rest ∧ ∀ pair ∈ found, table.get pair.1 = some pair.2 := by
  induction rest with
  | nil =>
    intro front remaining hsplit hlength
    refine ⟨[], ?_, rfl, by simp⟩
    cases remaining <;> rfl
  | cons index rest ih =>
    intro front remaining hsplit hlength
    have hmem : index ∈ members owner := by rw [hsplit]; simp
    have hfront : index ∉ front := by
      have hnodup := h.nodup owner
      rw [hsplit] at hnodup
      grind [List.nodup_append]
    have hnext : (table.slots index).next = neighbourLink index rest.head? := by
      rw [h.next owner index hmem, hsplit, after_append hfront]
    obtain ⟨value, hvalue, howner⟩ := Option.map_eq_some_iff.mp ((h.occupied index owner).mp hmem)
    cases remaining with
    | zero => simp at hlength
    | succ remaining =>
      obtain ⟨found, hfound, hmap, hget⟩ :=
        ih (front ++ [index]) remaining (by simp [hsplit]) (by simpa using hlength)
      refine ⟨(index, value) :: found, ?_, by simp [hmap], ?_⟩
      · rw [List.head?_cons, Option.elim_some, slotLink, FileSlots.forFileFrom, hvalue, expect_some, ok_bind,
          ensure_true howner, ok_bind]
        dsimp only
        have hcursor : (if (table.slots index).next = index + 1 then 0 else (table.slots index).next) =
            rest.head?.elim 0 slotLink := by
          rw [hnext]
          cases hhead : rest.head? with
          | none => simp [slotLink]
          | some next =>
            have hne : next ≠ index := by
              rintro rfl
              have hnodup := h.nodup owner
              rw [hsplit] at hnodup
              exact (List.nodup_cons.mp hnodup.of_append_right).1 (List.mem_of_head? hhead)
            simp [slotLink, hne]
        rw [hcursor, hfound]
        rfl
      · intro pair hpair
        rcases List.mem_cons.mp hpair with rfl | hpair
        · exact hvalue
        · exact hget pair hpair

theorem Lists.forFile (h : table.Lists members) (hlength : ∀ owner, (members owner).length ≤ table.capacity)
    (file : FileId) :
    ∃ found, table.forFile file = .ok found ∧ (found.map Prod.fst).Nodup ∧
      ∀ index value, (index, value) ∈ found ↔
        table.get index = some value ∧ FileOwned.fileSlot value = file.slot := by
  obtain ⟨found, hfound, hmap, hget⟩ := h.forFileFrom (members file.slot) [] table.capacity rfl (hlength _)
  refine ⟨found, ?_, hmap ▸ h.nodup _, fun index value ↦ ⟨fun hmem ↦ ?_, fun hmem ↦ ?_⟩⟩
  · rw [FileSlots.forFile, h.heads, hfound]
  · have hvalue := hget _ hmem
    have howner : index ∈ members file.slot := hmap ▸ List.mem_map_of_mem hmem
    rw [h.occupied, hvalue] at howner
    exact ⟨hvalue, by simpa using howner⟩
  · have howner : index ∈ found.map Prod.fst := by
      rw [hmap, ← hmem.2]
      exact h.mem_of_get hmem.1
    obtain ⟨⟨_, other⟩, hpair, rfl⟩ := List.mem_map.mp howner
    have hsame := (hget _ hpair).symm.trans hmem.1
    rw [Option.some.injEq] at hsame
    rwa [← hsame]

end FileSlots

/-! ## Runs -/

/-- A change of one slot. -/
inductive SlotEdit (α : Type)
  | insert (index : ℕ) (value : α)
  | remove (index : ℕ)
  deriving Repr

namespace SlotEdit

variable [FileOwned α]

def apply (table : FileSlots α) : SlotEdit α → Except Assertion (FileSlots α)
  | .insert index value => table.insert index value
  | .remove index => table.remove index

/-- What an edit does to the values of `capacity` slots that belong to `files` file slots, if it inserts
into a vacant slot or removes from an occupied one. -/
def effect (capacity files : ℕ) (contents : ℕ → Option α) : SlotEdit α → Option (ℕ → Option α)
  | .insert index value =>
    if index < capacity ∧ FileOwned.fileSlot value < files ∧ (contents index).isNone then
      some (Function.update contents index (some value))
    else none
  | .remove index =>
    if (contents index).isSome then some (Function.update contents index none) else none

end SlotEdit

namespace FileSlots

variable [FileOwned α]

/-- What every sequence of edits keeps. -/
structure Sound (capacity : ℕ) (contents : ℕ → Option α) (table : FileSlots α) : Prop where
  lists : ∃ members, table.Lists members
  capacity_eq : table.capacity = capacity
  get_eq : table.get = contents
  bounded : ∀ index, (contents index).isSome → index < capacity

variable {capacity files : ℕ} {contents contents' : ℕ → Option α} {table : FileSlots α}

theorem new_sound (capacity : ℕ) : Sound capacity (fun _ ↦ none) (new capacity : FileSlots α) where
  lists := ⟨_, new_lists capacity⟩
  capacity_eq := rfl
  get_eq := rfl
  bounded index h := by cases h

theorem Sound.apply (h : Sound capacity contents table) {edit : SlotEdit α}
    (heffect : edit.effect capacity files contents = some contents') :
    ∃ table', edit.apply table = .ok table' ∧ Sound capacity contents' table' := by
  obtain ⟨⟨members, hlists⟩, hcapacity, rfl, hbounded⟩ := h
  cases edit with
  | insert index value =>
    rw [SlotEdit.effect, Option.ite_none_right_eq_some, Option.some.injEq] at heffect
    obtain ⟨⟨hindex, -, hvacant⟩, rfl⟩ := heffect
    obtain ⟨table', hinsert, hcapacity', hlists'⟩ := hlists.insert (Option.isNone_iff_eq_none.mp hvacant) rfl
    refine ⟨table', hinsert, ⟨_, hlists'⟩, hcapacity'.trans hcapacity, (get_insert hinsert).2, fun other hother ↦ ?_⟩
    by_cases heq : other = index
    · exact heq ▸ hindex
    · rw [Function.update_of_ne heq] at hother
      exact hbounded other hother
  | remove index =>
    rw [SlotEdit.effect, Option.ite_none_right_eq_some, Option.some.injEq] at heffect
    obtain ⟨hoccupied, rfl⟩ := heffect
    obtain ⟨value, hvalue⟩ := Option.isSome_iff_exists.mp hoccupied
    obtain ⟨table', hremove, hcapacity', hlists'⟩ := hlists.remove hvalue rfl
    refine ⟨table', hremove, ⟨_, hlists'⟩, hcapacity'.trans hcapacity, (get_remove hremove).2, fun other hother ↦ ?_⟩
    by_cases heq : other = index
    · rw [heq, Function.update_self] at hother
      cases hother
    · rw [Function.update_of_ne heq] at hother
      exact hbounded other hother

theorem Sound.run (edits : List (SlotEdit α)) :
    ∀ {contents table}, Sound capacity contents table →
      edits.foldlM (SlotEdit.effect capacity files) contents = some contents' →
      ∃ table', edits.foldlM SlotEdit.apply table = .ok table' ∧ Sound capacity contents' table' := by
  induction edits with
  | nil =>
    intro contents table h hrun
    cases hrun
    exact ⟨table, rfl, h⟩
  | cons edit edits ih =>
    intro contents table h hrun
    rw [List.foldlM_cons, Option.bind_eq_bind, Option.bind_eq_some_iff] at hrun
    obtain ⟨middle, hedit, hrun⟩ := hrun
    obtain ⟨table', happly, hmiddle⟩ := h.apply hedit
    obtain ⟨last, hlast, hsound⟩ := ih hmiddle hrun
    exact ⟨last, by rw [List.foldlM_cons, happly, ok_bind, hlast], hsound⟩

theorem Sound.forFile (h : Sound capacity contents table) (file : FileId) :
    ∃ found, table.forFile file = .ok found ∧ (found.map Prod.fst).Nodup ∧
      ∀ index value, (index, value) ∈ found ↔
        contents index = some value ∧ FileOwned.fileSlot value = file.slot := by
  obtain ⟨⟨members, hlists⟩, rfl, rfl, hbounded⟩ := h
  refine hlists.forFile (fun owner ↦ ?_) file
  have hsubset : members owner ⊆ List.range table.capacity := by
    intro index hmem
    rw [List.mem_range]
    apply hbounded
    rw [hlists.occupied] at hmem
    cases hget : table.get index <;> simp_all
  calc (members owner).length ≤ (List.range table.capacity).length :=
        ((hlists.nodup owner).subperm hsubset).length_le
    _ = table.capacity := List.length_range

/-- After any sequence of inserts into vacant slots and removals of occupied ones, no assertion about
a link has failed, and the members of a file are the occupied slots with its file slot, each once. -/
theorem forFile_enumerates (capacity files : ℕ) (edits : List (SlotEdit α)) (contents : ℕ → Option α)
    (h : edits.foldlM (SlotEdit.effect capacity files) (fun _ ↦ none) = some contents) :
    ∃ table, edits.foldlM SlotEdit.apply (new capacity) = .ok table ∧ table.get = contents ∧
      ∀ file : FileId, ∃ found, table.forFile file = .ok found ∧ (found.map Prod.fst).Nodup ∧
        ∀ index value, (index, value) ∈ found ↔
          contents index = some value ∧ FileOwned.fileSlot value = file.slot := by
  obtain ⟨table, hrun, hsound⟩ := (new_sound capacity).run edits h
  exact ⟨table, hrun, hsound.get_eq, hsound.forFile⟩

/-- The first and the second member of file slot 1 leave, the last one stays. -/
theorem forFile_enumerates_rest :
    ∃ table, [SlotEdit.insert 0 ⟨1⟩, .insert 3 ⟨1⟩, .insert 1 ⟨0⟩, .insert 2 ⟨1⟩, .remove 2,
        .remove 3].foldlM SlotEdit.apply (new 4 : FileSlots FrameFileSlot) = .ok table ∧
      table.get 0 = some ⟨1⟩ ∧ ∃ found, table.forFile ⟨0, 1, 7⟩ = .ok found ∧
        (found.map Prod.fst).Nodup ∧ (0, ⟨1⟩) ∈ found ∧ (1, ⟨0⟩) ∉ found := by
  obtain ⟨table, hrun, hget, hfile⟩ := forFile_enumerates 4 2
    [SlotEdit.insert 0 (⟨1⟩ : FrameFileSlot), .insert 3 ⟨1⟩, .insert 1 ⟨0⟩, .insert 2 ⟨1⟩, .remove 2,
      .remove 3] _ rfl
  obtain ⟨found, hfound, hnodup, hmem⟩ := hfile ⟨0, 1, 7⟩
  exact ⟨table, hrun, hget ▸ rfl, found, hfound, hnodup, (hmem 0 ⟨1⟩).mpr ⟨rfl, rfl⟩, fun hother ↦
    absurd ((hmem 1 ⟨0⟩).mp hother).2 (by decide)⟩

end FileSlots

end DiosPool.Pool
