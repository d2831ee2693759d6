import DiosPool.Pool.Notifications

/-!
# No notification is lost

A word that is not empty has its bit on the level above, or a notification is about to set the bit,
or a drain has taken the bit and will look at the word. When all threads rest, the bits of a notified
frame reach up to the root.
-/

namespace DiosPool.Dirty

open Foundation Pool Pool.DirtyFrames

/-- A notification that will set a bit. -/
def Announces (notifier : Notifier) (level item : ℕ) : Prop :=
  ∃ start bit, notifier = .marking start bit ∧ start ≤ level ∧ bit / 64 ^ (level - start) = item

/-- A drain that has taken a bit and not used it. -/
def Holds (drainer : Drainer) (level item : ℕ) : Prop :=
  ∃ turns cursor, drainer = .running turns cursor ∧ cursor.words level = item / 64 ∧
    cursor.bits level (item % 64) = true

/-- The bit of an item is set in the map. -/
def Marked (dirty : DirtyFrames) (level item : ℕ) : Prop :=
  dirty level (item / 64) (item % 64) = true

/-- The bit of an item is in the map or in the hands of a drain. -/
def Kept (world : World) (level item : ℕ) : Prop :=
  Marked world.dirty level item ∨ ∃ drainer, Holds (world.drainers drainer) level item

/-- Somebody sees to it that a drain gets to an item. -/
def Seen (world : World) (level item : ℕ) : Prop :=
  Kept world level item ∨ ∃ index, Announces (world.notifiers index) level item

/-- Every word with a bit is seen to. -/
def Covered (frames : ℕ) (world : World) : Prop :=
  ∀ level word bit, level + 1 < height frames → world.dirty level word bit = true →
    Seen world (level + 1) word

/-! ## What a step leaves -/

section Steps

variable {frames : ℕ} {world after : World}

theorem not_announces_idle {level item : ℕ} : ¬Announces .idle level item := by
  rintro ⟨start, bit, hmarking, -⟩
  cases hmarking

theorem not_holds_idle {level item : ℕ} : ¬Holds .idle level item := by
  rintro ⟨turns, cursor, hrunning, -⟩
  cases hrunning

theorem marked_mark {dirty : DirtyFrames} {level index : ℕ} :
    Marked (dirty.mark level index) level index := by
  rw [Marked, mark_apply, if_pos ⟨rfl, rfl, rfl⟩]

theorem Marked.mark {dirty : DirtyFrames} {level item : ℕ} (h : Marked dirty level item)
    (level' index : ℕ) : Marked (dirty.mark level' index) level item := by
  rw [Marked, mark_apply]
  split
  · rfl
  · exact h

/-- A notification after it has set a bit still sets the bits above. -/
theorem Announces.rest (hpos : 0 < frames) (hlt : frames < 2 ^ 32) {start bit level item : ℕ}
    (hbit : bit < levelCount frames start) (h : Announces (.marking start bit) level item)
    (hlevel : level < height frames) (hne : start ≠ level) :
    Announces (Notifier.after frames start bit) level item := by
  obtain ⟨_, _, hmarking, hle, hitem⟩ := h
  cases hmarking
  have hstart : start + 1 ≠ height frames := by omega
  rw [after_eq hpos hlt hbit, if_neg hstart]
  refine ⟨start + 1, bit / 64, rfl, by omega, ?_⟩
  rw [← hitem, Nat.div_div_eq_div_mul, ← pow_succ']
  congr 2
  omega

/-- A drain that takes a word holds its bits. -/
theorem Kept.take {drainer level word turns : ℕ} {cursor : BitWord → Cursor}
    (hcursor : ∀ bits, (cursor bits).words level = word ∧ (cursor bits).bits level = bits)
    {level' item : ℕ} (hmarked : Marked world.dirty level' item) :
    Kept (world.take drainer level word turns cursor) level' item := by
  by_cases hcleared : level' = level ∧ item / 64 = word
  · obtain ⟨rfl, rfl⟩ := hcleared
    obtain ⟨hwords, hbits⟩ := hcursor (world.dirty level' (item / 64))
    refine .inr ⟨drainer, turns, _, Function.update_self _ _ _, hwords, ?_⟩
    rw [hbits]
    exact hmarked
  · refine .inl ?_
    change clearWord world.dirty level word level' (item / 64) (item % 64) = true
    rw [clearWord_apply, if_neg hcleared]
    exact hmarked

theorem childCursor_apply (cursor : Cursor) (bit : ℕ) (child : BitWord) :
    (childCursor cursor bit child).words (cursor.level - 1) =
        cursor.words cursor.level * 64 + bit ∧
      (childCursor cursor bit child).bits (cursor.level - 1) = child :=
  ⟨Function.update_self _ _ _, Function.update_self _ _ _⟩

theorem rootCursor_apply (frames : ℕ) (bits : BitWord) :
    (rootCursor frames bits).words (height frames - 1) = 0 ∧
      (rootCursor frames bits).bits (height frames - 1) = bits := by
  refine ⟨rfl, ?_⟩
  simp only [rootCursor, Function.update_self]

/-- The drains other than the one that moves hold what they held. -/
theorem Kept.of_drainer {level item : ℕ} (drainer : ℕ) (hkept : Kept world level item)
    (hother : ∀ other ≠ drainer, after.drainers other = world.drainers other)
    (hmarked : Marked world.dirty level item → Kept after level item)
    {P : Prop} (hholds : Holds (world.drainers drainer) level item → Kept after level item ∨ P) :
    Kept after level item ∨ P := by
  rcases hkept with hkept | ⟨other, hkept⟩
  · exact .inl (hmarked hkept)
  · by_cases heq : other = drainer
    · exact hholds (heq ▸ hkept)
    · exact .inl (.inr ⟨other, (hother other heq).symm ▸ hkept⟩)

/-- Every bit that a drain holds, it still holds after it has taken another one, unless it is that
one. -/
theorem Holds.descend {drainer turns bit level item : ℕ} {cursor : Cursor}
    (hrunning : world.drainers drainer = .running turns cursor)
    (hholds : Holds (world.drainers drainer) level item) (child : BitWord) (turns' : ℕ)
    (hitem : ¬(level = cursor.level ∧ item = cursor.words cursor.level * 64 + bit)) :
    Holds (.running turns' (childCursor cursor bit child)) level item ∨
      level = cursor.level - 1 := by
  by_cases hlower : level = cursor.level - 1
  · exact .inr hlower
  rw [hrunning] at hholds
  obtain ⟨_, _, hsame, hword, hbit⟩ := hholds
  cases hsame
  refine .inl ⟨turns', _, rfl, ?_, ?_⟩
  · simp only [childCursor, Function.update_of_ne hlower]
    exact hword
  · simp only [childCursor, Function.update_of_ne hlower]
    by_cases heq : level = cursor.level
    · subst heq
      have hne : item % 64 ≠ bit := by
        intro hsame
        refine hitem ⟨rfl, ?_⟩
        rw [hword]
        omega
      rw [Function.update_self, BitWord.clear, Function.update_of_ne hne]
      exact hbit
    · rw [Function.update_of_ne heq]
      exact hbit

/-- A drain holds nothing below the level it is on. -/
theorem Sound.not_holds_below (h : Sound frames world) {drainer turns level item : ℕ}
    {cursor : Cursor} (hrunning : world.drainers drainer = .running turns cursor)
    (hlevel : level < cursor.level) : ¬Holds (world.drainers drainer) level item := by
  rintro ⟨_, _, hsame, -, hbit⟩
  cases hrunning.symm.trans hsame
  obtain ⟨frontier, htour, -⟩ := h.touring drainer turns cursor hrunning
  rw [htour.below level hlevel] at hbit
  cases hbit

/-- A drain that is about to finish holds nothing. -/
theorem Sound.not_holds_finish (h : Sound frames world) {drainer turns level item : ℕ}
    {cursor : Cursor} (hrunning : world.drainers drainer = .running turns cursor)
    (hnone : (cursor.bits cursor.level).first = none) (hroot : cursor.level + 1 = height frames) :
    ¬Holds (world.drainers drainer) level item := by
  intro hholds
  obtain ⟨frontier, htour, -⟩ := h.touring drainer turns cursor hrunning
  obtain ⟨_, _, hsame, -, hbit⟩ := id hholds
  cases hrunning.symm.trans hsame
  obtain ⟨hlevel, -⟩ := htour.ahead level _ hbit
  by_cases heq : level = cursor.level
  · rw [heq, htour.empty hnone] at hbit
    cases hbit
  · exact h.not_holds_below hrunning (by omega) hholds

/-- What is kept stays kept, until a drain uses it. -/
theorem Kept.step (h : Sound frames world) (hstep : Stepped frames world after) {level item : ℕ}
    (hkept : Kept world level item) :
    Kept after level item ∨ (0 < level ∧ after.dirty (level - 1) item = BitWord.empty) ∨
      level = 0 ∧ after.due item = false := by
  cases hstep with
  | rest => exact .inl hkept
  | start => exact .inl hkept
  | refuse => exact .inl hkept
  | @mark index start bit hmarking =>
    refine .inl (hkept.imp (fun hmarked ↦ ?_) id)
    exact hmarked.mark start bit
  | @begin drainer hidle =>
    refine hkept.of_drainer drainer (fun other hne ↦ Function.update_of_ne hne _ _) ?_ ?_
    · intro hmarked
      exact Kept.take (rootCursor_apply frames) hmarked
    · rw [hidle]
      exact fun hholds ↦ absurd hholds not_holds_idle
  | @finish drainer turns cursor hrunning hnone hroot =>
    refine Kept.of_drainer drainer hkept (fun other hne ↦ Function.update_of_ne hne _ _) ?_ ?_
    · exact fun hmarked ↦ .inl hmarked
    exact fun hholds ↦ absurd hholds (h.not_holds_finish hrunning hnone hroot)
  | @climb drainer turns cursor hrunning hnone hroot =>
    refine Kept.of_drainer drainer hkept (fun other hne ↦ Function.update_of_ne hne _ _) ?_ ?_
    · exact fun hmarked ↦ .inl hmarked
    rw [hrunning]
    rintro ⟨_, _, hsame, hword, hbit⟩
    cases hsame
    exact .inl (.inr ⟨drainer, turns, _, Function.update_self _ _ _, hword, hbit⟩)
  | @visit drainer turns bit cursor hrunning hfirst hleaf =>
    refine Kept.of_drainer drainer hkept (fun other hne ↦ Function.update_of_ne hne _ _) ?_ ?_
    · exact fun hmarked ↦ .inl hmarked
    rw [hrunning]
    rintro ⟨_, _, hsame, hword, hbit⟩
    cases hsame
    by_cases hused : level = cursor.level ∧ item % 64 = bit
    · obtain ⟨rfl, rfl⟩ := hused
      have hitem : cursor.words cursor.level * 64 + item % 64 = item := by
        rw [hword]
        omega
      refine .inr (.inr ⟨hleaf, ?_⟩)
      rw [hitem]
      exact Function.update_self _ _ _
    · refine .inl (.inr ⟨drainer, turns, _, Function.update_self _ _ _, hword, ?_⟩)
      by_cases heq : level = cursor.level
      · subst heq
        have hne : item % 64 ≠ bit := fun hsame ↦ hused ⟨rfl, hsame⟩
        simp only [leafCursor, Function.update_self, BitWord.clear, Function.update_of_ne hne]
        exact hbit
      · simp only [leafCursor, Function.update_of_ne heq]
        exact hbit
  | @descend drainer turns bit cursor hrunning hfirst habove =>
    refine hkept.of_drainer drainer (fun other hne ↦ Function.update_of_ne hne _ _) ?_ ?_
    · intro hmarked
      exact Kept.take (childCursor_apply cursor bit) hmarked
    · intro hholds
      by_cases hused : level = cursor.level ∧ item = cursor.words cursor.level * 64 + bit
      · obtain ⟨rfl, rfl⟩ := hused
        refine .inr (.inl ⟨Nat.pos_of_ne_zero habove, ?_⟩)
        exact (clearWord_apply _ _ _ _ _).trans (if_pos ⟨rfl, rfl⟩)
      · rcases hholds.descend hrunning _ turns hused with hstill | hlower
        · refine .inl (.inr ⟨drainer, ?_⟩)
          simp only [World.take, World.setDrainer, Function.update_self]
          exact hstill
        · exact absurd hholds (h.not_holds_below hrunning (by omega))

/-- A notification that is on its way stays on its way, until it has set the bit. -/
theorem Announces.step (hpos : 0 < frames) (hlt : frames < 2 ^ 32) (h : Sound frames world)
    (hstep : Stepped frames world after) {index level item : ℕ}
    (hannounces : Announces (world.notifiers index) level item) (hlevel : level < height frames) :
    Seen after level item := by
  have hsame : after.notifiers = world.notifiers → Seen after level item :=
    fun hsame ↦ .inr ⟨index, hsame ▸ hannounces⟩
  cases hstep with
  | @start other frame hidle hframe =>
    have hne : index ≠ other := by
      rintro rfl
      exact not_announces_idle (hidle ▸ hannounces)
    refine .inr ⟨index, ?_⟩
    simp only [World.setNotifier, Function.update_of_ne hne]
    exact hannounces
  | @refuse other assertion hidle =>
    have hne : index ≠ other := by
      rintro rfl
      exact not_announces_idle (hidle ▸ hannounces)
    refine .inr ⟨index, ?_⟩
    simp only [World.setNotifier, Function.update_of_ne hne]
    exact hannounces
  | @mark other start bit hmarking =>
    by_cases heq : index = other
    · subst heq
      obtain ⟨-, hbit⟩ := h.marking index start bit hmarking
      rw [hmarking] at hannounces
      by_cases hstart : start = level
      · -- this is the bit that the notification was to set
        obtain ⟨_, _, hsame, -, hitem⟩ := hannounces
        cases hsame
        subst hstart
        rw [Nat.sub_self, pow_zero, Nat.div_one] at hitem
        subst hitem
        exact .inl (.inl marked_mark)
      · refine .inr ⟨index, ?_⟩
        simp only [World.mark, World.setNotifier, Function.update_self]
        exact hannounces.rest hpos hlt hbit hlevel hstart
    · refine .inr ⟨index, ?_⟩
      simp only [World.mark, World.setNotifier, Function.update_of_ne heq]
      exact hannounces
  | _ => exact hsame rfl

/-- No step leaves a word without somebody who sees to it. -/
theorem Covered.step (hpos : 0 < frames) (hlt : frames < 2 ^ 32) (h : Sound frames world)
    (hstep : Stepped frames world after) (hcovered : Covered frames world) :
    Covered frames after := by
  intro level word bit hlevel hset
  have hseen : world.dirty level word bit = true → Seen after (level + 1) word := by
    intro hset'
    rcases hcovered level word bit hlevel hset' with hkept | ⟨index, hannounces⟩
    · rcases hkept.step h hstep with hkept | ⟨-, hempty⟩ | ⟨hzero, -⟩
      · exact .inl hkept
      · rw [Nat.add_sub_cancel] at hempty
        rw [hempty] at hset
        cases hset
      · cases hzero
    · exact hannounces.step hpos hlt h hstep hlevel
  cases hstep with
  | @mark index start item hmarking =>
    by_cases hnew : level = start ∧ word = item / 64 ∧ bit = item % 64
    · -- the notification goes on to the bit of the word
      obtain ⟨rfl, rfl, rfl⟩ := hnew
      obtain ⟨-, hitem⟩ := h.marking index level item hmarking
      refine .inr ⟨index, ?_⟩
      simp only [World.mark, World.setNotifier, Function.update_self]
      rw [after_eq hpos hlt hitem, if_neg hlevel.ne]
      exact ⟨level + 1, item / 64, rfl, le_rfl, by simp⟩
    · refine hseen ?_
      simp only [World.mark, World.setNotifier, mark_apply, if_neg hnew] at hset
      exact hset
  | @begin drainer hidle =>
    refine hseen ?_
    simp only [World.begin, World.take, World.setDrainer, clearWord_apply] at hset
    split at hset
    · cases hset
    · exact hset
  | @descend drainer turns bit' cursor hrunning hfirst habove =>
    refine hseen ?_
    simp only [World.take, World.setDrainer, clearWord_apply] at hset
    split at hset
    · cases hset
    · exact hset
  | _ => exact hseen hset

end Steps

/-! ## What the trace tells -/

/-- The frame was notified, and its word was not taken since. -/
def Fresh (trace : List Event) (frame : ℕ) : Prop :=
  ∃ before after, trace = before ++ .marked frame :: after ∧
    ∀ drainer, Event.taken drainer (frame / 64) ∉ after

/-- When the drain took the word of the frame for the last time, the frame was notified and the word
not taken since. -/
def Claimed (trace : List Event) (drainer frame : ℕ) : Prop :=
  ∃ before after, trace = before ++ .taken drainer (frame / 64) :: after ∧ Fresh before frame ∧
    Event.taken drainer (frame / 64) ∉ after

section Trace

variable {trace : List Event} {event : Event} {drainer frame : ℕ}

theorem fresh_concat : Fresh (trace ++ [.marked frame]) frame :=
  ⟨trace, [], rfl, fun _ ↦ List.not_mem_nil⟩

theorem Fresh.concat (h : Fresh trace frame) (hevent : ∀ drainer, event ≠ .taken drainer (frame / 64)) :
    Fresh (trace ++ [event]) frame := by
  obtain ⟨before, after, rfl, hafter⟩ := h
  refine ⟨before, after ++ [event], by simp, fun drainer hmem ↦ ?_⟩
  rcases List.mem_append.mp hmem with hmem | hmem
  · exact hafter drainer hmem
  · exact hevent drainer (List.mem_singleton.mp hmem).symm

theorem Fresh.taken (h : Fresh trace frame) :
    Claimed (trace ++ [.taken drainer (frame / 64)]) drainer frame :=
  ⟨trace, [], rfl, h, List.not_mem_nil⟩

theorem Claimed.concat (h : Claimed trace drainer frame)
    (hevent : event ≠ .taken drainer (frame / 64)) : Claimed (trace ++ [event]) drainer frame := by
  obtain ⟨before, after, rfl, hfresh, hafter⟩ := h
  refine ⟨before, after ++ [event], by simp, hfresh, fun hmem ↦ ?_⟩
  rcases List.mem_append.mp hmem with hmem | hmem
  · exact hafter hmem
  · exact hevent (List.mem_singleton.mp hmem).symm

/-- A visit in a longer trace is a visit of the trace or the event that was added. -/
theorem visited_concat {before after : List Event}
    (h : trace ++ [event] = before ++ .visited drainer frame :: after) :
    (event = .visited drainer frame ∧ before = trace) ∨
      ∃ rest, trace = before ++ .visited drainer frame :: rest := by
  rcases List.eq_nil_or_concat after with rfl | ⟨rest, last, rfl⟩
  · obtain ⟨htrace, hevent⟩ := List.append_inj' h rfl
    exact .inl ⟨(List.cons.inj hevent).1, htrace.symm⟩
  · rw [List.concat_eq_append, ← List.cons_append, ← List.append_assoc] at h
    exact .inr ⟨rest, (List.append_inj' h rfl).1⟩

end Trace

/-- Notified frames are kept until they are visited, and what drains hold and visit was notified. -/
structure Noted (world : World) : Prop where
  due : ∀ frame, world.due frame = true → Kept world 0 frame
  marked : ∀ frame, Marked world.dirty 0 frame → Fresh world.trace frame
  held : ∀ drainer frame, Holds (world.drainers drainer) 0 frame → Claimed world.trace drainer frame
  visited : ∀ before drainer frame after, world.trace = before ++ .visited drainer frame :: after →
    Claimed before drainer frame

theorem noted_initial : Noted initial where
  due frame hdue := by cases hdue
  marked frame hmarked := by cases hmarked
  held drainer frame hheld := absurd hheld not_holds_idle
  visited before drainer frame after htrace := by
    have hlength := congrArg List.length htrace
    simp [initial] at hlength

section Noting

variable {frames : ℕ} {world after : World}

/-- A visit that was there before. -/
theorem Noted.visited_of_concat (h : Noted world) {event : Event} {before after : List Event}
    {drainer frame : ℕ} (hevent : event ≠ .visited drainer frame)
    (htrace : world.trace ++ [event] = before ++ .visited drainer frame :: after) :
    Claimed before drainer frame := by
  rcases visited_concat htrace with ⟨heq, -⟩ | ⟨rest, hrest⟩
  · exact absurd heq hevent
  · exact h.visited before drainer frame rest hrest

theorem Noted.due_step (h : Noted world) (hsound : Sound frames world)
    (hstep : Stepped frames world after) {frame : ℕ} (hbefore : world.due frame = true)
    (hafter : after.due frame = true) : Kept after 0 frame := by
  rcases (h.due frame hbefore).step hsound hstep with hkept | ⟨hzero, -⟩ | ⟨-, hdue⟩
  · exact hkept
  · exact absurd hzero (lt_irrefl _)
  · rw [hafter] at hdue
    cases hdue

theorem Noted.mark (h : Noted world) (hsound : Sound frames world) {index level bit : ℕ}
    (hmarking : world.notifiers index = .marking level bit) :
    Noted (world.mark frames index level bit) := by
  have hstep : Stepped frames world (world.mark frames index level bit) := .mark hmarking
  cases level with
  | succ level =>
    refine { h with due := fun frame hdue ↦ h.due_step hsound hstep hdue hdue, marked := ?_ }
    intro frame hmarked
    refine h.marked frame ?_
    simp only [Marked, World.mark, World.setNotifier, mark_apply] at hmarked
    rwa [if_neg fun heq ↦ absurd heq.1 (Nat.succ_ne_zero level).symm] at hmarked
  | zero =>
    constructor
    case due =>
      intro frame hdue
      by_cases heq : frame = bit
      · subst heq
        exact .inl marked_mark
      · refine h.due_step hsound hstep ?_ hdue
        simp only [World.mark, World.setNotifier, if_true, Function.update_of_ne heq] at hdue
        exact hdue
    case marked =>
      intro frame hmarked
      by_cases heq : frame = bit
      · subst heq
        exact fresh_concat
      · refine (h.marked frame ?_).concat fun _ ↦ Event.noConfusion
        simp only [Marked, World.mark, World.setNotifier, mark_apply] at hmarked
        rwa [if_neg (by rintro ⟨-, hword, hbit⟩; omega)] at hmarked
    case held =>
      intro drainer frame hheld
      exact (h.held drainer frame hheld).concat Event.noConfusion
    case visited =>
      intro before drainer frame after htrace
      exact h.visited_of_concat Event.noConfusion htrace

/-- A drain that held no leaf bit takes a word. -/
theorem Noted.take (h : Noted world) {drainer level word turns : ℕ} {cursor : BitWord → Cursor}
    (hdue : ∀ frame, world.due frame = true →
      Kept (world.take drainer level word turns cursor) 0 frame)
    (hcursor : ∀ bits, (cursor bits).words level = word ∧ (cursor bits).bits level = bits)
    (hlow : level ≠ 0 → ∀ bits bit, (cursor bits).bits 0 bit = false) :
    Noted (world.take drainer level word turns cursor) := by
  have hother : ∀ other ≠ drainer, (world.take drainer level word turns cursor).drainers other =
      world.drainers other := fun other hne ↦ Function.update_of_ne hne _ _
  have hself : (world.take drainer level word turns cursor).drainers drainer =
      .running turns (cursor (world.dirty level word)) := Function.update_self _ _ _
  by_cases hlevel : level = 0
  · subst hlevel
    obtain ⟨hwords, hbits⟩ := hcursor (world.dirty 0 word)
    constructor
    case due => exact hdue
    case marked =>
      intro frame hmarked
      change clearWord world.dirty 0 word 0 (frame / 64) (frame % 64) = true at hmarked
      rw [clearWord_apply] at hmarked
      split at hmarked
      · cases hmarked
      · rename_i hne
        refine (h.marked frame hmarked).concat fun other heq ↦ ?_
        simp only [Event.taken.injEq] at heq
        exact hne ⟨rfl, heq.2.symm⟩
    case held =>
      intro other frame hheld
      by_cases heq : other = drainer
      · subst heq
        rw [hself] at hheld
        obtain ⟨_, _, hsame, hword, hbit⟩ := hheld
        cases hsame
        rw [hwords] at hword
        rw [hbits, hword] at hbit
        subst hword
        exact (h.marked frame hbit).taken
      · rw [hother other heq] at hheld
        refine (h.held other frame hheld).concat fun hevent ↦ ?_
        simp only [Event.taken.injEq] at hevent
        exact heq hevent.1.symm
    case visited =>
      intro before other frame after htrace
      exact h.visited_of_concat Event.noConfusion htrace
  · have htrace : (world.take drainer level word turns cursor).trace = world.trace := if_neg hlevel
    constructor
    case due => exact hdue
    case marked =>
      intro frame hmarked
      rw [htrace]
      change clearWord world.dirty level word 0 (frame / 64) (frame % 64) = true at hmarked
      rw [clearWord_apply, if_neg fun heq ↦ hlevel heq.1.symm] at hmarked
      exact h.marked frame hmarked
    case held =>
      intro other frame hheld
      rw [htrace]
      by_cases heq : other = drainer
      · subst heq
        rw [hself] at hheld
        obtain ⟨_, _, hsame, -, hbit⟩ := hheld
        cases hsame
        rw [hlow hlevel] at hbit
        cases hbit
      · rw [hother other heq] at hheld
        exact h.held other frame hheld
    case visited =>
      rw [htrace]
      exact h.visited

/-- A drain that moves within its cursor holds at most what it held. -/
theorem Noted.setDrainer (h : Noted world) (hsound : Sound frames world) {drainer : ℕ}
    {moved : Drainer} (hstep : Stepped frames world (world.setDrainer drainer moved))
    (hholds : ∀ frame, Holds moved 0 frame → Holds (world.drainers drainer) 0 frame) :
    Noted (world.setDrainer drainer moved) := by
  refine { h with due := fun frame hdue ↦ h.due_step hsound hstep hdue hdue, held := ?_ }
  intro other frame hheld
  by_cases heq : other = drainer
  · subst heq
    simp only [World.setDrainer, Function.update_self] at hheld
    exact h.held other frame (hholds frame hheld)
  · simp only [World.setDrainer, Function.update_of_ne heq] at hheld
    exact h.held other frame hheld

theorem Noted.visit (h : Noted world) (hsound : Sound frames world) {drainer turns bit : ℕ}
    {cursor : Cursor} (hrunning : world.drainers drainer = .running (turns + 1) cursor)
    (hfirst : (cursor.bits cursor.level).first = some bit) (hleaf : cursor.level = 0) :
    Noted (world.visit drainer (cursor.words cursor.level * 64 + bit) turns
      (leafCursor cursor bit)) := by
  have hstep : Stepped frames world (world.visit drainer (cursor.words cursor.level * 64 + bit)
    turns (leafCursor cursor bit)) := .visit hrunning hfirst hleaf
  obtain ⟨hlt, hset, -⟩ := first_eq_some hfirst
  have hholds : Holds (world.drainers drainer) 0 (cursor.words cursor.level * 64 + bit) := by
    rw [hrunning]
    refine ⟨_, cursor, rfl, ?_, ?_⟩
    · rw [hleaf]
      omega
    · rw [hleaf] at hset ⊢
      rw [show (cursor.words 0 * 64 + bit) % 64 = bit by omega]
      exact hset
  constructor
  case due =>
    intro frame hdue
    refine h.due_step hsound hstep ?_ hdue
    by_cases heq : frame = cursor.words cursor.level * 64 + bit
    · rw [heq] at hdue
      simp only [World.visit, World.setDrainer, Function.update_self] at hdue
      cases hdue
    · simp only [World.visit, World.setDrainer, Function.update_of_ne heq] at hdue
      exact hdue
  case marked => exact fun frame hmarked ↦ (h.marked frame hmarked).concat fun _ ↦ Event.noConfusion
  case held =>
    intro other frame hheld
    refine (h.held other frame ?_).concat Event.noConfusion
    by_cases heq : other = drainer
    · subst heq
      simp only [World.visit, World.setDrainer, Function.update_self] at hheld
      obtain ⟨_, _, hsame, hword, hbit⟩ := hheld
      cases hsame
      rw [hrunning]
      refine ⟨_, cursor, rfl, hword, ?_⟩
      simp only [leafCursor, hleaf, Function.update_self] at hbit
      exact (clear_eq_true hbit).2
    · simp only [World.visit, World.setDrainer, Function.update_of_ne heq] at hheld
      exact hheld
  case visited =>
    intro before other frame after htrace
    rcases visited_concat htrace with ⟨hevent, rfl⟩ | ⟨rest, hrest⟩
    · cases hevent
      exact h.held drainer _ hholds
    · exact h.visited before other frame rest hrest

theorem Noted.step (h : Noted world) (hsound : Sound frames world)
    (hstep : Stepped frames world after) : Noted after := by
  cases hstep with
  | rest => exact h
  | start => exact { h with }
  | refuse => exact { h with }
  | mark hmarking => exact h.mark hsound hmarking
  | @begin drainer hidle =>
    have hstart : Noted { world with visits := Function.update world.visits drainer [] } :=
      { h with }
    refine hstart.take (fun frame hdue ↦ h.due_step hsound (.begin hidle) hdue hdue)
      (rootCursor_apply frames) fun hroot bits bit ↦ ?_
    simp only [rootCursor, Function.update_of_ne (Ne.symm hroot)]
    rfl
  | @finish drainer turns cursor hrunning hnone hroot =>
    exact h.setDrainer hsound (.finish hrunning hnone hroot) fun frame hholds ↦
      absurd hholds not_holds_idle
  | @climb drainer turns cursor hrunning hnone hroot =>
    refine h.setDrainer hsound (.climb hrunning hnone hroot) ?_
    rintro frame ⟨_, _, hsame, hword, hbit⟩
    cases hsame
    rw [hrunning]
    exact ⟨_, cursor, rfl, hword, hbit⟩
  | visit hrunning hfirst hleaf => exact h.visit hsound hrunning hfirst hleaf
  | @descend drainer turns bit cursor hrunning hfirst habove =>
    obtain ⟨frontier, htour, -⟩ := hsound.touring drainer _ cursor hrunning
    refine h.take
      (fun frame hdue ↦ h.due_step hsound (.descend hrunning hfirst habove) hdue hdue)
      (childCursor_apply cursor bit) fun hlower child other ↦ ?_
    simp only [childCursor, Function.update_of_ne (Ne.symm hlower),
      Function.update_of_ne (Ne.symm habove)]
    exact htour.below 0 (Nat.pos_of_ne_zero habove) other

end Noting

/-! ## Rest -/

/-- No notification and no drain is in progress. -/
structure Resting (world : World) : Prop where
  notifiers : ∀ index level bit, world.notifiers index ≠ .marking level bit
  drainers : ∀ drainer, world.drainers drainer = .idle

section Rest

variable {frames : ℕ} {world after : World}

theorem Resting.marked (hrest : Resting world) {level item : ℕ} (hseen : Seen world level item) :
    Marked world.dirty level item := by
  rcases hseen with (hmarked | ⟨drainer, hholds⟩) | ⟨index, start, bit, hmarking, -⟩
  · exact hmarked
  · rw [hrest.drainers] at hholds
    exact absurd hholds not_holds_idle
  · exact absurd hmarking (hrest.notifiers index start bit)

/-- The bits of a frame reach up to the root. -/
theorem Resting.ancestors (hrest : Resting world) (hcovered : Covered frames world) {frame : ℕ}
    (hleaf : Marked world.dirty 0 frame) {level : ℕ} (hlevel : level < height frames) :
    Marked world.dirty level (frame / 64 ^ level) := by
  induction level with
  | zero => rwa [pow_zero, Nat.div_one]
  | succ level ih =>
    have hbelow := ih ((Nat.lt_succ_self _).trans hlevel)
    rw [pow_succ, ← Nat.div_div_eq_div_mul]
    exact hrest.marked (hcovered level _ _ hlevel hbelow)

/-! ## A drain from rest -/

/-- A drain has visited a frame, or it holds a bit above the frame and finds the bits below. -/
def Pursued (frames : ℕ) (world : World) (drainer frame : ℕ) : Prop :=
  frame ∈ world.visits drainer ∨ ∃ level < height frames,
    Holds (world.drainers drainer) level (frame / 64 ^ level) ∧
      ∀ lower < level, Marked world.dirty lower (frame / 64 ^ lower)

/-- The frontier of a level lies before the one of a higher level. -/
theorem Tour.frontier_le {cursor : Cursor} {visits : List ℕ} {frontier : ℕ → ℕ}
    (h : Tour frames cursor visits frontier) {level higher : ℕ} (hlevel : cursor.level ≤ level)
    (hle : level ≤ higher) (hhigher : higher < height frames) :
    frontier level ≤ 64 ^ (higher - level) * frontier higher := by
  induction higher, hle using Nat.le_induction with
  | base => simp
  | succ higher hle ih =>
    have hword := h.word higher (hlevel.trans hle) hhigher
    have hreach := h.reach higher (hlevel.trans hle) ((Nat.lt_succ_self _).trans hhigher)
    rw [← hword] at hreach
    calc frontier level ≤ 64 ^ (higher - level) * frontier higher :=
          ih ((Nat.lt_succ_self _).trans hhigher)
      _ ≤ 64 ^ (higher - level) * (64 * frontier (higher + 1)) := Nat.mul_le_mul_left _ hreach
      _ = 64 ^ (higher + 1 - level) * frontier (higher + 1) := by
        rw [Nat.succ_sub hle, pow_succ, Nat.mul_assoc]

/-- The word that a drain takes lies before the items that it holds higher up. -/
theorem Tour.not_above {cursor : Cursor} {visits : List ℕ} {frontier : ℕ → ℕ}
    (h : Tour frames cursor visits frontier) {bit level frame : ℕ}
    (hfirst : (cursor.bits cursor.level).first = some bit) (hlevel : cursor.level < level)
    (hheight : level < height frames) (hahead : frontier level ≤ frame / 64 ^ level) :
    frame / 64 ^ cursor.level ≠ cursor.words cursor.level * 64 + bit := by
  obtain ⟨hbit, -⟩ := h.first hfirst
  have hword := h.word cursor.level le_rfl (lt_of_le_of_lt hlevel hheight)
  have hle := h.frontier_le (Nat.le_succ cursor.level) hlevel hheight
  have hpow : 64 ^ cursor.level * (64 * 64 ^ (level - (cursor.level + 1))) = 64 ^ level := by
    rw [← pow_succ', ← pow_add]
    congr 1
    omega
  have hframe : 64 * 64 ^ (level - (cursor.level + 1)) * (frame / 64 ^ level) ≤
      frame / 64 ^ cursor.level := by
    rw [← hpow, ← Nat.div_div_eq_div_mul]
    exact Nat.mul_div_le _ _
  have hfrontier : 64 * frontier (cursor.level + 1) ≤ frame / 64 ^ cursor.level := by
    calc 64 * frontier (cursor.level + 1)
        ≤ 64 * (64 ^ (level - (cursor.level + 1)) * (frame / 64 ^ level)) :=
          Nat.mul_le_mul_left _ (hle.trans (Nat.mul_le_mul_left _ hahead))
      _ ≤ frame / 64 ^ cursor.level := by rwa [← Nat.mul_assoc]
  omega

/-- A drain that starts while all rest holds the root above every notified frame. -/
theorem Resting.pursued (hrest : Resting world) (hpos : 0 < frames) (hlt : frames < 2 ^ 32)
    (hsound : Sound frames world) (hcovered : Covered frames world) {frame : ℕ}
    (hleaf : Marked world.dirty 0 frame) (drainer : ℕ) :
    Pursued frames (world.begin frames drainer) drainer frame := by
  have hheight : 0 < height frames := height_pos
  have hroot : height frames - 1 + 1 = height frames := Nat.sub_add_cancel hheight
  have hlast : height frames - 1 < height frames := Nat.sub_lt hheight one_pos
  have hmarked := hrest.ancestors hcovered hleaf hlast
  obtain ⟨-, hcount⟩ := hsound.within _ _ _ hmarked
  have hword : frame / 64 ^ (height frames - 1) / 64 = 0 := by
    refine root_word hpos hlt hroot ?_
    omega
  refine .inr ⟨height frames - 1, hlast, ?_, fun lower hlower ↦ ?_⟩
  · refine ⟨turnsMax frames, _, Function.update_self _ _ _, ?_, ?_⟩
    · rw [(rootCursor_apply frames _).1, hword]
    · rw [(rootCursor_apply frames _).2]
      rw [Marked, hword] at hmarked
      exact hmarked
  · change clearWord world.dirty (height frames - 1) 0 lower _ _ = true
    rw [clearWord_apply, if_neg fun heq ↦ hlower.ne heq.1]
    exact hrest.ancestors hcovered hleaf (hlower.trans hlast)

/-- The drain visits a frame. -/
theorem Pursued.visit {drainer frame turns bit : ℕ} {cursor : Cursor}
    (h : Pursued frames world drainer frame)
    (hrunning : world.drainers drainer = .running (turns + 1) cursor)
    (hleaf : cursor.level = 0) :
    Pursued frames (world.visit drainer (cursor.words cursor.level * 64 + bit) turns
      (leafCursor cursor bit)) drainer frame := by
  have hvisits : (world.visit drainer (cursor.words cursor.level * 64 + bit) turns
      (leafCursor cursor bit)).visits drainer =
        world.visits drainer ++ [cursor.words cursor.level * 64 + bit] := Function.update_self _ _ _
  rcases h with hmem | ⟨level, hlevel, hholds, hmarked⟩
  · refine .inl ?_
    rw [hvisits]
    exact List.mem_append_left _ hmem
  rw [hrunning] at hholds
  obtain ⟨_, _, hsame, hword, hbit⟩ := hholds
  cases hsame
  by_cases hused : level = cursor.level ∧ frame / 64 ^ level % 64 = bit
  · obtain ⟨hlevel, hbit⟩ := hused
    rw [hlevel, hleaf, pow_zero, Nat.div_one] at hbit hword
    refine .inl ?_
    rw [hvisits, hleaf]
    refine List.mem_append_right _ (List.mem_singleton.mpr ?_)
    omega
  · refine .inr ⟨level, hlevel, ⟨turns, _, Function.update_self _ _ _, hword, ?_⟩, hmarked⟩
    by_cases heq : level = cursor.level
    · subst heq
      have hne : frame / 64 ^ cursor.level % 64 ≠ bit := fun hsame ↦ hused ⟨rfl, hsame⟩
      simp only [leafCursor, Function.update_self, BitWord.clear, Function.update_of_ne hne]
      exact hbit
    · simp only [leafCursor, Function.update_of_ne heq]
      exact hbit

/-- The drain takes the word of a bit that it holds. -/
theorem Pursued.descend {drainer frame turns bit : ℕ} {cursor : Cursor}
    (h : Pursued frames world drainer frame) (hsound : Sound frames world)
    (hrunning : world.drainers drainer = .running (turns + 1) cursor)
    (hfirst : (cursor.bits cursor.level).first = some bit) (habove : cursor.level ≠ 0) :
    Pursued frames (world.take drainer (cursor.level - 1) (cursor.words cursor.level * 64 + bit)
      turns (childCursor cursor bit)) drainer frame := by
  rcases h with hmem | ⟨level, hlevel, hholds, hmarked⟩
  · exact .inl hmem
  obtain ⟨lower, hlower⟩ : ∃ lower, cursor.level = lower + 1 :=
    Nat.exists_eq_succ_of_ne_zero habove
  have hdiv : frame / 64 ^ lower / 64 = frame / 64 ^ cursor.level := by
    rw [hlower, pow_succ, Nat.div_div_eq_div_mul]
  by_cases hused : level = cursor.level ∧
      frame / 64 ^ level = cursor.words cursor.level * 64 + bit
  · -- the drain gets to the word of the frame on the level below
    obtain ⟨rfl, hitem⟩ := hused
    have hbelow := hmarked lower (by omega)
    rw [Marked, hdiv, hitem] at hbelow
    refine .inr ⟨lower, by omega, ⟨turns, _, Function.update_self _ _ _, ?_, ?_⟩, ?_⟩
    · simp only [childCursor, hlower, Nat.add_sub_cancel, Function.update_self]
      rw [hdiv, hitem, hlower]
    · simp only [childCursor, hlower, Nat.add_sub_cancel, Function.update_self]
      rw [hlower] at hbelow
      exact hbelow
    · intro other hother
      change clearWord world.dirty (cursor.level - 1) _ other _ _ = true
      rw [clearWord_apply, if_neg (by omega)]
      exact hmarked other (by omega)
  · have hle : cursor.level ≤ level := not_lt.mp fun hlt ↦ hsound.not_holds_below hrunning hlt hholds
    rcases hholds.descend hrunning (world.dirty (cursor.level - 1)
      (cursor.words cursor.level * 64 + bit)) turns hused with hstill | heq
    · refine .inr ⟨level, hlevel, ?_, fun other hother ↦ ?_⟩
      · simp only [World.take, World.setDrainer, Function.update_self]
        exact hstill
      · change clearWord world.dirty (cursor.level - 1) _ other _ _ = true
        rw [clearWord_apply, if_neg]
        · exact hmarked other hother
        rintro ⟨rfl, hword⟩
        -- the word that the drain takes is not the one of the frame
        rw [hlower, Nat.add_sub_cancel, hdiv] at hword
        rw [← hlower] at hword
        rcases hle.lt_or_eq with hlt | rfl
        · obtain ⟨frontier, htour, -⟩ := hsound.touring drainer _ cursor hrunning
          rw [hrunning] at hholds
          obtain ⟨_, _, hsame, hword', hbit'⟩ := hholds
          cases hsame
          obtain ⟨-, -, hahead, -⟩ := htour.ahead level _ hbit'
          rw [hword'] at hahead
          exact htour.not_above hfirst hlt hlevel (by omega) hword
        · exact hused ⟨rfl, hword⟩
    · omega

/-- While no other drain runs, the drain gets closer to the frame. -/
theorem Pursued.step {drainer frame : ℕ} (h : Pursued frames world drainer frame)
    (hsound : Sound frames world) (hstep : Stepped frames world after)
    (hcalm : ∀ other, world.drainers other = .idle → after.drainers other = .idle)
    (halone : ∀ other ≠ drainer, world.drainers other = .idle) :
    Pursued frames after drainer frame := by
  have hself : ∀ {other turns cursor}, world.drainers other = .running turns cursor →
      other = drainer := by
    intro other turns cursor hrunning
    by_contra hne
    cases (halone other hne).symm.trans hrunning
  cases hstep with
  | rest => exact h
  | start => exact h
  | refuse => exact h
  | @mark index level bit hmarking =>
    rcases h with hmem | ⟨level', hlevel, hholds, hmarked⟩
    · exact .inl hmem
    · exact .inr ⟨level', hlevel, hholds, fun lower hlower ↦ (hmarked lower hlower).mark level bit⟩
  | @begin other hidle =>
    have hrunning := hcalm other hidle
    simp only [World.begin, World.take, World.setDrainer, Function.update_self, reduceCtorEq]
      at hrunning
  | @finish other turns cursor hrunning hnone hroot =>
    cases hself hrunning
    rcases h with hmem | ⟨level, -, hholds, -⟩
    · exact .inl hmem
    · exact absurd hholds (hsound.not_holds_finish hrunning hnone hroot)
  | @climb other turns cursor hrunning hnone hroot =>
    cases hself hrunning
    rcases h with hmem | ⟨level, hlevel, hholds, hmarked⟩
    · exact .inl hmem
    · rw [hrunning] at hholds
      obtain ⟨_, _, hsame, hword, hbit⟩ := hholds
      cases hsame
      exact .inr ⟨level, hlevel, ⟨turns, _, Function.update_self _ _ _, hword, hbit⟩, hmarked⟩
  | visit hrunning hfirst hleaf =>
    cases hself hrunning
    exact h.visit hrunning hleaf
  | descend hrunning hfirst habove =>
    cases hself hrunning
    exact h.descend hsound hrunning hfirst habove

end Rest

/-! ## Runs -/

section Runs

variable {frames : ℕ} {world : World}

/-- What every reachable bitmap satisfies. -/
structure Lossless (frames : ℕ) (world : World) : Prop where
  sound : Sound frames world
  covered : Covered frames world
  noted : Noted world

theorem Lossless.next (h : Lossless frames world) (hpos : 0 < frames) (hlt : frames < 2 ^ 32)
    (choice : Choice) : Lossless frames (world.next frames choice) :=
  have hstep := h.sound.stepped choice
  ⟨h.sound.of_stepped hpos hlt hstep, h.covered.step hpos hlt h.sound hstep,
    h.noted.step h.sound hstep⟩

theorem lossless_run (hpos : 0 < frames) (hlt : frames < 2 ^ 32) (schedule : List Choice) :
    Lossless frames (run frames schedule) := by
  induction schedule using List.reverseRecOn with
  | nil => exact ⟨sound_initial frames, fun _ _ _ _ hset ↦ (by cases hset), noted_initial⟩
  | append_singleton schedule choice ih =>
    rw [run, runFrom, List.foldl_concat]
    exact ih.next hpos hlt choice

/-- A drain moves only in its own steps. -/
theorem next_drainers {choice : Choice} {drainer : ℕ} (hdrain : choice ≠ .drain drainer)
    (hstep : choice ≠ .step drainer) :
    (world.next frames choice).drainers drainer = world.drainers drainer := by
  cases choice with
  | notify index frame =>
    unfold World.next
    dsimp only
    split <;> rfl
  | mark index =>
    unfold World.next
    dsimp only
    split <;> rfl
  | drain index =>
    have hne : drainer ≠ index := fun heq ↦ hdrain (heq ▸ rfl)
    unfold World.next
    dsimp only
    split
    · exact Function.update_of_ne hne _ _
    · rfl
  | step index =>
    have hne : drainer ≠ index := fun heq ↦ hstep (heq ▸ rfl)
    unfold World.next
    dsimp only
    split
    · exact Function.update_of_ne hne _ _
    · unfold World.follow
      split
      · exact Function.update_of_ne hne _ _
      · exact Function.update_of_ne hne _ _
      · split <;> exact Function.update_of_ne hne _ _
      · split <;> exact Function.update_of_ne hne _ _
    · rfl

/-- No drain begins by itself. -/
theorem next_idle {choice : Choice} (hchoice : ∀ index, choice ≠ .drain index) {drainer : ℕ}
    (hidle : world.drainers drainer = .idle) :
    (world.next frames choice).drainers drainer = .idle := by
  by_cases hstep : choice = .step drainer
  · subst hstep
    simp only [World.next, hidle]
  · exact (next_drainers (hchoice drainer) hstep).trans hidle

/-- A drain that runs alone gets to every frame it is after. -/
theorem pursued_run (hpos : 0 < frames) (hlt : frames < 2 ^ 32) {drainer frame : ℕ}
    {later : List Choice} (hlater : ∀ other, Choice.drain other ∉ later)
    (h : Lossless frames world) (halone : ∀ other ≠ drainer, world.drainers other = .idle)
    (hpursued : Pursued frames world drainer frame) :
    Pursued frames (runFrom frames world later) drainer frame := by
  induction later generalizing world with
  | nil => exact hpursued
  | cons choice later ih =>
    have hchoice : ∀ index, choice ≠ .drain index :=
      fun index heq ↦ hlater index (heq ▸ List.mem_cons_self)
    refine ih (fun other hmem ↦ hlater other (List.mem_cons_of_mem _ hmem)) (h.next hpos hlt choice)
      (fun other hne ↦ next_idle hchoice (halone other hne)) ?_
    exact hpursued.step h.sound (h.sound.stepped choice) (fun _ ↦ next_idle hchoice) halone

/-- The turns that a drain has left, at most. -/
def Drainer.Ends (drainer : Drainer) (turns : ℕ) : Prop :=
  drainer = .idle ∨ ∃ left cursor, drainer = .running left cursor ∧ left ≤ turns

theorem follow_drainers (drainer turns : ℕ) (turn : Turn) :
    (world.follow frames drainer turns turn).drainers drainer = .idle ∨
      (∃ cursor, (world.follow frames drainer turns turn).drainers drainer =
        .running turns cursor) ∨
      ∃ assertion, (world.follow frames drainer turns turn).drainers drainer =
        .panicked assertion := by
  unfold World.follow
  split
  · exact .inl (Function.update_self _ _ _)
  · exact .inr (.inl ⟨_, Function.update_self _ _ _⟩)
  · split
    · exact .inr (.inl ⟨_, Function.update_self _ _ _⟩)
    · exact .inr (.inr ⟨_, Function.update_self _ _ _⟩)
  · split
    · exact .inr (.inl ⟨_, Function.update_self _ _ _⟩)
    · exact .inr (.inr ⟨_, Function.update_self _ _ _⟩)

/-- A step of a drain takes one of its turns. -/
theorem Sound.ends_step (h : Sound frames world) (hpos : 0 < frames) (hlt : frames < 2 ^ 32)
    {drainer turns : ℕ} (hends : (world.drainers drainer).Ends (turns + 1)) :
    ((world.next frames (.step drainer)).drainers drainer).Ends turns := by
  rcases hends with hidle | ⟨left, cursor, hrunning, hleft⟩
  · exact .inl (next_idle (fun _ ↦ Choice.noConfusion) hidle)
  have hunharmed := (h.of_stepped hpos hlt (h.stepped (.step drainer))).unharmed drainer
  cases left with
  | zero =>
    obtain ⟨frontier, -, hturns⟩ := h.touring drainer 0 cursor hrunning
    exact absurd (Nat.le_zero.mp hturns) (Nat.succ_ne_zero _)
  | succ left =>
    simp only [World.next, hrunning] at hunharmed ⊢
    rcases follow_drainers drainer left (turn frames cursor) with
      hidle | ⟨next, hnext⟩ | ⟨assertion, hpanicked⟩
    · exact .inl hidle
    · exact .inr ⟨left, next, hnext, Nat.le_of_succ_le_succ hleft⟩
    · exact absurd hpanicked (hunharmed assertion)

/-- A drain with turns enough comes to its end. -/
theorem drain_ends (hpos : 0 < frames) (hlt : frames < 2 ^ 32) {drainer : ℕ} {later : List Choice}
    (hlater : ∀ other, Choice.drain other ∉ later) (h : Sound frames world)
    (hends : (world.drainers drainer).Ends (later.count (.step drainer))) :
    (runFrom frames world later).drainers drainer = .idle := by
  induction later generalizing world with
  | nil =>
    rcases hends with hidle | ⟨left, cursor, hrunning, hleft⟩
    · exact hidle
    · obtain ⟨frontier, -, hturns⟩ := h.touring drainer left cursor hrunning
      have hzero : turnsLeft frames cursor frontier ≤ 0 := hturns.trans hleft
      exact absurd (Nat.le_zero.mp hzero) (Nat.succ_ne_zero _)
  | cons choice later ih =>
    refine ih (fun other hmem ↦ hlater other (List.mem_cons_of_mem _ hmem))
      (h.of_stepped hpos hlt (h.stepped choice)) ?_
    by_cases hstep : choice = .step drainer
    · subst hstep
      rw [List.count_cons_self] at hends
      exact h.ends_step hpos hlt hends
    · have hdrain : choice ≠ .drain drainer := fun heq ↦ hlater drainer (heq ▸ List.mem_cons_self)
      rw [List.count_cons_of_ne hstep] at hends
      rw [next_drainers hdrain hstep]
      exact hends

/-- A drain that starts while all rest visits what was notified, whatever is notified meanwhile. -/
theorem Lossless.drain (h : Lossless frames world) (hpos : 0 < frames) (hlt : frames < 2 ^ 32)
    (hrest : Resting world) {drainer : ℕ} {later : List Choice}
    (hlater : ∀ other, Choice.drain other ∉ later)
    (hturns : turnsMax frames ≤ later.count (.step drainer)) :
    (runFrom frames world (.drain drainer :: later)).drainers drainer = .idle ∧
      ∀ frame, world.due frame = true →
        frame ∈ (runFrom frames world (.drain drainer :: later)).visits drainer := by
  have hbegin : world.next frames (.drain drainer) = world.begin frames drainer := by
    simp only [World.next, hrest.drainers]
  have hafter := h.next hpos hlt (.drain drainer)
  rw [runFrom, List.foldl_cons, hbegin]
  rw [hbegin] at hafter
  have hidle : (runFrom frames (world.begin frames drainer) later).drainers drainer = .idle :=
    drain_ends hpos hlt hlater hafter.sound (.inr ⟨_, _, Function.update_self _ _ _, hturns⟩)
  refine ⟨hidle, fun frame hdue ↦ ?_⟩
  have hmarked : Marked world.dirty 0 frame := hrest.marked (.inl (h.noted.due frame hdue))
  have halone : ∀ other ≠ drainer, (world.begin frames drainer).drainers other = .idle :=
    fun other hne ↦ (Function.update_of_ne hne _ _).trans (hrest.drainers other)
  rcases pursued_run hpos hlt hlater hafter halone
    (hrest.pursued hpos hlt h.sound h.covered hmarked drainer) with hmem | ⟨level, -, hholds, -⟩
  · exact hmem
  · rw [hidle] at hholds
    exact absurd hholds not_holds_idle

/-- In every run, a drain visits frames in ascending order and never gets to the bound of its loop,
and it visits only frames that were notified when it took their word and whose word was not taken in
between. When no notification and no drain is in progress, the bits of a frame reach up to the root,
and the next drain visits every frame that was notified and not visited since. -/
theorem drains_lose_no_notification {frames : ℕ} (hpos : 0 < frames) (hlt : frames < 2 ^ 32)
    (schedule : List Choice) :
    (∀ drainer, ((run frames schedule).visits drainer).Pairwise (· < ·) ∧
      ∀ assertion, (run frames schedule).drainers drainer ≠ .panicked assertion) ∧
    (∀ before drainer frame after,
      (run frames schedule).trace = before ++ .visited drainer frame :: after →
        Claimed before drainer frame) ∧
    (Resting (run frames schedule) →
      (∀ frame, Marked (run frames schedule).dirty 0 frame → ∀ level < height frames,
        Marked (run frames schedule).dirty level (frame / 64 ^ level)) ∧
      ∀ drainer later, (∀ other, Choice.drain other ∉ later) →
        turnsMax frames ≤ later.count (.step drainer) →
        (runFrom frames (run frames schedule) (.drain drainer :: later)).drainers drainer = .idle ∧
        ∀ frame, (run frames schedule).due frame = true →
          frame ∈ (runFrom frames (run frames schedule) (.drain drainer :: later)).visits
            drainer) := by
  have h := lossless_run hpos hlt schedule
  refine ⟨fun drainer ↦ ⟨h.sound.ascending drainer, h.sound.unharmed drainer⟩, h.noted.visited,
    fun hrest ↦ ⟨fun frame hleaf level hlevel ↦ ?_, fun drainer later hlater hturns ↦ ?_⟩⟩
  · exact hrest.ancestors h.covered hleaf hlevel
  · exact h.drain hpos hlt hrest hlater hturns

/-- Frame 64 of 65 is notified on both levels. -/
theorem last_frame_rests : Resting (run 65 [.notify 0 64, .mark 0, .mark 0]) ∧
    (run 65 [.notify 0 64, .mark 0, .mark 0]).due 64 = true := by
  refine ⟨⟨fun index level bit ↦ ?_, fun drainer ↦ rfl⟩, by decide +kernel⟩
  by_cases heq : index = 0
  · subst heq
    have hidle : (run 65 [.notify 0 64, .mark 0, .mark 0]).notifiers 0 = .idle := rfl
    rw [hidle]
    exact Notifier.noConfusion
  · have hrun : run 65 [.notify 0 64, .mark 0, .mark 0] =
        ((initial.setNotifier 0 (.marking 0 64)).mark 65 0 0 64).mark 65 0 1 1 := rfl
    simp only [hrun, World.mark, World.setNotifier, Function.update_of_ne heq]
    exact Notifier.noConfusion

theorem last_frame_visited :
    64 ∈ (runFrom 65 (run 65 [.notify 0 64, .mark 0, .mark 0])
      (.drain 0 :: List.replicate (turnsMax 65) (.step 0))).visits 0 :=
  ((drains_lose_no_notification (by decide) (by decide) [.notify 0 64, .mark 0, .mark 0]).2.2
    last_frame_rests.1).2 0 _ (by simp) (by simp) |>.2 64 last_frame_rests.2

end Runs

end DiosPool.Dirty
