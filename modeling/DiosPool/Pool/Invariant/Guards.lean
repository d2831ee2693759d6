import DiosPool.Foundation.Epochs
import DiosPool.Pool.FailedMiss
import DiosPool.Pool.Invariant.Places

/-!
# Guards

A reader relies on the frames of its guards, and on a frame that it has found and not pinned yet. No
such frame is reclaimed before the reader gives it up.
-/

namespace DiosPool.Pool

open Driver Foundation

/-! ## Readers -/

/-- A pin that has begun: whether its reader had no guard before, and what it has found. -/
def Activity.pin : Activity → Option (Bool × Option (ℕ × PageId))
  | .searching first _ => some (first, none)
  | .referencing first frame page _ => some (first, some (frame, page))
  | _ => none

/-- The guards of a reader, with the one that is being promoted. -/
def Reader.held (reader : Reader) : List Guard :=
  match reader.activity with
  | .promoting guard _ => guard :: reader.guards
  | _ => reader.guards

/-- The frames that a reader relies on, with their pages. -/
def Reader.relied (reader : Reader) : List (ℕ × PageId) :=
  (reader.activity.pin.bind Prod.snd).toList ++
    reader.held.map fun guard ↦ (guard.frame, guard.page)

/-- A reader has published an epoch from the begin of its first pin to the end of its last guard. -/
structure Reader.Sound (epoch : ℕ) (reader : Reader) : Prop where
  count : reader.held.length ≤ reader.guardCount
  stale : ∀ published, reader.localEpoch = some published → published ≤ epoch
  loaded : ∀ loaded target, reader.activity = .publishing loaded target → loaded ≤ epoch
  pinned : reader.localEpoch = none → reader.guardCount = 0 ∧ reader.activity.pin = none
  first : ∀ found, reader.activity.pin = some (true, found) → reader.guardCount = 0

/-- A step of a reader. What it relies on afterwards it has relied on, or has found resident. -/
structure Reader.Goes (epoch : ℕ) (frames : ℕ → Frame) (before after : Reader) : Prop where
  sound : after.Sound epoch
  epoch : after.localEpoch = before.localEpoch ∨ after.relied = []
  relied : ∀ use ∈ after.relied, use ∈ before.relied ∨
    (frames use.1).state = .resident ∧ (frames use.1).page = use.2

theorem releaseGuard_eq_ok {reader next : Reader} (h : releaseGuard reader = .ok next) :
    next = { reader with
      localEpoch := if reader.guardCount = 1 then none else reader.localEpoch
      guardCount := reader.guardCount - 1 } := by
  simp only [releaseGuard, bind_eq_ok, ensure_eq_ok, pure_ok, Except.ok.injEq] at h
  obtain ⟨_, -, rfl⟩ := h
  rfl

section Readers

variable {C : Config} {c c' : Custody} {pool after : Pool} {index epoch : ℕ} {frames : ℕ → Frame}
  {reader next : Reader} {guard : Guard} {stage : PromotionStage}

theorem Reader.Sound.relied_eq_nil (h : reader.Sound epoch) (hzero : reader.guardCount = 0)
    (hpin : reader.activity.pin.bind Prod.snd = none) : reader.relied = [] := by
  have hcount := h.count
  have hheld : reader.held = [] := List.length_eq_zero_iff.mp (by omega)
  simp [Reader.relied, hpin, hheld]

theorem Reader.guards_subperm (reader : Reader) : reader.guards.Subperm reader.held := by
  unfold Reader.held
  split
  · exact (List.sublist_cons_self ..).subperm
  · exact .refl _

/-- No guard is added, and the epoch stays as it is. -/
theorem Reader.Goes.same (hsound : reader.Sound epoch) {guards : List Guard} {activity : Activity}
    (hheld : (Reader.held { reader with guards, activity }).Subperm reader.held)
    (hpin : activity.pin = none)
    (hloaded : ∀ loaded target, activity = .publishing loaded target → loaded ≤ epoch) :
    Reader.Goes epoch frames reader { reader with guards, activity } := by
  refine ⟨⟨hheld.length_le.trans hsound.count, hsound.stale, hloaded,
    fun hnone ↦ ⟨(hsound.pinned hnone).1, hpin⟩, by simp [hpin]⟩, .inl rfl, fun use huse ↦ .inl ?_⟩
  simp only [Reader.relied, hpin] at huse
  exact List.mem_append_right _ (List.map_subset _ hheld.subset huse)

theorem Reader.Goes.call (hsound : reader.Sound epoch) (inCall : Bool) :
    Reader.Goes epoch frames reader { reader with inCall } :=
  ⟨⟨hsound.1, hsound.2, hsound.3, hsound.4, hsound.5⟩, .inl rfl, fun _ ↦ .inl⟩

/-- A reader without guards has nothing to rely on. -/
theorem Reader.Goes.empty (hsound : next.Sound epoch) (hzero : next.guardCount = 0)
    (hpin : next.activity.pin.bind Prod.snd = none) : Reader.Goes epoch frames reader next := by
  have hnil := hsound.relied_eq_nil hzero hpin
  exact ⟨hsound, .inr hnil, by simp [hnil]⟩

/-- A guard is given up, and with the last one the epoch. -/
theorem Reader.Goes.release (hsound : reader.Sound epoch)
    (hepoch : next.localEpoch = if reader.guardCount = 1 then none else reader.localEpoch)
    (hcount : next.guardCount = reader.guardCount - 1) (hidle : next.activity = .idle)
    (hlength : next.guards.length < reader.held.length) (hguards : next.guards ⊆ reader.held) :
    Reader.Goes epoch frames reader next := by
  have hheld : next.held = next.guards := by simp [Reader.held, hidle]
  have hpin : next.activity.pin = none := by simp [hidle, Activity.pin]
  have htotal := hsound.count
  have hnext : next.held.length ≤ next.guardCount := by
    rw [hheld]
    omega
  by_cases hlast : reader.guardCount = 1
  · rw [if_pos hlast] at hepoch
    exact .empty ⟨hnext, by simp [hepoch], by simp [hidle], fun _ ↦ ⟨by omega, hpin⟩,
      by simp [hpin]⟩ (by omega) (by simp [hpin])
  · rw [if_neg hlast] at hepoch
    refine ⟨⟨hnext, hepoch ▸ hsound.stale, by simp [hidle], fun hnone ↦ ?_, by simp [hpin]⟩,
      .inl hepoch, fun use huse ↦ .inl ?_⟩
    · have hzero := (hsound.pinned (hepoch ▸ hnone)).1
      omega
    · rw [Reader.relied, hpin, hheld] at huse
      exact List.mem_append_right _ (List.map_subset _ hguards huse)

/-- A promotion goes on, or the guard goes back to its caller. -/
theorem Reader.Goes.promote (hsound : reader.Sound epoch)
    (h : reader.activity = .promoting guard stage)
    (hnext : next = refusePromotion reader guard ∨
      ∃ stage, next = { reader with activity := .promoting guard stage }) :
    Reader.Goes epoch frames reader next := by
  have hheld : (guard :: reader.guards).Subperm reader.held := by
    rw [Reader.held, h]
  rcases hnext with rfl | ⟨stage, rfl⟩ <;> exact .same hsound hheld rfl (by simp)

/-- A step of a reader leaves the other readers alone. -/
theorem ReaderTurn.goes (h : ReaderTurn C index pool after)
    (hsound : (pool.unlocked.readers index).Sound pool.locked.globalEpoch)
    (hfind : ∀ frame target, findFrame pool.locked target = some frame →
      (pool.locked.frames frame).state = .resident ∧
        (pool.locked.frames frame).page = target.page) :
    ∃ next : Reader, after.unlocked.readers = Function.update pool.unlocked.readers index next ∧
      Reader.Goes pool.locked.globalEpoch pool.locked.frames
        (pool.unlocked.readers index) next := by
  have hguards := (pool.unlocked.readers index).guards_subperm
  have hcount := hguards.length_le.trans hsound.count
  cases h with
  | check h hnext =>
    rcases hnext with rfl | rfl <;> exact ⟨_, rfl, .same hsound hguards rfl (by simp)⟩
  | load h => exact ⟨_, rfl, .same hsound hguards rfl (by simp +contextual)⟩
  | publish h =>
    refine ⟨_, rfl, ?_⟩
    unfold beginPin
    split
    · rename_i hzero
      refine .empty ⟨hcount, ?_, by simp, by simp, fun _ _ ↦ hzero⟩ hzero rfl
      rintro _ ⟨⟩
      exact hsound.loaded _ _ h
    · rename_i hpos
      refine ⟨⟨hcount, hsound.stale, by simp, fun hnone ↦ ?_, by simp [Activity.pin]⟩, .inl rfl, ?_⟩
      · exact absurd (hsound.pinned hnone).1 hpos
      · simp +contextual [Reader.relied, Reader.held, Activity.pin, h]
  | find h hfound =>
    refine ⟨_, rfl, ⟨hcount, hsound.stale, by simp, fun hnone ↦ ?_, ?_⟩, .inl rfl,
      fun use huse ↦ ?_⟩
    · simpa [h, Activity.pin] using (hsound.pinned hnone).2
    · rintro found ⟨⟩
      exact hsound.first none (by simp [h, Activity.pin])
    · rcases List.mem_append.mp huse with hmem | hmem
      · obtain rfl : use = _ := List.mem_singleton.mp hmem
        exact .inr (hfind _ _ hfound)
      · exact .inl (by simpa [Reader.relied, Reader.held, Activity.pin, h] using hmem)
  | @abandon first target h =>
    refine ⟨_, rfl, ?_⟩
    cases first with
    | false => exact .same hsound hguards rfl (by simp)
    | true =>
      have hzero := hsound.first none (by simp [h, Activity.pin])
      exact .empty ⟨hcount, by simp [abortPin], by simp [abortPin], fun _ ↦ ⟨hzero, rfl⟩,
        fun _ _ ↦ hzero⟩ hzero rfl
  | reference h =>
    refine ⟨_, rfl, ⟨hcount, hsound.stale, by simp, ?_, ?_⟩, .inl rfl, fun use huse ↦ .inl ?_⟩
    · simpa [Activity.pin, h] using hsound.pinned
    · simpa [Activity.pin, h] using hsound.first
    · simpa [Reader.relied, Reader.held, Activity.pin, h] using huse
  | commit h =>
    refine ⟨_, rfl, ⟨Nat.succ_le_succ hcount, hsound.stale, by simp, fun hnone ↦ ?_,
      by simp [Activity.pin]⟩, .inl rfl, fun use huse ↦ .inl ?_⟩
    · simpa [h, Activity.pin] using (hsound.pinned hnone).2
    · simpa [Reader.relied, Reader.held, Activity.pin, h] using huse
  | dropGuard h hguard hrelease =>
    cases releaseGuard_eq_ok hrelease
    have hlength := hguards.length_le
    refine ⟨_, rfl, .release hsound rfl rfl h ?_ ?_⟩
    · rw [List.length_eraseIdx_of_lt hguard]
      omega
    · exact fun guard hmem ↦ hguards.subset (List.mem_of_mem_eraseIdx hmem)
  | retain hretained h hguard =>
    refine ⟨_, rfl, .same hsound ?_ rfl (by simp)⟩
    obtain ⟨hlt, rfl⟩ := List.getElem?_eq_some_iff.mp hguard
    simp only [Reader.held, h]
    exact (List.getElem_cons_eraseIdx_perm hlt).subperm
  | rest h hstage hunits hrests =>
    exact ⟨_, rfl, .promote hsound h (hrests.imp_right (Exists.imp fun _ ↦ And.right))⟩
  | unreserve h hstage hunits hbudget hrests =>
    exact ⟨_, rfl, .promote hsound h (hrests.imp_right (Exists.imp fun _ ↦ And.right))⟩
  | withdraw h hcount => exact ⟨_, rfl, .promote hsound h (.inl rfl)⟩
  | handover h hrelease =>
    cases releaseGuard_eq_ok hrelease
    refine ⟨_, rfl, .release hsound rfl rfl rfl ?_ ?_⟩
    · simp [Reader.held, h]
    · simp [Reader.held, h]
  | _ => exact ⟨_, rfl, .promote hsound (by assumption) (.inr ⟨_, rfl⟩)⟩

end Readers

/-! ## The pool -/

/-- The epoch, the readers that the scan of the call has passed, and what readers have published. -/
def epochs (c : Custody) (pool : Pool) : Epochs :=
  ⟨pool.locked.globalEpoch, c.passed, fun index ↦ (pool.unlocked.readers index).localEpoch⟩

/-- The frame is not reclaimed before the reader changes its epoch. -/
def Kept (c : Custody) (pool : Pool) (index frame : ℕ) : Prop :=
  (pool.locked.frames frame).state = .resident ∨
    ∃ tag, (frame, tag) ∈ pool.locked.evictQueue ∧ (epochs c pool).limit index ≤ tag + 1

/-- Every reader relies on frames that are kept. -/
structure Sheltered (C : Config) (c : Custody) (pool : Pool) : Prop where
  sound : ∀ index, (pool.unlocked.readers index).Sound pool.locked.globalEpoch
  kept : ∀ index < C.maxConcurrentReaders, ∀ use ∈ (pool.unlocked.readers index).relied,
    Kept c pool index use.1 ∧ (pool.locked.frames use.1).page = use.2

section Steps

variable {C : Config} {c c' : Custody} {pool after : Pool} {index frame : ℕ} {next : Reader}

theorem Sheltered.new (C : Config) : Sheltered C .empty (Pool.new C) := by
  refine ⟨fun index ↦ ?_, fun index _ use huse ↦ ?_⟩
  · constructor <;> simp [Pool.new, Reader.new, Reader.held, Activity.pin]
  · cases huse

/-- The frames and the epoch change under readers that do nothing. -/
theorem Sheltered.change (h : Sheltered C c pool)
    (hreaders : after.unlocked.readers = pool.unlocked.readers)
    (hepoch : pool.locked.globalEpoch ≤ after.locked.globalEpoch)
    (hlimit : ∀ index < C.maxConcurrentReaders, (pool.unlocked.readers index).localEpoch ≠ none →
      (epochs c' after).limit index ≤ (epochs c pool).limit index)
    (hqueue : ∀ entry ∈ pool.locked.evictQueue, pool.locked.globalEpoch < entry.2 + 2 →
      entry ∈ after.locked.evictQueue)
    (hframes : ∀ index frame, Kept c pool index frame →
      after.locked.frames frame = pool.locked.frames frame ∨
        after.locked.frames frame = { pool.locked.frames frame with state := .evicting } ∧
          (frame, after.locked.globalEpoch) ∈ after.locked.evictQueue) : Sheltered C c' after := by
  refine ⟨fun index ↦ ?_, fun index hindex use huse ↦ ?_⟩
  · have hsound := h.sound index
    rw [hreaders]
    exact { hsound with
      stale := fun published hpublished ↦ (hsound.stale published hpublished).trans hepoch
      loaded := fun loaded target hloaded ↦ (hsound.loaded loaded target hloaded).trans hepoch }
  · rw [hreaders] at huse
    have hactive : (pool.unlocked.readers index).localEpoch ≠ none := by
      intro hnone
      obtain ⟨hzero, hpin⟩ := (h.sound index).pinned hnone
      exact List.ne_nil_of_mem huse ((h.sound index).relied_eq_nil hzero (by simp [hpin]))
    obtain ⟨hkept, hpage⟩ := h.kept index hindex use huse
    rcases hframes index use.1 hkept with hframe | ⟨hframe, hmem⟩
    · refine ⟨hkept.imp (fun hresident ↦ by rw [hframe, hresident]) ?_, by rw [hframe, hpage]⟩
      rintro ⟨tag, hmem, hle⟩
      have hnow := ((epochs c pool).now_le_limit index).trans hle
      exact ⟨tag, hqueue _ hmem (Nat.lt_succ_of_le hnow), (hlimit index hindex hactive).trans hle⟩
    · exact ⟨.inr ⟨_, hmem, Epochs.limit_le _ _⟩, by rw [hframe, hpage]⟩

/-- A reader takes a step. -/
theorem Sheltered.step (h : Sheltered C c pool)
    (hreaders : after.unlocked.readers = Function.update pool.unlocked.readers index next)
    (hlocked : after.locked = pool.locked) (hpassed : c'.passed = c.passed)
    (hgoes : Reader.Goes pool.locked.globalEpoch pool.locked.frames
      (pool.unlocked.readers index) next) : Sheltered C c' after := by
  have hgo (other : ℕ) : Reader.Goes pool.locked.globalEpoch pool.locked.frames
      (pool.unlocked.readers other) (after.unlocked.readers other) := by
    rw [hreaders]
    rcases eq_or_ne other index with rfl | hne
    · rwa [Function.update_self]
    · rw [Function.update_of_ne hne]
      exact ⟨h.sound other, .inl rfl, fun _ ↦ .inl⟩
  refine ⟨fun other ↦ hlocked ▸ (hgo other).sound, fun other hother use huse ↦ ?_⟩
  rcases (hgo other).relied use huse with hold | ⟨hresident, hpage⟩
  · have hepoch := (hgo other).epoch.resolve_right (List.ne_nil_of_mem huse)
    have hkept := h.kept other hother use hold
    simp only [Kept, epochs, Epochs.limit, hlocked, hpassed, hepoch] at hkept ⊢
    exact hkept
  · rw [Kept, hlocked]
    exact ⟨.inl hresident, hpage⟩

theorem ReaderTurn.sheltered (hturn : ReaderTurn C index pool after) (hplaced : Placed C c pool)
    (h : Sheltered C c pool) : Sheltered C c after := by
  have hfind (frame : ℕ) (target : PinTarget)
      (hfound : findFrame pool.locked target = some frame) :
      (pool.locked.frames frame).state = .resident ∧
        (pool.locked.frames frame).page = target.page := by
    cases target with
    | lookup page => exact (hplaced.frames.of_lookup hfound).imp_right And.left
    | hint page candidate stamp =>
      obtain ⟨⟨-, hvalid⟩, hframe⟩ := Option.ite_none_right_eq_some.mp hfound
      cases hframe
      exact hvalid
  obtain ⟨next, hreaders, hgoes⟩ := hturn.goes (h.sound index) hfind
  exact h.step hreaders (by cases hturn <;> rfl) rfl hgoes

theorem Turn.sheltered (hturn : Turn C pool after) (hplaced : Placed C c pool)
    (h : Sheltered C c pool) : Sheltered C c after := by
  cases hturn with
  | @begin index target hindex hcall hidle =>
    have hguards := (pool.unlocked.readers index).guards_subperm
    exact h.step rfl rfl rfl (.same (h.sound index) hguards rfl (by simp))
  | reader hcall hreader => exact hreader.sheltered hplaced h
  | _ => exact ⟨h.sound, h.kept⟩

/-- The frame is mapped or about to be, or queued. -/
def Live (c : Custody) (pool : Pool) (frame : ℕ) : Prop :=
  (pool.locked.frames frame).state = .resident ∨
    (pool.locked.frames frame).state = .evicting ∧
      (pool.unlocked.retention.words frame).held = false ∧ c.evicting.map Prod.fst ≠ some frame

theorem Placed.live_of_kept (h : Placed C c pool) (hkept : Kept c pool index frame) :
    Live c pool frame := by
  refine hkept.imp_right ?_
  rintro ⟨tag, hmem, -⟩
  have hmem : frame ∈ pool.locked.evictQueue.map Prod.fst := List.mem_map_of_mem hmem
  have hcount := List.count_pos_iff.mpr hmem
  have hqueued := (h.frames frame).queued
  split_ifs at hqueued <;> first | omega | simp_all

/-- A frame changes that is kept for nobody. -/
theorem Sheltered.reframe (h : Sheltered C c pool) (hplaced : Placed C c pool) {word : Frame}
    (hlive : ¬ Live c pool frame)
    (hafter : after.unlocked.readers = pool.unlocked.readers ∧
      after.locked.frames = Function.update pool.locked.frames frame word ∧
      after.locked.evictQueue = pool.locked.evictQueue ∧
      after.locked.globalEpoch = pool.locked.globalEpoch)
    (hpassed : c'.passed = c.passed) : Sheltered C c' after := by
  obtain ⟨hreaders, hframes, hqueue, hepoch⟩ := hafter
  refine h.change hreaders hepoch.ge (fun index _ _ ↦ ?_)
    (fun entry hmem _ ↦ hqueue ▸ hmem) fun index other hkept ↦ .inl ?_
  · simp only [epochs, hpassed, hepoch, hreaders, le_refl]
  · have hne : other ≠ frame := by
      rintro rfl
      exact hlive (hplaced.live_of_kept hkept)
    rw [hframes, Function.update_of_ne hne]

theorem Move.sheltered (hmove : Move C (c, pool) (c', after)) (hplaced : Placed C c pool)
    (h : Sheltered C c pool) : Sheltered C c' after := by
  cases hmove with
  | claim hstate hcount hreserve =>
    exact h.reframe hplaced (by simp [Live, hstate]) ⟨rfl, rfl, rfl, rfl⟩ rfl
  | abort hloose hcount hreserve =>
    have hstate := hplaced.frames.state_of_mem_holding (mem_holding_of_loose C pool hloose)
    exact h.reframe hplaced (by simp [Live, hstate]) ⟨rfl, rfl, rfl, rfl⟩ rfl
  | publish howed hentry hsettling hunmapped =>
    have hstate := hplaced.frames.state_of_mem_holding (mem_holding_of_owed C pool howed)
    exact h.reframe hplaced (by simp [Live, hstate]) ⟨rfl, rfl, rfl, rfl⟩ rfl
  | reclaim hevicting hpages =>
    have hstate := hplaced.frames.state_of_evicting (congrArg (Option.map Prod.fst) hevicting)
    exact h.reframe hplaced (by simp [Live, hstate, hevicting]) ⟨rfl, rfl, rfl, rfl⟩ rfl
  | reclaimHeld hword hpages =>
    have hstate := hplaced.frames.state_of_held (congrArg Word.held hword)
    exact h.reframe hplaced (by simp [Live, hstate, hword]) ⟨rfl, rfl, rfl, rfl⟩ rfl
  | @enqueue _ _ frame hsettling hunmapped =>
    refine h.change rfl le_rfl (fun _ _ _ ↦ le_rfl)
      (fun entry hmem _ ↦ List.mem_append_left _ hmem) fun index other _ ↦ ?_
    by_cases hother : other = frame
    · subst hother
      exact .inr ⟨Function.update_self .., by simp⟩
    · exact .inl (Function.update_of_ne hother ..)
  | dequeue hqueue hevicting hmature =>
    -- Only a matured entry leaves the queue.
    refine h.change rfl le_rfl (fun _ _ _ ↦ le_rfl) (fun entry hmem hlt ↦ ?_)
      fun _ _ _ ↦ .inl rfl
    rw [hqueue] at hmem
    refine (List.mem_cons.mp hmem).resolve_left fun heq ↦ ?_
    rw [heq] at hlt
    omega
  | rescan =>
    exact h.change rfl le_rfl (fun index _ _ ↦ (epochs c pool).limit_rescan index)
      (fun _ hmem _ ↦ hmem) fun _ _ _ ↦ .inl rfl
  | pass hpermits =>
    refine h.change rfl le_rfl (fun index _ hactive ↦ ?_) (fun _ hmem _ ↦ hmem)
      fun _ _ _ ↦ .inl rfl
    exact (epochs c pool).limit_pass hactive (by simpa [permitsAdvance, epochs] using hpermits)
  | tick hpassed hquiet =>
    refine h.change rfl (Nat.le_succ _) (fun index hindex _ ↦ ?_) (fun _ hmem _ ↦ hmem)
      fun _ _ _ ↦ .inl rfl
    exact (epochs c pool).limit_tick (hindex.trans_eq hpassed.symm) (h.sound index).stale
  | enter hcaller hpinning hindex hidle => exact h.step rfl rfl rfl (.call (h.sound _) true)
  | @beginPin _ _ index target hcaller =>
    have hguards := (pool.unlocked.readers index).guards_subperm
    exact h.step rfl rfl rfl (.same (h.sound index) hguards rfl (by simp))
  | pin hpinning hreader => exact hreader.sheltered hplaced h
  | leave hcaller => exact h.step rfl rfl rfl (.call (h.sound _) false)
  | submitWrite hindex hvacant hlive hsubmit hlocked =>
    cases hlocked
    exact ⟨h.sound, h.kept⟩
  | holdFsync hindex hvacant hlive hlocked =>
    cases hlocked
    exact ⟨h.sound, h.kept⟩
  | finish hfinished hfinish =>
    cases finishProductCompletion_eq_ok hfinish <;> exact ⟨h.sound, h.kept⟩
  | deliver hdeliver =>
    obtain ⟨productOps, rfl⟩ := deliverFrom_eq _ _ _ _ _ _ _ hdeliver
    exact ⟨h.sound, h.kept⟩
  | register hopened hregister =>
    obtain ⟨_, _, _, _, rfl⟩ := registerFile_eq_ok hopened hregister
    exact ⟨h.sound, h.kept⟩
  | beginRetire hlive hretire =>
    obtain ⟨_, _, _, _, rfl⟩ := beginFileRetirement_eq_some hretire
    exact ⟨h.sound, h.kept⟩
  | _ => exact ⟨h.sound, h.kept⟩

/-- In every state, every reader relies on frames that are kept. -/
theorem Reach.sheltered (h : Reach C c pool) : Sheltered C c pool := by
  induction h with
  | new => exact .new C
  | turn hreach hturn ih => exact hturn.sheltered hreach.placed ih
  | move hreach hmove ih => exact hmove.sheltered hreach.placed ih

/-- As long as a reader has a guard, the frame of the guard keeps its page. It is neither free nor
in flight, and if it is queued for reclamation, its entry has not matured. -/
theorem guards_outlive_eviction (h : Reach C c pool) (hindex : index < C.maxConcurrentReaders)
    {guard : Guard} (hguard : guard ∈ (pool.unlocked.readers index).held) :
    (pool.locked.frames guard.frame).page = guard.page ∧
      guard.frame ∉ pool.locked.freeFrames ∧ guard.frame ∉ pool.locked.reserve ∧
      guard.frame ∉ holding C c pool ∧
      ((pool.locked.frames guard.frame).state = .resident ∨ ∃ tag,
        (guard.frame, tag) ∈ pool.locked.evictQueue ∧ pool.locked.globalEpoch < tag + 2) := by
  obtain ⟨hkept, hpage⟩ := h.sheltered.kept index hindex (guard.frame, guard.page)
    (List.mem_append_right _ (List.mem_map_of_mem hguard))
  have hstate := h.placed.live_of_kept hkept
  have hfree := (h.placed.frames guard.frame).free
  have hholding := (h.placed.frames guard.frame).holding
  rw [if_neg (by rcases hstate with hstate | ⟨hstate, -⟩ <;> simp [hstate])] at hfree hholding
  refine ⟨hpage, List.count_eq_zero.mp (by omega), List.count_eq_zero.mp (by omega),
    Multiset.count_eq_zero.mp hholding, hkept.imp_right ?_⟩
  rintro ⟨tag, hmem, hlimit⟩
  exact ⟨tag, hmem, Nat.lt_succ_of_le (((epochs c pool).now_le_limit index).trans hlimit)⟩

end Steps

/-- A page is read, and a reader pins it by a hint. -/
theorem exists_guard : ∃ c pool guard, Reach fourFrames c pool ∧
    guard ∈ (pool.unlocked.readers 0).held := by
  have h := (Reach.new (C := fourFrames)).turn (@Turn.openFile _ _ _ .buffered _ rfl)
  have h := h.move (@Move.register _ _ _ _ 0 _ rfl rfl)
  have h := h.move (@Move.live _ _ _ ⟨0, 0, 1⟩ rfl)
  have h := h.move (@Move.absent _ _ _ ⟨⟨0, 0, 1⟩, 0⟩ (Finmap.lookup_empty _) rfl)
  have h := h.move (@Move.room _ _ _ 1 (by decide))
  have h := h.move (@Move.claim _ _ _ 0 ⟨⟨0, 0, 1⟩, 0⟩ [1, 2, 3] [] rfl
    (fun _ ↦ (count_push ..).symm) le_rfl)
  have h := h.move (@Move.submit _ _ _ ⟨⟨0, 0, 1⟩, .buffered⟩ _ 0 _ _
    (Multiset.mem_cons_self 0 0) rfl rfl rfl)
  have h := h.move (@Move.admitRead _ _ _ 0 0 0 _ _ _ _ _ _ (Multiset.mem_cons_self _ 0) rfl
    (Finset.mem_insert_self _ ∅) (Finset.mem_insert_self _ ∅) rfl rfl)
  have h := h.move (.upkeep (.fill rfl))
  have h := h.turn (@Turn.complete _ _ ⟨0, 1⟩ (.ok 4096) _ rfl (by decide) le_rfl (by simp))
  have h := h.move .startRouting
  have h := h.move (@Move.reap _ _ _ _ _ _ rfl rfl)
  have h := h.move (@Move.take _ _ _ _ _ [] rfl rfl rfl (by simp))
  have h := h.move (@Move.publish _ _ _ 0 0 ⟨0, 1⟩ _ (by decide) ⟨rfl, rfl, rfl, rfl⟩ rfl rfl)
  have h := h.turn (@Turn.begin _ _ 0 (.hint ⟨⟨0, 0, 1⟩, 0⟩ 0 (.resident, 1))
    Nat.zero_lt_one rfl rfl)
  have h := h.turn (@Turn.reader _ _ 0 _ rfl (.check rfl (.inl rfl)))
  have h := h.turn (@Turn.reader _ _ 0 _ rfl (.load rfl))
  have h := h.turn (@Turn.reader _ _ 0 _ rfl (.publish rfl))
  have h := h.turn (@Turn.reader _ _ 0 _ rfl (.find rfl rfl))
  have h := h.turn (@Turn.reader _ _ 0 _ rfl (.commit rfl))
  exact ⟨_, _, _, h, List.mem_cons_self⟩

theorem guard_outlives_eviction : ∃ c pool guard, Reach fourFrames c pool ∧
    guard ∈ (pool.unlocked.readers 0).held ∧ guard.frame ∉ pool.locked.freeFrames := by
  obtain ⟨c, pool, guard, hreach, hguard⟩ := exists_guard
  exact ⟨c, pool, guard, hreach, hguard,
    (guards_outlive_eviction hreach Nat.zero_lt_one hguard).2.1⟩

end DiosPool.Pool
