import DiosPool.Pool.Invariant.Driver

/-!
# The places of frames in every state

A frame in flight is held by an operation of the driver or by a completion, or it is in the hands of
the running call. With that, every frame is in one place in every state of a pool.
-/

namespace DiosPool.Pool

open Driver Foundation

/-- The frames in flight. -/
def holding (C : Config) (c : Custody) (pool : Pool) : Multiset ℕ :=
  (holders C pool + c.owed).map Prod.snd + c.loose

/-- Every frame of the pool is in one place, and the reserve keeps within its bound. -/
structure Placed (C : Config) (c : Custody) (pool : Pool) : Prop where
  frames : FramesInv C.frameCount c.unmapped (c.evicting.map Prod.fst) pool.locked.frames
    pool.locked.table pool.locked.freeFrames pool.locked.reserve pool.locked.evictQueue
    pool.unlocked.retention.words (holding C c pool)
  reserve : pool.locked.reserve.length ≤ C.prefetchCapacity

theorem Placed.new (C : Config) : Placed C .empty (Pool.new C) := by
  refine ⟨fun frame ↦ ?_, Nat.zero_le _⟩
  have hholding : holding C .empty (Pool.new C) = 0 := by
    simp [holding, holders, Cargo.total, Cargo.slot, queued, Pool.new, Shared.new, Custody.empty]
  rw [hholding]
  constructor <;> simp [Pool.new, Custody.empty, List.count_range]

section Steps

variable {C : Config} {c c' : Custody} {pool after : Pool}

/-- No turn changes which frames the driver and completions hold. -/
theorem Turn.holders_eq (hturn : Turn C pool after) (h : Connected C c pool) :
    holders C after = holders C pool := by
  cases hturn with
  | reader hcall hreader => cases hreader <;> rfl
  | openFile hopen =>
    obtain ⟨-, -, -, rfl⟩ := Shared.openFile_eq_some hopen
    rfl
  | beginWait hwaiting => simp only [holders, queued, h.waiting hwaiting]
  | upkeep hupkeep => exact frameCargo.total_upkeep h.driver hupkeep _
  | reap hwaiting hreap =>
    refine (frameCargo.total_perm _ ?_).trans
      (frameCargo.total_reaped h.driver (h.driver.reaped hreap) _)
    exact perm_append_left_comm _ _ _
  | _ => rfl

theorem holders_upkeep (h : Connected C c pool) {shared : Shared}
    (hupkeep : Upkeep pool.unlocked.driver shared) :
    holders C (pool.setDriver shared) = holders C pool :=
  frameCargo.total_upkeep h.driver hupkeep _

theorem holders_reap (h : Connected C c pool) {shared : Shared} {completion : Option Completion}
    {retire : Option FileId}
    (hreap : pool.unlocked.driver.reapNext C.driver = .ok (some (completion, retire), shared)) :
    holders C { pool.setDriver shared with locked := { pool.locked with
      batch := completion.toList ++ pool.locked.batch } } = holders C pool := by
  have htotal := frameCargo.total_reaped h.driver (h.driver.reaped hreap) (queued pool)
  rw [queued, ← List.append_assoc] at htotal
  exact htotal

theorem holders_collect : holders C (collectWait pool) = holders C pool := by
  refine frameCargo.total_perm _ ?_
  simp only [queued, collectWait, List.append_nil]
  exact ((List.reverse_perm _).append_right _).trans List.perm_append_comm

theorem holders_take {completion : Completion} {batch : List Completion}
    (hbatch : pool.locked.batch = completion :: batch) :
    holders C pool = frameCargo.completion completion +
      holders C { pool with locked := { pool.locked with batch } } := by
  rw [holders, queued, hbatch, List.cons_append, Cargo.total_cons]
  rfl

theorem holders_release (h : Connected C c pool) {token : OpToken} {shared : Shared}
    (hlease : token ∈ c.leases)
    (hrelease : pool.unlocked.driver.releaseReadLease C.driver token = .ok ((), shared)) :
    holders C (pool.setDriver shared) = holders C pool :=
  frameCargo.total_released h.driver hlease hrelease _

theorem holders_submit (h : Connected C c pool) {fd : FileHandle} {token : OpToken}
    {frame fileOffset destinationOffset requestedLen : ℕ} {shared : Shared}
    (hsubmit : pool.unlocked.driver.submitRead C.driver fd frame fileOffset destinationOffset
      requestedLen = .ok (.ok token, shared)) :
    holders C (pool.setDriver shared) = (token, frame) ::ₘ holders C pool := by
  have hsubmitted := (Shared.submitRead_eq_ok hsubmit).2
  refine (frameCargo.total_submitted h.driver hsubmitted _).trans ?_
  rw [add_comm]
  rfl

theorem holders_submitVector (h : Connected C c pool) {fd : FileHandle} {token : OpToken}
    {vector : ReadVector} {offset : ℕ} {shared : Shared}
    (hsubmit : pool.unlocked.driver.submitReadVector C.driver fd vector offset =
      .ok (.ok token, shared)) :
    holders C (pool.setDriver shared) =
      holders C pool + Multiset.ofList (vector.frames.map fun frame ↦ (token, frame)) := by
  obtain ⟨-, -, hsubmitted⟩ := Shared.submitReadVector_eq_ok hsubmit
  exact frameCargo.total_submitted h.driver hsubmitted _

theorem holders_continue (h : Connected C c pool) {token : OpToken} {vector : ReadVector}
    {shared : Shared} (hlease : token ∈ c.leases)
    (hcontinue : pool.unlocked.driver.continueReadVector C.driver token vector =
      .ok (.ok token, shared)) :
    holders C (pool.setDriver shared) =
      holders C pool + Multiset.ofList (vector.frames.map fun frame ↦ (token, frame)) :=
  frameCargo.total_resumed h.driver hlease hcontinue _

theorem holders_submitWrite (h : Connected C c pool) {fd : FileHandle} {token : OpToken}
    {writeSlot len offset : ℕ} {shared : Shared}
    (hsubmit : pool.unlocked.driver.submitWrite C.driver fd writeSlot len offset =
      .ok (.ok token, shared)) :
    holders C (pool.setDriver shared) = holders C pool :=
  (frameCargo.total_submitted h.driver (Shared.submitWrite_eq_ok hsubmit) _).trans (add_zero _)

theorem holders_submitFsync (h : Connected C c pool) {fd : FileHandle} {token : OpToken}
    {mode : SyncMode} {shared : Shared}
    (hsubmit : pool.unlocked.driver.submitFsync C.driver fd mode = .ok (.ok token, shared)) :
    holders C (pool.setDriver shared) = holders C pool :=
  (frameCargo.total_submitted h.driver (Shared.submitFsync_eq_ok hsubmit) _).trans (add_zero _)

/-- A word changes, but not whether its frame is held. -/
theorem held_update {words : ℕ → Word} {frame : ℕ} {word : Word}
    (h : word.held = (words frame).held) (other : ℕ) :
    (Function.update words frame word other).held = (words other).held := by
  by_cases hother : other = frame
  · subst hother
    rw [Function.update_self, h]
  · rw [Function.update_of_ne hother]

theorem ReaderTurn.placed {index : ℕ} (hturn : ReaderTurn C index pool after)
    (h : Placed C c pool) : Placed C c after := by
  cases hturn with
  | increment hactivity hword =>
    refine ⟨h.frames.setWords (held_update ?_), h.reserve⟩
    rw [hword]
  | first hactivity hword =>
    refine ⟨h.frames.setWords (held_update ?_), h.reserve⟩
    rw [hword]
  | withdraw hactivity hcount => exact ⟨h.frames.setWords (held_update rfl), h.reserve⟩
  | _ => exact ⟨h.frames, h.reserve⟩

theorem Turn.placed (hturn : Turn C pool after) (hconnected : Connected C c pool)
    (h : Placed C c pool) : Placed C c after := by
  have hframes := h.frames
  rw [holding, ← hturn.holders_eq hconnected] at hframes
  cases hturn with
  | reader hcall hreader => exact hreader.placed h
  | dropHandle hhandle hcount => exact ⟨hframes.setWords (held_update rfl), h.reserve⟩
  | _ => exact ⟨hframes, h.reserve⟩

/-- The frames in flight are the same, in other hands. -/
theorem Placed.rehold (h : Placed C c pool) {frames : Multiset ℕ} (hholding : frames = holding C c pool) :
    FramesInv C.frameCount c.unmapped (c.evicting.map Prod.fst) pool.locked.frames
      pool.locked.table pool.locked.freeFrames pool.locked.reserve pool.locked.evictQueue
      pool.unlocked.retention.words frames := by
  rw [hholding]
  exact h.frames

/-- A frame is pushed on the free list. -/
theorem count_push (frame : ℕ) (free reserve : List ℕ) (other : ℕ) :
    (frame :: free).count other + reserve.count other =
      free.count other + reserve.count other + if other = frame then 1 else 0 := by
  by_cases h : other = frame
  · subst h
    rw [List.count_cons_self, if_pos rfl]
    omega
  · rw [List.count_cons_of_ne (Ne.symm h), if_neg h, add_zero]

theorem mem_holding_of_loose (C : Config) (pool : Pool) {frame : ℕ} (h : frame ∈ c.loose) :
    frame ∈ holding C c pool :=
  Multiset.mem_add.mpr (.inr h)

theorem mem_holding_of_owed (C : Config) (pool : Pool) {token : OpToken} {frame : ℕ}
    (h : (token, frame) ∈ c.owed) :
    frame ∈ holding C c pool := by
  refine Multiset.mem_add.mpr (.inl ?_)
  exact Multiset.mem_map_of_mem Prod.snd (Multiset.mem_add.mpr (.inr h))

theorem map_snd_erase {pairs : Multiset (OpToken × ℕ)} {token : OpToken} {frame : ℕ}
    (h : (token, frame) ∈ pairs) :
    (pairs.erase (token, frame)).map Prod.snd = (pairs.map Prod.snd).erase frame := by
  rw [Multiset.map_erase_of_mem Prod.snd pairs h]

theorem map_snd_pairs (token : OpToken) (frames : List ℕ) :
    (Multiset.ofList (frames.map fun frame ↦ (token, frame))).map Prod.snd =
      Multiset.ofList frames := by
  simp [Function.comp_def]

/-- A frame leaves the hands of the call. -/
theorem holding_erase_loose {frame : ℕ} (h : frame ∈ c.loose) (pairs : Multiset ℕ) :
    pairs + c.loose.erase frame = (pairs + c.loose).erase frame := by
  rw [Multiset.erase_add_right_pos pairs h]

theorem holding_erase_owed {token : OpToken} {frame : ℕ} (h : (token, frame) ∈ c.owed) :
    (holders C pool + c.owed.erase (token, frame)).map Prod.snd + c.loose =
      (holding C c pool).erase frame := by
  have hmem : frame ∈ (holders C pool + c.owed).map Prod.snd :=
    Multiset.mem_map_of_mem Prod.snd (Multiset.mem_add.mpr (.inr h))
  rw [holding, Multiset.erase_add_left_pos _ hmem,
    ← map_snd_erase (Multiset.mem_add.mpr (.inr h)), Multiset.erase_add_right_pos _ h]

theorem Move.placed (hmove : Move C (c, pool) (c', after)) (hconnected : Connected C c pool)
    (h : Placed C c pool) : Placed C c' after := by
  cases hmove with
  | pin hpinning hreader => exact hreader.placed h
  | stock hcount hreserve => exact ⟨h.frames.moveFree hcount, hreserve⟩
  | @claim _ _ frame page freeFrames reserve hstate hcount hreserve =>
    refine ⟨?_, hreserve.trans h.reserve⟩
    have hframes := h.frames.claim hstate hcount (pool.locked.frames frame).generation page
    rw [holding, ← Multiset.add_cons] at hframes
    exact hframes
  | @abort _ _ frame freeFrames reserve hloose hcount hreserve =>
    refine ⟨?_, hreserve⟩
    have hstate := h.frames.state_of_mem_holding (mem_holding_of_loose C pool hloose)
    have hframes := h.frames.abort hstate hcount (pool.locked.frames frame).page
      (pool.locked.frames frame).generation
    rw [holding, ← holding_erase_loose hloose] at hframes
    exact hframes
  | @publish _ _ index frame token entry howed hentry hsettling hunmapped =>
    refine ⟨?_, h.reserve⟩
    have hstate := h.frames.state_of_mem_holding (mem_holding_of_owed C pool howed)
    have hframes := h.frames.publish hstate hunmapped (pool.locked.frames frame).page
      ((pool.locked.frames frame).generation + 1)
    rw [← holding_erase_owed howed] at hframes
    exact hframes
  | map hsettling hunmapped habsent hpages =>
    exact ⟨h.frames.map hunmapped rfl habsent, h.reserve⟩
  | @fail _ _ index frame errno credits token entry miss howed hentry hcredits hfail =>
    refine ⟨h.rehold ?_, h.reserve⟩
    have hmem := mem_holding_of_owed C pool howed
    rw [← Multiset.cons_erase hmem, ← holding_erase_owed howed, ← Multiset.add_cons]
    rfl
  | unmap hlookup hsettling hunmapped hsuccess =>
    exact ⟨h.frames.unmap hunmapped hlookup, h.reserve⟩
  | enqueue hsettling hunmapped =>
    exact ⟨h.frames.enqueue hunmapped _ (pool.locked.frames _).generation
      (pool.locked.frames _).page, h.reserve⟩
  | dequeue hqueue hevicting hmature =>
    exact ⟨h.frames.dequeue hqueue (by simp [hevicting]), h.reserve⟩
  | unheld hevicting hcount =>
    have hframes := h.frames
    rw [hevicting] at hframes
    exact ⟨hframes, h.reserve⟩
  | @hold _ _ frame count flag hevicting hword =>
    have hplace : c.evicting.map Prod.fst = some frame := by simp [hevicting]
    refine ⟨h.frames.hold hplace ?_ (by simp [setWord]), h.reserve⟩
    intro other hother
    simp [setWord, hother]
  | @reclaim _ _ frame framePages hevicting hpages =>
    have hplace : c.evicting.map Prod.fst = some frame := by simp [hevicting]
    have hstate := h.frames.state_of_evicting hplace
    have hheld : (pool.unlocked.retention.words frame).held = false := by
      have hqueued := (h.frames frame).queued
      by_contra hne
      simp only [hstate, hplace, Bool.of_not_eq_false hne, if_true] at hqueued
      omega
    refine ⟨?_, h.reserve⟩
    refine h.frames.reclaim (fun _ _ ↦ rfl) ?_ hstate hheld (by simp) (.inr hplace) ?_
      (pool.locked.frames frame).page (pool.locked.frames frame).generation
    · intro other hother
      simp [hevicting, Ne.symm hother]
    · exact count_push frame _ _
  | @reclaimHeld _ _ frame framePages hword hpages =>
    have hheld : (pool.unlocked.retention.words frame).held = true := by rw [hword]
    have hstate := h.frames.state_of_held hheld
    refine ⟨?_, h.reserve⟩
    refine h.frames.reclaim ?_ (fun _ _ ↦ Iff.rfl) hstate (by simp [setWord]) ?_ (.inl hheld) ?_
      (pool.locked.frames frame).page (pool.locked.frames frame).generation
    · intro other hother
      simp [setWord, hother]
    · intro hevicting
      have hqueued := (h.frames frame).queued
      simp only [hstate, hevicting, hheld, if_true] at hqueued
      omega
    · exact count_push frame _ _
  | upkeep hupkeep =>
    refine ⟨h.rehold ?_, h.reserve⟩
    rw [holding, holders_upkeep hconnected hupkeep]
    rfl
  | reap hrouting hreap =>
    refine ⟨h.rehold ?_, h.reserve⟩
    rw [holding, holders_reap hconnected hreap]
    rfl
  | collect hrouting =>
    refine ⟨h.rehold ?_, h.reserve⟩
    rw [holding, holders_collect]
    rfl
  | take hbatch hbundle hspan hfacts =>
    refine ⟨h.rehold ?_, h.reserve⟩
    rw [holding, holding, holders_take hbatch, add_left_comm, ← add_assoc]
  | releaseLease hlease hrelease =>
    refine ⟨h.rehold ?_, h.reserve⟩
    rw [holding, holders_release hconnected hlease hrelease]
    rfl
  | submit hloose hpage hfile hsubmit =>
    refine ⟨h.rehold ?_, h.reserve⟩
    rw [holding, holders_submit hconnected hsubmit, Multiset.cons_add, Multiset.map_cons,
      Multiset.cons_add, holding_erase_loose hloose]
    exact Multiset.cons_erase (mem_holding_of_loose C pool hloose)
  | resubmit howed hentry hfile hsubmit hadvance =>
    refine ⟨h.rehold ?_, h.reserve⟩
    have hholders := holders_submit hconnected hsubmit
    rw [holding]
    refine (congrArg (fun pairs ↦ (pairs + c.owed.erase _).map Prod.snd + c.loose) hholders).trans ?_
    rw [Multiset.cons_add, Multiset.map_cons, Multiset.cons_add, holding_erase_owed howed]
    exact Multiset.cons_erase (mem_holding_of_owed C pool howed)
  | @submitVector _ _ fd first vector token shared hloose hgranule hordinal htotal hunrouted hpages
      hfile hsubmit =>
    refine ⟨h.rehold ?_, h.reserve⟩
    obtain ⟨rest, hrest⟩ := le_iff_exists_add.mp hloose
    rw [holding, holders_submitVector hconnected hsubmit, holding, Multiset.map_add,
      Multiset.map_add, Multiset.map_add, map_snd_pairs, hrest, add_tsub_cancel_left]
    abel
  | @continueVector _ _ token vector whole completed shared hbundle hvector hcompleted hlease
      hspan hunrouted howed hcontinue =>
    refine ⟨h.rehold ?_, h.reserve⟩
    obtain ⟨rest, hrest⟩ := le_iff_exists_add.mp howed
    rw [holding, holders_continue hconnected hlease hcontinue, holding, hrest,
      add_tsub_cancel_left, add_assoc]
  | submitWrite hindex hvacant hlive hsubmit hlocked =>
    cases hlocked
    refine ⟨h.rehold ?_, h.reserve⟩
    exact congrArg (fun pairs ↦ (pairs + c.owed).map Prod.snd + c.loose)
      (holders_submitWrite hconnected hsubmit)
  | holdFsync hindex hvacant hlive hlocked =>
    cases hlocked
    exact ⟨h.frames, h.reserve⟩
  | submitFsync hindex hheld hsubmit =>
    refine ⟨h.rehold ?_, h.reserve⟩
    exact congrArg (fun pairs ↦ (pairs + c.owed).map Prod.snd + c.loose)
      (holders_submitFsync hconnected hsubmit)
  | finish hfinished hfinish =>
    cases finishProductCompletion_eq_ok hfinish <;> exact ⟨h.frames, h.reserve⟩
  | deliver hdeliver =>
    obtain ⟨productOps, rfl⟩ := deliverFrom_eq _ _ _ _ _ _ _ hdeliver
    exact ⟨h.frames, h.reserve⟩
  | register hopened hregister =>
    obtain ⟨_, _, _, _, rfl⟩ := registerFile_eq_ok hopened hregister
    exact ⟨h.frames, h.reserve⟩
  | beginRetire hlive hretire =>
    obtain ⟨_, _, _, _, rfl⟩ := beginFileRetirement_eq_some hretire
    exact ⟨h.frames, h.reserve⟩
  | close hclosing hclose =>
    obtain ⟨-, -, -, rfl⟩ := Shared.closeFile_eq_ok hclose
    exact ⟨h.frames, h.reserve⟩
  | _ => exact ⟨h.frames, h.reserve⟩

/-- Every frame is in one place in every state. -/
theorem Reach.placed (h : Reach C c pool) : Placed C c pool := by
  induction h with
  | new => exact .new C
  | turn hreach hturn ih => exact hturn.placed hreach.connected ih
  | move hreach hmove ih => exact hmove.placed hreach.connected ih

end Steps

end DiosPool.Pool
