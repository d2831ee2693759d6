import DiosPool.Pool.Calls

/-!
# Waiting for a read that failed

`ready` with its debug assertion. After a token of a failed miss is consumed, the waiters are counted
a second time and compared with what the release returned. The call holds the control lock, but the
other tokens of the miss are dropped without it. A drop between the two reads makes them differ, and
the call panics; if no drop falls there, every call returns the error of the miss.
-/

namespace DiosPool.Pool

open Driver Foundation

/-- `PendingToken::consume`, which returns the waiters that are left. -/
def releaseToken (token : PendingToken) : PoolM ℕ :=
  PoolM.act fun pool ↦ do
    let interests ← pool.unlocked.interests.release token.slot token.generation
    return ((interests token.slot).waiters, { pool with unlocked := { pool.unlocked with
      interests
      pendingReleases := pool.unlocked.pendingReleases + 1 } })

def cleanTerminal (token : PendingToken) : PoolM Unit :=
  PoolM.act fun pool ↦ do
    let miss ← pool.locked.miss.cleanTerminalZero pool.unlocked.interests token.slot
      token.generation
    return ((), { pool with locked := { pool.locked with miss } })

def finishFailed (token : PendingToken) (errno : ℕ) : PoolM ReadyResult := do
  cleanTerminal token
  return .error errno

/-- The waiters are counted again. -/
def checkFailed (token : PendingToken) (errno remaining : ℕ) : PoolM ReadyResult := do
  let counted ← PoolM.read fun pool ↦ pool.unlocked.interests.waiters token.slot token.generation
  ensure (counted = some remaining) "terminal consumption updates the exact generation"
  finishFailed token errno

/-- The branch of `ready` for a failed miss. -/
def readyFailed (token : PendingToken) (errno : ℕ) : PoolM ReadyResult := do
  let remaining ← releaseToken token
  checkFailed token errno remaining

/-- `ready` with debug assertions. -/
def readyChecked (C : Config) (reader : ℕ) (token : PendingToken) : PoolM ReadyResult := do
  let entry ← PoolM.locked fun locked ↦ do return (← locked.miss.validate token, locked)
  match entry.outcome with
  | .pending =>
    returnToken token
    return .notYet
  | .failed errno => readyFailed token errno
  | .succeeded =>
    let mapped ← PoolM.read fun pool ↦ pool.locked.table.lookup entry.page
    ensure (mapped = some entry.frame)
      "a successful terminal record protects its exact mapped frame"
    let pinned ← pinOwned C reader entry.page
    ensure (pinned = true) "the protected successful frame remains pinnable"
    consumeToken token
    return .ready

/-! ## Calls of `ready` and drops of tokens, interleaved -/

/-- A pool with the call of `ready` that holds its lock, the steps this call has taken, what the
calls before it returned, and the panic that ended the run. -/
structure ReadyWorld where
  pool : Pool
  call : Option (PoolM ReadyResult)
  steps : ℕ
  results : List ReadyResult
  panic : Option Panic

inductive ReadyChoice
  | begin (reader index : ℕ)
  | step
  | drop (index : ℕ)

namespace ReadyWorld

variable (C : Config)

def start (pool : Pool) : ReadyWorld := ⟨pool, none, 0, [], none⟩

/-- A call that has returned gives up the lock. -/
def settle (world : ReadyWorld) (pool : Pool) : PoolM ReadyResult → ReadyWorld
  | .done result => { world with pool, call := none, results := result :: world.results }
  | program => { world with pool, call := some program, steps := world.steps + 1 }

/-- The world after one choice. A choice that is not possible changes nothing. -/
def next (world : ReadyWorld) (choice : ReadyChoice) : ReadyWorld :=
  if world.panic.isSome then world else
  match choice, world.call with
  | .begin reader index, none =>
    match world.pool.unlocked.tokens[index]? with
    | some token =>
      { world with
        pool := { world.pool with unlocked := { world.pool.unlocked with
          tokens := world.pool.unlocked.tokens.eraseIdx index } }
        call := some (readyChecked C reader token)
        steps := 0 }
    | none => world
  | .begin _ _, some _ => world
  | .step, none => world
  | .step, some program =>
    match program.advance world.pool with
    | .ok (program, pool) => world.settle pool program
    | .error panic => { world with panic := some panic }
  | .drop index, _ =>
    match world.pool.event C (.dropToken index) with
    | .ok pool => { world with pool }
    | .error assertion => { world with panic := some (.assertion assertion) }

def run (world : ReadyWorld) (choices : List ReadyChoice) : ReadyWorld :=
  choices.foldl (next C) world

end ReadyWorld

/-- The record of a failed miss, which can be removed from the table. -/
structure Recorded (pool : Pool) (token : PendingToken) (errno : ℕ) : Prop where
  entry : ∃ entry, pool.locked.miss.validate token = .ok entry ∧ entry.outcome = .failed errno
  removable : ∃ slots, pool.locked.miss.slots.remove token.slot = .ok slots

/-- A failed miss with `count` tokens, all of them in the hands of callers. -/
structure FailedMiss (pool : Pool) (token : PendingToken) (errno count : ℕ) : Prop where
  recorded : Recorded pool token errno
  interest : pool.unlocked.interests token.slot = ⟨token.generation, count⟩
  tokens : pool.unlocked.tokens = List.replicate count token

/-- The interest of one token of the miss is gone. -/
def withoutInterest (pool : Pool) (token : PendingToken) (tokens : List PendingToken) (left : ℕ) :
    Pool :=
  { pool with unlocked := { pool.unlocked with
    interests := Function.update pool.unlocked.interests token.slot ⟨token.generation, left⟩
    tokens
    pendingReleases := pool.unlocked.pendingReleases + 1 } }

section Steps

variable {C : Config} {reader : ℕ} {pool : Pool} {token : PendingToken} {errno left : ℕ}

theorem release_of_interest
    (hinterest : pool.unlocked.interests token.slot = ⟨token.generation, left + 1⟩) :
    pool.unlocked.interests.release token.slot token.generation =
      .ok (Function.update pool.unlocked.interests token.slot ⟨token.generation, left⟩) := by
  simp [MissInterests.release, hinterest]

theorem advance_readyChecked (h : Recorded pool token errno) :
    (readyChecked C reader token).advance pool = .ok (readyFailed token errno, pool) := by
  obtain ⟨⟨entry, hentry, houtcome⟩, -⟩ := h
  have hvalidate : (liftM (pool.locked.miss.validate token) : Except Panic MissEntry) =
      .ok entry := by
    rw [hentry]
    rfl
  simp [readyChecked, PoolM.locked, Program.act, Program.advance, hvalidate, houtcome]

theorem advance_readyFailed
    (hinterest : pool.unlocked.interests token.slot = ⟨token.generation, left + 1⟩) :
    (readyFailed token errno).advance pool =
      .ok (checkFailed token errno left,
        withoutInterest pool token pool.unlocked.tokens left) := by
  simp [readyFailed, releaseToken, PoolM.act, Program.act, Program.advance,
    release_of_interest hinterest, withoutInterest]
  rfl

theorem advance_checkFailed
    (hinterest : pool.unlocked.interests token.slot = ⟨token.generation, left⟩) :
    (checkFailed token errno left).advance pool = .ok (finishFailed token errno, pool) := by
  simp [checkFailed, PoolM.read, Program.load, Program.advance, MissInterests.waiters, hinterest]
  rfl

/-- The second count differs, so the next step is the panic. -/
theorem advance_checkFailed_of_ne {remaining : ℕ}
    (hinterest : pool.unlocked.interests token.slot = ⟨token.generation, left⟩)
    (hne : left ≠ remaining) :
    (checkFailed token errno remaining).advance pool =
      .ok (Program.fail (.assertion ⟨"terminal consumption updates the exact generation"⟩) >>=
        fun _ : Unit ↦ finishFailed token errno, pool) := by
  have hfail : ensure (left = remaining) "terminal consumption updates the exact generation" =
      .error ⟨"terminal consumption updates the exact generation"⟩ := if_neg hne
  simp only [checkFailed, PoolM.read, Program.load, Program.advance, MissInterests.waiters,
    hinterest, if_true, Option.some.injEq, Program.step_bind, Program.done_bind, hfail]
  rfl

/-- Cleaning changes the table only, and only if nobody waits any more. -/
theorem advance_finishFailed (h : Recorded pool token errno)
    (hinterest : pool.unlocked.interests token.slot = ⟨token.generation, left⟩) :
    ∃ miss, (finishFailed token errno).advance pool =
        .ok (.done (.error errno), { pool with locked := { pool.locked with miss } }) ∧
      (left ≠ 0 → miss = pool.locked.miss) := by
  obtain ⟨⟨entry, hentry, houtcome⟩, slots, hslots⟩ := h
  simp only [MissTable.validate, bind_eq_ok, expect_eq_ok, ensure_eq_ok] at hentry
  obtain ⟨_, hget, _, hgeneration, _, -, hsame⟩ := hentry
  cases hsame
  have hclean : ∃ miss, pool.locked.miss.cleanTerminalZero pool.unlocked.interests token.slot
        token.generation = .ok miss ∧ (left ≠ 0 → miss = pool.locked.miss) := by
    simp only [MissTable.cleanTerminalZero, hget, hgeneration, houtcome, MissInterests.waiters,
      hinterest]
    by_cases hzero : left = 0
    · subst hzero
      exact ⟨{ pool.locked.miss with slots }, by simp [hslots], by simp⟩
    · exact ⟨pool.locked.miss, by simp [hzero], fun _ ↦ rfl⟩
  obtain ⟨miss, hmiss, hkeep⟩ := hclean
  refine ⟨miss, ?_, hkeep⟩
  simp [finishFailed, cleanTerminal, PoolM.act, Program.act, Program.advance, hmiss]
  rfl

theorem event_dropToken {count index : ℕ} (htokens : pool.unlocked.tokens = .replicate count token)
    (hindex : index < count)
    (hinterest : pool.unlocked.interests token.slot = ⟨token.generation, left + 1⟩) :
    pool.event C (.dropToken index) =
      .ok (withoutInterest pool token (.replicate (count - 1) token) left) := by
  have hget : pool.unlocked.tokens[index]? = some token := by
    rw [htokens, List.getElem?_replicate, if_pos hindex]
  have herase : pool.unlocked.tokens.eraseIdx index = .replicate (count - 1) token := by
    rw [htokens, List.eraseIdx_replicate, if_pos hindex]
  simp [Pool.event, hget, herase, release_of_interest hinterest, withoutInterest]

end Steps

namespace ReadyWorld

variable {C : Config} {world : ReadyWorld} {pool : Pool} {token : PendingToken} {reader index : ℕ}

theorem next_begin (hpanic : world.panic = none) (hcall : world.call = none)
    (htoken : world.pool.unlocked.tokens[index]? = some token) :
    world.next C (.begin reader index) =
      { world with
        pool := { world.pool with unlocked := { world.pool.unlocked with
          tokens := world.pool.unlocked.tokens.eraseIdx index } }
        call := some (readyChecked C reader token)
        steps := 0 } := by
  simp [next, hpanic, hcall, htoken]

theorem next_step {program after : PoolM ReadyResult} (hpanic : world.panic = none)
    (hcall : world.call = some program) (hadvance : program.advance world.pool = .ok (after, pool)) :
    world.next C .step = world.settle pool after := by
  simp [next, hpanic, hcall, hadvance]

theorem next_step_of_error {program : PoolM ReadyResult} {panic : Panic}
    (hpanic : world.panic = none) (hcall : world.call = some program)
    (hadvance : program.advance world.pool = .error panic) :
    world.next C .step = { world with panic := some panic } := by
  simp [next, hpanic, hcall, hadvance]

theorem next_drop (hpanic : world.panic = none)
    (hevent : world.pool.event C (.dropToken index) = .ok pool) :
    world.next C (.drop index) = { world with pool } := by
  simp [next, hpanic, hevent]

end ReadyWorld

open ReadyWorld in
/-- A sibling token that is dropped after the release and before the second count makes the call
panic, whenever a failed miss has two tokens. -/
theorem readyChecked_panics_of_sibling_drop (C : Config) (reader : ℕ) {pool : Pool}
    {token : PendingToken} {errno count : ℕ} (h : FailedMiss pool token errno (count + 2)) :
    ((ReadyWorld.start pool).run C
        [.begin reader 0, .step, .step, .drop 0, .step, .step]).panic =
      some (.assertion ⟨"terminal consumption updates the exact generation"⟩) := by
  let taken : Pool := { pool with unlocked := { pool.unlocked with
    tokens := pool.unlocked.tokens.eraseIdx 0 } }
  have htokens : taken.unlocked.tokens = .replicate (count + 1) token := by
    simp [taken, h.tokens, List.replicate_succ]
  let released := withoutInterest taken token taken.unlocked.tokens (count + 1)
  have hreleased : released.unlocked.interests token.slot = ⟨token.generation, count + 1⟩ := by
    simp [released, withoutInterest]
  let dropped := withoutInterest released token (.replicate count token) count
  have hdropped : dropped.unlocked.interests token.slot = ⟨token.generation, count⟩ := by
    simp [dropped, withoutInterest]
  have hrecorded : Recorded taken token errno := ⟨h.recorded.entry, h.recorded.removable⟩
  let panicking : PoolM ReadyResult :=
    Program.fail (.assertion ⟨"terminal consumption updates the exact generation"⟩) >>=
      fun _ : Unit ↦ finishFailed token errno
  have hbegin : (start pool).next C (.begin reader 0) =
      ⟨taken, some (readyChecked C reader token), 0, [], none⟩ :=
    next_begin rfl rfl (show pool.unlocked.tokens[0]? = some token by simp [h.tokens])
  have hvalidate : next C ⟨taken, some (readyChecked C reader token), 0, [], none⟩ .step =
      ⟨taken, some (readyFailed token errno), 1, [], none⟩ :=
    next_step rfl rfl (advance_readyChecked hrecorded)
  have hrelease : next C ⟨taken, some (readyFailed token errno), 1, [], none⟩ .step =
      ⟨released, some (checkFailed token errno (count + 1)), 2, [], none⟩ :=
    next_step rfl rfl (advance_readyFailed h.interest)
  have hdrop : next C ⟨released, some (checkFailed token errno (count + 1)), 2, [], none⟩ (.drop 0) =
      ⟨dropped, some (checkFailed token errno (count + 1)), 2, [], none⟩ :=
    next_drop rfl (event_dropToken (show released.unlocked.tokens = _ from htokens)
      (Nat.succ_pos count) hreleased)
  have hcheck : next C ⟨dropped, some (checkFailed token errno (count + 1)), 2, [], none⟩ .step =
      ⟨dropped, some panicking, 3, [], none⟩ :=
    next_step rfl rfl (advance_checkFailed_of_ne hdropped (Nat.ne_of_lt (Nat.lt_succ_self count)))
  have hpanic : next C ⟨dropped, some panicking, 3, [], none⟩ .step =
      ⟨dropped, some panicking, 3, [],
        some (.assertion ⟨"terminal consumption updates the exact generation"⟩)⟩ :=
    next_step_of_error rfl rfl rfl
  simp only [run, List.foldl_cons, List.foldl_nil, hbegin, hvalidate, hrelease, hdrop, hcheck, hpanic]

/-- A pool of four frames for one reader and one read at a time. -/
def fourFrames : Config where
  identity := 0
  frameCount := 4
  granule := 4096
  maxConcurrentReaders := 1
  peakGuardsPerReader := 1
  maxInflightReads := 1
  missHeadroom := 3
  maxRetainedFrames := 0
  maxInflightProductOps := 1
  registeredFileCapacity := 1
  prefetchCapacity := 0
  readahead := .disabled
  retryBound := 1
  granule_eq := ⟨12, rfl⟩
  sector_le := le_rfl
  headroom_le := le_rfl
  watermark_le := le_rfl
  prefetch_le := Nat.zero_le _

/-- The pool after two callers waited for a page whose read failed with `EIO`. -/
def twoWaiters : Pool :=
  let pool := Pool.new fourFrames
  let page : PageId := ⟨⟨0, 0, 1⟩, 0⟩
  let entry : MissEntry := ⟨page, 0, ⟨0, 1⟩, 1, 0, 0, .failed eio⟩
  { locked := { pool.locked with
      miss := { pool.locked.miss with
        slots := ⟨Function.update (fun _ ↦ .vacant) 0 ⟨1, 1, some entry⟩,
          Function.update (fun _ ↦ 0) 0 1, 4⟩ } }
    unlocked := { pool.unlocked with
      interests := Function.update pool.unlocked.interests 0 ⟨1, 2⟩
      tokens := [⟨page, 0, 1⟩, ⟨page, 0, 1⟩] } }

theorem twoWaiters_failedMiss : FailedMiss twoWaiters ⟨⟨⟨0, 0, 1⟩, 0⟩, 0, 1⟩ eio 2 where
  recorded := ⟨⟨_, rfl, rfl⟩, ⟨_, rfl⟩⟩
  interest := rfl
  tokens := rfl

/-- Two tokens of one failed miss, a call with the first and a drop of the second. -/
theorem readyChecked_panics_twoWaiters :
    ((ReadyWorld.start twoWaiters).run fourFrames
        [.begin 0 0, .step, .step, .drop 0, .step, .step]).panic =
      some (.assertion ⟨"terminal consumption updates the exact generation"⟩) :=
  readyChecked_panics_of_sibling_drop fourFrames 0 twoWaiters_failedMiss

/-! ## Without a drop between the two counts -/

/-- Where a call of `ready` on the failed miss stands, with the steps it has taken and the interest
that is still its own. -/
inductive Standing (C : Config) (token : PendingToken) (errno left : ℕ) :
    Option (PoolM ReadyResult) → ℕ → ℕ → Prop
  | idle (steps : ℕ) : Standing C token errno left none steps 0
  | entered (reader : ℕ) : Standing C token errno left (some (readyChecked C reader token)) 0 1
  | validated : Standing C token errno left (some (readyFailed token errno)) 1 1
  | released : Standing C token errno left (some (checkFailed token errno left)) 2 0
  | checked : Standing C token errno left (some (finishFailed token errno)) 3 0

/-- The waiters are the tokens in hand and the one that a call has not released yet. The record stays
as long as there is one of them. -/
structure Consistent (C : Config) (token : PendingToken) (errno left : ℕ) (world : ReadyWorld) :
    Prop where
  panic : world.panic = none
  results : ∀ result ∈ world.results, result = .error errno
  tokens : world.pool.unlocked.tokens = .replicate left token
  waiters : ∃ own, Standing C token errno left world.call world.steps own ∧
    world.pool.unlocked.interests token.slot = ⟨token.generation, left + own⟩
  recorded : world.call.isSome ∨ 0 < left → Recorded world.pool token errno

/-- No token is dropped while a call stands between its release and its second count. -/
def Undisturbed (C : Config) : ReadyWorld → List ReadyChoice → Prop
  | _, [] => True
  | world, choice :: choices =>
    ((∃ index, choice = .drop index) → world.call.isSome → world.steps ≠ 2) ∧
      Undisturbed C (world.next C choice) choices

namespace Consistent

variable {C : Config} {token : PendingToken} {errno left : ℕ} {world : ReadyWorld}

theorem begin (h : Consistent C token errno left world) (reader index : ℕ) :
    ∃ left, Consistent C token errno left (world.next C (.begin reader index)) := by
  have hpanic := h.panic
  cases hcall : world.call with
  | some program =>
    have hsame : world.next C (.begin reader index) = world := by
      simp [ReadyWorld.next, hpanic, hcall]
    exact ⟨left, hsame.symm ▸ h⟩
  | none =>
    by_cases hindex : index < left
    · obtain ⟨count, rfl⟩ : ∃ count, left = count + 1 := ⟨left - 1, by omega⟩
      have htoken : world.pool.unlocked.tokens[index]? = some token := by
        rw [h.tokens, List.getElem?_replicate, if_pos hindex]
      obtain ⟨own, hstanding, hinterest⟩ := h.waiters
      rw [hcall] at hstanding
      cases hstanding
      refine ⟨count, ?_⟩
      rw [ReadyWorld.next_begin hpanic hcall htoken]
      refine ⟨hpanic, h.results, ?_, ⟨1, .entered reader, hinterest⟩, fun _ ↦ ?_⟩
      · simp only
        rw [h.tokens, List.eraseIdx_replicate, if_pos hindex, Nat.add_sub_cancel]
      · have hrecorded := h.recorded (.inr (Nat.succ_pos count))
        exact ⟨hrecorded.entry, hrecorded.removable⟩
    · have hnone : world.pool.unlocked.tokens[index]? = none := by
        rw [h.tokens, List.getElem?_replicate, if_neg hindex]
      have hsame : world.next C (.begin reader index) = world := by
        simp [ReadyWorld.next, hpanic, hcall, hnone]
      exact ⟨left, hsame.symm ▸ h⟩

theorem step (h : Consistent C token errno left world) :
    Consistent C token errno left (world.next C .step) := by
  have hpanic := h.panic
  obtain ⟨own, hstanding, hinterest⟩ := h.waiters
  obtain ⟨pool, call, steps, results, panic⟩ := world
  simp only at hstanding hinterest hpanic
  cases hstanding with
  | idle steps =>
    have hsame : ReadyWorld.next C ⟨pool, none, steps, results, panic⟩ .step =
        ⟨pool, none, steps, results, panic⟩ := by
      simp [ReadyWorld.next]
    exact hsame.symm ▸ h
  | entered reader =>
    have hrecorded := h.recorded (.inl rfl)
    rw [ReadyWorld.next_step hpanic rfl (advance_readyChecked hrecorded)]
    exact ⟨hpanic, h.results, h.tokens, ⟨1, .validated, hinterest⟩, fun _ ↦ hrecorded⟩
  | validated =>
    have hrecorded := h.recorded (.inl rfl)
    rw [ReadyWorld.next_step hpanic rfl (advance_readyFailed hinterest)]
    refine ⟨hpanic, h.results, h.tokens, ⟨0, .released, ?_⟩, fun _ ↦ ?_⟩
    · simp [ReadyWorld.settle, checkFailed, PoolM.read, Program.load, withoutInterest]
    · exact ⟨hrecorded.entry, hrecorded.removable⟩
  | released =>
    rw [ReadyWorld.next_step hpanic rfl (advance_checkFailed hinterest)]
    exact ⟨hpanic, h.results, h.tokens, ⟨0, .checked, hinterest⟩, fun _ ↦ h.recorded (.inl rfl)⟩
  | checked =>
    obtain ⟨miss, hadvance, hkeep⟩ := advance_finishFailed (h.recorded (.inl rfl)) hinterest
    rw [ReadyWorld.next_step hpanic rfl hadvance]
    refine ⟨hpanic, ?_, h.tokens, ⟨0, .idle 3, hinterest⟩, fun hleft ↦ ?_⟩
    · intro result hresult
      obtain rfl | hresult := List.mem_cons.mp hresult
      · rfl
      · exact h.results result hresult
    · have hpos : left + 0 ≠ 0 := by
        simpa [ReadyWorld.settle, Nat.pos_iff_ne_zero] using hleft
      obtain rfl := hkeep hpos
      exact h.recorded (.inl rfl)

theorem drop (h : Consistent C token errno left world) (index : ℕ)
    (hundisturbed : world.call.isSome → world.steps ≠ 2) :
    ∃ left, Consistent C token errno left (world.next C (.drop index)) := by
  have hpanic := h.panic
  by_cases hindex : index < left
  · obtain ⟨count, rfl⟩ : ∃ count, left = count + 1 := ⟨left - 1, by omega⟩
    obtain ⟨own, hstanding, hinterest⟩ := h.waiters
    have hinterest' : world.pool.unlocked.interests token.slot =
        ⟨token.generation, count + own + 1⟩ := by
      rw [hinterest, Nat.add_right_comm]
    have hrecorded := h.recorded (.inr (Nat.succ_pos count))
    refine ⟨count, ?_⟩
    rw [ReadyWorld.next_drop hpanic (event_dropToken h.tokens hindex hinterest')]
    refine ⟨hpanic, h.results, rfl, ⟨own, ?_, ?_⟩,
      fun _ ↦ ⟨hrecorded.entry, hrecorded.removable⟩⟩
    · -- only the second count depends on the number of tokens that are left
      obtain ⟨pool, call, steps, results, panic⟩ := world
      simp only at hstanding hundisturbed
      cases hstanding with
      | idle steps => exact .idle steps
      | entered reader => exact .entered reader
      | validated => exact .validated
      | released => exact absurd rfl (hundisturbed rfl)
      | checked => exact .checked
    · simp [withoutInterest]
  · have hnone : world.pool.unlocked.tokens[index]? = none := by
      rw [h.tokens, List.getElem?_replicate, if_neg hindex]
    have hsame : world.pool.event C (.dropToken index) = .ok world.pool := by
      simp [Pool.event, hnone]
    exact ⟨left, by rw [ReadyWorld.next_drop hpanic hsame]; exact h⟩

theorem run (h : Consistent C token errno left world) (choices : List ReadyChoice)
    (hundisturbed : Undisturbed C world choices) :
    ∃ left, Consistent C token errno left (world.run C choices) := by
  induction choices generalizing world left with
  | nil => exact ⟨left, h⟩
  | cons choice choices ih =>
    obtain ⟨hchoice, hrest⟩ := hundisturbed
    cases choice with
    | begin reader index =>
      obtain ⟨left, h⟩ := h.begin reader index
      exact ih h hrest
    | step => exact ih h.step hrest
    | drop index =>
      obtain ⟨left, h⟩ := h.drop index (hchoice ⟨index, rfl⟩)
      exact ih h hrest

end Consistent

/-- If no sibling is dropped between the release of a call and its second count, no call panics.
A call returns within four steps, and what it returns is the error of the miss. -/
theorem readyChecked_returns_errno (C : Config) {pool : Pool} {token : PendingToken}
    {errno count : ℕ} (hfailed : FailedMiss pool token errno count) (choices : List ReadyChoice)
    (hundisturbed : Undisturbed C (.start pool) choices) :
    ((ReadyWorld.start pool).run C choices).panic = none ∧
      (∀ result ∈ ((ReadyWorld.start pool).run C choices).results, result = .error errno) ∧
      (((ReadyWorld.start pool).run C choices).call.isSome →
        ((ReadyWorld.start pool).run C choices).steps < 4) := by
  have hstart : Consistent C token errno count (.start pool) :=
    ⟨rfl, by simp [ReadyWorld.start], hfailed.tokens, ⟨0, .idle 0, hfailed.interest⟩,
      fun _ ↦ hfailed.recorded⟩
  obtain ⟨left, h⟩ := hstart.run choices hundisturbed
  refine ⟨h.panic, h.results, fun hcall ↦ ?_⟩
  obtain ⟨own, hstanding, -⟩ := h.waiters
  revert hstanding hcall
  generalize ((ReadyWorld.start pool).run C choices).call = call
  generalize ((ReadyWorld.start pool).run C choices).steps = steps
  rintro hcall (_ | _ | _ | _ | _)
  · cases hcall
  all_goals decide

theorem readyChecked_returns_errno_twoWaiters :
    let world := (ReadyWorld.start twoWaiters).run fourFrames
      [.begin 0 0, .step, .drop 0, .step, .step, .step]
    world.panic = none ∧ (∀ result ∈ world.results, result = .error eio) ∧
      (world.call.isSome → world.steps < 4) := by
  refine readyChecked_returns_errno fourFrames twoWaiters_failedMiss _ ?_
  exact ⟨nofun, nofun, fun _ _ h ↦ (by cases h), nofun, nofun, nofun, trivial⟩

end DiosPool.Pool
