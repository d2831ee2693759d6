import DiosPool.Pool.Invariant.Occupancy
import DiosPool.Pool.Invariant.Spans

/-!
# Triples for calls

A call under the control lock is safe if its steps are moves, whatever the other threads do in
between. The condition of a triple says what the call has in its hands and what it knows of the
things that the lock protects, which no other thread changes.
-/

namespace DiosPool.Pool

open Driver Foundation

/-- The other threads take turns, the pool stays within what moves and turns reach, and a call may
fail an assertion, but no bound of an inventory. -/
def rules (C : Config) : Rules Pool Panic where
  rely := Relation.ReflTransGen (Turn C)
  always pool := ∃ c, Reach C c pool
  tolerated := IsAssertion

/-- The call has something in its hands, and knows something of what the lock protects. -/
def At (C : Config) (c : Custody) (known : Locked → Prop) (pool : Pool) : Prop :=
  Reach C c pool ∧ known pool.locked

/-- What a call may keep in its hands while it reaps, routes and reclaims. -/
structure Known where
  room : ℕ
  absent : Finset PageId
  tokens : Multiset PendingToken
  caller : Option ℕ
  pinning : Option ℕ
  live : Finset FileId

def Known.custody (k : Known) : Custody :=
  { Custody.empty with
    room := k.room
    absent := k.absent
    tokens := k.tokens
    caller := k.caller
    pinning := k.pinning
    live := k.live }

section Rules

variable {C : Config} {c c' : Custody} {known known' : Locked → Prop} {α : Type}

theorem Reach.turns {pool after : Pool} (h : Reach C c pool)
    (hturns : Relation.ReflTransGen (Turn C) pool after) :
    Reach C c after ∧ after.locked = pool.locked := by
  induction hturns with
  | refl => exact ⟨h, rfl⟩
  | tail _ hturn ih => exact ⟨ih.1.turn hturn, hturn.locked_eq.trans ih.2⟩

theorem at_stable : (rules C).Stable (At C c known) := by
  refine ⟨fun pool h ↦ ⟨c, h.1⟩, fun pool seen h hturns ↦ ?_⟩
  obtain ⟨hreach, hlocked⟩ := h.1.turns hturns
  exact ⟨hreach, hlocked ▸ h.2⟩

/-- What the call has in its hands may be written in another way. -/
theorem Reach.congr {pool : Pool} (h : Reach C c pool) (hc : c = c') : Reach C c' pool := hc ▸ h

/-- More completions may be deferred from now on. -/
theorem Reach.unflush {pool : Pool} (h : Reach C c pool) : Reach C { c with flushed := false } pool :=
  h.move (.forget (List.Subset.refl _) (Finset.Subset.refl _) le_rfl (fun _ hheld ↦ hheld) (by simp)
    id (Finset.Subset.refl _) (Finset.Subset.refl _) id)

end Rules

/-! ## Outcomes -/

section Outcomes

variable {α β : Type}

/-- A part that can only fail an assertion. -/
theorem outcome_lift_bind {post : β → Prop} {value : Except Assertion α} {next : α → Except Panic β}
    (h : ∀ result, value = .ok result → Outcome IsAssertion post (next result)) :
    Outcome IsAssertion post ((liftM value : Except Panic α) >>= next) :=
  outcome_liftM.bind h

/-- A computation that can only fail an assertion. -/
theorem outcome_lift {post : α → Prop} {value : Except Assertion α}
    (h : ∀ result, value = .ok result → post result) :
    Outcome IsAssertion post (liftM value : Except Panic α) := outcome_liftM.mono h

end Outcomes

/-! ## Steps -/

section Steps

variable {C : Config} {pre : Pool → Prop} {α : Type} {post : α → Pool → Prop}

theorem read_triple (hstable : (rules C).Stable pre) {view : Pool → α}
    (h : ∀ pool, pre pool → post (view pool) pool) :
    (rules C).Triple pre (PoolM.read view) post := by
  refine (Rules.Triple.load hstable view).mono ?_
  rintro value pool ⟨hpre, rfl⟩
  exact h pool hpre

/-- A look at something that is not remembered. -/
theorem glance_triple (hstable : (rules C).Stable pre) (view : Pool → α) :
    (rules C).Triple pre (PoolM.read view) fun _ ↦ pre := read_triple hstable fun _ h ↦ h

/-- A look at what the lock protects. -/
theorem look_triple {c : Custody} {known : Locked → Prop} (view : Locked → α) :
    (rules C).Triple (At C c known) (PoolM.read fun pool ↦ view pool.locked)
      fun value ↦ At C c fun locked ↦ known locked ∧ value = view locked :=
  read_triple at_stable fun _ h ↦ ⟨h.1, h.2, rfl⟩

theorem act_triple (hstable : (rules C).Stable pre) {action : Pool → Except Panic (α × Pool)}
    (h : ∀ pool, pre pool →
      Outcome IsAssertion (fun outcome ↦ post outcome.1 outcome.2) (action pool)) :
    (rules C).Triple pre (.act action) post := Rules.Triple.act hstable h

theorem locked_triple (hstable : (rules C).Stable pre)
    {change : Locked → Except Panic (α × Locked)}
    (h : ∀ pool, pre pool → Outcome IsAssertion
      (fun outcome ↦ post outcome.1 { pool with locked := outcome.2 }) (change pool.locked)) :
    (rules C).Triple pre (PoolM.locked change) post := by
  refine act_triple hstable fun pool hpre ↦ (h pool hpre).bind fun outcome houtcome ↦ ?_
  exact houtcome

theorem update_triple (hstable : (rules C).Stable pre) {change : Locked → Except Panic Locked}
    {post : Pool → Prop}
    (h : ∀ pool, pre pool → Outcome IsAssertion
      (fun locked ↦ post { pool with locked }) (change pool.locked)) :
    (rules C).Triple pre (PoolM.update change) fun _ ↦ post := by
  refine locked_triple hstable fun pool hpre ↦ (h pool hpre).bind fun locked hlocked ↦ ?_
  exact hlocked

theorem driver_triple (hstable : (rules C).Stable pre) {critical : Section α}
    (h : ∀ pool, pre pool → ∀ result driver, critical pool.unlocked.driver = .ok (result, driver) →
      post result (pool.setDriver driver)) :
    (rules C).Triple pre (PoolM.driver critical) post := by
  refine act_triple hstable fun pool hpre ↦ outcome_lift_bind fun outcome houtcome ↦ ?_
  exact h pool hpre outcome.1 outcome.2 houtcome

theorem ensure_triple (hstable : (rules C).Stable pre) {condition : Prop} [Decidable condition]
    {message : String} :
    (rules C).Triple pre (liftM (ensure condition message) : PoolM Unit)
      fun _ pool ↦ condition ∧ pre pool := by
  refine Rules.Triple.lift hstable (outcome_lift fun result hresult ↦ ?_)
  exact ensure_eq_ok.mp hresult

theorem lift_triple (hstable : (rules C).Stable pre) {value : Except Assertion α} :
    (rules C).Triple pre (liftM value : PoolM α) fun result pool ↦ value = .ok result ∧ pre pool :=
  Rules.Triple.lift hstable (outcome_lift fun _ hresult ↦ hresult)

theorem fail_triple (hstable : (rules C).Stable pre) (assertion : Assertion) :
    (rules C).Triple pre (.fail (.assertion assertion) : PoolM α) post :=
  Rules.Triple.fail hstable ⟨assertion, rfl⟩

/-- A program of the ledger changes nothing else. -/
theorem ledger_triple {c : Custody} {known : Locked → Prop} {program : LedgerM α}
    (h : program.Respects LedgerM.Evolving)
    (hknown : ∀ locked ledger, locked.ledger.Evolves ledger → known locked →
      known { locked with ledger }) :
    (rules C).Triple (At C c known) (PoolM.ledger program) fun _ ↦ At C c known := by
  refine Rules.Triple.zoom at_stable h (fun pool after hat hstep ↦ ?_) fun assertion ↦ ⟨assertion, rfl⟩
  exact ⟨hat.1.move (.speculative hstep.indexed), hknown _ _ hstep hat.2⟩

/-- What the lock protects may be remembered as a whole. -/
theorem snapshot_triple {c : Custody} {known : Locked → Prop} {program : PoolM α}
    (h : ∀ before, known before → (rules C).Triple (At C c fun locked ↦ locked = before) program post) :
    (rules C).Triple (At C c known) program post :=
  fun pool hpool ↦ h pool.locked hpool.2 pool ⟨hpool.1, rfl⟩

end Steps

end DiosPool.Pool
