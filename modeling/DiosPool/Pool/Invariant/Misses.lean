import DiosPool.Pool.Invariant.MissTable
import DiosPool.Pool.Invariant.Places

/-!
# Pending reads in every state

Every pending miss has one read, which is in the driver, in a completion or in the hands of the
running call, and one credit. Its page is not mapped, and no other miss is pending for the page. A
successful miss keeps its frame resident.
-/

namespace DiosPool.Pool

open Driver Foundation

/-! ## Credits -/

/-- The miss table is consistent, and every pending miss has a credit. -/
structure Credited (C : Config) (c : Custody) (pool : Pool) : Prop where
  table : pool.locked.miss.WellFormed
  capacity : pool.locked.miss.pendingCapacity = C.maxInflightReads
  credits : pool.locked.readsInFlight + c.credits = pool.locked.miss.pending.length
  room : pool.locked.miss.pending.length + c.room ≤ C.maxInflightReads

section Credits

variable {C : Config} {c c' : Custody} {pool after : Pool}

theorem Credited.new (C : Config) : Credited C .empty (Pool.new C) :=
  ⟨.new _ _, rfl, rfl, Nat.zero_le _⟩

theorem Turn.credited (hturn : Turn C pool after) (h : Credited C c pool) : Credited C c after := by
  obtain ⟨table, capacity, credits, room⟩ := h
  rw [← hturn.locked_eq] at table capacity credits room
  exact ⟨table, capacity, credits, room⟩

/-- A settled miss leaves the index. -/
theorem length_settled {miss after : MissTable} {index : ℕ} {entry : MissEntry}
    {outcome : MissOutcome} (h : miss.Settled index entry outcome after) :
    miss.pending.length = after.pending.length + 1 := by
  rw [← MissTable.card_pairs, h.pairs, Multiset.card_cons, MissTable.card_pairs]

theorem Move.credited (hmove : Move C (c, pool) (c', after)) (h : Credited C c pool) :
    Credited C c' after := by
  cases hmove with
  | pin hpinning hreader =>
    cases hreader <;> exact ⟨h.table, h.capacity, h.credits, h.room⟩
  | releaseCredit hreads =>
    have hcredits := h.credits
    exact ⟨h.table, h.capacity, by simp only; omega, h.room⟩
  | succeed hsettling hunmapped hcredits hsucceed =>
    obtain ⟨htable, entry, hsettled⟩ := MissTable.succeed_eq_ok h.table hsucceed
    have hlength := length_settled hsettled
    have hold := h.credits
    have hroom := h.room
    refine ⟨htable, hsettled.capacity.trans h.capacity, ?_, ?_⟩
    · simp only
      omega
    · simp only
      omega
  | fail howed hentry hcredits hfail =>
    obtain ⟨htable, entry, hsettled⟩ := MissTable.fail_eq_ok h.table hfail
    have hlength := length_settled hsettled
    have hold := h.credits
    have hroom := h.room
    refine ⟨htable, hsettled.capacity.trans h.capacity, ?_, ?_⟩
    · simp only
      omega
    · simp only
      omega
  | clean hclean =>
    rcases MissTable.cleanTerminalZero_eq_ok hclean with rfl | ⟨_, _, hcleaned⟩
    · exact h
    · have hcredits := h.credits
      have hroom := h.room
      rw [← hcleaned.pending] at hcredits hroom
      exact ⟨hcleaned.wellFormed h.table, hcleaned.capacity.trans h.capacity, hcredits, hroom⟩
  | takeCredits hcredits =>
    have hold := h.credits
    exact ⟨h.table, h.capacity, by simp only; omega, h.room⟩
  | admitRead horphan hpage habsent hlive hroom hadmitted =>
    obtain ⟨htable, hadmitted, -⟩ := MissTable.admitInitial_eq_ok h.table hadmitted
    have hlength := congrArg Multiset.card hadmitted.pairs
    rw [Multiset.card_cons, MissTable.card_pairs, MissTable.card_pairs] at hlength
    have hold := h.credits
    have hroom' := h.room
    refine ⟨htable, hadmitted.capacity.trans h.capacity, ?_, ?_⟩
    · simp only [Locked.record]
      omega
    · simp only [Locked.record]
      omega
  | resubmit howed hentry hfile hsubmit hadvance =>
    obtain ⟨htable, entry, hadvanced⟩ := MissTable.advanceRemainder_eq_ok h.table hadvance
    have hlength := congrArg Multiset.card hadvanced.pairs
    rw [Multiset.card_cons, Multiset.card_cons, MissTable.card_pairs, MissTable.card_pairs,
      Nat.add_right_cancel_iff] at hlength
    have hcredits := h.credits
    have hroom := h.room
    rw [hlength] at hcredits hroom
    exact ⟨htable, hadvanced.capacity.trans h.capacity, hcredits, hroom⟩
  | submitWrite hindex hvacant hlive hsubmit hlocked =>
    cases hlocked
    exact ⟨h.table, h.capacity, h.credits, h.room⟩
  | holdFsync hindex hvacant hlive hlocked =>
    cases hlocked
    exact ⟨h.table, h.capacity, h.credits, h.room⟩
  | finish hfinished hfinish =>
    cases finishProductCompletion_eq_ok hfinish <;>
      exact ⟨h.table, h.capacity, h.credits, h.room⟩
  | deliver hdeliver =>
    obtain ⟨productOps, rfl⟩ := deliverFrom_eq _ _ _ _ _ _ _ hdeliver
    exact ⟨h.table, h.capacity, h.credits, h.room⟩
  | register hopened hregister =>
    obtain ⟨_, _, _, _, rfl⟩ := registerFile_eq_ok hopened hregister
    exact ⟨h.table, h.capacity, h.credits, h.room⟩
  | beginRetire hlive hretire =>
    obtain ⟨_, _, _, _, rfl⟩ := beginFileRetirement_eq_some hretire
    exact ⟨h.table, h.capacity, h.credits, h.room⟩
  | room hroom => exact ⟨h.table, h.capacity, h.credits, hroom⟩
  | forget hfilled habsent hroom =>
    exact ⟨h.table, h.capacity, h.credits, (Nat.add_le_add_left hroom _).trans h.room⟩
  | _ => exact ⟨h.table, h.capacity, h.credits, h.room⟩

theorem Reach.credited (h : Reach C c pool) : Credited C c pool := by
  induction h with
  | new => exact .new C
  | turn hreach hturn ih => exact hturn.credited ih
  | move hreach hmove ih => exact hmove.credited ih

end Credits

/-! ## Reads -/

/-- The read of a miss whose page is published. -/
def Settling.pair (settling : Settling) : OpToken × ℕ := (settling.token, settling.frame)

/-- Every pending miss has one read, and every read of a frame one pending miss. -/
structure Paired (C : Config) (c : Custody) (pool : Pool) : Prop where
  pairs : pool.locked.miss.pairs + c.orphans =
    holders C pool + c.owed + c.settling.elim 0 fun settling ↦ {settling.pair}
  settling : ∀ settling, c.settling = some settling → ∃ entry,
    pool.locked.miss.entryAt settling.index = some entry ∧ entry.outcome = .pending ∧
      entry.token = settling.token ∧ entry.frame = settling.frame

section Balance

variable {β : Type} [DecidableEq β] {pairs pairs' orphans held owed settled bundle : Multiset β}
  {read next : β}

/-- A read goes from the hands of the call to a miss that is settled. -/
theorem balance_publish (h : pairs + orphans = held + owed + 0) (hread : read ∈ owed) :
    pairs + orphans = held + owed.erase read + {read} := by
  rw [h, add_zero, add_assoc, add_comm (owed.erase read), Multiset.singleton_add,
    Multiset.cons_erase hread]

omit [DecidableEq β] in
theorem balance_succeed (h : (read ::ₘ pairs) + orphans = held + owed + {read}) :
    pairs + orphans = held + owed + 0 := by
  rw [Multiset.cons_add, ← Multiset.singleton_add, add_comm _ (pairs + orphans)] at h
  rw [add_zero]
  exact add_right_cancel h

theorem balance_fail (h : (read ::ₘ pairs) + orphans = held + owed + settled) (hread : read ∈ owed) :
    pairs + orphans = held + owed.erase read + settled := by
  rw [← Multiset.cons_erase hread, Multiset.add_cons, Multiset.cons_add, Multiset.cons_add,
    Multiset.cons_inj_right] at h
  exact h

theorem balance_admitted (h : pairs + orphans = held + owed + settled) (hread : read ∈ orphans) :
    (read ::ₘ pairs) + orphans.erase read = held + owed + settled := by
  rw [← h, Multiset.cons_add, ← Multiset.add_cons, Multiset.cons_erase hread]

omit [DecidableEq β] in
theorem balance_submit (read : β) (h : pairs + orphans = held + owed + settled) :
    pairs + (read ::ₘ orphans) = (read ::ₘ held) + owed + settled := by
  rw [Multiset.add_cons, h, Multiset.cons_add, Multiset.cons_add]

theorem balance_resubmit (h : pairs + orphans = held + owed + settled) (hread : read ∈ owed)
    (hpairs : next ::ₘ pairs = read ::ₘ pairs') :
    pairs' + orphans = (next ::ₘ held) + owed.erase read + settled := by
  rw [← Multiset.cons_inj_right read, ← Multiset.cons_add, ← hpairs, Multiset.cons_add, h,
    ← Multiset.cons_erase hread]
  simp only [Multiset.cons_add, Multiset.add_cons, Multiset.erase_cons_head]
  rw [Multiset.cons_swap]

omit [DecidableEq β] in
theorem balance_bundle (bundle : Multiset β) (h : pairs + orphans = held + owed + settled) :
    pairs + (bundle + orphans) = (held + bundle) + owed + settled := by
  rw [add_left_comm, h]
  abel

theorem balance_continue (h : pairs + orphans = held + owed + settled) (hbundle : bundle ≤ owed) :
    pairs + orphans = (held + bundle) + (owed - bundle) + settled := by
  rw [h, add_assoc held bundle, add_tsub_cancel_of_le hbundle]

omit [DecidableEq β] in
theorem balance_take (h : pairs + orphans = (bundle + held) + owed + settled) :
    pairs + orphans = held + (bundle + owed) + settled := by
  rw [h]
  abel

end Balance

section Reads

variable {C : Config} {c c' : Custody} {pool after : Pool}

theorem Paired.new (C : Config) : Paired C .empty (Pool.new C) := by
  refine ⟨?_, fun settling hsettling ↦ by cases hsettling⟩
  simp [MissTable.pairs, MissTable.new, holders, Cargo.total, Cargo.slot, queued, Pool.new,
    Shared.new, Custody.empty]

theorem Turn.paired (hturn : Turn C pool after) (hconnected : Connected C c pool)
    (h : Paired C c pool) : Paired C c after := by
  obtain ⟨hpairs, hsettling⟩ := h
  rw [← hturn.locked_eq, ← hturn.holders_eq hconnected] at hpairs
  rw [← hturn.locked_eq] at hsettling
  exact ⟨hpairs, hsettling⟩

/-- The entry that a call has looked up. -/
theorem PendingAt.entryAt {miss : MissTable} {index frame : ℕ} {token : OpToken} {entry : MissEntry}
    (h : PendingAt miss index token frame entry) :
    miss.entryAt index = some entry.unindexed := MissTable.entryAt_of_get h.get

/-- A change of other entries keeps the entry of a miss whose page is published. -/
theorem Paired.settling_update (h : Paired C c pool) {miss : MissTable} {slot : ℕ}
    {changed : Option MissEntry}
    (hentryAt : miss.entryAt = Function.update pool.locked.miss.entryAt slot changed)
    (hslot : ∀ entry, pool.locked.miss.entryAt slot = some entry → entry.outcome ≠ .pending) :
    ∀ settling, c.settling = some settling → ∃ entry,
      miss.entryAt settling.index = some entry ∧ entry.outcome = .pending ∧
        entry.token = settling.token ∧ entry.frame = settling.frame := by
  intro settling hsettling
  obtain ⟨entry, hentry, houtcome, hpair⟩ := h.settling settling hsettling
  have hne : settling.index ≠ slot := by
    rintro rfl
    exact hslot entry hentry houtcome
  rw [hentryAt, Function.update_of_ne hne]
  exact ⟨entry, hentry, houtcome, hpair⟩

theorem Move.paired (hmove : Move C (c, pool) (c', after)) (hconnected : Connected C c pool)
    (hcredited : Credited C c pool) (h : Paired C c pool) : Paired C c' after := by
  cases hmove with
  | pin hpinning hreader => cases hreader <;> exact ⟨h.pairs, h.settling⟩
  | @publish _ _ index frame token entry howed hentry hsettling hunmapped =>
    have hpairs := h.pairs
    rw [hsettling] at hpairs
    refine ⟨balance_publish hpairs howed, ?_⟩
    rintro settling ⟨⟩
    exact ⟨entry.unindexed, hentry.entryAt, hentry.outcome, hentry.token, hentry.frame⟩
  | @succeed _ _ settling credits miss hsettling hunmapped hcredits hsucceed =>
    obtain ⟨-, entry, hsettled⟩ := MissTable.succeed_eq_ok hcredited.table hsucceed
    obtain ⟨entry', hentry', -, htoken, hframe⟩ := h.settling settling hsettling
    rw [hsettled.found] at hentry'
    cases hentry'
    have hpairs := h.pairs
    rw [hsettling, Option.elim_some, Settling.pair, ← htoken, ← hframe, hsettled.pairs] at hpairs
    exact ⟨balance_succeed hpairs, fun _ hnone ↦ by cases hnone⟩
  | @fail _ _ index frame errno credits token entry miss howed hentry hcredits hfail hsettling =>
    obtain ⟨-, entry', hsettled⟩ := MissTable.fail_eq_ok hcredited.table hfail
    have hfound := hentry.entryAt
    rw [hsettled.found] at hfound
    cases hfound
    have hpairs := h.pairs
    rw [hsettled.pairs, show entry.unindexed.token = token from hentry.token,
      show entry.unindexed.frame = frame from hentry.frame] at hpairs
    refine ⟨balance_fail hpairs howed, fun settling hsome ↦ ?_⟩
    rw [hsettling] at hsome
    cases hsome
  | clean hclean =>
    rcases MissTable.cleanTerminalZero_eq_ok hclean with rfl | ⟨_, _, hcleaned⟩
    · exact h
    · have hpairs := h.pairs
      rw [← hcleaned.pairs hcredited.table] at hpairs
      refine ⟨hpairs, h.settling_update hcleaned.entryAt fun entry hentry ↦ ?_⟩
      rw [hcleaned.found] at hentry
      cases hentry
      exact hcleaned.outcome
  | admitRead horphan hpage habsent hlive hroom hadmitted =>
    obtain ⟨-, hadmitted, -⟩ := MissTable.admitInitial_eq_ok hcredited.table hadmitted
    have hpairs := balance_admitted h.pairs horphan
    rw [← hadmitted.pairs] at hpairs
    exact ⟨hpairs, h.settling_update hadmitted.entryAt fun entry hentry ↦
      (hadmitted.reusable entry hentry).1⟩
  | upkeep hupkeep =>
    have hpairs := h.pairs
    rw [← holders_upkeep hconnected hupkeep] at hpairs
    exact ⟨hpairs, h.settling⟩
  | reap hrouting hreap =>
    have hpairs := h.pairs
    rw [← holders_reap hconnected hreap] at hpairs
    exact ⟨hpairs, h.settling⟩
  | collect hrouting =>
    have hpairs := h.pairs
    rw [← holders_collect] at hpairs
    exact ⟨hpairs, h.settling⟩
  | take hbatch hbundle hspan hfacts =>
    have hpairs := h.pairs
    rw [holders_take hbatch] at hpairs
    exact ⟨balance_take hpairs, h.settling⟩
  | releaseLease hlease hrelease =>
    have hpairs := h.pairs
    rw [← holders_release hconnected hlease hrelease] at hpairs
    exact ⟨hpairs, h.settling⟩
  | @submit _ _ fd page frame token shared hloose hpage hfile hsubmit =>
    have hpairs := balance_submit (token, frame) h.pairs
    rw [← holders_submit hconnected hsubmit] at hpairs
    exact ⟨hpairs, h.settling⟩
  | @resubmit _ _ fd index frame filled token next entry miss shared howed hentry hfile hsubmit
      hadvance hsettling =>
    obtain ⟨-, entry', hadvanced⟩ := MissTable.advanceRemainder_eq_ok hcredited.table hadvance
    have hfound := hentry.entryAt
    rw [hadvanced.found] at hfound
    cases hfound
    have hnext := hadvanced.pairs
    rw [show entry.unindexed.token = token from hentry.token,
      show entry.unindexed.frame = frame from hentry.frame] at hnext
    have hpairs := balance_resubmit h.pairs howed hnext
    rw [← holders_submit hconnected hsubmit] at hpairs
    refine ⟨hpairs, fun settling hsome ↦ ?_⟩
    rw [hsettling] at hsome
    cases hsome
  | @submitVector _ _ fd first vector token shared hloose hgranule hordinal htotal hunrouted hpages
      hfile hsubmit =>
    have hpairs := balance_bundle (Multiset.ofList (vector.frames.map fun frame ↦ (token, frame)))
      h.pairs
    rw [← holders_submitVector hconnected hsubmit] at hpairs
    exact ⟨hpairs, h.settling⟩
  | continueVector hbundle hvector hcompleted hlease hspan hunrouted howed hcontinue =>
    have hpairs := balance_continue h.pairs howed
    rw [← holders_continue hconnected hlease hcontinue] at hpairs
    exact ⟨hpairs, h.settling⟩
  | submitWrite hindex hvacant hlive hsubmit hlocked =>
    cases hlocked
    have hpairs := h.pairs
    rw [← holders_submitWrite hconnected hsubmit] at hpairs
    exact ⟨hpairs, h.settling⟩
  | submitFsync hindex hheld hsubmit =>
    have hpairs := h.pairs
    rw [← holders_submitFsync hconnected hsubmit] at hpairs
    exact ⟨hpairs, h.settling⟩
  | holdFsync hindex hvacant hlive hlocked =>
    cases hlocked
    exact ⟨h.pairs, h.settling⟩
  | finish hfinished hfinish =>
    cases finishProductCompletion_eq_ok hfinish <;> exact ⟨h.pairs, h.settling⟩
  | deliver hdeliver =>
    obtain ⟨productOps, rfl⟩ := deliverFrom_eq _ _ _ _ _ _ _ hdeliver
    exact ⟨h.pairs, h.settling⟩
  | register hopened hregister =>
    obtain ⟨_, _, _, _, rfl⟩ := registerFile_eq_ok hopened hregister
    exact ⟨h.pairs, h.settling⟩
  | beginRetire hlive hretire =>
    obtain ⟨_, _, _, _, rfl⟩ := beginFileRetirement_eq_some hretire
    exact ⟨h.pairs, h.settling⟩
  | close hclosing hclose =>
    obtain ⟨-, -, -, rfl⟩ := Shared.closeFile_eq_ok hclose
    exact ⟨h.pairs, h.settling⟩
  | _ => exact ⟨h.pairs, h.settling⟩

theorem Reach.paired (h : Reach C c pool) : Paired C c pool := by
  induction h with
  | new => exact .new C
  | turn hreach hturn ih => exact hturn.paired hreach.connected ih
  | move hreach hmove ih => exact hmove.paired hreach.connected hreach.credited ih

end Reads

/-! ## Pages -/

/-- A pending miss for a page. -/
def PendingPage (miss : MissTable) (index : ℕ) (entry : MissEntry) : Prop :=
  miss.entryAt index = some entry ∧ entry.outcome = .pending

/-- The entry of one slot changes. -/
theorem MissTable.entryAt_update {slot index : ℕ} {changed : Option MissEntry} {entry : MissEntry}
    {miss after : MissTable}
    (hentryAt : after.entryAt = Function.update miss.entryAt slot changed)
    (hentry : after.entryAt index = some entry) :
    (index = slot ∧ changed = some entry) ∨ (index ≠ slot ∧ miss.entryAt index = some entry) := by
  rw [hentryAt] at hentry
  by_cases hindex : index = slot
  · subst hindex
    rw [Function.update_self] at hentry
    exact .inl ⟨rfl, hentry⟩
  · rw [Function.update_of_ne hindex] at hentry
    exact .inr ⟨hindex, hentry⟩

/-- The pages of misses, and of the frames that their reads fill. -/
structure Paged (settling : Option Settling) (unmapped : Option ℕ) (absent : Finset PageId)
    (frames : ℕ → Frame) (table : Table.Pages) (miss : MissTable) : Prop where
  pages : ∀ index entry, PendingPage miss index entry → (frames entry.frame).page = entry.page
  distinct : ∀ index entry index' entry', PendingPage miss index entry →
    PendingPage miss index' entry' → entry.page = entry'.page → index = index'
  fresh : ∀ index entry, PendingPage miss index entry →
    (∀ settled, settling = some settled → settled.index = index →
      unmapped = some settled.frame) → table.lookup entry.page = none
  settled : ∀ settled, settling = some settled → (frames settled.frame).state = .resident
  succeeded : ∀ index entry, miss.entryAt index = some entry → entry.outcome = .succeeded →
    (frames entry.frame).state = .resident ∧ (frames entry.frame).page = entry.page ∧
      unmapped ≠ some entry.frame
  absent : ∀ page ∈ absent, table.lookup page = none ∧
    ∀ index entry, PendingPage miss index entry → entry.page ≠ page

namespace Paged

variable {settling : Option Settling} {unmapped : Option ℕ} {absent : Finset PageId}
  {frames : ℕ → Frame} {table : Table.Pages} {miss after : MissTable}

theorem new (capacity pendingCapacity : ℕ) (frames : ℕ → Frame) (table : Table.Pages) :
    Paged none none ∅ frames table (.new capacity pendingCapacity) := by
  constructor <;> simp [PendingPage, MissTable.entryAt, MissTable.new, FileSlots.new,
    FileSlots.get, FileSlot.get, FileSlot.vacant]

variable (h : Paged settling unmapped absent frames table miss)

include h

/-- A frame that is not resident gets another state, and keeps its page. -/
theorem setState {frame : ℕ} {word : Frame} (hstate : (frames frame).state ≠ .resident)
    (hpage : word.page = (frames frame).page) :
    Paged settling unmapped absent (Function.update frames frame word) table miss := by
  have hpages : ∀ other, (Function.update frames frame word other).page = (frames other).page := by
    intro other
    by_cases hother : other = frame
    · subst hother
      rw [Function.update_self, hpage]
    · rw [Function.update_of_ne hother]
  have hstates : ∀ other, (frames other).state = .resident →
      (Function.update frames frame word other).state = .resident := by
    intro other hresident
    rw [Function.update_of_ne]
    · exact hresident
    · rintro rfl
      exact hstate hresident
  refine ⟨?_, h.distinct, h.fresh, ?_, ?_, h.absent⟩
  · intro index entry hentry
    rw [hpages]
    exact h.pages index entry hentry
  · intro settled hsettled
    exact hstates _ (h.settled settled hsettled)
  · intro index entry hentry houtcome
    obtain ⟨hresident, hpage', hunmapped⟩ := h.succeeded index entry hentry houtcome
    rw [hpages]
    exact ⟨hstates _ hresident, hpage', hunmapped⟩

/-- A free frame is claimed for a page. -/
theorem claim {frame : ℕ} {word : Frame} (hstate : (frames frame).state = .free)
    (hpending : ∀ index entry, PendingPage miss index entry → entry.frame ≠ frame) :
    Paged settling unmapped absent (Function.update frames frame word) table miss := by
  have hother : ∀ other, (frames other).state = .resident → other ≠ frame := by
    rintro other hresident rfl
    rw [hstate] at hresident
    cases hresident
  refine ⟨?_, h.distinct, h.fresh, ?_, ?_, h.absent⟩
  · intro index entry hentry
    rw [Function.update_of_ne (hpending index entry hentry)]
    exact h.pages index entry hentry
  · intro settled hsettled
    have hresident := h.settled settled hsettled
    rw [Function.update_of_ne (hother _ hresident)]
    exact hresident
  · intro index entry hentry houtcome
    have hsucceeded := h.succeeded index entry hentry houtcome
    rw [Function.update_of_ne (hother _ hsucceeded.1)]
    exact hsucceeded

/-- The frame of a pending miss is published. -/
theorem publish (hsettling : settling = none) {settled : Settling} {word : Frame}
    (hstate : (frames settled.frame).state = .inFlight)
    (hpage : word.page = (frames settled.frame).page) (hword : word.state = .resident) :
    Paged (some settled) (some settled.frame) absent (Function.update frames settled.frame word)
      table miss := by
  have hmoved := h.setState (by rw [hstate]; simp) hpage
  refine ⟨hmoved.pages, h.distinct, ?_, ?_, ?_, h.absent⟩
  · intro index entry hentry _
    refine h.fresh index entry hentry fun settled hsome ↦ ?_
    rw [hsettling] at hsome
    cases hsome
  · rintro _ ⟨⟩
    rw [Function.update_self, hword]
  · intro index entry hentry houtcome
    obtain ⟨hresident, hpage', -⟩ := hmoved.succeeded index entry hentry houtcome
    refine ⟨hresident, hpage', fun heq ↦ ?_⟩
    have hold := (h.succeeded index entry hentry houtcome).1
    rw [← Option.some_inj.mp heq, hstate] at hold
    cases hold

/-- The published frame of a miss is mapped under its page. -/
theorem map {settled : Settling} {entry : MissEntry} {page : PageId}
    (hentry : PendingPage miss settled.index entry) (hpage : page = entry.page)
    (hsettling : settling = some settled) :
    Paged settling none absent frames (table.insert page settled.frame) miss := by
  subst hpage
  refine ⟨h.pages, h.distinct, ?_, h.settled, ?_, ?_⟩
  · intro index other hother hpremise
    have hindex : settled.index ≠ index := by
      intro heq
      have := hpremise settled hsettling heq
      cases this
    have hpage : other.page ≠ entry.page :=
      fun heq ↦ hindex (h.distinct _ _ _ _ hentry hother heq.symm)
    rw [lookup_insert, if_neg hpage]
    refine h.fresh index other hother fun settled' hsome heq ↦ ?_
    rw [hsettling] at hsome
    cases hsome
    exact absurd heq hindex
  · intro index other hother houtcome
    obtain ⟨hresident, hpage, -⟩ := h.succeeded index other hother houtcome
    exact ⟨hresident, hpage, by simp⟩
  · intro page hmem
    obtain ⟨hlookup, hpending⟩ := h.absent page hmem
    rw [lookup_insert, if_neg (hpending _ _ hentry).symm]
    exact ⟨hlookup, hpending⟩

/-- A frame that protects no finished read is no longer mapped. -/
theorem unmap {frame : ℕ} {page : PageId} (hsettling : settling = none)
    (hsuccess : ∀ index entry, miss.entryAt index = some entry → entry.outcome = .succeeded →
      entry.frame ≠ frame) :
    Paged settling (some frame) absent frames (table.erase page) miss := by
  have hlookup : ∀ other, table.lookup other = none → (table.erase page).lookup other = none := by
    intro other hnone
    rw [lookup_erase]
    split
    · rfl
    · exact hnone
  refine ⟨h.pages, h.distinct, ?_, h.settled, ?_, ?_⟩
  · intro index entry hentry _
    refine hlookup _ (h.fresh index entry hentry fun settled hsome ↦ ?_)
    rw [hsettling] at hsome
    cases hsome
  · intro index entry hentry houtcome
    obtain ⟨hresident, hpage, -⟩ := h.succeeded index entry hentry houtcome
    exact ⟨hresident, hpage, fun heq ↦ hsuccess index entry hentry houtcome
      (Option.some_inj.mp heq).symm⟩
  · intro other hmem
    exact ⟨hlookup other (h.absent other hmem).1, (h.absent other hmem).2⟩

/-- A frame that is not mapped is evicted. -/
theorem enqueue {frame : ℕ} {word : Frame} (hsettling : settling = none)
    (hunmapped : unmapped = some frame) (hpage : word.page = (frames frame).page) :
    Paged settling none absent (Function.update frames frame word) table miss := by
  refine ⟨?_, h.distinct, ?_, ?_, ?_, h.absent⟩
  · intro index entry hentry
    have hold := h.pages index entry hentry
    by_cases hframe : entry.frame = frame
    · rw [hframe, Function.update_self, hpage, ← hframe, hold]
    · rw [Function.update_of_ne hframe, hold]
  · intro index entry hentry _
    refine h.fresh index entry hentry fun settled hsome ↦ ?_
    rw [hsettling] at hsome
    cases hsome
  · intro settled hsome
    rw [hsettling] at hsome
    cases hsome
  · intro index entry hentry houtcome
    obtain ⟨hresident, hpage', hne⟩ := h.succeeded index entry hentry houtcome
    have hframe : entry.frame ≠ frame := fun heq ↦ hne (by rw [hunmapped, heq])
    rw [Function.update_of_ne hframe]
    exact ⟨hresident, hpage', by simp⟩

/-- A miss is over, or a finished one is gone. -/
theorem finish {slot : ℕ} {changed : Option MissEntry} {settling' : Option Settling}
    (hentryAt : after.entryAt = Function.update miss.entryAt slot changed)
    (hpending : ∀ entry, changed = some entry → entry.outcome ≠ .pending)
    (hsucceeded : ∀ entry, changed = some entry → entry.outcome = .succeeded →
      (frames entry.frame).state = .resident ∧ (frames entry.frame).page = entry.page ∧
        unmapped ≠ some entry.frame)
    (hsettling : settling' = settling ∨
      settling' = none ∧ ∀ settled, settling = some settled → settled.index = slot) :
    Paged settling' unmapped absent frames table after := by
  have hold : ∀ index entry, PendingPage after index entry →
      index ≠ slot ∧ PendingPage miss index entry := by
    rintro index entry ⟨hentry, houtcome⟩
    rcases MissTable.entryAt_update hentryAt hentry with ⟨-, hchanged⟩ | ⟨hindex, hentry⟩
    · exact absurd houtcome (hpending entry hchanged)
    · exact ⟨hindex, hentry, houtcome⟩
  refine ⟨?_, ?_, ?_, ?_, ?_, ?_⟩
  · exact fun index entry hentry ↦ h.pages index entry (hold index entry hentry).2
  · intro index entry index' entry' hentry hentry'
    exact h.distinct index entry index' entry' (hold _ _ hentry).2 (hold _ _ hentry').2
  · intro index entry hentry hpremise
    obtain ⟨hindex, hentry⟩ := hold index entry hentry
    refine h.fresh index entry hentry fun settled hsome heq ↦ ?_
    rcases hsettling with rfl | ⟨-, hslot⟩
    · exact hpremise settled hsome heq
    · exact absurd (heq.symm.trans (hslot settled hsome)) hindex
  · intro settled hsome
    rcases hsettling with rfl | ⟨rfl, -⟩
    · exact h.settled settled hsome
    · cases hsome
  · intro index entry hentry houtcome
    rcases MissTable.entryAt_update hentryAt hentry with ⟨-, hchanged⟩ | ⟨-, hentry⟩
    · exact hsucceeded entry hchanged houtcome
    · exact h.succeeded index entry hentry houtcome
  · intro page hmem
    exact ⟨(h.absent page hmem).1,
      fun index entry hentry ↦ (h.absent page hmem).2 index entry (hold index entry hentry).2⟩

/-- A miss is admitted for a page that is neither mapped nor pending. -/
theorem begin {slot : ℕ} {entry : MissEntry}
    (hentryAt : after.entryAt = Function.update miss.entryAt slot (some entry))
    (hreusable : ∀ previous, miss.entryAt slot = some previous → previous.outcome ≠ .pending)
    (houtcome : entry.outcome = .pending) (hpage : (frames entry.frame).page = entry.page)
    (habsent : entry.page ∈ absent) :
    Paged settling unmapped (absent.erase entry.page) frames table after := by
  obtain ⟨hlookup, hfresh⟩ := h.absent _ habsent
  have hold : ∀ index other, PendingPage after index other →
      (index = slot ∧ entry = other) ∨ (index ≠ slot ∧ PendingPage miss index other) := by
    rintro index other ⟨hother, hpending⟩
    rcases MissTable.entryAt_update hentryAt hother with ⟨hindex, hchanged⟩ | ⟨hindex, hother⟩
    · exact .inl ⟨hindex, Option.some_inj.mp hchanged⟩
    · exact .inr ⟨hindex, hother, hpending⟩
  refine ⟨?_, ?_, ?_, h.settled, ?_, ?_⟩
  · intro index other hother
    rcases hold index other hother with ⟨-, rfl⟩ | ⟨-, hother⟩
    · exact hpage
    · exact h.pages index other hother
  · intro index other index' other' hother hother' hsame
    rcases hold index other hother with ⟨rfl, rfl⟩ | ⟨-, hother⟩
    · rcases hold index' other' hother' with ⟨rfl, -⟩ | ⟨-, hother'⟩
      · rfl
      · exact absurd hsame.symm (hfresh _ _ hother')
    · rcases hold index' other' hother' with ⟨-, rfl⟩ | ⟨-, hother'⟩
      · exact absurd hsame (hfresh _ _ hother)
      · exact h.distinct _ _ _ _ hother hother' hsame
  · intro index other hother hpremise
    rcases hold index other hother with ⟨-, rfl⟩ | ⟨-, hother⟩
    · exact hlookup
    · exact h.fresh index other hother hpremise
  · intro index other hother hsucceeded
    rcases MissTable.entryAt_update hentryAt hother with ⟨-, hchanged⟩ | ⟨-, hother⟩
    · cases hchanged
      rw [houtcome] at hsucceeded
      cases hsucceeded
    · exact h.succeeded index other hother hsucceeded
  · intro page hmem
    obtain ⟨hne, hmem⟩ := Finset.mem_erase.mp hmem
    refine ⟨(h.absent page hmem).1, fun index other hother ↦ ?_⟩
    rcases hold index other hother with ⟨-, rfl⟩ | ⟨-, hother⟩
    · exact hne.symm
    · exact (h.absent page hmem).2 index other hother

/-- A pending miss goes on with another read. -/
theorem advance {slot : ℕ} {entry next : MissEntry}
    (hentryAt : after.entryAt = Function.update miss.entryAt slot (some next))
    (hentry : PendingPage miss slot entry) (hpage : next.page = entry.page)
    (hframe : next.frame = entry.frame) (houtcome : next.outcome = .pending) :
    Paged settling unmapped absent frames table after := by
  have hold : ∀ index other, PendingPage after index other → ∃ previous,
      PendingPage miss index previous ∧ other.page = previous.page ∧
        other.frame = previous.frame := by
    rintro index other ⟨hother, hpending⟩
    rcases MissTable.entryAt_update hentryAt hother with ⟨rfl, hchanged⟩ | ⟨-, hother⟩
    · cases hchanged
      exact ⟨entry, hentry, hpage, hframe⟩
    · exact ⟨other, ⟨hother, hpending⟩, rfl, rfl⟩
  refine ⟨?_, ?_, ?_, h.settled, ?_, ?_⟩
  · intro index other hother
    obtain ⟨previous, hprevious, hpage', hframe'⟩ := hold index other hother
    rw [hpage', hframe']
    exact h.pages index previous hprevious
  · intro index other index' other' hother hother' hsame
    obtain ⟨previous, hprevious, hpage', -⟩ := hold index other hother
    obtain ⟨previous', hprevious', hpage'', -⟩ := hold index' other' hother'
    rw [hpage', hpage''] at hsame
    exact h.distinct _ _ _ _ hprevious hprevious' hsame
  · intro index other hother hpremise
    obtain ⟨previous, hprevious, hpage', -⟩ := hold index other hother
    rw [hpage']
    exact h.fresh index previous hprevious hpremise
  · intro index other hother hsucceeded
    rcases MissTable.entryAt_update hentryAt hother with ⟨-, hchanged⟩ | ⟨-, hother⟩
    · cases hchanged
      rw [houtcome] at hsucceeded
      cases hsucceeded
    · exact h.succeeded index other hother hsucceeded
  · intro page hmem
    refine ⟨(h.absent page hmem).1, fun index other hother ↦ ?_⟩
    obtain ⟨previous, hprevious, hpage', -⟩ := hold index other hother
    rw [hpage']
    exact (h.absent page hmem).2 index previous hprevious

end Paged

section Pages

variable {C : Config} {c c' : Custody} {pool after : Pool}

/-- The frame of a pending miss is in flight, or published and about to be settled. -/
theorem Paired.frame_state (h : Paired C c pool) (hplaced : Placed C c pool)
    (htable : pool.locked.miss.WellFormed) {index : ℕ} {entry : MissEntry}
    (hentry : PendingPage pool.locked.miss index entry) :
    (pool.locked.frames entry.frame).state = .inFlight ∨
      ∃ settling, c.settling = some settling ∧ settling.frame = entry.frame := by
  have hmem : (entry.token, entry.frame) ∈ pool.locked.miss.pairs + c.orphans :=
    Multiset.mem_add.mpr (.inl (htable.mem_pairs.mpr ⟨index, entry, hentry.1, hentry.2, rfl, rfl⟩))
  rw [h.pairs, Multiset.mem_add] at hmem
  rcases hmem with hheld | hsettling
  · refine .inl (hplaced.frames.state_of_mem_holding ?_)
    exact Multiset.mem_add.mpr (.inl (Multiset.mem_map_of_mem Prod.snd hheld))
  · cases hsome : c.settling with
    | none => simp [hsome] at hsettling
    | some settling =>
      rw [hsome, Option.elim_some, Multiset.mem_singleton] at hsettling
      exact .inr ⟨settling, rfl, (congrArg Prod.snd hsettling).symm⟩

theorem Move.paged (hmove : Move C (c, pool) (c', after)) (hplaced : Placed C c pool)
    (hcredited : Credited C c pool) (hpaired : Paired C c pool)
    (h : Paged c.settling c.unmapped c.absent pool.locked.frames pool.locked.table pool.locked.miss) :
    Paged c'.settling c'.unmapped c'.absent after.locked.frames after.locked.table
      after.locked.miss := by
  cases hmove with
  | pin hpinning hreader => cases hreader <;> exact h
  | claim hstate hcount hreserve =>
    refine h.claim hstate fun index entry hentry heq ↦ ?_
    rcases hpaired.frame_state hplaced hcredited.table hentry with hinFlight | ⟨_, hsome, hframe⟩
    · rw [heq, hstate] at hinFlight
      cases hinFlight
    · have hresident := h.settled _ hsome
      rw [hframe, heq, hstate] at hresident
      cases hresident
  | abort hloose hcount hreserve =>
    have hstate := hplaced.frames.state_of_mem_holding (mem_holding_of_loose C pool hloose)
    exact h.setState (by rw [hstate]; simp) rfl
  | @publish _ _ index frame token entry howed hentry hsettling hunmapped =>
    have hstate := hplaced.frames.state_of_mem_holding (mem_holding_of_owed C pool howed)
    exact h.publish hsettling hstate rfl rfl
  | @map _ _ settling hsettling framePages hunmapped habsent hpages =>
    obtain ⟨entry, hentry, houtcome, -, hframe⟩ := hpaired.settling settling hsettling
    refine h.map ⟨hentry, houtcome⟩ ?_ hsettling
    rw [← hframe]
    exact h.pages _ _ ⟨hentry, houtcome⟩
  | @succeed _ _ settling credits miss hsettling hunmapped hcredits hsucceed =>
    obtain ⟨-, entry, hsettled⟩ := MissTable.succeed_eq_ok hcredited.table hsucceed
    obtain ⟨entry', hentry', -, -, hframe⟩ := hpaired.settling settling hsettling
    rw [hsettled.found] at hentry'
    cases hentry'
    refine h.finish hsettled.entryAt ?_ ?_ (.inr ⟨rfl, fun settled hsome ↦ ?_⟩)
    · rintro _ ⟨⟩
      simp
    · rintro _ ⟨⟩ -
      have hresident := h.settled settling hsettling
      have hpage := h.pages _ entry ⟨hsettled.found, hsettled.pending⟩
      refine ⟨hframe ▸ hresident, hpage, ?_⟩
      simp [hunmapped]
    · rw [hsettling] at hsome
      cases hsome
      rfl
  | fail howed hentry hcredits hfail hsettling =>
    obtain ⟨-, entry, hsettled⟩ := MissTable.fail_eq_ok hcredited.table hfail
    refine h.finish hsettled.entryAt ?_ ?_ (.inl rfl)
    · rintro _ ⟨⟩
      simp
    · rintro _ ⟨⟩ houtcome
      cases houtcome
  | clean hclean =>
    rcases MissTable.cleanTerminalZero_eq_ok hclean with rfl | ⟨_, _, hcleaned⟩
    · exact h
    · exact h.finish hcleaned.entryAt (fun _ hnone ↦ by cases hnone) (fun _ hnone ↦ by cases hnone)
        (.inl rfl)
  | admitRead horphan hpage habsent hlive hroom hadmitted =>
    obtain ⟨-, hadmitted, -⟩ := MissTable.admitInitial_eq_ok hcredited.table hadmitted
    exact h.begin hadmitted.entryAt (fun previous hprevious ↦ (hadmitted.reusable previous hprevious).1)
      rfl hpage habsent
  | unmap hlookup hsettling hunmapped hsuccess =>
    refine h.unmap hsettling fun index entry hentry houtcome hframe ↦ ?_
    have hmark := (hcredited.table.success entry.frame index entry.generation).mpr
      ⟨entry, hentry, houtcome, rfl, rfl⟩
    rw [hframe, hsuccess] at hmark
    cases hmark
  | enqueue hsettling hunmapped => exact h.enqueue hsettling hunmapped rfl
  | @reclaim _ _ frame framePages hevicting hpages =>
    have hstate : (pool.locked.frames frame).state = .evicting :=
      hplaced.frames.state_of_evicting (by simp [hevicting])
    exact h.setState (by rw [hstate]; simp) rfl
  | @reclaimHeld _ _ frame framePages hword hpages =>
    have hstate : (pool.locked.frames frame).state = .evicting :=
      hplaced.frames.state_of_held (by rw [hword])
    exact h.setState (by rw [hstate]; simp) rfl
  | resubmit howed hentry hfile hsubmit hadvance hsettling =>
    obtain ⟨-, entry, hadvanced⟩ := MissTable.advanceRemainder_eq_ok hcredited.table hadvance
    exact h.advance hadvanced.entryAt ⟨hadvanced.found, hadvanced.pending⟩ rfl rfl hadvanced.pending
  | submitWrite hindex hvacant hlive hsubmit hlocked =>
    cases hlocked
    exact h
  | holdFsync hindex hvacant hlive hlocked =>
    cases hlocked
    exact h
  | finish hfinished hfinish => cases finishProductCompletion_eq_ok hfinish <;> exact h
  | deliver hdeliver =>
    obtain ⟨productOps, rfl⟩ := deliverFrom_eq _ _ _ _ _ _ _ hdeliver
    exact h
  | register hopened hregister =>
    obtain ⟨_, _, _, _, rfl⟩ := registerFile_eq_ok hopened hregister
    exact h
  | beginRetire hlive hretire =>
    obtain ⟨_, _, _, _, rfl⟩ := beginFileRetirement_eq_some hretire
    exact h
  | absent hlookup hpending =>
    refine ⟨h.pages, h.distinct, h.fresh, h.settled, h.succeeded, fun other hmem ↦ ?_⟩
    rcases Finset.mem_insert.mp hmem with rfl | hmem
    · exact ⟨hlookup, fun index entry hentry ↦
        hcredited.table.findPending_eq_none hpending hentry.1 hentry.2⟩
    · exact h.absent other hmem
  | forget hfilled habsent =>
    exact ⟨h.pages, h.distinct, h.fresh, h.settled, h.succeeded,
      fun other hmem ↦ h.absent other (habsent hmem)⟩
  | _ => exact h

theorem Reach.paged (h : Reach C c pool) : Paged c.settling c.unmapped c.absent pool.locked.frames
    pool.locked.table pool.locked.miss := by
  induction h with
  | new => exact .new ..
  | turn hreach hturn ih => exact hturn.locked_eq ▸ ih
  | move hreach hmove ih => exact hmove.paged hreach.placed hreach.credited hreach.paired ih

end Pages

end DiosPool.Pool
