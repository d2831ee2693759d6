import DiosPool.Foundation.RoundRobin
import DiosPool.Pool.Prefetch.Protection
import DiosPool.Pool.Prefetch.Queues

/-!
# The horizon of a stream

A stream reads ahead of its demand, and no further than its width. Demand and feedback move the
horizon, issues use it up. Whatever the stream has issued stays behind its cursor until it begins
anew.
-/

namespace DiosPool.Pool

open Foundation

namespace Pattern

/-- The cursor of a stream is ahead of its demand, and its width within the speculative capacity. -/
def Valid (capacity : ℕ) (pattern : Pattern) : Prop :=
  ∀ demand next width, pattern.state = .streaming demand next width →
    demand.granuleIdx < next ∧ next ≤ u32Max ∧ 1 ≤ width ∧ width ≤ capacity

/-- A pattern is at least as far as it was, or has begun anew. -/
structure Advances (before after : Pattern) : Prop where
  incarnation : before.incarnation ≤ after.incarnation
  cursor : after.incarnation = before.incarnation → ∀ page, before.cursor = some page →
    ∃ page', after.cursor = some page' ∧ page'.file = page.file ∧ page.granuleIdx ≤ page'.granuleIdx

/-- A page that an incarnation has issued is behind its cursor. -/
structure Passed (pattern : Pattern) (incarnation : ℕ) (page : PageId) : Prop where
  incarnation_le : incarnation ≤ pattern.incarnation
  behind : incarnation = pattern.incarnation →
    ∃ next, pattern.cursor = some next ∧ page.file = next.file ∧ page.granuleIdx < next.granuleIdx

variable {pattern after : Pattern} {capacity incarnation : ℕ} {page : PageId}

theorem Steady.advances (h : pattern.Steady after) : pattern.Advances after :=
  ⟨h.incarnation, fun hsame page hpage ↦ ⟨page, (h.cursor hsame).trans hpage, rfl, le_rfl⟩⟩

theorem Advances.of_cursor_none (hincarnation : pattern.incarnation ≤ after.incarnation)
    (hcursor : pattern.cursor = none) : pattern.Advances after := by
  refine ⟨hincarnation, fun _ page hpage ↦ ?_⟩
  rw [hcursor] at hpage
  cases hpage

theorem Passed.advance (h : pattern.Passed incarnation page) (hadvances : pattern.Advances after) :
    after.Passed incarnation page := by
  refine ⟨h.incarnation_le.trans hadvances.incarnation, fun hsame ↦ ?_⟩
  have hbefore : incarnation = pattern.incarnation :=
    le_antisymm h.incarnation_le (hsame ▸ hadvances.incarnation)
  obtain ⟨next, hnext, hfile, hlt⟩ := h.behind hbefore
  obtain ⟨next', hnext', hfile', hle⟩ := hadvances.cursor (hsame.symm.trans hbefore) next hnext
  exact ⟨next', hnext', hfile.trans hfile'.symm, hlt.trans_le hle⟩

theorem Valid.of_cursor_none (h : pattern.cursor = none) : pattern.Valid capacity := by
  intro demand next width hstate
  rw [cursor, hstate] at h
  cases h

theorem checkedSucc_eq_some {value succ : ℕ} (h : checkedSucc value = some succ) :
    succ = value + 1 ∧ succ ≤ u32Max := by
  unfold checkedSucc at h
  split at h
  · cases h
    exact ⟨rfl, ‹_›⟩
  · cases h

theorem observeSequential_spec (hvalid : pattern.Valid capacity) (hcapacity : 0 < capacity)
    {last : PageId} (hlast : pattern.last = some last) (hfile : last.file = page.file) :
    ∃ after, pattern.observeSequential page capacity = .ok after ∧ after.Valid capacity ∧
      pattern.Advances after := by
  unfold observeSequential
  cases hsucc : checkedSucc page.granuleIdx with
  | none => exact ⟨_, rfl, Valid.of_cursor_none rfl, (reset_steady _).advances⟩
  | some next =>
    obtain ⟨rfl, hmax⟩ := checkedSucc_eq_some hsucc
    cases hstate : pattern.state with
    | empty =>
      rw [Pattern.last, hstate] at hlast
      cases hlast
    | following seen run =>
      have hcursor : pattern.cursor = none := by rw [cursor, hstate]
      dsimp only
      split
      · exact ⟨_, rfl, .of_cursor_none rfl, .of_cursor_none le_rfl hcursor⟩
      · refine ⟨_, rfl, fun demand next width h ↦ ?_, .of_cursor_none le_rfl hcursor⟩
        cases h
        exact ⟨Nat.lt_succ_self _, hmax, le_min hcapacity (by decide), min_le_left _ _⟩
    | streaming demand issued width =>
      obtain ⟨-, hissued, hwidth⟩ := hvalid demand issued width hstate
      rw [Pattern.last, hstate] at hlast
      cases hlast
      refine ⟨_, rfl, fun _ _ _ h ↦ ?_, le_rfl, fun _ cursor hcursor ↦ ?_⟩
      · cases h
        exact ⟨lt_max_of_lt_right (Nat.lt_succ_self _), max_le hissued hmax, hwidth⟩
      · rw [Pattern.cursor, hstate] at hcursor
        cases hcursor
        exact ⟨_, rfl, hfile.symm, le_max_left _ _⟩

/-- Demand is observed without a failed expectation, and moves a stream forward or ends it. -/
theorem observe_spec (hvalid : pattern.Valid capacity) (hcapacity : 0 < capacity) (page : PageId) :
    ∃ after, pattern.observe page capacity = .ok after ∧ after.Valid capacity ∧
      pattern.Advances after := by
  rw [observe, ensure_true hcapacity, ok_bind]
  split
  · exact ⟨pattern, rfl, hvalid, (Steady.refl _).advances⟩
  split
  · rename_i hfollows
    obtain ⟨last, hlast, hfollows⟩ := (Option.any_eq_true _ _).mp hfollows
    simp only [follows, Bool.and_eq_true, beq_iff_eq] at hfollows
    exact observeSequential_spec hvalid hcapacity hlast hfollows.1
  · exact ⟨_, rfl, .of_cursor_none rfl, (Steady.renew rfl).advances⟩

/-- Consumption of an issued page is observed without a failed expectation. -/
theorem promoted_spec (hvalid : pattern.Valid capacity) (hpassed : pattern.Passed incarnation page) :
    ∃ after, pattern.promoted page incarnation capacity = .ok after ∧ after.Valid capacity := by
  unfold promoted
  split
  · exact ⟨pattern, rfl, hvalid⟩
  rename_i hsame
  obtain ⟨next, hnext, hfile, hlt⟩ := hpassed.behind (not_not.mp hsame).symm
  cases hstate : pattern.state with
  | empty => exact ⟨pattern, rfl, hvalid⟩
  | following last run => exact ⟨pattern, rfl, hvalid⟩
  | streaming demand cursor width =>
    obtain ⟨hdemand, hcursor, hwidth, hcapacity⟩ := hvalid demand cursor width hstate
    rw [Pattern.cursor, hstate] at hnext
    cases hnext
    dsimp only
    rw [ensure_true hfile.symm, ok_bind]
    split
    · exact ⟨pattern, rfl, hvalid⟩
    split
    · refine ⟨_, rfl, fun _ _ _ h ↦ ?_⟩
      cases h
      refine ⟨hlt, hcursor, le_min (le_min ?_ (by decide)) (hwidth.trans hcapacity), min_le_right _ _⟩
      exact hwidth.trans (Nat.le_mul_of_pos_right width zero_lt_two)
    · obtain ⟨after, hafter, hvalid', -⟩ :=
        observe_spec hvalid (Nat.lt_of_lt_of_le hwidth hcapacity) page
      exact ⟨after, hafter, hvalid'⟩

theorem cursor_eq_some (h : pattern.cursor = some page) :
    ∃ demand next width, pattern.state = .streaming demand next width ∧ page = ⟨demand.file, next⟩ := by
  unfold cursor at h
  split at h
  · cases h
    exact ⟨_, _, _, ‹_›, rfl⟩
  · cases h

/-- The page at the cursor can be issued, and is behind the cursor afterwards. -/
theorem issued_spec (hvalid : pattern.Valid capacity) (hcursor : pattern.cursor = some page) :
    ∃ after, pattern.issued page = .ok after ∧ after.Valid capacity ∧ pattern.Advances after ∧
      after.Passed pattern.incarnation page := by
  obtain ⟨demand, next, width, hstate, rfl⟩ := cursor_eq_some hcursor
  obtain ⟨hdemand, -, hwidth⟩ := hvalid demand next width hstate
  rw [issued, hstate]
  dsimp only
  rw [ensure_true rfl, ok_bind]
  cases hsucc : checkedSucc next with
  | none =>
    refine ⟨_, rfl, .of_cursor_none rfl, (reset_steady _).advances, Nat.le_succ _, fun hsame ↦ ?_⟩
    exact absurd hsame.symm (Nat.succ_ne_self _)
  | some succ =>
    obtain ⟨rfl, hmax⟩ := checkedSucc_eq_some hsucc
    refine ⟨_, rfl, fun _ _ _ h ↦ ?_, ⟨le_rfl, fun _ page hpage ↦ ?_⟩, le_rfl, fun _ ↦ ?_⟩
    · cases h
      exact ⟨hdemand.trans (Nat.lt_succ_self _), hmax, hwidth⟩
    · rw [hcursor] at hpage
      cases hpage
      exact ⟨_, rfl, rfl, Nat.le_succ _⟩
    · exact ⟨_, rfl, rfl, Nat.lt_succ_self _⟩

/-- A window starts at the cursor and stays within the horizon. -/
theorem window_eq_some {reader vectorWidth count : ℕ} {source : Source}
    (h : pattern.window reader vectorWidth = some (page, source, count)) :
    source = .automatic reader pattern.incarnation ∧ pattern.cursor = some page ∧
      ∃ demand next width, pattern.state = .streaming demand next width ∧
        count = min width vectorWidth ∧
        next ≤ saturatingAdd demand.granuleIdx width ∧
        next + count ≤ saturatingAdd demand.granuleIdx width + 1 := by
  unfold window request at h
  cases hstate : pattern.state with
  | empty => simp [hstate] at h
  | following last run => simp [hstate] at h
  | streaming demand next width =>
    by_cases hbeyond : saturatingAdd demand.granuleIdx width < next
    · simp only [hstate, if_pos hbeyond] at h
      cases h
    · simp only [hstate, if_neg hbeyond] at h
      split at h
      · cases h
      · rename_i heligible
        cases h
        refine ⟨rfl, by rw [cursor, hstate], demand, next, width, rfl, rfl, not_lt.mp hbeyond, ?_⟩
        omega

end Pattern

namespace Ledger

variable {G : PrefetchGeometry} {ledger middle after : Ledger} {members : List ℕ}

/-- Upkeep leaves the streams alone, and at most the credit `added` is new. -/
structure Tends (added : Option (Source × PageId)) (before after : Ledger) : Prop where
  patterns : after.patterns = before.patterns
  ready : after.ready = before.ready
  feedback : after.feedback ⊆ before.feedback
  entries : ∀ index entry, after.entries index = some entry →
    (∃ old, before.entries index = some old ∧ old.source = entry.source ∧ old.page = entry.page) ∨
      added = some (entry.source, entry.page)

/-- The ready queue lists the readers whose patterns ask for a window. -/
structure Ready (G : PrefetchGeometry) (ledger : Ledger) (members : List ℕ) : Prop where
  lists : ledger.ready.Lists members
  mem_iff : ∀ reader, reader ∈ members ↔
    ((ledger.patterns reader).window reader G.automaticWidth).isSome

/-- A reader gets a new pattern. -/
structure Redirects (G : PrefetchGeometry) (reader : ℕ) (pattern : Pattern) (before after : Ledger) :
    Prop where
  patterns : after.patterns = Function.update before.patterns reader pattern
  feedback : after.feedback ⊆ before.feedback
  entries : ∀ index entry, after.entries index = some entry →
    ∃ old, before.entries index = some old ∧ old.source = entry.source ∧ old.page = entry.page
  ready : ∀ members, before.Ready G members →
    after.Ready G (requeue members reader (pattern.window reader G.automaticWidth).isSome)

theorem Relinks.entry (h : ledger.Relinks after) {index : ℕ} {entry : PrefetchEntry}
    (hentry : after.entries index = some entry) :
    ∃ old, ledger.entries index = some old ∧ old.source = entry.source ∧ old.page = entry.page := by
  obtain ⟨old, hold, hsame⟩ := h.credit_eq hentry
  have hsource : old.credit.source = entry.credit.source := by rw [hsame]
  have hpage : old.credit.page = entry.credit.page := by rw [hsame]
  exact ⟨old, hold, hsource, hpage⟩

theorem Rewires.tends (h : ledger.Rewires after) : ledger.Tends none after :=
  ⟨h.patterns, h.ready, h.feedback ▸ List.Subset.refl _, fun _ _ hentry ↦ .inl (h.relinks.entry hentry)⟩

/-- The ready queue follows what a reader asks for, and fails no expectation. -/
theorem refreshReady_eq (hlists : ledger.ready.Lists members) (reader : ℕ) :
    ∃ ready, ledger.refreshReady G reader = .ok { ledger with ready } ∧
      ready.Lists (requeue members reader
        ((ledger.patterns reader).window reader G.automaticWidth).isSome) := by
  unfold refreshReady requeue
  split
  · obtain ⟨ready, hpush, hready⟩ := hlists.push reader
    exact ⟨ready, by rw [hpush]; rfl, hready⟩
  · obtain ⟨ready, hremove, hready⟩ := hlists.remove reader
    exact ⟨ready, by rw [hremove]; rfl, hready⟩

theorem refreshReady_eq_ok {reader : ℕ} (h : ledger.refreshReady G reader = .ok after) :
    ∃ ready, after = { ledger with ready } := by
  unfold refreshReady at h
  split at h
  all_goals
    simp only [bind_eq_ok, pure_ok, Except.ok.injEq] at h
    obtain ⟨ready, -, rfl⟩ := h
    exact ⟨ready, rfl⟩

theorem setPattern_redirects {reader : ℕ} {pattern : Pattern}
    (h : ledger.setPattern G reader pattern = .ok after) :
    ledger.Redirects G reader pattern after := by
  have hrelinks := patternChanged_relinks h
  obtain ⟨middle, hrewires, hrefresh⟩ := patternChanged_eq_ok h
  have hpatterns : middle.patterns = Function.update ledger.patterns reader pattern :=
    hrewires.patterns
  have hqueue : middle.ready = ledger.ready := hrewires.ready
  obtain ⟨ready, rfl⟩ := refreshReady_eq_ok hrefresh
  refine ⟨hpatterns, hrewires.tends.feedback, fun _ _ hentry ↦ hrelinks.entry hentry,
    fun members hready ↦ ?_⟩
  obtain ⟨ready', hrefresh', hlists⟩ := refreshReady_eq (hqueue ▸ hready.lists) reader
  have hafter : ready = ready' :=
    congrArg Ledger.ready (Except.ok.inj (hrefresh.symm.trans hrefresh'))
  have hself : middle.patterns reader = pattern := by rw [hpatterns, Function.update_self]
  rw [hself, ← hafter] at hlists
  refine ⟨hlists, fun other ↦ ?_⟩
  rw [mem_requeue hready.lists.nodup]
  dsimp only
  split
  · rw [‹other = reader›, hself]
  · rw [hready.mem_iff, hpatterns, Function.update_of_ne ‹_›]

theorem resetReader_redirects {reader : ℕ} (h : ledger.resetReader G reader = .ok after) :
    after = ledger ∨ ledger.Redirects G reader (ledger.patterns reader).reset after := by
  unfold resetReader at h
  split at h
  · exact .inr (setPattern_redirects h)
  · cases h
    exact .inl rfl

/-- A turn puts its reader at the end of the queue, or takes it out. -/
theorem advanceTurn_eq_ok {reader : ℕ} (hready : ledger.Ready G members)
    (h : ledger.advanceTurn G reader = .ok after) :
    ∃ ready, after = { ledger with ready } ∧
      after.Ready G (requeue (members.erase reader) reader
        ((ledger.patterns reader).window reader G.automaticWidth).isSome) := by
  obtain ⟨removed, hremove, hremoved⟩ := hready.lists.remove reader
  obtain ⟨ready, hrefresh, hlists⟩ :=
    @refreshReady_eq G { ledger with ready := removed } _ hremoved reader
  rw [advanceTurn, hremove, ok_bind, hrefresh] at h
  cases h
  refine ⟨ready, rfl, hlists, fun other ↦ ?_⟩
  rw [mem_requeue hremoved.nodup, hready.lists.nodup.mem_erase_iff, hready.mem_iff]
  grind

/-- A credit begins, whatever the lists of the streams. -/
theorem Tends.insert {index : ℕ} {entry : PrefetchEntry} {source : Source} {page : PageId}
    (h : ledger.Rewires middle)
    (hentries : after.entries = Function.update middle.entries index (some entry))
    (hsource : entry.source = source) (hpage : entry.page = page)
    (hpatterns : after.patterns = middle.patterns) (hready : after.ready = middle.ready)
    (hfeedback : after.feedback = middle.feedback) : ledger.Tends (some (source, page)) after := by
  refine ⟨hpatterns.trans h.patterns, hready.trans h.ready, hfeedback ▸ h.tends.feedback,
    fun other found hfound ↦ ?_⟩
  rw [hentries] at hfound
  by_cases hother : other = index
  · rw [hother, Function.update_self] at hfound
    cases hfound
    rw [hsource, hpage]
    exact .inr rfl
  · rw [Function.update_of_ne hother] at hfound
    exact .inl (h.relinks.entry hfound)

theorem admitEntry_tends {page : PageId} {frame : ℕ} {source : Source}
    (h : ledger.admitEntry G page frame source = .ok after) :
    ledger.Tends (some (source, page)) after := by
  simp only [admitEntry, bind_eq_ok, ensure_eq_ok, expect_eq_ok] at h
  obtain ⟨_, -, _, -, _, -, index, -, _, -, _, -, h⟩ := h
  cases source with
  | explicit =>
    cases h
    exact .insert (.refl _) rfl rfl rfl rfl rfl rfl
  | automatic reader incarnation =>
    cases hnext : ledger.readerEntries reader with
    | none =>
      simp only [hnext] at h
      cases h
      exact .insert (.refl _) rfl rfl rfl rfl rfl rfl
    | some next =>
      simp only [hnext, bind_eq_ok] at h
      obtain ⟨linked, hlinked, h⟩ := h
      cases h
      obtain ⟨hstamp, -, hpatterns, hready, hfeedback, hcredits⟩ := relinkEntry_rewires hlinked
      have hlinks : ledger.Rewires { linked with frameEntries := ledger.frameEntries } :=
        ⟨hstamp, rfl, hpatterns, hready, hfeedback, hcredits⟩
      exact .insert hlinks rfl rfl rfl rfl rfl rfl

theorem finishIndexUnlink_tends {index : ℕ} {entry : PrefetchEntry}
    (h : ledger.finishIndexUnlink index = .ok (entry, after)) :
    ledger.entries index = some entry ∧ ledger.Tends none after := by
  simp only [finishIndexUnlink, bind_eq_ok, expect_eq_ok, ensure_eq_ok, pure_ok, Except.ok.injEq,
    Prod.mk.injEq] at h
  obtain ⟨found, hfound, middle, hunlink, cleanup, -, waiting, -, _, -, rfl, rfl⟩ := h
  refine ⟨hfound, ?_⟩
  have hrewires := finishIndexUnlinkReader_rewires hunlink
  refine ⟨hrewires.patterns, hrewires.ready, hrewires.tends.feedback,
    fun other credit hcredit ↦ .inl ?_⟩
  obtain ⟨old, hold, hsame⟩ := hrewires.relinks.entry hcredit
  dsimp only at hold
  by_cases hother : other = index
  · rw [hother, Function.update_self] at hold
    cases hold
  · rw [Function.update_of_ne hother] at hold
    exact ⟨old, hold, hsame⟩

/-- The stream of a credit hears of its promotion, or ends with it. -/
theorem finishIndexFeedback_eq_ok {entry : PrefetchEntry} {terminal : Terminal}
    (h : ledger.finishIndexFeedback G entry terminal = .ok after) :
    after = ledger ∨
      (∃ reader incarnation, entry.source = .automatic reader incarnation ∧
        after = { ledger with
          feedback := ledger.feedback ++ [⟨reader, incarnation, entry.page⟩] }) ∨
      ∃ reader, ledger.Redirects G reader (ledger.patterns reader).reset after := by
  unfold finishIndexFeedback at h
  split at h
  · cases h
    exact .inl rfl
  · split at h
    · simp only [bind_eq_ok, pure_ok, Except.ok.injEq] at h
      obtain ⟨_, -, rfl⟩ := h
      exact .inr (.inl ⟨_, _, ‹_›, rfl⟩)
    · cases h
      exact .inl rfl
  · split at h
    · exact (resetReader_redirects h).imp_right fun hreset ↦ .inr ⟨_, hreset⟩
    · cases h
      exact .inl rfl

theorem finishIndexCount_eq_ok {entry : PrefetchEntry} {outcome : Speculation} {terminal : Terminal}
    (h : ledger.finishIndexCount G entry outcome terminal = .ok after) :
    ∃ stats terminal,
      ({ ledger with stats } : Ledger).finishIndexFeedback G entry terminal = .ok after := by
  simp only [finishIndexCount, bind_eq_ok, ensure_eq_ok, pure_ok, Except.ok.injEq] at h
  obtain ⟨_, -, occupied, -, middle, hmiddle, _, -, rfl⟩ := h
  exact ⟨_, _, hmiddle⟩

end Ledger

end DiosPool.Pool
