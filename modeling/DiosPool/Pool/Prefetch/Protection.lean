import DiosPool.Foundation.Guarantee
import DiosPool.Pool.Prefetch.Ledger

/-!
# Protected credits and steady streams

A window that a caller asks for protects its credits from replacement by its stamp. Whatever the
ledger does until the next window, a credit without the stamp was there before, for the same frame.
A stream does not move on either, unless its next page is issued or demand observed: feedback may
end it, and widen it, but leaves its cursor where it is.
-/

namespace DiosPool.Pool

open Foundation

/-- An entry apart from its place in the list of its stream. -/
def PrefetchEntry.credit (entry : PrefetchEntry) : PrefetchEntry := { entry with membership := none }

namespace Pattern

/-- The next page of a stream. -/
def cursor (pattern : Pattern) : Option PageId :=
  match pattern.state with
  | .streaming demand next _ => some ⟨demand.file, next⟩
  | _ => none

/-- A pattern is as far as it was, or has begun anew. -/
structure Steady (before after : Pattern) : Prop where
  incarnation : before.incarnation ≤ after.incarnation
  cursor : after.incarnation = before.incarnation → after.cursor = before.cursor

variable {pattern middle after : Pattern}

theorem Steady.refl (pattern : Pattern) : pattern.Steady pattern := ⟨le_rfl, fun _ ↦ rfl⟩

theorem Steady.trans (h : pattern.Steady middle) (h' : middle.Steady after) :
    pattern.Steady after := by
  refine ⟨h.incarnation.trans h'.incarnation, fun hsame ↦ ?_⟩
  have hmiddle : middle.incarnation = pattern.incarnation :=
    le_antisymm (hsame ▸ h'.incarnation) h.incarnation
  exact (h'.cursor (hsame.trans hmiddle.symm)).trans (h.cursor hmiddle)

/-- A new incarnation owes nothing to the old one. -/
theorem Steady.renew (h : after.incarnation = pattern.incarnation + 1) : pattern.Steady after := by
  refine ⟨h ▸ Nat.le_succ _, fun hsame ↦ ?_⟩
  rw [h] at hsame
  exact absurd hsame (Nat.succ_ne_self _)

theorem reset_steady (pattern : Pattern) : pattern.Steady pattern.reset := .renew rfl

/-- Consumption moves the demand of a stream, not its cursor. -/
theorem promoted_steady {page : PageId} {incarnation capacity : ℕ}
    (h : pattern.promoted page incarnation capacity = .ok after) : pattern.Steady after := by
  unfold promoted at h
  split at h
  · cases h
    exact .refl _
  cases hstate : pattern.state with
  | empty =>
    rw [hstate] at h
    cases h
    exact .refl _
  | following last run =>
    rw [hstate] at h
    cases h
    exact .refl _
  | streaming demand next width =>
    simp only [hstate, bind_eq_ok, ensure_eq_ok] at h
    obtain ⟨_, hfile, h⟩ := h
    have hcursor : pattern.cursor = some ⟨demand.file, next⟩ := by rw [cursor, hstate]
    split at h
    · cases h
      exact .refl _
    rename_i hlater
    split at h
    · cases h
      refine ⟨le_rfl, fun _ ↦ ?_⟩
      rw [hcursor, hfile]
      rfl
    · rename_i hsucc
      have hlast : pattern.last = some demand := by rw [last, hstate]
      have hne : pattern.last ≠ some page := by
        rw [hlast]
        rintro hsame
        cases hsame
        exact hlater le_rfl
      have hfollows : follows demand page = false := by
        simp only [follows, Bool.and_eq_false_iff, beq_eq_false_iff_ne, ne_eq]
        exact .inr hsucc
      simp only [observe, bind_eq_ok, ensure_eq_ok, if_neg hne] at h
      obtain ⟨_, -, h⟩ := h
      simp only [hlast, Option.any_some, hfollows, Bool.false_eq_true, if_false] at h
      cases h
      exact .renew rfl

/-- A stream issues the page at its cursor, and ends behind the last page of a file. -/
theorem issued_eq_ok {issued : Pattern} {page : PageId}
    (h : pattern.issued page = .ok issued) :
    pattern.cursor = some page ∧
      (issued.incarnation = pattern.incarnation ∧
          issued.cursor = some ⟨page.file, page.granuleIdx + 1⟩ ∨
        issued.incarnation = pattern.incarnation + 1) := by
  unfold Pattern.issued at h
  cases hstate : pattern.state with
  | empty =>
    rw [hstate] at h
    cases h
  | following last run =>
    rw [hstate] at h
    cases h
  | streaming demand next width =>
    simp only [hstate, bind_eq_ok, ensure_eq_ok] at h
    obtain ⟨_, rfl, h⟩ := h
    refine ⟨by rw [cursor, hstate], ?_⟩
    cases hsucc : checkedSucc next with
    | none =>
      rw [hsucc] at h
      cases h
      exact .inr rfl
    | some succ =>
      rw [hsucc] at h
      cases h
      refine .inl ⟨rfl, ?_⟩
      unfold checkedSucc at hsucc
      split at hsucc
      · cases hsucc
        rfl
      · cases hsucc

end Pattern

namespace Ledger

/-- Credits that the current window does not protect are not new. -/
structure Protects (before after : Ledger) : Prop where
  stamp : after.stamp = before.stamp
  entries : ∀ index entry, after.entries index = some entry → entry.protectedAt ≠ after.stamp →
    ∃ old, before.entries index = some old ∧ old.frame = entry.frame ∧
      old.protectedAt = entry.protectedAt

/-- The frame of every credit names it. -/
def Indexed (ledger : Ledger) : Prop :=
  ∀ index entry, ledger.entries index = some entry → ledger.frameEntries entry.frame = some index

/-- Credits and streams stay as they are, only lists change. -/
structure Relinks (before after : Ledger) : Prop where
  stamp : after.stamp = before.stamp
  frames : after.frameEntries = before.frameEntries
  steady : ∀ reader, (before.patterns reader).Steady (after.patterns reader)
  credits : ∀ index, (after.entries index).map PrefetchEntry.credit =
    (before.entries index).map PrefetchEntry.credit

/-- Only the lists of the streams and the queues of their members change. -/
structure Rewires (before after : Ledger) : Prop where
  stamp : after.stamp = before.stamp
  frames : after.frameEntries = before.frameEntries
  patterns : after.patterns = before.patterns
  ready : after.ready = before.ready
  feedback : after.feedback = before.feedback
  credits : ∀ index, (after.entries index).map PrefetchEntry.credit =
    (before.entries index).map PrefetchEntry.credit

/-- What the ledger does to its credits and streams within a window. -/
structure Evolves (before after : Ledger) : Prop where
  protects : before.Protects after
  steady : ∀ reader, (before.patterns reader).Steady (after.patterns reader)
  indexed : before.Indexed → after.Indexed

variable {ledger middle after : Ledger}

theorem Protects.trans (h : ledger.Protects middle) (h' : middle.Protects after) :
    ledger.Protects after := by
  refine ⟨h'.stamp.trans h.stamp, fun index entry hentry hprotected ↦ ?_⟩
  obtain ⟨old, hold, hframe, hstamp⟩ := h'.entries index entry hentry hprotected
  rw [h'.stamp, ← hstamp] at hprotected
  obtain ⟨older, holder, hframe', hstamp'⟩ := h.entries index old hold hprotected
  exact ⟨older, holder, hframe'.trans hframe, hstamp'.trans hstamp⟩

theorem steady_of_eq (hpatterns : after.patterns = ledger.patterns) (reader : ℕ) :
    (ledger.patterns reader).Steady (after.patterns reader) := by
  rw [hpatterns]
  exact .refl _

theorem Relinks.of_eq (hstamp : after.stamp = ledger.stamp)
    (hframes : after.frameEntries = ledger.frameEntries) (hentries : after.entries = ledger.entries)
    (hpatterns : after.patterns = ledger.patterns) : ledger.Relinks after :=
  ⟨hstamp, hframes, steady_of_eq hpatterns, fun index ↦ by rw [hentries]⟩

theorem Relinks.refl (ledger : Ledger) : ledger.Relinks ledger := .of_eq rfl rfl rfl rfl

theorem Relinks.trans (h : ledger.Relinks middle) (h' : middle.Relinks after) :
    ledger.Relinks after :=
  ⟨h'.stamp.trans h.stamp, h'.frames.trans h.frames,
    fun reader ↦ (h.steady reader).trans (h'.steady reader),
    fun index ↦ (h'.credits index).trans (h.credits index)⟩

theorem Rewires.relinks (h : ledger.Rewires after) : ledger.Relinks after :=
  ⟨h.stamp, h.frames, steady_of_eq h.patterns, h.credits⟩

theorem Rewires.refl (ledger : Ledger) : ledger.Rewires ledger := ⟨rfl, rfl, rfl, rfl, rfl, fun _ ↦ rfl⟩

theorem Rewires.trans (h : ledger.Rewires middle) (h' : middle.Rewires after) :
    ledger.Rewires after :=
  ⟨h'.stamp.trans h.stamp, h'.frames.trans h.frames, h'.patterns.trans h.patterns,
    h'.ready.trans h.ready, h'.feedback.trans h.feedback,
    fun index ↦ (h'.credits index).trans (h.credits index)⟩

/-- The same, seen from a credit that is there afterwards. -/
theorem Relinks.credit_eq (h : ledger.Relinks after) {index : ℕ} {entry : PrefetchEntry}
    (hentry : after.entries index = some entry) :
    ∃ old, ledger.entries index = some old ∧ old.credit = entry.credit := by
  have hcredit := h.credits index
  rw [hentry, Option.map_some] at hcredit
  exact Option.map_eq_some_iff.mp hcredit.symm

theorem Relinks.credit (h : ledger.Relinks after) {index : ℕ} {entry : PrefetchEntry}
    (hentry : after.entries index = some entry) :
    ∃ old, ledger.entries index = some old ∧ old.frame = entry.frame ∧
      old.protectedAt = entry.protectedAt := by
  obtain ⟨old, hold, hsame⟩ := h.credit_eq hentry
  have hframe : old.credit.frame = entry.credit.frame := by rw [hsame]
  have hstamp : old.credit.protectedAt = entry.credit.protectedAt := by rw [hsame]
  exact ⟨old, hold, hframe, hstamp⟩

theorem Relinks.evolves (h : ledger.Relinks after) : ledger.Evolves after := by
  refine ⟨⟨h.stamp, fun index entry hentry _ ↦ h.credit hentry⟩, h.steady,
    fun hindexed index entry hentry ↦ ?_⟩
  obtain ⟨old, hold, hframe, -⟩ := h.credit hentry
  rw [h.frames, ← hframe]
  exact hindexed index old hold

theorem Evolves.of_eq (hstamp : after.stamp = ledger.stamp)
    (hframes : after.frameEntries = ledger.frameEntries) (hentries : after.entries = ledger.entries)
    (hpatterns : after.patterns = ledger.patterns) : ledger.Evolves after :=
  (Relinks.of_eq hstamp hframes hentries hpatterns).evolves

theorem Evolves.refl (ledger : Ledger) : ledger.Evolves ledger := (Relinks.refl ledger).evolves

theorem Evolves.trans (h : ledger.Evolves middle) (h' : middle.Evolves after) :
    ledger.Evolves after :=
  ⟨h.protects.trans h'.protects, fun reader ↦ (h.steady reader).trans (h'.steady reader),
    fun hindexed ↦ h'.indexed (h.indexed hindexed)⟩

/-! ## Lists -/

/-- The place of a credit in the list of its stream changes. -/
theorem Rewires.update {index : ℕ} {entry : PrefetchEntry} (hentry : ledger.entries index = some entry)
    (membership : Option Links) :
    ledger.Rewires { ledger with
      entries := Function.update ledger.entries index (some { entry with membership }) } := by
  refine ⟨rfl, rfl, rfl, rfl, rfl, fun other ↦ ?_⟩
  dsimp only
  by_cases hother : other = index
  · subst hother
    rw [Function.update_self, hentry]
    rfl
  · rw [Function.update_of_ne hother]

theorem relinkEntry_rewires {index : ℕ} {message : String} {change : Links → Links}
    (h : ledger.relinkEntry index message change = .ok after) : ledger.Rewires after := by
  simp only [relinkEntry, bind_eq_ok, expect_eq_ok, pure_ok, Except.ok.injEq] at h
  obtain ⟨entry, hentry, links, -, rfl⟩ := h
  exact .update hentry _

variable {G : PrefetchGeometry}

theorem refreshReady_relinks {reader : ℕ} (h : ledger.refreshReady G reader = .ok after) :
    ledger.Relinks after := by
  unfold refreshReady at h
  split at h
  all_goals
    simp only [bind_eq_ok, pure_ok, Except.ok.injEq] at h
    obtain ⟨ready, -, rfl⟩ := h
    exact .of_eq rfl rfl rfl rfl

theorem invalidateFrom_rewires (fuel : ℕ) :
    ∀ {next : Option ℕ} {ledger : Ledger}, invalidateFrom fuel next ledger = .ok after →
      ledger.Rewires after := by
  induction fuel with
  | zero =>
    intro next ledger h
    simp only [invalidateFrom, bind_eq_ok, pure_ok, Except.ok.injEq] at h
    obtain ⟨_, -, rfl⟩ := h
    exact .refl _
  | succ fuel ih =>
    intro next ledger h
    cases next with
    | none =>
      cases h
      exact .refl _
    | some index =>
      simp only [invalidateFrom, bind_eq_ok, expect_eq_ok] at h
      obtain ⟨entry, hentry, links, -, cleanup, -, h⟩ := h
      refine Rewires.trans ?_ (ih h)
      exact ⟨rfl, rfl, rfl, rfl, rfl, (Rewires.update hentry none).credits⟩

theorem patternChanged_eq_ok {reader before : ℕ}
    (h : ledger.patternChanged G reader before = .ok after) :
    ∃ middle, ledger.Rewires middle ∧ middle.refreshReady G reader = .ok after := by
  unfold patternChanged at h
  split at h
  · exact ⟨ledger, .refl _, h⟩
  · simp only [invalidateReader, bind_eq_ok] at h
    obtain ⟨middle, hmiddle, h⟩ := h
    obtain ⟨hstamp, hframes, hpatterns, hready, hfeedback, hcredits⟩ :=
      invalidateFrom_rewires G.capacity hmiddle
    exact ⟨middle, ⟨hstamp, hframes, hpatterns, hready, hfeedback, hcredits⟩, h⟩

theorem patternChanged_relinks {reader before : ℕ}
    (h : ledger.patternChanged G reader before = .ok after) : ledger.Relinks after := by
  obtain ⟨middle, hmiddle, h⟩ := patternChanged_eq_ok h
  exact hmiddle.relinks.trans (refreshReady_relinks h)

theorem setPattern_relinks {reader : ℕ} {pattern : Pattern}
    (hsteady : (ledger.patterns reader).Steady pattern)
    (h : ledger.setPattern G reader pattern = .ok after) : ledger.Relinks after := by
  have hset : ledger.Relinks { ledger with
      patterns := Function.update ledger.patterns reader pattern } := by
    refine ⟨rfl, rfl, fun other ↦ ?_, fun _ ↦ rfl⟩
    dsimp only
    by_cases hother : other = reader
    · subst hother
      rw [Function.update_self]
      exact hsteady
    · rw [Function.update_of_ne hother]
      exact .refl _
  exact hset.trans (patternChanged_relinks h)

/-- A new pattern of any kind leaves the credits as they are. -/
theorem setPattern_indexed {reader : ℕ} {pattern : Pattern}
    (h : ledger.setPattern G reader pattern = .ok after) (hindexed : ledger.Indexed) :
    after.Indexed :=
  (patternChanged_relinks h).evolves.indexed hindexed

theorem resetReader_relinks {reader : ℕ} (h : ledger.resetReader G reader = .ok after) :
    ledger.Relinks after := by
  unfold resetReader at h
  split at h
  · exact setPattern_relinks (Pattern.reset_steady _) h
  · cases h
    exact .refl _

theorem advanceTurn_relinks {reader : ℕ} (h : ledger.advanceTurn G reader = .ok after) :
    ledger.Relinks after := by
  simp only [advanceTurn, bind_eq_ok] at h
  obtain ⟨ready, -, h⟩ := h
  refine Relinks.trans ?_ (refreshReady_relinks h)
  exact .of_eq rfl rfl rfl rfl

theorem flushFeedback_relinks (h : ledger.flushFeedback G = .ok after) : ledger.Relinks after := by
  have hfold : ∀ (records : List Feedback) {ledger after : Ledger},
      records.foldlM (fun ledger record ↦ do
        let pattern ←
          (ledger.patterns record.reader).promoted record.page record.incarnation G.capacity
        ledger.setPattern G record.reader pattern) ledger = .ok after → ledger.Relinks after := by
    intro records
    induction records with
    | nil =>
      intro ledger after h
      cases h
      exact .refl _
    | cons record records ih =>
      intro ledger after h
      simp only [List.foldlM_cons, bind_eq_ok] at h
      obtain ⟨middle, ⟨pattern, hpattern, hmiddle⟩, h⟩ := h
      exact (setPattern_relinks (Pattern.promoted_steady hpattern) hmiddle).trans (ih h)
  simp only [flushFeedback, bind_eq_ok, pure_ok, Except.ok.injEq] at h
  obtain ⟨middle, hmiddle, rfl⟩ := h
  exact (hfold _ hmiddle).trans (.of_eq rfl rfl rfl rfl)

/-! ## Credits -/

theorem protect_evolves {frame : ℕ} (h : ledger.protect frame = .ok after) : ledger.Evolves after := by
  unfold protect at h
  cases hindex : ledger.frameEntries frame with
  | none =>
    rw [hindex] at h
    cases h
    exact .refl _
  | some index =>
    simp only [hindex, bind_eq_ok, expect_eq_ok, pure_ok, Except.ok.injEq] at h
    obtain ⟨entry, hentry, rfl⟩ := h
    refine ⟨⟨rfl, fun other found hfound hprotected ↦ ?_⟩, steady_of_eq rfl,
      fun hindexed other found hfound ↦ ?_⟩
    · dsimp only at hfound hprotected
      by_cases hother : other = index
      · subst hother
        rw [Function.update_self] at hfound
        cases hfound
        exact absurd rfl hprotected
      · rw [Function.update_of_ne hother] at hfound
        exact ⟨found, hfound, rfl, rfl⟩
    · dsimp only at hfound
      by_cases hother : other = index
      · subst hother
        rw [Function.update_self] at hfound
        cases hfound
        exact hindexed other entry hentry
      · rw [Function.update_of_ne hother] at hfound
        exact hindexed other found hfound

/-- A credit begins for a frame that had none. -/
theorem Evolves.insert {index frame : ℕ} {entry : PrefetchEntry}
    (h : ledger.Relinks middle)
    (hframe : ledger.frameEntries frame = none) (hentry : entry.frame = frame)
    (hstamp : entry.protectedAt = ledger.stamp)
    (hentries : after.entries = Function.update middle.entries index (some entry))
    (hframes : after.frameEntries = Function.update middle.frameEntries frame (some index))
    (hafter : after.stamp = middle.stamp) (hpatterns : after.patterns = middle.patterns) :
    ledger.Evolves after := by
  have hold : ∀ other found, after.entries other = some found → other ≠ index →
      ∃ old, ledger.entries other = some old ∧ old.frame = found.frame ∧
        old.protectedAt = found.protectedAt := by
    intro other found hfound hother
    rw [hentries, Function.update_of_ne hother] at hfound
    exact h.credit hfound
  refine ⟨⟨hafter.trans h.stamp, fun other found hfound hprotected ↦ ?_⟩,
    fun reader ↦ (h.steady reader).trans (steady_of_eq hpatterns reader),
    fun hindexed other found hfound ↦ ?_⟩
  · by_cases hother : other = index
    · rw [hentries, hother, Function.update_self] at hfound
      cases hfound
      exact absurd (hstamp.trans (hafter.trans h.stamp).symm) hprotected
    · exact hold other found hfound hother
  · by_cases hother : other = index
    · rw [hentries, hother, Function.update_self] at hfound
      cases hfound
      rw [hframes, hentry, Function.update_self, hother]
    · obtain ⟨old, hprevious, hsame, -⟩ := hold other found hfound hother
      have hnamed := hindexed other old hprevious
      have hne : found.frame ≠ frame := by
        intro heq
        rw [hsame, heq, hframe] at hnamed
        cases hnamed
      rw [hframes, Function.update_of_ne hne, h.frames, ← hsame]
      exact hnamed

theorem admitEntry_evolves {page : PageId} {frame : ℕ} {source : Source}
    (h : ledger.admitEntry G page frame source = .ok after) : ledger.Evolves after := by
  simp only [admitEntry, bind_eq_ok, ensure_eq_ok, expect_eq_ok] at h
  obtain ⟨_, -, _, -, _, -, index, -, _, -, _, hframe, h⟩ := h
  have hframe : ledger.frameEntries frame = none := by simpa using hframe
  cases source with
  | explicit =>
    cases h
    exact .insert (.refl _) hframe rfl rfl rfl rfl rfl rfl
  | automatic reader incarnation =>
    cases hnext : ledger.readerEntries reader with
    | none =>
      simp only [hnext] at h
      cases h
      exact .insert (.refl _) hframe rfl rfl rfl rfl rfl rfl
    | some next =>
      simp only [hnext, bind_eq_ok] at h
      obtain ⟨linked, hlinked, h⟩ := h
      cases h
      have hrelinked := (relinkEntry_rewires hlinked).relinks
      have hrelinks : ledger.Relinks { linked with frameEntries := ledger.frameEntries } :=
        ⟨hrelinked.stamp, rfl, hrelinked.steady, hrelinked.credits⟩
      refine .insert hrelinks hframe rfl hrelinked.stamp rfl ?_ rfl rfl
      exact hrelinked.frames

theorem admitCount_relinks {source : Source} (h : ledger.admitCount G source = .ok after) :
    ledger.Relinks after := by
  simp only [admitCount, bind_eq_ok, ensure_eq_ok, pure_ok, Except.ok.injEq] at h
  obtain ⟨_, -, rfl⟩ := h
  exact .of_eq rfl rfl rfl rfl

theorem finishIndexUnlinkReader_rewires {index : ℕ} {entry : PrefetchEntry}
    (h : ledger.finishIndexUnlinkReader index entry = .ok after) : ledger.Rewires after := by
  unfold finishIndexUnlinkReader at h
  split at h
  · cases h
    exact .refl _
  · cases h
  · split at h
    all_goals
      split at h
      all_goals
        simp only [bind_eq_ok, pure_ok, Except.ok.injEq] at h
    · obtain ⟨middle, hmiddle, h⟩ := h
      exact (relinkEntry_rewires hmiddle).trans (relinkEntry_rewires h)
    · obtain ⟨_, -, middle, rfl, h⟩ := h
      refine Rewires.trans ?_ (relinkEntry_rewires h)
      exact ⟨rfl, rfl, rfl, rfl, rfl, fun _ ↦ rfl⟩
    · obtain ⟨middle, hmiddle, rfl⟩ := h
      exact relinkEntry_rewires hmiddle
    · obtain ⟨_, -, middle, rfl, rfl⟩ := h
      exact ⟨rfl, rfl, rfl, rfl, rfl, fun _ ↦ rfl⟩

/-- A credit ends, and its frame has none. -/
theorem finishIndexUnlink_evolves {index : ℕ} {entry : PrefetchEntry}
    (h : ledger.finishIndexUnlink index = .ok (entry, after)) : ledger.Evolves after := by
  simp only [finishIndexUnlink, bind_eq_ok, expect_eq_ok, ensure_eq_ok, pure_ok, Except.ok.injEq,
    Prod.mk.injEq] at h
  obtain ⟨found, hfound, middle, hunlink, cleanup, -, waiting, -, _, hnamed, rfl, rfl⟩ := h
  have hrelinked := (finishIndexUnlinkReader_rewires hunlink).relinks
  have hold : ∀ other credit, middle.entries other = some credit →
      ∃ old, ledger.entries other = some old ∧ old.frame = credit.frame ∧
        old.protectedAt = credit.protectedAt ∧ other ≠ index := by
    intro other credit hcredit
    obtain ⟨old, hprevious, hframe, hstamp⟩ := hrelinked.credit hcredit
    dsimp only at hprevious
    by_cases hother : other = index
    · rw [hother, Function.update_self] at hprevious
      cases hprevious
    · rw [Function.update_of_ne hother] at hprevious
      exact ⟨old, hprevious, hframe, hstamp, hother⟩
  refine ⟨⟨hrelinked.stamp, fun other credit hcredit _ ↦ ?_⟩, hrelinked.steady,
    fun hindexed other credit hcredit ↦ ?_⟩
  · obtain ⟨old, hprevious, hframe, hstamp, -⟩ := hold other credit hcredit
    exact ⟨old, hprevious, hframe, hstamp⟩
  · obtain ⟨old, hprevious, hframe, -, hother⟩ := hold other credit hcredit
    have hkept := hindexed other old hprevious
    have hne : credit.frame ≠ found.frame := by
      intro heq
      rw [hrelinked.frames, ← heq, ← hframe, hkept, Option.some.injEq] at hnamed
      exact hother hnamed
    dsimp only
    rw [Function.update_of_ne hne, hrelinked.frames, ← hframe]
    exact hkept

theorem finishIndexFeedback_relinks {entry : PrefetchEntry} {terminal : Terminal}
    (h : ledger.finishIndexFeedback G entry terminal = .ok after) : ledger.Relinks after := by
  unfold finishIndexFeedback at h
  split at h
  · cases h
    exact .refl _
  · split at h
    · simp only [bind_eq_ok, pure_ok, Except.ok.injEq] at h
      obtain ⟨_, -, rfl⟩ := h
      exact .of_eq rfl rfl rfl rfl
    · cases h
      exact .refl _
  · split at h
    · exact resetReader_relinks h
    · cases h
      exact .refl _

theorem finishIndexCount_relinks {entry : PrefetchEntry} {outcome : Speculation}
    {terminal : Terminal} (h : ledger.finishIndexCount G entry outcome terminal = .ok after) :
    ledger.Relinks after := by
  simp only [finishIndexCount, bind_eq_ok, ensure_eq_ok, pure_ok, Except.ok.injEq] at h
  obtain ⟨_, -, occupied, -, middle, hmiddle, _, -, rfl⟩ := h
  refine Relinks.trans ?_ (finishIndexFeedback_relinks hmiddle)
  exact .of_eq rfl rfl rfl rfl

end Ledger

/-! ## Programs of the ledger -/

section Drains

variable {σ : Type} {guarantee : σ → σ → Prop}

theorem drainLoop_respects {lens : Lens σ DirtyFrames} (frames : ℕ) {visit : ℕ → ClockM σ Unit}
    (hset : ∀ dirty memory, guarantee memory (lens.set dirty memory))
    (hvisit : ∀ frame, (visit frame).Respects guarantee) (fuel : ℕ) :
    ∀ cursor visited,
      (DirtyFrames.drainLoop lens frames visit fuel cursor visited).Respects guarantee := by
  induction fuel with
  | zero => exact fun cursor visited ↦ Program.Respects.fail _
  | succ fuel ih =>
    rintro ⟨level, words, bits⟩ visited
    unfold DirtyFrames.drainLoop
    cases (bits level).first with
    | none =>
      dsimp only
      split
      · exact .done _
      · exact ih _ _
    | some bit =>
      dsimp only
      split
      · refine (Program.Respects.lift _).bind fun _ ↦ ?_
        exact (hvisit _).bind fun _ ↦ ih _ _
      · refine (Program.Respects.act fun memory read after haction ↦ ?_).bind fun child ↦ ih _ _
        cases haction
        exact hset _ memory

/-- A drain only changes the bitmap, apart from what its visits do. -/
theorem drain_respects {lens : Lens σ DirtyFrames} (frames : ℕ) {visit : ℕ → ClockM σ Unit}
    (hset : ∀ dirty memory, guarantee memory (lens.set dirty memory))
    (hvisit : ∀ frame, (visit frame).Respects guarantee) :
    (DirtyFrames.drain lens frames visit).Respects guarantee := by
  refine (Program.Respects.act fun memory read after haction ↦ ?_).bind fun bits ↦
    drainLoop_respects frames hset hvisit _ _ _
  cases haction
  exact hset _ memory

end Drains

namespace LedgerM

/-- Steps of the ledger that keep its protected credits. -/
def Evolving (memory after : Speculative) : Prop := memory.ledger.Evolves after.ledger

variable {G : PrefetchGeometry} {α : Type}

theorem Evolving.refl (memory : Speculative) : Evolving memory memory :=
  Ledger.Evolves.refl memory.ledger

theorem updateWith_evolving {change : Ledger → Except Assertion (α × Ledger)}
    (h : ∀ ledger result after, change ledger = .ok (result, after) → ledger.Evolves after) :
    (updateWith change).Respects Evolving := by
  refine Program.Respects.act fun memory read after haction ↦ ?_
  simp only [bind_eq_ok, pure_ok, Except.ok.injEq, Prod.mk.injEq] at haction
  obtain ⟨⟨result, ledger⟩, hledger, -, rfl⟩ := haction
  exact h _ _ _ hledger

theorem update_evolving {change : Ledger → Except Assertion Ledger}
    (h : ∀ ledger after, change ledger = .ok after → ledger.Evolves after) :
    (update change).Respects Evolving := by
  refine Program.Respects.act fun memory read after haction ↦ ?_
  simp only [bind_eq_ok, pure_ok, Except.ok.injEq, Prod.mk.injEq] at haction
  obtain ⟨ledger, hledger, -, rfl⟩ := haction
  exact h _ _ hledger

theorem readLedger_evolving (read : Ledger → α) : (readLedger read).Respects Evolving :=
  .load .refl _

theorem swapSpeculation_evolving (frame : ℕ) (marker : Speculation) :
    (Clock.swapSpeculation clockLens frame marker).Respects Evolving := by
  refine Program.Respects.act fun memory read after haction ↦ ?_
  cases haction
  exact .refl _

theorem beginSpeculation_evolving (frames frame : ℕ) :
    (Clock.beginSpeculation clockLens frames frame).Respects Evolving := by
  refine (Program.Respects.lift _).bind fun _ ↦ ?_
  refine (Program.Respects.load .refl _).bind fun marker ↦ ?_
  refine (Program.Respects.lift _).bind fun _ ↦ ?_
  refine (Program.Respects.store fun memory ↦ .refl _).bind fun _ ↦ ?_
  exact (swapSpeculation_evolving frame _).bind fun _ ↦ .done _

theorem takeSpeculation_evolving (frames frame : ℕ) :
    (Clock.takeSpeculation clockLens frames frame).Respects Evolving :=
  (Program.Respects.lift _).bind fun _ ↦ swapSpeculation_evolving frame _

theorem isSpeculative_evolving (frames frame : ℕ) :
    (Clock.isSpeculative clockLens frames frame).Respects Evolving :=
  (Program.Respects.lift _).bind fun _ ↦ (Program.Respects.load .refl _).bind fun _ ↦ .done _

theorem speculationConsumed_evolving (frames frame : ℕ) :
    (Clock.speculationConsumed clockLens frames frame).Respects Evolving :=
  (Program.Respects.lift _).bind fun _ ↦ (Program.Respects.load .refl _).bind fun _ ↦ .done _

theorem admitEntry_evolving (page : PageId) (frame : ℕ) (source : Source) :
    (admitEntry G page frame source).Respects Evolving := by
  refine (update_evolving fun _ _ h ↦ Ledger.admitEntry_evolves h).bind fun _ ↦ ?_
  refine (beginSpeculation_evolving G.frames frame).bind fun _ ↦ ?_
  exact update_evolving fun _ _ h ↦ (Ledger.admitCount_relinks h).evolves

theorem finishIndex_evolving (index : ℕ) (terminal : Terminal) :
    (finishIndex G index terminal).Respects Evolving := by
  refine (updateWith_evolving fun _ _ _ h ↦ Ledger.finishIndexUnlink_evolves h).bind fun entry ↦ ?_
  refine (takeSpeculation_evolving G.frames entry.frame).bind fun outcome ↦ ?_
  exact update_evolving fun _ _ h ↦ (Ledger.finishIndexCount_relinks h).evolves

theorem finish_evolving (frame : ℕ) (terminal : Terminal) :
    (finish G frame terminal).Respects Evolving := by
  refine (readLedger_evolving _).bind fun index ↦ ?_
  cases index with
  | some index => exact finishIndex_evolving index terminal
  | none =>
    refine (isSpeculative_evolving G.frames frame).bind fun speculative ↦ ?_
    exact Program.Respects.lift _

theorem visitCompleted_evolving (frame : ℕ) : (visitCompleted frame).Respects Evolving := by
  refine update_evolving fun ledger after h ↦ ?_
  cases hindex : ledger.frameEntries frame with
  | none =>
    rw [hindex] at h
    cases h
    exact .refl _
  | some index =>
    simp only [hindex, bind_eq_ok] at h
    obtain ⟨entry, -, h⟩ := h
    split at h
    · simp only [bind_eq_ok, pure_ok, Except.ok.injEq] at h
      obtain ⟨cleanup, -, rfl⟩ := h
      exact .of_eq rfl rfl rfl rfl
    · cases h
      exact .refl _

theorem visitConsumed_evolving (frame : ℕ) : (visitConsumed G frame).Respects Evolving := by
  refine (readLedger_evolving _).bind fun index ↦ ?_
  cases index with
  | none => exact .done _
  | some index =>
    refine (speculationConsumed_evolving G.frames frame).bind fun consumed ↦ ?_
    split
    · exact finishIndex_evolving index _
    · exact .done _

theorem reconcileConsumed_evolving (rounds : ℕ) :
    (reconcileConsumed G rounds).Respects Evolving := by
  induction rounds with
  | zero => exact .done _
  | succ rounds ih =>
    refine (readLedger_evolving _).bind fun before ↦ ?_
    refine (drain_respects G.frames (fun _ memory ↦ .refl _) visitConsumed_evolving).bind fun _ ↦ ?_
    refine (readLedger_evolving _).bind fun after ↦ ?_
    split
    · exact .done _
    · exact ih

theorem reconcile_evolving : (reconcile G).Respects Evolving := by
  refine (drain_respects G.frames (fun _ memory ↦ .refl _) visitCompleted_evolving).bind fun _ ↦ ?_
  refine (reconcileConsumed_evolving _).bind fun _ ↦ ?_
  exact update_evolving fun _ _ h ↦ (Ledger.flushFeedback_relinks h).evolves

theorem reconcileFeedback_evolving : (reconcileFeedback G).Respects Evolving := by
  refine (readLedger_evolving _).bind fun fed ↦ ?_
  split
  · exact reconcile_evolving
  · exact .done _

end LedgerM

end DiosPool.Pool
