import DiosPool.Pool.Prefetch.Horizon
import DiosPool.Pool.Programs.Streams

/-!
# Runs of the streams

Callers change the streams one step at a time, all under the control lock. A window of the reader at the
front of the ready queue is worked off page by page, and the lock is free again when it is closed.
-/

namespace DiosPool.Pool

open Foundation

/-- As many pages of a file as a window has, from its first one on. -/
def pagesFrom (page : PageId) : ℕ → List PageId
  | 0 => []
  | count + 1 => page :: pagesFrom ⟨page.file, page.granuleIdx + 1⟩ count

/-- The pages a window has not issued yet. The first `admitted` of them have a credit already. -/
structure OpenWindow where
  reader : ℕ
  incarnation : ℕ
  pages : List PageId
  admitted : ℕ

def OpenWindow.source (window : OpenWindow) : Source := .automatic window.reader window.incarnation

/-- The ledger, the window that is open, and every page issued so far with its stream. -/
structure StreamState where
  ledger : Ledger
  window : Option OpenWindow
  issues : List (Source × PageId)

namespace StreamState

def new (G : PrefetchGeometry) : StreamState := ⟨.new G, none, []⟩

/-- Every page that has a credit is issued. -/
def Settled (state : StreamState) : Prop :=
  ∀ window, state.window = some window → window.admitted = 0

end StreamState

/-- What callers do to the streams, with the reader whose turn ends. -/
inductive StreamStep (G : PrefetchGeometry) (state : StreamState) : Option ℕ → StreamState → Prop
  | upkeep {ledger : Ledger} (h : state.ledger.Tends none ledger) :
      StreamStep G state none { state with ledger }
  -- Demand of a reader that missed.
  | observe {reader : ℕ} {page : PageId} {pattern : Pattern} {ledger : Ledger}
      (hwindow : state.window = none) (hreader : reader < G.patternCount)
      (hpage : page.granuleIdx ≤ u32Max)
      (hpattern : (state.ledger.patterns reader).observe page G.capacity = .ok pattern)
      (h : state.ledger.setPattern G reader pattern = .ok ledger) :
      StreamStep G state none { state with ledger }
  -- A credit ends by promotion, eviction or failure.
  | finish {index : ℕ} {entry : PrefetchEntry} {outcome : Speculation}
      {terminal : Terminal} {middle ledger : Ledger} (hsettled : state.Settled)
      (hunlink : state.ledger.finishIndexUnlink index = .ok (entry, middle))
      (h : middle.finishIndexCount G entry outcome terminal = .ok ledger) :
      StreamStep G state none { state with ledger }
  -- One record of a flush.
  | promote {record : Feedback} {pattern : Pattern} {ledger : Ledger}
      (hsettled : state.Settled) (hrecord : record ∈ state.ledger.feedback)
      (hpattern : (state.ledger.patterns record.reader).promoted record.page record.incarnation
        G.capacity = .ok pattern)
      (h : state.ledger.setPattern G record.reader pattern = .ok ledger) :
      StreamStep G state none { state with ledger }
  | reset {reader : ℕ} {ledger : Ledger} (hsettled : state.Settled)
      (h : state.ledger.resetReader G reader = .ok ledger) :
      StreamStep G state none { state with ledger }
  | admitPage {page : PageId} {frame : ℕ} {ledger : Ledger}
      (h : state.ledger.admitEntry G page frame .explicit = .ok ledger) :
      StreamStep G state none { state with ledger }
  | openWindow {reader : ℕ} {page : PageId} {source : Source} {count : ℕ}
      (hwindow : state.window = none) (hfirst : state.ledger.ready.first = some reader)
      (hasks : (state.ledger.patterns reader).window reader G.automaticWidth =
        some (page, source, count)) :
      StreamStep G state none
        ⟨state.ledger,
          some ⟨reader, (state.ledger.patterns reader).incarnation, pagesFrom page count, 0⟩,
          state.issues⟩
  | extend {window : OpenWindow} {page : PageId} {frame : ℕ} {ledger : Ledger}
      (hwindow : state.window = some window) (hpage : window.pages[window.admitted]? = some page)
      (h : state.ledger.admitEntry G page frame window.source = .ok ledger) :
      StreamStep G state none
        { state with ledger, window := some { window with admitted := window.admitted + 1 } }
  | issue {window : OpenWindow} {page : PageId} {rest : List PageId}
      {ledger : Ledger} (hwindow : state.window = some window) (hpages : window.pages = page :: rest)
      (hcurrent : state.ledger.sourceObsolete window.source = false)
      (h : state.ledger.issued G window.reader page = .ok ledger) :
      StreamStep G state none
        ⟨ledger, some { window with pages := rest, admitted := window.admitted - 1 },
          (window.source, page) :: state.issues⟩
  | turn {window : OpenWindow} {ledger : Ledger}
      (hwindow : state.window = some window) (hadmitted : window.admitted = 0)
      (h : state.ledger.advanceTurn G window.reader = .ok ledger) :
      StreamStep G state (some window.reader) { state with ledger, window := none }
  | close (hsettled : state.Settled) :
      StreamStep G state none { state with window := none }

/-- A run of which every state satisfies `kept`. -/
inductive StreamRun (G : PrefetchGeometry) (kept : StreamState → Prop) :
    StreamState → List (Option ℕ) → StreamState → Prop
  | stop {state : StreamState} (h : kept state) : StreamRun G kept state [] state
  | step {state middle after : StreamState} {turn : Option ℕ} {turns : List (Option ℕ)}
      (h : kept state) (hstep : StreamStep G state turn middle)
      (hrun : StreamRun G kept middle turns after) : StreamRun G kept state (turn :: turns) after

def StreamState.Reachable (G : PrefetchGeometry) (state : StreamState) : Prop :=
  ∃ turns, StreamRun G (fun _ ↦ True) (.new G) turns state

/-! ## What every run keeps -/

/-- A page that was issued or admitted is behind the cursor of its stream. -/
def Ledger.Passed (ledger : Ledger) (source : Source) (page : PageId) : Prop :=
  ∀ reader incarnation, source = .automatic reader incarnation →
    (ledger.patterns reader).Passed incarnation page

/-- As long as its stream lasts, a window goes on at the cursor. -/
structure OpenWindow.Continues (window : OpenWindow) (ledger : Ledger) : Prop where
  incarnation_le : window.incarnation ≤ (ledger.patterns window.reader).incarnation
  pages : (ledger.patterns window.reader).incarnation = window.incarnation →
    ∃ next count, (ledger.patterns window.reader).cursor = some next ∧
      window.pages = pagesFrom next count

/-- A window is about to issue a page that it has admitted. -/
def Waits (window : Option OpenWindow) (source : Source) (page : PageId) : Prop :=
  ∃ opened, window = some opened ∧ source = opened.source ∧ page ∈ opened.pages.take opened.admitted

structure StreamState.Sound (G : PrefetchGeometry) (state : StreamState) : Prop where
  valid : ∀ reader, (state.ledger.patterns reader).Valid G.capacity
  entries : ∀ index entry, state.ledger.entries index = some entry →
    state.ledger.Passed entry.source entry.page ∨ Waits state.window entry.source entry.page
  feedback : ∀ record ∈ state.ledger.feedback,
    state.ledger.Passed (.automatic record.reader record.incarnation) record.page
  issues : ∀ issue ∈ state.issues, state.ledger.Passed issue.1 issue.2
  nodup : state.issues.Nodup
  window : ∀ window, state.window = some window → window.Continues state.ledger

section Steps

variable {G : PrefetchGeometry} {state after : StreamState} {ledger : Ledger} {reader : ℕ}
  {pattern : Pattern} {source : Source} {page : PageId} {turn : Option ℕ}

theorem Ledger.Passed.of_eq (h : state.ledger.Passed source page)
    (hpatterns : ledger.patterns = state.ledger.patterns) : ledger.Passed source page := by
  intro reader incarnation hsource
  rw [hpatterns]
  exact h reader incarnation hsource

theorem Ledger.Redirects.passed (h : state.ledger.Redirects G reader pattern ledger)
    (hadvances : (state.ledger.patterns reader).Advances pattern)
    (hpassed : state.ledger.Passed source page) : ledger.Passed source page := by
  intro other incarnation hsource
  rw [h.patterns, Function.update_apply]
  split
  · rename_i hother
    exact (hother ▸ hpassed other incarnation hsource).advance hadvances
  · exact hpassed other incarnation hsource

theorem OpenWindow.current {window : OpenWindow} (h : ledger.sourceObsolete window.source = false) :
    (ledger.patterns window.reader).incarnation = window.incarnation := by
  simpa [Ledger.sourceObsolete, OpenWindow.source, Pattern.owns] using h

/-- The next page of a window is at the cursor. -/
theorem OpenWindow.Continues.cursor {window : OpenWindow} {rest : List PageId}
    (h : window.Continues ledger)
    (hcurrent : (ledger.patterns window.reader).incarnation = window.incarnation)
    (hpages : window.pages = page :: rest) :
    (ledger.patterns window.reader).cursor = some page ∧
      ∃ count, rest = pagesFrom ⟨page.file, page.granuleIdx + 1⟩ count := by
  obtain ⟨next, count, hcursor, hfrom⟩ := h.pages hcurrent
  rw [hpages] at hfrom
  cases count with
  | zero => cases hfrom
  | succ count =>
    cases hfrom
    exact ⟨hcursor, count, rfl⟩

theorem OpenWindow.Continues.steady {window : OpenWindow} (h : window.Continues state.ledger)
    (hsteady : ∀ reader, (state.ledger.patterns reader).Steady (ledger.patterns reader)) :
    window.Continues ledger := by
  refine ⟨h.incarnation_le.trans (hsteady _).incarnation, fun hsame ↦ ?_⟩
  have hbefore : (state.ledger.patterns window.reader).incarnation = window.incarnation :=
    le_antisymm (hsame ▸ (hsteady window.reader).incarnation) h.incarnation_le
  rw [(hsteady window.reader).cursor (hsame.trans hbefore.symm)]
  exact h.pages hbefore

namespace StreamState.Sound

theorem carry (h : state.Sound G) {window : Option OpenWindow}
    (hvalid : ∀ reader, (ledger.patterns reader).Valid G.capacity)
    (hpassed : ∀ source page, state.ledger.Passed source page → ledger.Passed source page)
    (hentries : ∀ index entry, ledger.entries index = some entry →
      (∃ old, state.ledger.entries index = some old ∧ old.source = entry.source ∧
        old.page = entry.page) ∨ ledger.Passed entry.source entry.page ∨
        Waits window entry.source entry.page)
    (hfeedback : ledger.feedback ⊆ state.ledger.feedback)
    (hwaits : ∀ source page, Waits state.window source page →
      ledger.Passed source page ∨ Waits window source page)
    (hwindow : ∀ opened, window = some opened → opened.Continues ledger) :
    Sound G ⟨ledger, window, state.issues⟩ := by
  refine ⟨hvalid, fun index entry hentry ↦ ?_,
    fun record hrecord ↦ hpassed _ _ (h.feedback record (hfeedback hrecord)),
    fun issue hissue ↦ hpassed _ _ (h.issues issue hissue), h.nodup, hwindow⟩
  obtain ⟨old, hold, hsource, hpage⟩ | hnew := hentries index entry hentry
  · rw [← hsource, ← hpage]
    exact (h.entries index old hold).elim (fun h ↦ .inl (hpassed _ _ h)) (hwaits _ _)
  · exact hnew

/-- Upkeep, and the admission of a page. -/
theorem tends (h : state.Sound G) {added : Option (Source × PageId)} {window : Option OpenWindow}
    (htends : state.ledger.Tends added ledger)
    (hadded : ∀ source page, added = some (source, page) →
      ledger.Passed source page ∨ Waits window source page)
    (hwaits : ∀ source page, Waits state.window source page → Waits window source page)
    (hwindow : ∀ opened, window = some opened → opened.Continues state.ledger) :
    Sound G ⟨ledger, window, state.issues⟩ :=
  h.carry (htends.patterns ▸ h.valid) (fun _ _ hpassed ↦ hpassed.of_eq htends.patterns)
    (fun index entry hentry ↦ (htends.entries index entry hentry).imp_right (hadded _ _))
    htends.feedback (fun source page hwait ↦ .inr (hwaits source page hwait))
    fun opened hopened ↦ (hwindow opened hopened).steady (Ledger.steady_of_eq htends.patterns)

theorem passed_of_settled (h : state.Sound G) (hsettled : state.Settled) {index : ℕ}
    {entry : PrefetchEntry} (hentry : state.ledger.entries index = some entry) :
    state.ledger.Passed entry.source entry.page := by
  refine (h.entries index entry hentry).resolve_right fun hwaits ↦ ?_
  obtain ⟨window, hwindow, -, hmem⟩ := hwaits
  rw [hsettled window hwindow] at hmem
  cases hmem

theorem close (h : state.Sound G) (hsettled : state.Settled) :
    Sound G { state with window := none } :=
  ⟨h.valid, fun _ _ hentry ↦ .inl (h.passed_of_settled hsettled hentry), h.feedback, h.issues, h.nodup,
    fun _ hwindow ↦ by cases hwindow⟩

theorem upkeep (h : state.Sound G) (htends : state.ledger.Tends none ledger) :
    Sound G { state with ledger } :=
  h.tends htends (fun _ _ hnone ↦ by cases hnone) (fun _ _ ↦ id) h.window

theorem redirects (h : state.Sound G) {window : Option OpenWindow}
    (hredirects : state.ledger.Redirects G reader pattern ledger)
    (hvalid : pattern.Valid G.capacity) (hadvances : (state.ledger.patterns reader).Advances pattern)
    (hwaits : ∀ source page, Waits state.window source page →
      ledger.Passed source page ∨ Waits window source page)
    (hwindow : ∀ opened, window = some opened → opened.Continues ledger) :
    Sound G ⟨ledger, window, state.issues⟩ := by
  refine h.carry (fun other ↦ ?_) (fun _ _ ↦ hredirects.passed hadvances)
    (fun index entry hentry ↦ .inl (hredirects.entries index entry hentry)) hredirects.feedback
    hwaits hwindow
  rw [hredirects.patterns, Function.update_apply]
  split
  · exact hvalid
  · exact h.valid other

/-- A pattern that keeps its cursor keeps the window going. -/
theorem steady (h : state.Sound G) (hredirects : state.ledger.Redirects G reader pattern ledger)
    (hvalid : pattern.Valid G.capacity) (hsteady : (state.ledger.patterns reader).Steady pattern) :
    Sound G { state with ledger } := by
  refine h.redirects hredirects hvalid hsteady.advances (fun _ _ ↦ .inr) fun window hwindow ↦ ?_
  refine (h.window window hwindow).steady fun other ↦ ?_
  rw [hredirects.patterns, Function.update_apply]
  split
  · rwa [‹other = reader›]
  · exact .refl _

theorem finish (h : state.Sound G) (hsettled : state.Settled) {index : ℕ} {entry : PrefetchEntry}
    {outcome : Speculation} {terminal : Terminal} {middle : Ledger}
    (hunlink : state.ledger.finishIndexUnlink index = .ok (entry, middle))
    (hcount : middle.finishIndexCount G entry outcome terminal = .ok ledger) :
    Sound G { state with ledger } := by
  obtain ⟨hentry, htends⟩ := Ledger.finishIndexUnlink_tends hunlink
  obtain ⟨stats, terminal, hfeedback⟩ := Ledger.finishIndexCount_eq_ok hcount
  have hcounted : Sound G { state with ledger := { middle with stats } } :=
    h.upkeep ⟨htends.patterns, htends.ready, htends.feedback, htends.entries⟩
  obtain rfl | ⟨reader, incarnation, hsource, rfl⟩ | ⟨reader, hreset⟩ :=
    Ledger.finishIndexFeedback_eq_ok hfeedback
  · exact hcounted
  · refine ⟨hcounted.valid, hcounted.entries, fun record hrecord ↦ ?_, hcounted.issues, h.nodup,
      fun window hwindow ↦ (hcounted.window window hwindow).steady fun _ ↦ .refl _⟩
    obtain hold | hnew := List.mem_append.mp hrecord
    · exact hcounted.feedback record hold
    · cases List.mem_singleton.mp hnew
      rw [← hsource]
      exact (h.passed_of_settled hsettled hentry).of_eq htends.patterns
  · exact hcounted.steady hreset (.of_cursor_none rfl) (Pattern.reset_steady _)

theorem issue (h : state.Sound G) {window : OpenWindow} {rest : List PageId}
    (hwindow : state.window = some window) (hpages : window.pages = page :: rest)
    (hcurrent : (state.ledger.patterns window.reader).incarnation = window.incarnation)
    (hissued : state.ledger.issued G window.reader page = .ok ledger) :
    Sound G ⟨ledger, some { window with pages := rest, admitted := window.admitted - 1 },
      (window.source, page) :: state.issues⟩ := by
  obtain ⟨hcursor, count, hrest⟩ := (h.window window hwindow).cursor hcurrent hpages
  obtain ⟨pattern, hpattern, hset⟩ := bind_eq_ok.mp hissued
  have hredirects := Ledger.setPattern_redirects hset
  have hself : ledger.patterns window.reader = pattern := by
    rw [hredirects.patterns, Function.update_self]
  obtain ⟨pattern', hpattern', hvalid, hadvances, hnew⟩ :=
    Pattern.issued_spec (h.valid window.reader) hcursor
  obtain rfl : pattern' = pattern := Except.ok.inj (hpattern'.symm.trans hpattern)
  rw [hcurrent] at hnew
  have hpassed : ledger.Passed window.source page := by
    intro reader incarnation hsource
    cases hsource
    rwa [hself]
  have hsound : Sound G ⟨ledger,
      some { window with pages := rest, admitted := window.admitted - 1 }, state.issues⟩ := by
    refine h.redirects hredirects hvalid hadvances (fun source other hwait ↦ ?_)
      fun opened hopened ↦ ?_
    · obtain ⟨opened, hopened, rfl, hmem⟩ := hwait
      cases hwindow.symm.trans hopened
      rw [hpages] at hmem
      cases hadmitted : window.admitted with
      | zero =>
        rw [hadmitted] at hmem
        cases hmem
      | succ admitted =>
        rw [hadmitted, List.take_succ_cons, List.mem_cons] at hmem
        refine hmem.imp (fun hother ↦ ?_) fun hmem ↦ ⟨_, rfl, rfl, hmem⟩
        rwa [hother]
    · cases hopened
      refine ⟨hself ▸ hnew.incarnation_le, fun hsame ↦ ?_⟩
      rw [hself, ← hcurrent] at hsame
      obtain ⟨-, hnext⟩ := (Pattern.issued_eq_ok hpattern).2.resolve_right fun hreset ↦
        Nat.succ_ne_self _ (hreset.symm.trans hsame)
      exact ⟨_, count, hself ▸ hnext, hrest⟩
  refine ⟨hsound.valid, hsound.entries, hsound.feedback,
    List.forall_mem_cons.mpr ⟨hpassed, hsound.issues⟩,
    List.nodup_cons.mpr ⟨fun hissue ↦ ?_, h.nodup⟩, hsound.window⟩
  obtain ⟨next, hnext, -, hlt⟩ :=
    (h.issues _ hissue window.reader window.incarnation rfl).behind hcurrent.symm
  rw [hcursor] at hnext
  cases hnext
  exact lt_irrefl _ hlt

end StreamState.Sound

theorem StreamStep.sound (hstep : StreamStep G state turn after) (h : state.Sound G) :
    after.Sound G := by
  cases hstep with
  | upkeep htends => exact h.upkeep htends
  | observe hwindow hreader hpage hpattern hset =>
    obtain ⟨_, hcapacity, -⟩ := bind_eq_ok.mp hpattern
    obtain ⟨pattern', hpattern', hvalid, hadvances⟩ :=
      Pattern.observe_spec (h.valid _) (ensure_eq_ok.mp hcapacity) _
    cases hpattern.symm.trans hpattern'
    refine h.redirects (Ledger.setPattern_redirects hset) hvalid hadvances (fun _ _ ↦ .inr)
      fun opened hopened ↦ ?_
    cases hwindow.symm.trans hopened
  | finish hsettled hunlink hcount => exact h.finish hsettled hunlink hcount
  | promote hsettled hrecord hpattern hset =>
    obtain ⟨pattern', hpattern', hvalid⟩ :=
      Pattern.promoted_spec (h.valid _) (h.feedback _ hrecord _ _ rfl)
    cases hpattern.symm.trans hpattern'
    exact h.steady (Ledger.setPattern_redirects hset) hvalid (Pattern.promoted_steady hpattern)
  | reset hsettled hreset =>
    obtain rfl | hredirects := Ledger.resetReader_redirects hreset
    · exact h
    · exact h.steady hredirects (.of_cursor_none rfl) (Pattern.reset_steady _)
  | admitPage hentry =>
    refine h.tends (Ledger.admitEntry_tends hentry) (fun source page hadded ↦ .inl ?_)
      (fun _ _ ↦ id) h.window
    cases hadded
    exact fun _ _ hsource ↦ by cases hsource
  | openWindow hwindow hfirst hasks =>
    obtain ⟨-, hcursor, -⟩ := Pattern.window_eq_some hasks
    refine h.tends (Ledger.Rewires.refl _).tends (fun _ _ hnone ↦ by cases hnone) (fun source page hwait ↦ ?_)
      fun opened hopened ↦ ?_
    · obtain ⟨opened, hopened, -⟩ := hwait
      cases hwindow.symm.trans hopened
    · cases hopened
      exact ⟨le_rfl, fun _ ↦ ⟨_, _, hcursor, rfl⟩⟩
  | extend hwindow hpage hentry =>
    refine h.tends (Ledger.admitEntry_tends hentry) (fun source page hadded ↦ .inr ?_)
      (fun source page hwait ↦ ?_) fun opened hopened ↦ ?_
    · cases hadded
      refine ⟨_, rfl, rfl, ?_⟩
      rw [List.take_add_one, hpage]
      exact List.mem_append_right _ List.mem_cons_self
    · obtain ⟨opened, hopened, rfl, hmem⟩ := hwait
      cases hwindow.symm.trans hopened
      exact ⟨_, rfl, rfl, List.take_subset_take_left _ (Nat.le_succ _) hmem⟩
    · cases hopened
      exact ⟨(h.window _ hwindow).incarnation_le, (h.window _ hwindow).pages⟩
  | issue hwindow hpages hcurrent hissued =>
    exact h.issue hwindow hpages (OpenWindow.current hcurrent) hissued
  | turn hwindow hadmitted hturn =>
    obtain ⟨removed, -, hrefresh⟩ := bind_eq_ok.mp hturn
    obtain ⟨ready, rfl⟩ := Ledger.refreshReady_eq_ok hrefresh
    have hclosed := h.close fun opened hopened ↦ by cases hwindow.symm.trans hopened; exact hadmitted
    exact ⟨hclosed.valid, hclosed.entries, hclosed.feedback, hclosed.issues, hclosed.nodup,
      fun _ hopened ↦ by cases hopened⟩
  | close hsettled => exact h.close hsettled

/-- The ready queue is a round robin. -/
theorem StreamStep.rotates (hstep : StreamStep G state turn after) {members : List ℕ}
    (hready : state.ledger.Ready G members) :
    ∃ members', after.ledger.Ready G members' ∧ Rotates members turn members' := by
  have htends : ∀ {added : Option (Source × PageId)} {ledger : Ledger},
      state.ledger.Tends added ledger → ledger.Ready G members :=
    fun htends ↦ ⟨htends.ready ▸ hready.lists, htends.patterns ▸ hready.mem_iff⟩
  cases hstep with
  | upkeep h => exact ⟨members, htends h, .stay⟩
  | observe _ _ _ _ h =>
    exact ⟨_, (Ledger.setPattern_redirects h).ready members hready, .ask _ _⟩
  | finish _ hunlink hcount =>
    obtain ⟨stats, terminal, hfeedback⟩ := Ledger.finishIndexCount_eq_ok hcount
    obtain ⟨-, hmiddle⟩ := Ledger.finishIndexUnlink_tends hunlink
    have hcounted := htends hmiddle
    obtain rfl | ⟨reader, incarnation, -, rfl⟩ | ⟨reader, hreset⟩ :=
      Ledger.finishIndexFeedback_eq_ok hfeedback
    · exact ⟨members, ⟨hcounted.lists, hcounted.mem_iff⟩, .stay⟩
    · exact ⟨members, ⟨hcounted.lists, hcounted.mem_iff⟩, .stay⟩
    · exact ⟨_, hreset.ready members ⟨hcounted.lists, hcounted.mem_iff⟩, .ask _ _⟩
  | promote _ _ _ h =>
    exact ⟨_, (Ledger.setPattern_redirects h).ready members hready, .ask _ _⟩
  | reset _ h =>
    obtain rfl | hredirects := Ledger.resetReader_redirects h
    · exact ⟨members, hready, .stay⟩
    · exact ⟨_, hredirects.ready members hready, .ask _ _⟩
  | admitPage h => exact ⟨members, htends (Ledger.admitEntry_tends h), .stay⟩
  | openWindow => exact ⟨members, hready, .stay⟩
  | extend _ _ h => exact ⟨members, htends (Ledger.admitEntry_tends h), .stay⟩
  | issue _ _ _ h =>
    obtain ⟨pattern, -, hset⟩ := bind_eq_ok.mp h
    exact ⟨_, (Ledger.setPattern_redirects hset).ready members hready, .ask _ _⟩
  | turn _ _ h =>
    obtain ⟨ready, rfl, hturned⟩ := Ledger.advanceTurn_eq_ok hready h
    exact ⟨_, hturned, .turn _ _⟩
  | close => exact ⟨members, hready, .stay⟩

/-- The reader has no window open, and is not ahead of the waiter in the ready queue. -/
def Yields (G : PrefetchGeometry) (reader waiter : ℕ) (state : StreamState) : Prop :=
  ∃ members, state.ledger.Ready G members ∧ ¬ [reader, waiter].Sublist members ∧
    ∀ window, state.window = some window → window.reader ≠ reader

/-- A reader has no turn before one who waits. -/
theorem StreamStep.yields {waiter : ℕ} (hstep : StreamStep G state turn after)
    (hyields : Yields G reader waiter state) (hne : waiter ≠ reader)
    (hasks : ((state.ledger.patterns waiter).window waiter G.automaticWidth).isSome)
    (hturn : turn ≠ some waiter) : Yields G reader waiter after ∧ turn ≠ some reader := by
  obtain ⟨members, hready, hbehind, hwindow⟩ := hyields
  have hwaiter : waiter ∈ members := (hready.mem_iff waiter).mpr hasks
  obtain ⟨members', hready', hrotates⟩ := hstep.rotates hready
  have hbehind' : ¬ [reader, waiter].Sublist members' :=
    fun h ↦ hbehind (hrotates.sublist hwaiter hturn h)
  cases hstep with
  | openWindow _ hfirst _ =>
    refine ⟨⟨members', hready', hbehind', fun opened hopened heq ↦ ?_⟩, by simp⟩
    cases hopened
    rw [hready.lists.first] at hfirst
    exact hbehind (sublist_of_head (heq ▸ hfirst) hwaiter hne)
  | extend hopened =>
    refine ⟨⟨members', hready', hbehind', fun opened heq ↦ ?_⟩, by simp⟩
    cases heq
    have hreader := hwindow _ hopened
    exact hreader
  | issue hopened =>
    refine ⟨⟨members', hready', hbehind', fun opened heq ↦ ?_⟩, by simp⟩
    cases heq
    have hreader := hwindow _ hopened
    exact hreader
  | turn hopened =>
    refine ⟨⟨members', hready', hbehind', fun opened heq ↦ by cases heq⟩, fun heq ↦ ?_⟩
    exact hwindow _ hopened (Option.some.inj heq)
  | close => exact ⟨⟨members', hready', hbehind', fun opened heq ↦ by cases heq⟩, by simp⟩
  | _ => exact ⟨⟨members', hready', hbehind', hwindow⟩, by simp⟩

end Steps

section Runs

variable {G : PrefetchGeometry} {kept : StreamState → Prop} {state after : StreamState}
  {turns : List (Option ℕ)}

theorem StreamRun.kept_start (hrun : StreamRun G kept state turns after) : kept state := by
  cases hrun with
  | stop h => exact h
  | step h => exact h

theorem StreamRun.sound (hrun : StreamRun G kept state turns after) (h : state.Sound G) :
    after.Sound G := by
  induction hrun with
  | stop => exact h
  | step _ hstep _ ih => exact ih (hstep.sound h)

theorem StreamRun.ready (hrun : StreamRun G kept state turns after)
    (h : ∃ members, state.ledger.Ready G members) : ∃ members, after.ledger.Ready G members := by
  induction hrun with
  | stop => exact h
  | step _ hstep _ ih =>
    obtain ⟨members, hready⟩ := h
    obtain ⟨members', hready', -⟩ := hstep.rotates hready
    exact ih ⟨members', hready'⟩

theorem StreamRun.yields {reader waiter : ℕ}
    (hrun : StreamRun G
      (fun state ↦ ((state.ledger.patterns waiter).window waiter G.automaticWidth).isSome) state turns
      after)
    (hne : waiter ≠ reader) (hturns : some waiter ∉ turns) (h : Yields G reader waiter state) :
    Yields G reader waiter after ∧
      ((after.ledger.patterns waiter).window waiter G.automaticWidth).isSome := by
  induction hrun with
  | stop hasks => exact ⟨h, hasks⟩
  | step hasks hstep _ ih =>
    rw [List.mem_cons, not_or] at hturns
    exact ih hturns.2 (hstep.yields h hne hasks (Ne.symm hturns.1)).1

theorem StreamState.new_sound (G : PrefetchGeometry) : (StreamState.new G).Sound G where
  valid := fun _ ↦ .of_cursor_none rfl
  entries := fun _ _ hentry ↦ by cases hentry
  feedback := fun _ hrecord ↦ by cases hrecord
  issues := fun _ hissue ↦ by cases hissue
  nodup := List.nodup_nil
  window := fun _ hwindow ↦ by cases hwindow

theorem Ledger.new_ready (G : PrefetchGeometry) : (Ledger.new G).Ready G [] :=
  ⟨IndexQueue.new_lists, fun _ ↦ by simp [Ledger.new, Pattern.new, Pattern.window, Pattern.request]⟩

theorem PrefetchGeometry.new_bounds (capacity readers reads : ℕ) (mode : Readahead)
    (frames granule : ℕ) :
    let G := PrefetchGeometry.new capacity readers reads mode frames granule
    (0 < G.patternCount → 0 < capacity) ∧ 1 ≤ G.automaticWidth ∧ G.automaticWidth ≤ 32 := by
  refine ⟨fun hcount ↦ ?_, ?_⟩
  · by_contra hzero
    cases mode <;> simp_all [PrefetchGeometry.new]
  · dsimp only [PrefetchGeometry.new]
    split
    · omega
    · decide

/-- What holds of the streams of a ledger with `capacity` credits. -/
structure StreamState.InHorizon (G : PrefetchGeometry) (state : StreamState) : Prop where
  /-- A stream is ahead of its demand, and computing how far it may go does not overflow. -/
  streaming : ∀ reader demand next width,
    (state.ledger.patterns reader).state = .streaming demand next width →
      demand.granuleIdx < next ∧ next ≤ u32Max ∧ 1 ≤ width ∧ width ≤ G.capacity ∧
        saturatingAdd demand.granuleIdx width - next + 1 ≤ u32Max
  /-- A window starts at the next page and lies within `(demand, demand + width]`. -/
  requested : ∀ reader page source count,
    (state.ledger.patterns reader).window reader G.automaticWidth = some (page, source, count) →
      ∃ demand next width, (state.ledger.patterns reader).state = .streaming demand next width ∧
        page = ⟨demand.file, next⟩ ∧ demand.granuleIdx < next ∧ 1 ≤ count ∧ count ≤ 32 ∧
        next + count ≤ demand.granuleIdx + width + 1 ∧ next + count ≤ u32Max + 1
  /-- No incarnation issues a page twice. -/
  issued_once : state.issues.Nodup
  /-- While the lock is free, the entries of a stream are behind its next page and in its file. -/
  behind : state.window = none → ∀ index entry reader incarnation,
    state.ledger.entries index = some entry → entry.source = .automatic reader incarnation →
      (state.ledger.patterns reader).owns incarnation →
        ∃ demand next width, (state.ledger.patterns reader).state = .streaming demand next width ∧
          entry.page.file = demand.file ∧ entry.page.granuleIdx < next
  /-- No expectation of a pattern fails. -/
  observes : ∀ reader page, reader < G.patternCount →
    ∃ pattern, (state.ledger.patterns reader).observe page G.capacity = .ok pattern
  promotes : ∀ record ∈ state.ledger.feedback, ∃ pattern,
    (state.ledger.patterns record.reader).promoted record.page record.incarnation G.capacity =
      .ok pattern
  issues : ∀ window page rest, state.window = some window → window.pages = page :: rest →
    state.ledger.sourceObsolete window.source = false →
      ∃ pattern, (state.ledger.patterns window.reader).issued page = .ok pattern

/-- Streams stay within their horizon, whatever the sizes of the ledger and whatever happens. -/
theorem streams_stay_in_horizon (capacity readers reads : ℕ) (mode : Readahead) (frames granule : ℕ)
    (state : StreamState)
    (hreachable : state.Reachable (.new capacity readers reads mode frames granule)) :
    state.InHorizon (.new capacity readers reads mode frames granule) := by
  obtain ⟨turns, hrun⟩ := hreachable
  have h := hrun.sound (StreamState.new_sound _)
  obtain ⟨hcapacity, hwidth, hwidth'⟩ :=
    PrefetchGeometry.new_bounds capacity readers reads mode frames granule
  refine ⟨fun reader demand next width hstate ↦ ?_, fun reader page source count hasks ↦ ?_, h.nodup,
    fun hwindow index entry reader incarnation hentry hsource howns ↦ ?_,
    fun reader page hreader ↦ ?_, fun record hrecord ↦ ?_,
    fun window page rest hwindow hpages hcurrent ↦ ?_⟩
  · obtain ⟨hdemand, hnext, hpositive, hle⟩ := h.valid reader demand next width hstate
    refine ⟨hdemand, hnext, hpositive, hle, ?_⟩
    have hsaturated : saturatingAdd demand.granuleIdx width ≤ u32Max := min_le_right _ _
    omega
  · obtain ⟨-, hcursor, demand, next, width, hstate, rfl, -, hfits⟩ := Pattern.window_eq_some hasks
    obtain ⟨hdemand, -, hpositive, -⟩ := h.valid reader demand next width hstate
    rw [Pattern.cursor, hstate] at hcursor
    cases hcursor
    refine ⟨demand, next, width, hstate, rfl, hdemand, le_min hpositive hwidth,
      (min_le_right _ _).trans hwidth', ?_⟩
    unfold saturatingAdd at hfits
    omega
  · have hsettled : state.Settled := fun opened hopened ↦ by cases hwindow.symm.trans hopened
    have hpassed := h.passed_of_settled hsettled hentry reader incarnation hsource
    obtain ⟨cursor, hcursor, hfile, hlt⟩ := hpassed.behind (beq_iff_eq.mp howns).symm
    obtain ⟨demand, next, width, hstate, rfl⟩ := Pattern.cursor_eq_some hcursor
    exact ⟨demand, next, width, hstate, hfile, hlt⟩
  · obtain ⟨pattern, hpattern, -⟩ :=
      Pattern.observe_spec (h.valid reader) (hcapacity (Nat.zero_lt_of_lt hreader)) page
    exact ⟨pattern, hpattern⟩
  · obtain ⟨pattern, hpattern, -⟩ :=
      Pattern.promoted_spec (h.valid _) (h.feedback record hrecord _ _ rfl)
    exact ⟨pattern, hpattern⟩
  · obtain ⟨hcursor, -⟩ := (h.window window hwindow).cursor (OpenWindow.current hcurrent) hpages
    obtain ⟨pattern, hpattern, -⟩ := Pattern.issued_spec (h.valid _) hcursor
    exact ⟨pattern, hpattern⟩

/-- Three cold pages in a row make a stream, which issues the fourth. -/
theorem fourth_page_issued : ∃ state : StreamState, state.Reachable sixFrames.prefetch ∧
    state.issues = [(.automatic 0 1, ⟨⟨0, 0, 1⟩, 3⟩)] := by
  refine ⟨_, ⟨_, .step trivial (@StreamStep.observe _ _ 0 ⟨⟨0, 0, 1⟩, 0⟩ _ _ rfl ?_ ?_ rfl rfl) <|
    .step trivial (@StreamStep.observe _ _ 0 ⟨⟨0, 0, 1⟩, 1⟩ _ _ rfl ?_ ?_ rfl rfl) <|
    .step trivial (@StreamStep.observe _ _ 0 ⟨⟨0, 0, 1⟩, 2⟩ _ _ rfl ?_ ?_ rfl rfl) <|
    .step trivial (.openWindow rfl rfl rfl) <| .step trivial (.issue rfl rfl rfl rfl) <|
    .stop trivial⟩, rfl⟩
  all_goals decide

theorem streams_stay_in_horizon_fourthPage : ∃ state : StreamState,
    state.Reachable sixFrames.prefetch ∧ state.issues ≠ [] ∧ state.InHorizon sixFrames.prefetch := by
  obtain ⟨state, hreachable, hissues⟩ := fourth_page_issued
  refine ⟨state, hreachable, hissues ▸ List.cons_ne_nil _ _, ?_⟩
  exact streams_stay_in_horizon _ _ _ _ _ _ state hreachable

/-- The ready queue holds the readers with a window, and between two turns of a reader everyone else
who stays in it has a turn. -/
theorem ready_readers_take_turns (C : Config) (state : StreamState)
    (hreachable : state.Reachable C.prefetch) :
    (∃ members, state.ledger.ready.Lists members ∧ ∀ reader, reader ∈ members ↔
      ((state.ledger.patterns reader).window reader C.prefetch.automaticWidth).isSome) ∧
    (∃ window, readyWindow C state.ledger = .ok window) ∧
    ∀ reader waiter first between second third, waiter ≠ reader →
      StreamStep C.prefetch state (some reader) first →
      StreamRun C.prefetch (fun state ↦
        ((state.ledger.patterns waiter).window waiter C.prefetch.automaticWidth).isSome)
        first between second →
      StreamStep C.prefetch second (some reader) third → some waiter ∈ between := by
  obtain ⟨turns, hrun⟩ := hreachable
  obtain ⟨members, hready⟩ := hrun.ready ⟨[], Ledger.new_ready _⟩
  refine ⟨⟨members, hready.lists, hready.mem_iff⟩, ?_, ?_⟩
  · rw [readyWindow, hready.lists.first]
    cases hmembers : members with
    | nil => exact ⟨none, rfl⟩
    | cons reader rest =>
      have hasks := (hready.mem_iff reader).mp (hmembers ▸ List.mem_cons_self)
      obtain ⟨window, hwindow⟩ := Option.isSome_iff_exists.mp hasks
      simp only [List.head?_cons, hwindow]
      exact ⟨_, rfl⟩
  · intro reader waiter first between second third hne hfirst hbetween hsecond
    by_contra hnone
    obtain ⟨members', hready', hrotates⟩ := hfirst.rotates hready
    have hasks := hbetween.kept_start
    have hyields : Yields C.prefetch reader waiter first := by
      refine ⟨members', hready', hrotates.not_sublist hready.lists.nodup
        ((hready'.mem_iff waiter).mpr hasks) hne, fun window hwindow ↦ ?_⟩
      cases hfirst
      cases hwindow
    obtain ⟨hyields', hasks'⟩ := hbetween.yields hne hnone hyields
    exact (hsecond.yields hyields' hne hasks' (by simpa using hne.symm)).2 rfl

theorem ready_readers_take_turns_fourthPage : ∃ state : StreamState,
    state.Reachable sixFrames.prefetch ∧ state.issues ≠ [] ∧
      ∃ window, readyWindow sixFrames state.ledger = .ok window := by
  obtain ⟨state, hreachable, hissues⟩ := fourth_page_issued
  refine ⟨state, hreachable, hissues ▸ List.cons_ne_nil _ _, ?_⟩
  exact (ready_readers_take_turns sixFrames state hreachable).2.1

end Runs

end DiosPool.Pool
