import DiosPool.Pool.Programs.Windows

/-!
# Explicit windows

What `prefetch` does to the pages that it examines. Each of them has one outcome; a page that was
mapped or pending stays so, since only frames that the window does not protect lose their pages.
-/

namespace DiosPool.Pool

open Driver Foundation

/-! ## What a window changes -/

/-- Pages have become pending, and some replaceable frames have lost their pages. -/
structure Shifted (added : List PageId) (before after : Locked) : Prop where
  table : ∀ page, after.table.lookup page = before.table.lookup page ∨
    after.table.lookup page = none ∧ ∃ frame, before.table.lookup page = some frame ∧
      before.ledger.Replaceable frame
  pending : after.miss.pending.map PendingMiss.page =
    before.miss.pending.map PendingMiss.page ++ added
  reads : after.readsInFlight = before.readsInFlight + added.length
  files : after.files = before.files
  ledger : before.ledger.Evolves after.ledger

/-- No page of the list can be replaced. -/
def Shielded (pages : List PageId) (locked : Locked) : Prop :=
  ∀ page ∈ pages, ∀ frame, locked.table.lookup page = some frame → ¬ locked.ledger.Replaceable frame

/-- The page has a pending miss. -/
def IsPending (locked : Locked) (page : PageId) : Prop :=
  page ∈ locked.miss.pending.map PendingMiss.page

section Shifts

variable {before middle after : Locked} {pages added more : List PageId} {page : PageId}

theorem findPending_eq_none_iff : before.miss.findPending page = none ↔ ¬ IsPending before page := by
  simp [MissTable.findPending, IsPending]

theorem Shifted.refl (locked : Locked) : Shifted [] locked locked :=
  ⟨fun _ ↦ .inl rfl, (List.append_nil _).symm, rfl, rfl, .refl _⟩

theorem Shifted.trans (h : Shifted added before middle) (h' : Shifted more middle after) :
    Shifted (added ++ more) before after := by
  refine ⟨fun page ↦ ?_, ?_, ?_, h'.files.trans h.files, h.ledger.trans h'.ledger⟩
  · rcases h'.table page with hsame | ⟨hnone, frame, hframe, hreplaceable⟩
    · rw [hsame]
      exact h.table page
    · refine .inr ⟨hnone, frame, ?_, h.ledger.replaceable hreplaceable⟩
      rcases h.table page with hsame | ⟨hgone, -⟩
      · rw [← hsame, hframe]
      · rw [hgone] at hframe
        cases hframe
  · rw [h'.pending, h.pending, List.append_assoc]
  · rw [h'.reads, h.reads, List.length_append, Nat.add_assoc]

/-- A refused admission. -/
theorem Declined.shifted (h : Declined before after) : Shifted [] before after := by
  rw [h.kept]
  exact ⟨fun _ ↦ .inl rfl, (List.append_nil _).symm, rfl, rfl, .of_eq rfl rfl rfl rfl⟩

theorem Accepted.shifted (h : Accepted pages before after) : Shifted pages before after :=
  ⟨fun page ↦ .inl (by rw [h.table]), h.pending, h.reads, h.files, h.ledger⟩

/-- A step of the ledger alone. -/
theorem Shifted.evolve (h : Shifted added before after) {ledger : Ledger}
    (hledger : after.ledger.Evolves ledger) : Shifted added before { after with ledger } :=
  ⟨h.table, h.pending, h.reads, h.files, h.ledger.trans hledger⟩

theorem Shielded.shift (hshield : Shielded pages before) (h : Shifted added before after) :
    Shielded pages after := by
  intro page hpage frame hframe hreplaceable
  rcases h.table page with hsame | ⟨hnone, -⟩
  · exact hshield page hpage frame (hsame ▸ hframe) (h.ledger.replaceable hreplaceable)
  · rw [hnone] at hframe
    cases hframe

/-- A shielded page stays where it is. -/
theorem Shifted.lookup (h : Shifted added before after) (hshield : Shielded pages before)
    (hpage : page ∈ pages) : after.table.lookup page = before.table.lookup page := by
  rcases h.table page with hsame | ⟨-, frame, hframe, hreplaceable⟩
  · exact hsame
  · exact absurd hreplaceable (hshield page hpage frame hframe)

theorem Shifted.isPending (h : Shifted added before after) (hpending : IsPending before page) :
    IsPending after page := by
  unfold IsPending
  rw [h.pending]
  exact List.mem_append_left _ hpending

theorem Shifted.fileIsLive (h : Shifted added before after) (file : FileId) :
    after.fileIsLive file = before.fileIsLive file := by
  unfold Locked.fileIsLive
  rw [h.files]

/-- A page that is missing after a shift, and shielded, was missing before. -/
theorem Missing.unshift (hmissing : Missing after page) (h : Shifted added before after)
    (hshield : Shielded pages before) (hpage : page ∈ pages) : Missing before page := by
  refine ⟨?_, findPending_eq_none_iff.mpr fun hpending ↦ ?_, ?_⟩
  · rw [← h.lookup hshield hpage]
    exact hmissing.lookup
  · exact findPending_eq_none_iff.mp hmissing.pending (h.isPending hpending)
  · rw [← h.fileIsLive]
    exact hmissing.live

/-- A shift without new pages leaves a page missing. -/
theorem Missing.shift (hmissing : Missing before page) (h : Shifted [] before after) :
    Missing after page := by
  refine ⟨?_, findPending_eq_none_iff.mpr fun hpending ↦ ?_, ?_⟩
  · rcases h.table page with hsame | ⟨hnone, -⟩
    · rw [hsame]
      exact hmissing.lookup
    · exact hnone
  · unfold IsPending at hpending
    rw [h.pending, List.append_nil] at hpending
    exact findPending_eq_none_iff.mp hmissing.pending hpending
  · rw [h.fileIsLive]
    exact hmissing.live

end Shifts

/-! ## Replacement -/

section Replacement

variable {C : Config} (k : Known) {start : Locked} {added : List PageId}

/-- The next candidate of a replacement is not protected. -/
theorem nextReplacement_eq_ok {wanted : ℕ} {ledger after : Ledger}
    {found : Option (Option PrefetchEntry)} (h : nextReplacement C wanted ledger = .ok (found, after)) :
    ledger.Evolves after ∧ ∀ entry, found = some (some entry) → after.Replaceable entry.frame := by
  simp only [nextReplacement, bind_eq_ok] at h
  obtain ⟨available, -, h⟩ := h
  split at h
  · cases h
    exact ⟨.refl _, fun entry hentry ↦ by cases hentry⟩
  · cases h
    refine ⟨.of_eq rfl rfl rfl rfl, fun entry hentry ↦ ?_⟩
    obtain ⟨hfound, hprotected⟩ := Option.filter_eq_some_iff.mp (Option.some.inj hentry)
    exact ⟨_, entry, hfound, rfl, by simpa using hprotected⟩

/-- A replaceable frame loses its page. -/
theorem Shifted.erase {locked : Locked} (h : Shifted added start locked) {page : PageId} {frame : ℕ}
    (hlookup : locked.table.lookup page = some frame) (hreplaceable : locked.ledger.Replaceable frame) :
    Shifted added start { locked with table := locked.table.erase page } := by
  have herase : Shifted [] locked { locked with table := locked.table.erase page } := by
    refine ⟨fun other ↦ ?_, (List.append_nil _).symm, rfl, rfl, .refl _⟩
    by_cases hother : other = page
    · subst hother
      exact .inr ⟨Finmap.lookup_erase _ _, frame, hlookup, hreplaceable⟩
    · exact .inl (Finmap.lookup_erase_ne hother)
  have hshifted := h.trans herase
  rwa [List.append_nil] at hshifted

theorem replaceFrame_triple (frame : ℕ) :
    (rules C).Triple
      (At C k.custody fun locked ↦
        (Shifted added start locked ∧ locked.ledger.Replaceable frame) ∧
          (true = true → locked.miss.successFrames frame = none))
      (evictResident C frame) fun _ ↦ At C k.custody (Shifted added start) := by
  have hevict := @evictResident_at C k.custody
    (fun locked ↦ Shifted added start locked ∧ locked.ledger.Replaceable frame)
    (Shifted added start) frame rfl (fun locked page h hlookup ↦ h.1.erase hlookup h.2)
    (fun locked ledger hledger h ↦ h.evolve hledger)
    (fun locked frames evictQueue h ↦ ⟨h.table, h.pending, h.reads, h.files, h.ledger⟩)
  exact hevict.weaken fun pool h ↦ ⟨h.1, h.2.1, h.2.2 rfl⟩

theorem prefetchReplaceUnusedFrom_triple (wanted turns : ℕ) :
    (rules C).Triple (At C k.custody (Shifted added start))
      (prefetchReplaceUnusedFrom C wanted turns) fun _ ↦ At C k.custody (Shifted added start) := by
  induction turns with
  | zero => exact Rules.Triple.done fun pool h ↦ h
  | succ turns ih =>
    refine Rules.Triple.through (fun found ↦ At C k.custody fun locked ↦ Shifted added start locked ∧
      ∀ entry, found = some (some entry) → locked.ledger.Replaceable entry.frame) ?_ fun found ↦ ?_
    · refine updateLedger_triple fun locked found ledger hshifted hfound ↦ ?_
      obtain ⟨hevolves, hreplaceable⟩ := nextReplacement_eq_ok hfound
      exact ⟨hevolves.indexed, hshifted.evolve hevolves, hreplaceable⟩
    cases found with
    | none => exact Rules.Triple.done fun pool h ↦ ⟨h.1, h.2.1⟩
    | some found =>
      cases found with
      | none => exact ih.weaken fun pool h ↦ ⟨h.1, h.2.1⟩
      | some entry =>
        have hprepare := @prepareEviction_at C k.custody
          (fun locked ↦ Shifted added start locked ∧ locked.ledger.Replaceable entry.frame)
          entry.frame fun locked miss hpending h ↦
            ⟨⟨h.1.table, hpending ▸ h.1.pending, h.1.reads, h.1.files, h.1.ledger⟩, h.2⟩
        refine (glance_triple at_stable _).bind fun resident ↦ ?_
        split
        · refine (hprepare.weaken fun pool h ↦ ⟨h.1, h.2.1, h.2.2 entry rfl⟩).bind fun prepared ↦ ?_
          cases prepared with
          | true => exact (replaceFrame_triple k entry.frame).bind fun _ ↦ ih
          | false => exact ih.weaken fun pool h ↦ ⟨h.1, h.2.1.1⟩
        · exact ih.weaken fun pool h ↦ ⟨h.1, h.2.1⟩

theorem prefetchReplaceUnused_triple (wanted : ℕ) :
    (rules C).Triple (At C k.custody (Shifted added start)) (prefetchReplaceUnused C wanted)
      fun _ ↦ At C k.custody (Shifted added start) := by
  refine (glance_triple at_stable _).bind fun cursor ↦ ?_
  exact prefetchReplaceUnusedFrom_triple k wanted _

end Replacement

/-! ## Protection -/

/-- Only the ledger has changed. -/
def Refiled (before after : Locked) : Prop := ∃ ledger, after = { before with ledger }

section Protection

variable {C : Config} {c : Custody}

theorem Refiled.refile {before after : Locked} (h : Refiled before after) (ledger : Ledger) :
    Refiled before { after with ledger } := by
  obtain ⟨_, rfl⟩ := h
  exact ⟨ledger, rfl⟩

/-- A protected frame cannot be replaced. -/
theorem Ledger.protect_replaceable {ledger after : Ledger} {frame : ℕ} (hindexed : ledger.Indexed)
    (h : ledger.protect frame = .ok after) : ¬ after.Replaceable frame := by
  rintro ⟨index, entry, hentry, hframe, hprotected⟩
  unfold protect at h
  cases hfound : ledger.frameEntries frame with
  | none =>
    rw [hfound] at h
    cases h
    rw [← hframe, hindexed index entry hentry] at hfound
    cases hfound
  | some found =>
    simp only [hfound, bind_eq_ok, expect_eq_ok, pure_ok, Except.ok.injEq] at h
    obtain ⟨credit, hcredit, rfl⟩ := h
    dsimp only at hentry hprotected
    by_cases hindex : index = found
    · rw [hindex, Function.update_self] at hentry
      cases hentry
      exact hprotected rfl
    · rw [Function.update_of_ne hindex] at hentry
      have hnamed := hindexed index entry hentry
      rw [hframe, hfound] at hnamed
      exact hindex (Option.some.inj hnamed).symm

/-- After the pages of a window are protected, none of them can be replaced. -/
theorem prefetchProtect_triple {start : Locked} {pages : List PageId} :
    ∀ {shielded : List PageId}, (rules C).Triple
      (At C c fun locked ↦ Refiled start locked ∧ Shielded shielded locked)
      (prefetchProtect C pages)
      fun _ ↦ At C c fun locked ↦ Refiled start locked ∧ Shielded (shielded ++ pages) locked := by
  induction pages with
  | nil =>
    intro shielded
    rw [List.append_nil]
    exact Rules.Triple.done fun pool h ↦ h
  | cons page pages ih =>
    intro shielded
    refine Rules.Triple.through (fun _ ↦ At C c fun locked ↦
      Refiled start locked ∧ Shielded (shielded ++ [page]) locked) ?_ fun _ ↦ ?_
    · refine update_triple at_stable fun pool h ↦ outcome_lift_bind fun _ _ ↦ ?_
      obtain ⟨hreach, hrefiled, hshielded⟩ := h
      have hprotect : ∀ {frame : ℕ} {ledger : Ledger},
          pool.locked.ledger.protect frame = .ok ledger →
          (∀ found, pool.locked.table.lookup page = some found → found = frame) →
          At C c (fun locked ↦ Refiled start locked ∧ Shielded (shielded ++ [page]) locked)
            { pool with locked := { pool.locked with ledger } } := by
        intro frame ledger hledger hfound
        have hevolves := Ledger.protect_evolves hledger
        refine ⟨hreach.move (@Move.speculative C _ _ ⟨ledger, pool.unlocked.clock⟩
          hevolves.indexed), hrefiled.refile ledger, fun other hother found hlookup hreplaceable ↦ ?_⟩
        rcases List.mem_append.mp hother with hother | hother
        · exact hshielded other hother found hlookup (hevolves.replaceable hreplaceable)
        · cases List.mem_singleton.mp hother
          cases hfound found hlookup
          exact Ledger.protect_replaceable hreach.indexed hledger hreplaceable
      cases hlookup : pool.locked.table.lookup page with
      | some frame =>
        dsimp only
        refine outcome_lift_bind fun ledger hledger ↦ hprotect hledger fun found hfound ↦ ?_
        rw [hlookup] at hfound
        exact (Option.some.inj hfound).symm
      | none =>
        have hnone : ∀ found, pool.locked.table.lookup page ≠ some found := by simp [hlookup]
        cases hpending : pool.locked.miss.findPending page with
        | some index =>
          dsimp only
          refine outcome_lift_bind fun entry _ ↦ outcome_lift_bind fun ledger hledger ↦ ?_
          exact hprotect hledger fun found hfound ↦ absurd hfound (hnone found)
        | none =>
          dsimp only
          refine ⟨hreach, hrefiled, fun other hother found hfound ↦ ?_⟩
          rcases List.mem_append.mp hother with hother | hother
          · exact hshielded other hother found hfound
          · cases List.mem_singleton.mp hother
            exact absurd hfound (hnone found)
    · have hrest := @ih (shielded ++ [page])
      rwa [List.append_assoc, List.singleton_append] at hrest

end Protection

/-! ## Positions -/

/-- What an outcome says of the page at its position. -/
def Explains (before after : Locked) (page : PageId) : Admission → Prop
  | .resident => (before.table.lookup page).isSome ∧
      after.table.lookup page = before.table.lookup page
  | .pending => IsPending after page
  | .admitted => Missing before page ∧ IsPending after page
  | .deferred => Missing before page
  | .rejected => before.fileIsLive page.file = false
  | .obsolete => False

/-- The pages that were admitted, in order. -/
def admittedPages (pages : List PageId) (outcomes : List Admission) : List PageId :=
  ((pages.zip outcomes).filter fun position ↦ position.2 = .admitted).map Prod.fst

/-- Each position of a window has its outcome, and the admitted pages are pending. -/
structure Window (pages : List PageId) (outcomes : List Admission) (before after : Locked) :
    Prop where
  shifted : Shifted (admittedPages pages outcomes) before after
  positions : List.Forall₂ (Explains before after) pages outcomes

/-- A report after further outcomes. -/
def PrefetchReport.tally (report : PrefetchReport) (outcomes : List Admission) : PrefetchReport where
  requested := report.requested
  resident := report.resident + outcomes.count .resident
  pending := report.pending + outcomes.count .pending
  admitted := report.admitted + outcomes.count .admitted
  deferred := report.deferred + outcomes.count .deferred
  rejected := report.rejected + outcomes.count .rejected

section Positions

variable {C : Config} {before middle after : Locked} {pages more : List PageId}
  {outcomes outcomes' : List Admission} {page : PageId} {added : List PageId}

theorem admittedPages_append (hlength : pages.length = outcomes.length) :
    admittedPages (pages ++ more) (outcomes ++ outcomes') =
      admittedPages pages outcomes ++ admittedPages more outcomes' := by
  rw [admittedPages, List.zip_append hlength, List.filter_append, List.map_append]
  rfl

theorem PrefetchReport.tally_append (report : PrefetchReport) (outcomes outcomes' : List Admission) :
    report.tally (outcomes ++ outcomes') = (report.tally outcomes).tally outcomes' := by
  simp only [tally, List.count_append, Nat.add_assoc]

/-- What was said of a page holds on. -/
theorem Explains.shift {outcome : Admission} (h : Explains before middle page outcome)
    (hshifted : Shifted added middle after) (hshield : Shielded [page] middle) :
    Explains before after page outcome := by
  cases outcome with
  | resident =>
    exact ⟨h.1, (hshifted.lookup hshield (List.mem_singleton_self _)).trans h.2⟩
  | pending => exact hshifted.isPending h
  | admitted => exact ⟨h.1, hshifted.isPending h.2⟩
  | deferred => exact h
  | rejected => exact h
  | obsolete => exact h

/-- What was said of a page relates to the beginning of the window. -/
theorem Explains.unshift {outcome : Admission} (h : Explains middle after page outcome)
    (hshifted : Shifted added before middle) (hshield : Shielded [page] before) :
    Explains before after page outcome := by
  have hlookup := hshifted.lookup hshield (List.mem_singleton_self _)
  have hmissing : Missing middle page → Missing before page :=
    fun hmissing ↦ hmissing.unshift hshifted hshield (List.mem_singleton_self _)
  cases outcome with
  | resident =>
    rw [Explains, hlookup] at h
    exact h
  | pending => exact h
  | admitted => exact ⟨hmissing h.1, h.2⟩
  | deferred => exact hmissing h
  | rejected =>
    rw [Explains, hshifted.fileIsLive] at h
    exact h
  | obsolete => exact h

theorem Shielded.mono (h : Shielded pages before) (hsubset : more ⊆ pages) : Shielded more before :=
  fun page hpage ↦ h page (hsubset hpage)

theorem Shielded.single (h : Shielded pages before) (hpage : page ∈ pages) : Shielded [page] before := by
  intro other hother
  rw [List.mem_singleton.mp hother]
  exact h page hpage

/-- Windows one after another. -/
theorem Window.append (h : Window pages outcomes before middle)
    (h' : Window more outcomes' middle after) (hshield : Shielded (pages ++ more) before) :
    Window (pages ++ more) (outcomes ++ outcomes') before after := by
  have hlength := h.positions.length_eq
  refine ⟨?_, ?_⟩
  · rw [admittedPages_append hlength]
    exact h.shifted.trans h'.shifted
  · refine List.rel_append ?_ ?_
    · refine List.forall₂_iff_zip.mpr ⟨hlength, fun {page} {outcome} hmem ↦ ?_⟩
      have hshielded := hshield.single (List.mem_append_left _ (List.of_mem_zip hmem).1)
      have hexplains := (List.forall₂_iff_zip.mp h.positions).2 hmem
      exact hexplains.shift h'.shifted (hshielded.shift h.shifted)
    · refine List.forall₂_iff_zip.mpr ⟨h'.positions.length_eq, fun {page} {outcome} hmem ↦ ?_⟩
      have hshielded := hshield.single (List.mem_append_right _ (List.of_mem_zip hmem).1)
      have hexplains := (List.forall₂_iff_zip.mp h'.positions).2 hmem
      exact hexplains.unshift h.shifted hshielded

theorem admittedPages_replicate (pages : List PageId) (outcome : Admission) :
    admittedPages pages (List.replicate pages.length outcome) =
      if outcome = .admitted then pages else [] := by
  induction pages with
  | nil => simp [admittedPages]
  | cons page pages ih =>
    rw [List.length_cons, List.replicate_succ]
    unfold admittedPages at ih ⊢
    rw [List.zip_cons_cons, List.filter_cons]
    split <;> simp_all

/-- The pages of a run have one outcome. -/
theorem Window.run {outcome : Admission}
    (hshifted : Shifted (if outcome = .admitted then pages else []) before after)
    (h : ∀ page ∈ pages, Explains before after page outcome) :
    Window pages (List.replicate pages.length outcome) before after := by
  refine ⟨?_, List.forall₂_iff_zip.mpr ⟨(List.length_replicate ..).symm, fun {page} {found} hmem ↦ ?_⟩⟩
  · rw [admittedPages_replicate]
    exact hshifted
  · obtain ⟨hpage, hfound⟩ := List.of_mem_zip hmem
    cases List.eq_of_mem_replicate hfound
    exact h page hpage

/-- The pages of a decided run. -/
theorem Decided.window {outcome : Admission} (h : Decided pages middle outcome after)
    (hshifted : Shifted [] before middle) (hmissing : ∀ page ∈ pages, Missing before page) :
    Window pages (List.replicate pages.length outcome) before after := by
  rcases h with ⟨rfl, haccepted⟩ | ⟨rfl, hdeclined⟩
  · have hadded : Shifted pages before after := hshifted.trans haccepted.shifted
    refine .run hadded fun page hpage ↦ ⟨hmissing page hpage, ?_⟩
    unfold IsPending
    rw [hadded.pending]
    exact List.mem_append_right _ hpage
  · exact .run (hshifted.trans hdeclined.shifted) hmissing

theorem PrefetchReport.record_eq_ok {report after : PrefetchReport} {outcome : Admission} {count : ℕ}
    (h : report.record outcome count = .ok after) :
    after = report.tally (List.replicate count outcome) ∧ outcome ≠ .obsolete := by
  cases outcome with
  | obsolete => cases h
  | _ =>
    cases h
    simp [tally, List.count_replicate]

theorem prefetchClassify_eq_ok {known : Option Admission}
    (h : prefetchClassify C before page = .ok known) :
    (∀ outcome, known = some outcome →
      Explains before before page outcome ∧ outcome ≠ .admitted ∧ outcome ≠ .deferred) ∧
      (known = none → Missing before page) := by
  simp only [prefetchClassify, bind_eq_ok] at h
  obtain ⟨_, -, h⟩ := h
  split at h
  · rename_i hdead
    cases h
    refine ⟨fun outcome houtcome ↦ ?_, fun hnone ↦ by cases hnone⟩
    cases houtcome
    exact ⟨hdead, by simp⟩
  rename_i hlive
  split at h
  · rename_i hmapped
    cases h
    refine ⟨fun outcome houtcome ↦ ?_, fun hnone ↦ by cases hnone⟩
    cases houtcome
    exact ⟨⟨hmapped, rfl⟩, by simp⟩
  rename_i hunmapped
  split at h
  · rename_i hpending
    cases h
    refine ⟨fun outcome houtcome ↦ ?_, fun hnone ↦ by cases hnone⟩
    cases houtcome
    refine ⟨?_, by simp⟩
    by_contra habsent
    rw [findPending_eq_none_iff.mpr habsent] at hpending
    cases hpending
  · rename_i hpending
    cases h
    refine ⟨fun outcome houtcome ↦ (by cases houtcome), fun _ ↦ ⟨?_, ?_, ?_⟩⟩
    · simpa using hunmapped
    · simpa using hpending
    · simpa using hlive

/-- The tail of a run is missing as well. -/
theorem runTail_eq_ok {tail : List PageId} :
    ∀ {limit : ℕ} {last : PageId} {pages : List PageId},
      runTail C before limit last pages = .ok tail →
      tail <+: pages ∧ ∀ page ∈ tail, Missing before page := by
  intro limit
  induction limit generalizing tail with
  | zero =>
    intro last pages h
    cases h
    exact ⟨List.nil_prefix, fun page hpage ↦ absurd hpage List.not_mem_nil⟩
  | succ limit ih =>
    intro last pages h
    have hnil : tail = [] → tail <+: pages ∧ ∀ page ∈ tail, Missing before page := by
      rintro rfl
      exact ⟨List.nil_prefix, fun page hpage ↦ absurd hpage List.not_mem_nil⟩
    cases pages with
    | nil =>
      cases h
      exact hnil rfl
    | cons page pages =>
      unfold runTail at h
      split at h
      · simp only [bind_eq_ok] at h
        obtain ⟨known, hknown, h⟩ := h
        split at h
        · cases h
          exact hnil rfl
        · rename_i hunknown
          simp only [bind_eq_ok, pure_ok, Except.ok.injEq] at h
          obtain ⟨rest, hrest, rfl⟩ := h
          obtain ⟨hinitial, hmissing⟩ := ih hrest
          refine ⟨List.prefix_cons_inj page |>.mpr hinitial, fun other hother ↦ ?_⟩
          rcases List.mem_cons.mp hother with rfl | hother
          · exact (prefetchClassify_eq_ok hknown).2 (by simpa using hunknown)
          · exact hmissing other hother
      · cases h
        exact hnil rfl

end Positions

/-! ## The examined pages -/

section Examined

variable {C : Config} (k : Known)

/-- Every page of a window has an outcome, and the report counts them. -/
theorem prefetchExamined_triple (turns : ℕ) :
    ∀ {pages : List PageId} {report : PrefetchReport} {before : Locked}, Shielded pages before →
      (rules C).Triple (At C k.admitted.custody fun locked ↦ locked = before)
        (prefetchExamined C turns pages report)
        fun result ↦ At C k.admitted.custody fun after ↦
          ∃ outcomes, Window pages outcomes before after ∧ result = report.tally outcomes := by
  induction turns with
  | zero =>
    intro pages report before hshield
    refine (ensure_triple at_stable).bind fun _ ↦ Rules.Triple.assume fun hpages ↦ ?_
    rw [hpages]
    exact Rules.Triple.done fun pool h ↦ ⟨h.1, [], ⟨h.2 ▸ .refl _, .nil⟩, by simp [PrefetchReport.tally]⟩
  | succ turns ih =>
    intro pages report before hshield
    cases pages with
    | nil =>
      exact Rules.Triple.done fun pool h ↦
        ⟨h.1, [], ⟨h.2 ▸ .refl _, .nil⟩, by simp [PrefetchReport.tally]⟩
    | cons page pages =>
      -- the positions before `rest` are settled
      have hrest : ∀ {chunk rest : List PageId} {outcomes : List Admission},
          page :: pages = chunk ++ rest →
          (rules C).Triple (At C k.admitted.custody (Window chunk outcomes before))
            (prefetchExamined C turns rest (report.tally outcomes))
            fun result ↦ At C k.admitted.custody fun after ↦ ∃ outcomes,
              Window (page :: pages) outcomes before after ∧ result = report.tally outcomes := by
        intro chunk rest outcomes hsplit
        rw [hsplit] at hshield ⊢
        refine snapshot_triple fun middle hchunk ↦ ?_
        have hshielded : Shielded rest middle :=
          (hshield.mono (List.subset_append_right _ _)).shift hchunk.shifted
        refine (ih hshielded).mono fun result pool h ↦ ?_
        obtain ⟨hreach, outcomes', hwindow, rfl⟩ := h
        exact ⟨hreach, outcomes ++ outcomes', hchunk.append hwindow hshield,
          (report.tally_append outcomes outcomes').symm⟩
      refine Rules.Triple.through (fun known pool ↦ prefetchClassify C before page = .ok known ∧
        At C k.admitted.custody (fun locked ↦ locked = before) pool) ?_ fun known ↦
          Rules.Triple.assume fun hknown ↦ ?_
      · refine locked_triple at_stable fun pool h ↦ outcome_lift_bind fun known hknown ↦ ?_
        exact ⟨h.2 ▸ hknown, h⟩
      obtain ⟨hsome, hnone⟩ := prefetchClassify_eq_ok hknown
      cases known with
      | some outcome =>
        obtain ⟨hexplains, hadmitted⟩ := hsome outcome rfl
        refine (lift_triple at_stable).bind fun counted ↦ Rules.Triple.assume fun hcounted ↦ ?_
        obtain ⟨rfl, -⟩ := PrefetchReport.record_eq_ok hcounted
        refine (@hrest [page] pages (List.replicate 1 outcome) rfl).weaken fun pool h ↦ ?_
        obtain ⟨hreach, rfl⟩ := h
        refine ⟨hreach, @Window.run _ _ [page] outcome ?_ fun other hother ↦ ?_⟩
        · rw [if_neg hadmitted.1]
          exact .refl _
        · rw [List.mem_singleton.mp hother]
          exact hexplains
      | none =>
        refine Rules.Triple.through (fun tail pool ↦
          runTail C before (C.prefetch.vectorWidth - 1) page pages = .ok tail ∧
            At C k.admitted.custody (fun locked ↦ locked = before) pool) ?_ fun tail ↦
              Rules.Triple.assume fun htail ↦ ?_
        · refine locked_triple at_stable fun pool h ↦ outcome_lift_bind fun tail htail ↦ ?_
          exact ⟨h.2 ▸ htail, h⟩
        obtain ⟨⟨rest, hsplit⟩, htailMissing⟩ := runTail_eq_ok htail
        have hmissing : ∀ other ∈ page :: tail, Missing before other := by
          intro other hother
          rcases List.mem_cons.mp hother with rfl | hother
          · exact hnone rfl
          · exact htailMissing other hother
        refine Rules.Triple.through (fun _ ↦ At C k.admitted.custody (Shifted [] before)) ?_ fun _ ↦ ?_
        · exact (prefetchReplaceUnused_triple k.admitted _).weaken fun pool h ↦
            ⟨h.1, h.2 ▸ .refl before⟩
        refine Rules.Triple.through (fun count pool ↦ count ≤ tail.length + 1 ∧
          At C k.admitted.custody (Shifted [] before) pool) ?_ fun count ↦
            Rules.Triple.assume fun hcount ↦ ?_
        · refine locked_triple at_stable fun pool h ↦ outcome_lift_bind fun available _ ↦ ?_
          exact ⟨(min_le_left _ _).trans (min_le_left _ _), h⟩
        split
        · -- no credit is left for the run
          have hdrop : pages.drop tail.length = rest := by rw [← hsplit, List.drop_left]
          have htally : { report with deferred := report.deferred + (tail.length + 1) } =
              report.tally (List.replicate (page :: tail).length .deferred) := by
            simp [PrefetchReport.tally, List.count_replicate]
          rw [hdrop, htally]
          refine (@hrest (page :: tail) rest _ (by rw [← hsplit]; rfl)).weaken fun pool h ↦ ?_
          exact ⟨h.1, @Window.run _ _ (page :: tail) .deferred h.2 hmissing⟩
        · refine (ledger_triple LedgerM.reconcileFeedback_evolving
            fun _ _ hledger h ↦ Shifted.evolve h hledger).bind fun _ ↦ ?_
          have hrun : ∀ other ∈ (page :: pages).take count, Missing before other := by
            intro other hother
            rw [← hsplit, ← List.cons_append, List.take_append_of_le_length hcount] at hother
            exact hmissing other (List.mem_of_mem_take hother)
          have hlength : ((page :: pages).take count).length = count := by
            rw [← hsplit, List.length_take, ← List.cons_append, List.length_append]
            exact min_eq_left (hcount.trans (Nat.le_add_right _ _))
          refine Rules.Triple.through (fun outcome ↦ At C k.admitted.custody
            (Window ((page :: pages).take count) (List.replicate count outcome) before))
            ?_ fun outcome ↦ ?_
          · refine snapshot_triple fun middle hmiddle ↦ ?_
            have hstill : ∀ other ∈ (page :: pages).take count, Missing middle other :=
              fun other hother ↦ (hrun other hother).shift hmiddle
            refine (prefetchAdmitRun_triple k .explicit hstill).mono fun outcome pool h ↦ ?_
            have hwindow := h.2.window hmiddle hrun
            rw [hlength] at hwindow
            exact ⟨h.1, hwindow⟩
          · refine (lift_triple at_stable).bind fun counted ↦ Rules.Triple.assume fun hcounted ↦ ?_
            obtain ⟨rfl, -⟩ := PrefetchReport.record_eq_ok hcounted
            exact @hrest ((page :: pages).take count) ((page :: pages).drop count) _
              (List.take_append_drop _ _).symm

end Examined

/-! ## The call -/

/-- The page is mapped or has a pending miss. -/
def IsHeld (locked : Locked) (page : PageId) : Prop :=
  (locked.table.lookup page).isSome ∨ IsPending locked page

/-- The page is mapped to a resident frame that holds it. -/
def IsResident (locked : Locked) (page : PageId) : Prop :=
  ∃ frame, locked.table.lookup page = some frame ∧ (locked.frames frame).state = .resident ∧
    (locked.frames frame).page = page

/-- What a call of `prefetch` does to the pages that it examines. -/
structure Prefetched (pages : List PageId) (outcomes : List Admission) (before after : Locked) :
    Prop where
  positions : List.Forall₂ (Explains before after) pages outcomes
  pending : after.miss.pending.map PendingMiss.page =
    before.miss.pending.map PendingMiss.page ++ admittedPages pages outcomes
  reads : after.readsInFlight = before.readsInFlight + (admittedPages pages outcomes).length
  kept : ∀ page ∈ pages, IsHeld before page → IsHeld after page

/-- The examined pages are reported by their outcomes, the others as deferred. -/
def Reported (C : Config) (pages : List PageId) (before : Locked) (report : PrefetchReport)
    (after : Locked) : Prop :=
  let examined := pages.take C.prefetch.requestLimit
  ∃ outcomes, Prefetched examined outcomes before after ∧ report = PrefetchReport.tally
    ⟨pages.length, 0, 0, 0, pages.length - examined.length, 0⟩ outcomes

section Call

variable {C : Config} (k : Known) {before start after : Locked} {pages : List PageId}
  {outcomes : List Admission}

/-- The ledger of a window does not matter for what it did. -/
theorem Window.prefetched (h : Window pages outcomes start after) (hshield : Shielded pages start)
    (hstart : Refiled before start) : Prefetched pages outcomes before after := by
  obtain ⟨ledger, rfl⟩ := hstart
  refine ⟨?_, h.shifted.pending, h.shifted.reads, fun page hpage hheld ↦ ?_⟩
  · refine h.positions.imp fun page outcome hexplains ↦ ?_
    cases outcome with
    | admitted => exact ⟨⟨hexplains.1.lookup, hexplains.1.pending, hexplains.1.live⟩, hexplains.2⟩
    | deferred => exact ⟨hexplains.lookup, hexplains.pending, hexplains.live⟩
    | _ => exact hexplains
  · rcases hheld with hmapped | hpending
    · refine .inl ?_
      rw [h.shifted.lookup hshield hpage]
      exact hmapped
    · exact .inr (h.shifted.isPending hpending)

theorem refile_triple {c : Custody} {α : Type} {change : Ledger → Except Assertion (α × Ledger)}
    (h : ∀ ledger result after, change ledger = .ok (result, after) → ledger.Indexed →
      after.Indexed) :
    (rules C).Triple (At C c (Refiled before)) (PoolM.updateLedger change)
      fun _ ↦ At C c (Refiled before) :=
  updateLedger_triple fun _ result ledger hrefiled hchange ↦
    ⟨h _ result ledger hchange, hrefiled.refile ledger⟩

theorem Reported.refile {report : PrefetchReport} (h : Reported C pages before report after)
    (ledger : Ledger) : Reported C pages before report { after with ledger } := by
  obtain ⟨outcomes, hprefetched, hreport⟩ := h
  exact ⟨outcomes, ⟨hprefetched.positions, hprefetched.pending, hprefetched.reads,
    hprefetched.kept⟩, hreport⟩

theorem prefetch_triple (pages : List PageId) :
    (rules C).Triple (At C k.admitted.custody fun locked ↦ locked = before) (prefetch C pages)
      fun report ↦ At C k.admitted.custody (Reported C pages before report) := by
  refine Rules.Triple.through (fun _ ↦ At C k.admitted.custody (Refiled before)) ?_ fun _ ↦ ?_
  · refine (ledger_triple LedgerM.reconcile_evolving fun _ ledger _ h ↦ h.refile ledger).weaken
      fun pool h ↦ ⟨h.1, before.ledger, h.2⟩
  refine (refile_triple fun ledger _ after hchange hindexed ↦ ?_).bind fun _ ↦ ?_
  · cases hchange
    exact hindexed
  refine (refile_triple fun ledger _ after hchange hindexed ↦ ?_).bind fun _ ↦ ?_
  · cases hchange
    exact hindexed
  refine Rules.Triple.bind ((@prefetchProtect_triple C _ before _ []).weaken fun pool h ↦
    ⟨h.1, h.2, fun page hpage ↦ absurd hpage List.not_mem_nil⟩) fun _ ↦ ?_
  refine snapshot_triple fun start hstart ↦ ?_
  refine Rules.Triple.through (fun report ↦ At C k.admitted.custody (Reported C pages before report))
    ?_ fun report ↦ ?_
  · refine (prefetchExamined_triple k _ hstart.2).mono fun report pool h ↦ ?_
    obtain ⟨hreach, outcomes, hwindow, hreport⟩ := h
    exact ⟨hreach, outcomes, hwindow.prefetched hstart.2 hstart.1, hreport⟩
  refine Rules.Triple.through (fun _ ↦ At C k.admitted.custody (Reported C pages before report))
    ?_ fun _ ↦ ?_
  · refine updateLedger_triple fun locked _ ledger hknown hchange ↦ ?_
    cases hchange
    exact ⟨id, hknown.refile _⟩
  exact (ensure_triple at_stable).bind fun _ ↦ Rules.Triple.assume fun _ ↦
    Rules.Triple.done fun pool h ↦ h

/-- No page has two pending misses. -/
theorem Reach.pending_nodup {c : Custody} {pool : Pool} (h : Reach C c pool) :
    (pool.locked.miss.pending.map PendingMiss.page).Nodup := by
  refine List.nodup_iff_getElem?_ne_getElem?.mpr fun low high hlt hhigh heq ↦ ?_
  rw [List.length_map] at hhigh
  have hlow := List.getElem?_eq_getElem (hlt.trans hhigh)
  have hhigh' := List.getElem?_eq_getElem hhigh
  rw [List.getElem?_map, List.getElem?_map, hlow, hhigh', Option.map_some, Option.map_some,
    Option.some.injEq] at heq
  obtain ⟨entry, hentry, houtcome, hpage, -⟩ :=
    h.credited.table.of_mem_pending (List.mem_of_getElem? hlow)
  obtain ⟨entry', hentry', houtcome', hpage', -⟩ :=
    h.credited.table.of_mem_pending (List.mem_of_getElem? hhigh')
  have hslot := h.paged.distinct _ entry _ entry' ⟨hentry, houtcome⟩ ⟨hentry', houtcome'⟩
    (hpage.trans (heq.trans hpage'.symm))
  exact hlt.ne (h.credited.table.position_eq hlow hhigh' hslot)

/-- A page with a pending miss is not mapped. -/
theorem Reach.lookup_pending {c : Custody} {pool : Pool} (h : Reach C c pool)
    (hsettling : c.settling = none) {page : PageId} (hpending : IsPending pool.locked page) :
    pool.locked.table.lookup page = none := by
  obtain ⟨pending, hmem, rfl⟩ := List.mem_map.mp hpending
  obtain ⟨entry, hentry, houtcome, hpage, -⟩ := h.credited.table.of_mem_pending hmem
  rw [← hpage]
  refine h.paged.fresh _ entry ⟨hentry, houtcome⟩ fun settled hsettled ↦ ?_
  rw [hsettling] at hsettled
  cases hsettled

/-- Each outcome of an explicit window is counted. -/
theorem count_outcomes (h : List.Forall₂ (Explains before after) pages outcomes) :
    pages.length = outcomes.count .resident + outcomes.count .pending + outcomes.count .admitted +
      outcomes.count .deferred + outcomes.count .rejected := by
  induction h with
  | nil => rfl
  | @cons page outcome pages outcomes hexplains _ ih =>
    cases outcome with
    | obsolete => exact absurd hexplains id
    | _ =>
      simp only [List.length_cons, List.count_cons, ih]
      simp
      omega

theorem length_admittedPages (h : List.Forall₂ (Explains before after) pages outcomes) :
    (admittedPages pages outcomes).length = outcomes.count .admitted := by
  induction h with
  | nil => rfl
  | @cons page outcome pages outcomes _ _ ih =>
    unfold admittedPages at ih ⊢
    rw [List.zip_cons_cons, List.filter_cons, List.count_cons]
    split <;> simp_all

/-- The loop over the examined pages is never cut short by its bound. -/
theorem prefetchExamined_succ (turns : ℕ) :
    ∀ {pages : List PageId} {report : PrefetchReport}, pages.length ≤ turns →
      prefetchExamined C (turns + 1) pages report = prefetchExamined C turns pages report := by
  induction turns with
  | zero =>
    intro pages report hpages
    rw [List.length_eq_zero_iff.mp (Nat.le_zero.mp hpages)]
    rfl
  | succ turns ih =>
    intro pages report hpages
    cases pages with
    | nil => rfl
    | cons page pages =>
      have hlength : pages.length ≤ turns := Nat.le_of_succ_le_succ hpages
      rw [prefetchExamined, prefetchExamined]
      refine bind_congr fun known ↦ ?_
      cases known with
      | some outcome => exact bind_congr fun counted ↦ ih hlength
      | none =>
        refine bind_congr fun tail ↦ bind_congr fun _ ↦ bind_congr fun count ↦ ?_
        split
        · refine ih ?_
          rw [List.length_drop]
          omega
        · refine bind_congr fun _ ↦ bind_congr fun outcome ↦ bind_congr fun counted ↦ ih ?_
          rw [List.length_drop, List.length_cons]
          omega

theorem prefetchExamined_turns (pages : List PageId) (report : PrefetchReport) (extra : ℕ) :
    prefetchExamined C (pages.length + extra) pages report =
      prefetchExamined C pages.length pages report := by
  induction extra with
  | zero => rfl
  | succ extra ih => exact (prefetchExamined_succ _ (Nat.le_add_right _ _)).trans ih

end Call

/-! ## Results -/

/-- In every reachable pool, whatever pages a caller asks for, each examined position has one
outcome and the report counts every requested page once. The admitted pages are new, they are the
pages that have become pending, and no page has two reads, however often it is asked for. The loop
that forms the runs ends because no page is left. -/
theorem prefetch_reports_every_page (C : Config) (pages : List PageId) :
    (∀ before, (rules C).Triple (At C .empty fun locked ↦ locked = before) (prefetch C pages)
      fun report ↦ At C .empty fun after ↦ ∃ outcomes,
        List.Forall₂ (Explains before after) (pages.take C.prefetch.requestLimit) outcomes ∧
        report = PrefetchReport.tally ⟨pages.length, 0, 0, 0,
          pages.length - (pages.take C.prefetch.requestLimit).length, 0⟩ outcomes ∧
        report.requested = pages.length ∧
        report.requested =
          report.resident + report.pending + report.admitted + report.deferred + report.rejected ∧
        after.readsInFlight = before.readsInFlight + report.admitted ∧
        after.miss.pending.map PendingMiss.page = before.miss.pending.map PendingMiss.page ++
          admittedPages (pages.take C.prefetch.requestLimit) outcomes ∧
        (admittedPages (pages.take C.prefetch.requestLimit) outcomes).length = report.admitted ∧
        (after.miss.pending.map PendingMiss.page).Nodup ∧
        ∀ page, IsPending after page → after.table.lookup page = none) ∧
    ∀ examined report extra, prefetchExamined C (examined.length + extra) examined report =
      prefetchExamined C examined.length examined report := by
  refine ⟨fun before ↦ ?_, prefetchExamined_turns⟩
  refine (@prefetch_triple C ⟨0, ∅, 0, none, none, ∅⟩ before pages).mono fun report pool h ↦ ?_
  obtain ⟨hreach, outcomes, hprefetched, rfl⟩ := h
  have hcount := count_outcomes hprefetched.positions
  have hadmitted := length_admittedPages hprefetched.positions
  have hexamined : (pages.take C.prefetch.requestLimit).length ≤ pages.length :=
    List.length_take_le' ..
  refine ⟨hreach, outcomes, hprefetched.positions, rfl, rfl, ?_, ?_, hprefetched.pending, ?_,
    hreach.pending_nodup, fun page ↦ hreach.lookup_pending rfl⟩
  · simp only [PrefetchReport.tally]
    omega
  · simp only [PrefetchReport.tally]
    rw [hprefetched.reads, hadmitted, Nat.zero_add]
  · simp only [PrefetchReport.tally]
    rw [hadmitted, Nat.zero_add]

end DiosPool.Pool
