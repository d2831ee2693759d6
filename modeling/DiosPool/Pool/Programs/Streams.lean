import DiosPool.Pool.FailedMiss
import DiosPool.Pool.Programs.Explicit
import DiosPool.Pool.Programs.Steps

/-!
# Streams of cold demand

A poll extends the streams that were recognised: the pages of a window that are neither mapped nor
pending are admitted in runs, and the cursor of the stream moves on past what is mapped, pending or
admitted. It stops where an admission is refused.
-/

namespace DiosPool.Pool

open Driver Foundation

/-! ## What a window of a stream changes -/

/-- Pages have become pending, and the stream of a reader has moved on past pages that are mapped or
pending, unless it has begun anew. -/
structure Extended (reader : ℕ) (before after : Locked) : Prop where
  table : after.table = before.table
  files : after.files = before.files
  pending : ∃ added, after.miss.pending.map PendingMiss.page =
    before.miss.pending.map PendingMiss.page ++ added
  others : ∀ other, other ≠ reader →
    (before.ledger.patterns other).Steady (after.ledger.patterns other)
  incarnation : (before.ledger.patterns reader).incarnation ≤
    (after.ledger.patterns reader).incarnation
  cursor : (after.ledger.patterns reader).incarnation =
      (before.ledger.patterns reader).incarnation →
    ∀ first, (before.ledger.patterns reader).cursor = some first → ∃ count,
      (after.ledger.patterns reader).cursor = some ⟨first.file, first.granuleIdx + count⟩ ∧
      ∀ index < count, IsHeld after ⟨first.file, first.granuleIdx + index⟩

/-- What is known of the pages of a window still holds. -/
structure Classified (classes : List (PageId × Option Admission)) (locked : Locked) : Prop where
  distinct : (classes.map Prod.fst).Nodup
  missing : ∀ page, (page, none) ∈ classes → Missing locked page
  held : ∀ page outcome, (page, some outcome) ∈ classes → outcome = .rejected ∨ IsHeld locked page

section Extensions

variable {reader : ℕ} {before middle after : Locked} {page : PageId}
  {classes : List (PageId × Option Admission)}

theorem Extended.refl (reader : ℕ) (locked : Locked) : Extended reader locked locked := by
  refine ⟨rfl, rfl, ⟨[], (List.append_nil _).symm⟩, fun _ _ ↦ .refl _, le_rfl, fun _ first h ↦ ?_⟩
  exact ⟨0, h, fun index hindex ↦ absurd hindex (Nat.not_lt_zero _)⟩

/-- Pages stay mapped or pending as long as only pending pages are added. -/
theorem IsHeld.extend (h : IsHeld before page) (htable : after.table = before.table)
    (hpending : ∃ added, after.miss.pending.map PendingMiss.page =
      before.miss.pending.map PendingMiss.page ++ added) : IsHeld after page := by
  obtain ⟨added, hadded⟩ := hpending
  rcases h with hmapped | hpending
  · exact .inl (htable ▸ hmapped)
  · refine .inr ?_
    rw [IsPending, hadded]
    exact List.mem_append_left _ hpending

/-- Something else happens that adds pending pages, or has a stream begin anew. -/
theorem Extended.evolve (h : Extended reader before middle) (htable : after.table = middle.table)
    (hfiles : after.files = middle.files)
    (hpending : ∃ added, after.miss.pending.map PendingMiss.page =
      middle.miss.pending.map PendingMiss.page ++ added)
    (hledger : middle.ledger.Evolves after.ledger) : Extended reader before after := by
  refine ⟨htable.trans h.table, hfiles.trans h.files, ?_,
    fun other hother ↦ (h.others other hother).trans (hledger.steady other),
    h.incarnation.trans (hledger.steady reader).incarnation, fun hsame first hfirst ↦ ?_⟩
  · obtain ⟨added, hadded⟩ := h.pending
    obtain ⟨more, hmore⟩ := hpending
    exact ⟨added ++ more, by rw [hmore, hadded, List.append_assoc]⟩
  · have hmiddle : (middle.ledger.patterns reader).incarnation =
        (before.ledger.patterns reader).incarnation :=
      le_antisymm (hsame ▸ (hledger.steady reader).incarnation) h.incarnation
    obtain ⟨count, hcount, hheld⟩ := h.cursor hmiddle first hfirst
    refine ⟨count, ?_, fun index hindex ↦ (hheld index hindex).extend htable hpending⟩
    rw [(hledger.steady reader).cursor (hsame.trans hmiddle.symm), hcount]

theorem Extended.refile (h : Extended reader before after) {ledger : Ledger}
    (hledger : after.ledger.Evolves ledger) : Extended reader before { after with ledger } :=
  h.evolve rfl rfl ⟨[], (List.append_nil _).symm⟩ hledger

theorem Classified.refile (h : Classified classes after) (ledger : Ledger) :
    Classified classes { after with ledger } :=
  ⟨h.distinct, fun page hpage ↦
    ⟨(h.missing page hpage).lookup, (h.missing page hpage).pending, (h.missing page hpage).live⟩,
    h.held⟩

theorem Extended.decide {run : List PageId} {outcome : Admission} (h : Extended reader before middle)
    (hdecided : Decided run middle outcome after) : Extended reader before after := by
  rcases hdecided with ⟨-, haccepted⟩ | ⟨-, hdeclined⟩
  · exact h.evolve haccepted.table haccepted.files ⟨run, haccepted.pending⟩ haccepted.ledger
  · have hshifted := hdeclined.shifted
    refine h.evolve ?_ hshifted.files ⟨[], hshifted.pending⟩ hshifted.ledger
    rw [hdeclined.kept]

/-- The rest of a window, after its first run was admitted. -/
theorem Classified.rest {run rest : List (PageId × Option Admission)}
    (h : Classified (run ++ rest) middle) (haccepted : Accepted (run.map Prod.fst) middle after) :
    Classified rest after := by
  have hdistinct := h.distinct
  rw [List.map_append] at hdistinct
  refine ⟨(List.nodup_append.mp hdistinct).2.1, fun page hpage ↦ ?_, fun page outcome hpage ↦ ?_⟩
  · have hmissing := h.missing page (List.mem_append_right _ hpage)
    have hfresh : page ∉ run.map Prod.fst := by
      intro hrun
      refine (List.nodup_append.mp hdistinct).2.2 page hrun page ?_ rfl
      exact List.mem_map.mpr ⟨_, hpage, rfl⟩
    refine ⟨?_, ?_, ?_⟩
    · rw [haccepted.table]
      exact hmissing.lookup
    · rw [findPending_eq_none_iff, IsPending, haccepted.pending, List.mem_append]
      rintro (hold | hnew)
      · exact findPending_eq_none_iff.mp hmissing.pending hold
      · exact hfresh hnew
    · rw [haccepted.shifted.fileIsLive]
      exact hmissing.live
  · refine (h.held page outcome (List.mem_append_right _ hpage)).imp_right fun hheld ↦ ?_
    exact hheld.extend haccepted.table ⟨_, haccepted.pending⟩

end Extensions

/-! ## The cursor -/

section Cursor

variable {C : Config} {reader : ℕ} {before after : Locked}

theorem Extended.issue {ledger : Ledger} {page : PageId} (h : Extended reader before after)
    (hheld : IsHeld after page) (hissued : after.ledger.issued C.prefetch reader page = .ok ledger) :
    Extended reader before { after with ledger } := by
  simp only [Ledger.issued, bind_eq_ok] at hissued
  obtain ⟨issued, hpattern, hset⟩ := hissued
  obtain ⟨hcursor, hnext⟩ := Pattern.issued_eq_ok hpattern
  have hsteady := (Ledger.patternChanged_relinks hset).steady
  have hreader := hsteady reader
  simp only [Function.update_self] at hreader
  have hgrows : (after.ledger.patterns reader).incarnation ≤ issued.incarnation := by
    rcases hnext with ⟨hsame, -⟩ | hrenewed
    · exact hsame.ge
    · exact hrenewed ▸ Nat.le_succ _
  refine ⟨h.table, h.files, h.pending, fun other hother ↦ ?_,
    h.incarnation.trans (hgrows.trans hreader.incarnation), fun hsame first hfirst ↦ ?_⟩
  · have hkept := hsteady other
    simp only [Function.update_of_ne hother] at hkept
    exact (h.others other hother).trans hkept
  · have hupper := hreader.incarnation
    have hlower := h.incarnation
    dsimp only at hsame
    obtain ⟨count, hcount, hpassed⟩ := h.cursor (by omega) first hfirst
    rcases hnext with ⟨hcontinued, hmoved⟩ | hrenewed
    · rw [hcursor, Option.some.injEq] at hcount
      subst hcount
      refine ⟨count + 1, ?_, fun index hindex ↦ ?_⟩
      · dsimp only
        rw [hreader.cursor (by omega), hmoved, Nat.add_assoc]
      · rcases Nat.lt_succ_iff_lt_or_eq.mp hindex with hearlier | rfl
        · exact hpassed index hearlier
        · exact hheld
    · omega

theorem Extended.issuePages {pages : List PageId} {ledger : Ledger} :
    ∀ {after : Locked}, Extended reader before after → (∀ page ∈ pages, IsHeld after page) →
      issuePages C reader pages after.ledger = .ok ledger →
      Extended reader before { after with ledger } ∧ (after.ledger.Indexed → ledger.Indexed) := by
  induction pages with
  | nil =>
    intro after h hheld hissued
    cases hissued
    exact ⟨h, id⟩
  | cons page pages ih =>
    intro after h hheld hissued
    simp only [Pool.issuePages, bind_eq_ok] at hissued
    obtain ⟨moved, hmoved, hissued⟩ := hissued
    have hstep := h.issue (hheld page (List.mem_cons_self ..)) hmoved
    have hindexed : after.ledger.Indexed → moved.Indexed := by
      simp only [Ledger.issued, bind_eq_ok] at hmoved
      obtain ⟨issued, -, hset⟩ := hmoved
      exact Ledger.setPattern_indexed hset
    obtain ⟨hrest, hkept⟩ := @ih { after with ledger := moved } hstep
      (fun other hother ↦ hheld other (List.mem_cons_of_mem _ hother)) hissued
    exact ⟨hrest, fun h ↦ hkept (hindexed h)⟩

end Cursor

/-! ## Windows of a stream -/

section Windows

variable {C : Config} (k : Known) {before : Locked} {reader : ℕ} {source : Source}

/-- What the loop of an automatic window knows. -/
def StreamAt (C : Config) (k : Known) (before : Locked) (reader : ℕ)
    (classes : List (PageId × Option Admission)) : Pool → Prop :=
  At C k.admitted.custody fun locked ↦ Extended reader before locked ∧ Classified classes locked

/-- What the loop knows after a run: the stream goes on if the pages of the run are mapped or
pending. -/
def RunAt (C : Config) (k : Known) (before : Locked) (reader : ℕ) (run : List PageId)
    (rest : List (PageId × Option Admission)) (outcome : Admission) : Pool → Prop :=
  At C k.admitted.custody fun locked ↦ Extended reader before locked ∧
    (outcome ∈ [.resident, .pending, .admitted] →
      Classified rest locked ∧ ∀ page ∈ run, IsHeld locked page)

theorem issuePages_triple {run : List PageId} {rest : List (PageId × Option Admission)}
    {outcome : Admission} (houtcome : outcome ∈ [.resident, .pending, .admitted]) :
    (rules C).Triple (RunAt C k before reader run rest outcome)
      (PoolM.updateLedger fun ledger ↦ do return ((), ← issuePages C reader run ledger))
      fun _ ↦ StreamAt C k before reader rest := by
  refine updateLedger_triple fun locked _ ledger hknown hchange ↦ ?_
  obtain ⟨hclassified, hheld⟩ := hknown.2 houtcome
  simp only [bind_eq_ok, pure_ok, Except.ok.injEq, Prod.mk.injEq] at hchange
  obtain ⟨issued, hissued, -, rfl⟩ := hchange
  obtain ⟨hmoved, hindexed⟩ := hknown.1.issuePages hheld hissued
  exact ⟨hindexed, hmoved, hclassified.refile _⟩

theorem admitAutomaticRun_triple {run rest : List (PageId × Option Admission)}
    (hrun : ∀ entry ∈ run, entry.2 = none) :
    (rules C).Triple (StreamAt C k before reader (run ++ rest))
      (admitAutomaticRun C source (run.map Prod.fst))
      (RunAt C k before reader (run.map Prod.fst) rest) := by
  refine Rules.Triple.through (fun _ ↦ StreamAt C k before reader (run ++ rest)) ?_ fun _ ↦ ?_
  · exact ledger_triple LedgerM.reconcileFeedback_evolving fun locked ledger hevolves h ↦
      ⟨h.1.refile hevolves, h.2.refile ledger⟩
  refine (glance_triple at_stable _).bind fun obsolete ↦ ?_
  split
  · exact Rules.Triple.done fun pool h ↦ ⟨h.1, h.2.1, fun houtcome ↦ by simp at houtcome⟩
  · refine snapshot_triple fun middle hmiddle ↦ ?_
    have hmissing : ∀ page ∈ run.map Prod.fst, Missing middle page := by
      intro page hpage
      obtain ⟨entry, hentry, rfl⟩ := List.mem_map.mp hpage
      refine hmiddle.2.missing _ (List.mem_append_left _ ?_)
      rw [← hrun entry hentry]
      exact hentry
    refine (prefetchAdmitRun_triple k source hmissing).mono fun outcome pool h ↦ ?_
    refine ⟨h.1, hmiddle.1.decide h.2, fun houtcome ↦ ?_⟩
    rcases h.2 with ⟨-, haccepted⟩ | ⟨rfl, -⟩
    · refine ⟨hmiddle.2.rest haccepted, fun page hpage ↦ .inr ?_⟩
      rw [IsPending, haccepted.pending]
      exact List.mem_append_right _ hpage
    · simp at houtcome

theorem prefetchAutomaticWindowFrom_triple (turns : ℕ) :
    ∀ classes admitted, (rules C).Triple (StreamAt C k before reader classes)
      (prefetchAutomaticWindowFrom C reader source turns classes admitted)
      fun _ ↦ At C k.admitted.custody (Extended reader before) := by
  induction turns with
  | zero => exact fun classes admitted ↦ Rules.Triple.done fun pool h ↦ ⟨h.1, h.2.1⟩
  | succ turns ih =>
    intro classes admitted
    cases classes with
    | nil => exact Rules.Triple.done fun pool h ↦ ⟨h.1, h.2.1⟩
    | cons head rest =>
      obtain ⟨page, known⟩ := head
      unfold prefetchAutomaticWindowFrom
      extract_lets run continuation
      have hcontinue : ∀ outcome, (rules C).Triple
          (RunAt C k before reader run (rest.drop (run.length - 1)) outcome)
          (continuation outcome) fun _ ↦ At C k.admitted.custody (Extended reader before) := by
        intro outcome
        cases outcome with
        | obsolete => exact Rules.Triple.done fun pool h ↦ ⟨h.1, h.2.1⟩
        | deferred => exact Rules.Triple.done fun pool h ↦ ⟨h.1, h.2.1⟩
        | rejected =>
          refine Rules.Triple.bind ?_ fun _ ↦ Rules.Triple.done fun pool h ↦ h
          refine updateLedger_triple fun locked _ ledger hknown hchange ↦ ?_
          simp only [bind_eq_ok, pure_ok, Except.ok.injEq, Prod.mk.injEq] at hchange
          obtain ⟨reset, hreset, -, rfl⟩ := hchange
          have hevolves := (Ledger.resetReader_relinks hreset).evolves
          exact ⟨hevolves.indexed, hknown.1.refile hevolves⟩
        | resident => exact (issuePages_triple k (by simp)).bind fun _ ↦ ih _ _
        | pending => exact (issuePages_triple k (by simp)).bind fun _ ↦ ih _ _
        | admitted => exact (issuePages_triple k (by simp)).bind fun _ ↦ ih _ _
      cases known with
      | some outcome =>
        refine (hcontinue outcome).weaken fun pool h ↦ ⟨h.1, h.2.1, fun houtcome ↦ ?_⟩
        obtain ⟨hdistinct, hmissing, hheld⟩ := h.2.2
        refine ⟨⟨(List.nodup_cons.mp hdistinct).2, fun page hpage ↦ ?_, fun page outcome hpage ↦ ?_⟩,
          fun other hother ↦ ?_⟩
        · exact hmissing page (List.mem_cons_of_mem _ hpage)
        · exact hheld page outcome (List.mem_cons_of_mem _ hpage)
        · have hsame : other = page := by simpa [run] using hother
          rw [hsame]
          refine (hheld page outcome (List.mem_cons_self ..)).resolve_left fun hrejected ↦ ?_
          rw [hrejected] at houtcome
          simp at houtcome
      | none =>
        have htake := List.prefix_iff_eq_take.mp
          (List.takeWhile_prefix (l := rest) fun entry ↦ entry.2.isNone)
        have hsplit : (page, none) :: rest =
            (page, none) :: (rest.takeWhile fun entry ↦ entry.2.isNone) ++
              rest.drop (run.length - 1) := by
          simp only [run, List.length_cons, List.length_map, Nat.add_sub_cancel, List.cons_append]
          nth_rewrite 1 [htake]
          rw [List.take_append_drop]
        rw [hsplit]
        refine Rules.Triple.bind (admitAutomaticRun_triple k fun entry hentry ↦ ?_) hcontinue
        rcases List.mem_cons.mp hentry with rfl | hentry
        · rfl
        · have hnone := List.mem_takeWhile_imp hentry
          exact Option.isNone_iff_eq_none.mp hnone

/-! ## The streams of a pool -/

/-- The pages of a window follow each other, and each is classified. -/
theorem prefetchAutomaticWindowClassify_eq_ok {first : PageId} {count : ℕ}
    {classes : List (PageId × Option Admission)}
    (h : prefetchAutomaticWindowClassify C before first count = .ok classes) :
    classes.map Prod.fst =
        (List.range count).map (fun index ↦ ⟨first.file, first.granuleIdx + index⟩) ∧
      ∀ page known, (page, known) ∈ classes → prefetchClassify C before page = .ok known := by
  simp only [prefetchAutomaticWindowClassify, bind_eq_ok] at h
  obtain ⟨_, -, h⟩ := h
  clear * - h
  generalize List.range count = indices at h
  induction indices generalizing classes with
  | nil =>
    cases h
    exact ⟨rfl, fun page known hmem ↦ absurd hmem List.not_mem_nil⟩
  | cons index indices ih =>
    simp only [List.mapM_cons, bind_eq_ok, pure_ok, Except.ok.injEq] at h
    obtain ⟨head, ⟨_, -, known, hknown, rfl⟩, tail, htail, rfl⟩ := h
    obtain ⟨hpages, hclasses⟩ := ih htail
    refine ⟨by rw [List.map_cons, List.map_cons, hpages], fun page other hmem ↦ ?_⟩
    rcases List.mem_cons.mp hmem with hhead | hmem
    · cases hhead
      exact hknown
    · exact hclasses page other hmem

theorem Classified.of_classify {first : PageId} {count : ℕ}
    {classes : List (PageId × Option Admission)}
    (h : prefetchAutomaticWindowClassify C before first count = .ok classes) :
    Classified classes before := by
  obtain ⟨hpages, hclasses⟩ := prefetchAutomaticWindowClassify_eq_ok h
  refine ⟨?_, fun page hpage ↦ ?_, fun page outcome hpage ↦ ?_⟩
  · rw [hpages]
    refine List.Nodup.map (fun left right hsame ↦ ?_) List.nodup_range
    simpa using hsame
  · exact (prefetchClassify_eq_ok (hclasses page none hpage)).2 rfl
  · obtain ⟨hexplains, hadmitted, hdeferred⟩ :=
      (prefetchClassify_eq_ok (hclasses page _ hpage)).1 outcome rfl
    cases outcome with
    | resident => exact .inr (.inl hexplains.1)
    | pending => exact .inr (.inr hexplains)
    | admitted => exact absurd rfl hadmitted
    | deferred => exact absurd rfl hdeferred
    | rejected => exact .inl rfl
    | obsolete => exact hexplains.elim

theorem prefetchAutomaticWindow_triple (first : PageId) (count : ℕ) :
    (rules C).Triple (At C k.admitted.custody fun locked ↦ locked = before)
      (prefetchAutomaticWindow C reader first source count)
      fun _ ↦ At C k.admitted.custody (Extended reader before) := by
  refine Rules.Triple.through (StreamAt C k before reader) ?_ fun classes ↦ ?_
  · refine locked_triple at_stable fun pool h ↦ ?_
    refine outcome_lift_bind fun _ _ ↦ outcome_lift_bind fun classes hclasses ↦ ?_
    rw [h.2] at hclasses
    exact ⟨h.1, h.2 ▸ .refl reader _, h.2 ▸ .of_classify hclasses⟩
  refine Rules.Triple.through (fun _ ↦ StreamAt C k before reader classes) ?_ fun credits ↦ ?_
  · exact locked_triple at_stable fun pool h ↦ outcome_lift_bind fun credits _ ↦ h
  split
  · refine (prefetchAutomaticWindowFrom_triple k count classes 0).bind fun outcome ↦ ?_
    refine Rules.Triple.through (fun _ ↦ At C k.admitted.custody (Extended reader before)) ?_
      fun _ ↦ Rules.Triple.done fun pool h ↦ h
    unfold prefetchAutomaticWindowFinish
    split
    · exact Rules.Triple.done fun pool h ↦ h
    · refine updateLedger_triple fun locked _ ledger hknown hchange ↦ ?_
      simp only [bind_eq_ok, pure_ok, Except.ok.injEq, Prod.mk.injEq] at hchange
      obtain ⟨turned, hturned, -, rfl⟩ := hchange
      have hevolves := (Ledger.advanceTurn_relinks hturned).evolves
      exact ⟨hevolves.indexed, hknown.refile hevolves⟩
  · exact Rules.Triple.done fun pool h ↦ ⟨h.1, h.2.1⟩

end Windows

/-! ## Refusals -/

/-- Outside the lock only the driver has changed. -/
def DriverOnly (before after : Pool) : Prop :=
  after.unlocked = { before.unlocked with driver := after.unlocked.driver }

section Refusals

variable {C : Config}

theorem DriverOnly.refl (pool : Pool) : DriverOnly pool pool := rfl

theorem admissionSlotFrom_driverOnly (slots : ℕ) :
    ∀ index, (admissionSlotFrom slots index).Respects DriverOnly := by
  induction slots with
  | zero => exact fun _ ↦ .done _
  | succ slots ih =>
    intro index
    refine (PoolM.read_respects DriverOnly.refl _).bind fun reusable ↦ ?_
    split
    · exact .done _
    · exact ih _

theorem admissionSlotsFrom_driverOnly (remaining : ℕ) :
    ∀ index wanted slots, (admissionSlotsFrom remaining index wanted slots).Respects DriverOnly := by
  induction remaining with
  | zero =>
    intro index wanted slots
    cases wanted <;> exact .done _
  | succ remaining ih =>
    intro index wanted slots
    cases wanted with
    | zero => exact .done _
    | succ wanted =>
      refine (PoolM.read_respects DriverOnly.refl _).bind fun reusable ↦ ?_
      split
      · exact ih _ _ _
      · exact ih _ _ _

/-- A refused read of a reserved frame. -/
theorem admitPoint_driverOnly {pool after : Pool} {slot : ℕ} {page : PageId} {source : Source}
    {outcome : Admission} (h : admitPoint C pool slot page source = .ok (outcome, after)) :
    DriverOnly pool after ∨ outcome = .admitted := by
  unfold admitPoint at h
  cases hreserve : pool.locked.reserve with
  | nil =>
    rw [hreserve] at h
    cases h
    exact .inl rfl
  | cons frame reserve =>
    simp only [hreserve, bind_eq_ok, liftM_eq_ok] at h
    obtain ⟨claimed, -, fd, -, ⟨token, submitted⟩, hsubmit, h⟩ := h
    cases token with
    | none =>
      simp only [bind_eq_ok, liftM_eq_ok, pure_ok, Except.ok.injEq, Prod.mk.injEq] at h
      obtain ⟨aborted, -, pushed, -, -, rfl⟩ := h
      rcases submitPageRead_eq_ok hsubmit with ⟨token, driver, hsome, -⟩ | ⟨error, -, rfl, -⟩
      · cases hsome
      · exact .inl rfl
    | some token =>
      simp only [bind_eq_ok, pure_ok, Except.ok.injEq, Prod.mk.injEq] at h
      obtain ⟨_, -, rfl, -⟩ := h
      exact .inr rfl

theorem admitVector_driverOnly {pool after : Pool} {route : ℕ} {slots : List ℕ}
    {pages : List PageId} {first : PageId} {source : Source} {outcome : Admission}
    (h : admitVector C pool route slots pages first source = .ok (outcome, after)) :
    DriverOnly pool after ∨ outcome = .admitted := by
  simp only [admitVector, bind_eq_ok, liftM_eq_ok] at h
  obtain ⟨claimed, -, fd, -, ⟨submitted, driver⟩, -, h⟩ := h
  cases submitted with
  | error refused =>
    simp only [bind_eq_ok, liftM_eq_ok, pure_ok, Except.ok.injEq, Prod.mk.injEq] at h
    obtain ⟨aborted, -, readSpans, -, -, rfl⟩ := h
    exact .inl rfl
  | ok token =>
    simp only [bind_eq_ok, pure_ok, Except.ok.injEq, Prod.mk.injEq] at h
    obtain ⟨_, -, _, -, _, -, rfl, -⟩ := h
    exact .inr rfl

theorem prefetchAdmitPoint_driverOnly (page : PageId) (source : Source) :
    (prefetchAdmitPoint C page source).RespectsUnless DriverOnly (· = .admitted) := by
  refine .bind (PoolM.locked_respects fun _ _ _ _ ↦ rfl) fun available ↦ ?_
  refine .bind (PoolM.read_respects DriverOnly.refl _) fun reads ↦ ?_
  split
  · exact .done _
  refine .bind (admissionSlotFrom_driverOnly _ _) fun slot ↦ ?_
  cases slot with
  | none => exact .done _
  | some slot =>
    refine .bind (PoolM.update_respects fun _ _ _ ↦ rfl) fun _ ↦ ?_
    refine .bind (PoolM.read_respects DriverOnly.refl _) fun empty ↦ ?_
    split
    · exact .done _
    refine .bind (flushDeferredFrom_respects (fun _ _ ↦ rfl) _) fun _ ↦ ?_
    exact .act fun _ _ _ haction ↦ admitPoint_driverOnly haction

theorem prefetchAdmitVector_driverOnly (pages : List PageId) (first : PageId) (source : Source) :
    (prefetchAdmitVector C pages first source).RespectsUnless DriverOnly (· = .admitted) := by
  refine .bind (.lift _) fun _ ↦ .bind (.lift _) fun _ ↦ .bind (.lift _) fun _ ↦ ?_
  refine .bind (PoolM.locked_respects fun _ _ _ _ ↦ rfl) fun available ↦ ?_
  refine .bind (PoolM.read_respects DriverOnly.refl _) fun reads ↦ ?_
  split
  · exact .done _
  refine .bind (PoolM.locked_respects fun _ _ _ _ ↦ rfl) fun reserved ↦ ?_
  cases reserved with
  | none => exact .done _
  | some route =>
    refine .bind (admissionSlotsFrom_driverOnly _ _ _ _) fun slots ↦ ?_
    cases slots with
    | none => exact .bind (PoolM.update_respects fun _ _ _ ↦ rfl) fun _ ↦ .done _
    | some slots =>
      refine .bind (PoolM.update_respects fun _ _ _ ↦ rfl) fun _ ↦ ?_
      refine .bind (PoolM.read_respects DriverOnly.refl _) fun short ↦ ?_
      split
      · exact .bind (PoolM.update_respects fun _ _ _ ↦ rfl) fun _ ↦ .done _
      exact .act fun _ _ _ haction ↦ admitVector_driverOnly haction

theorem prefetchAdmitRun_driverOnly (pages : List PageId) (source : Source) :
    (prefetchAdmitRun C pages source).RespectsUnless DriverOnly (· = .admitted) := by
  cases pages with
  | nil => exact .fail _
  | cons first pages =>
    cases pages with
    | nil => exact prefetchAdmitPoint_driverOnly first source
    | cons second pages => exact prefetchAdmitVector_driverOnly _ first source

end Refusals

/-! ## Results -/

/-- In every reachable pool, wherever the admission of a run is refused, what the lock protects is as
it was before, but for frames that moved from the free list to the reserve, the page numbers left in
free frames and the refusals counted; the steps of a refused admission change nothing outside the
lock but the driver. The cursor of a stream moves on only past pages that are mapped or pending. -/
theorem refused_admission_leaves_no_trace (C : Config) (before : Locked) (pages : List PageId)
    (source : Source) (hmissing : ∀ page ∈ pages, Missing before page) :
    (rules C).Triple (At C .empty fun locked ↦ locked = before) (prefetchAdmitRun C pages source)
      (fun outcome ↦ At C .empty fun after ↦
        outcome = .admitted ∧ Accepted pages before after ∨
          outcome = .deferred ∧ Declined before after) ∧
    (prefetchAdmitRun C pages source).RespectsUnless DriverOnly (fun outcome ↦ outcome = .admitted) ∧
    ∀ reader first count, (rules C).Triple (At C .empty fun locked ↦ locked = before)
      (prefetchAutomaticWindow C reader first source count)
      fun _ ↦ At C .empty (Extended reader before) := by
  refine ⟨?_, prefetchAdmitRun_driverOnly pages source, fun reader first count ↦ ?_⟩
  · exact @prefetchAdmitRun_triple C ⟨0, ∅, 0, none, none, ∅⟩ before pages source hmissing
  · exact @prefetchAutomaticWindow_triple C ⟨0, ∅, 0, none, none, ∅⟩ before reader source first count

/-- A pool of six frames that may read two of them ahead. -/
def sixFrames : Config where
  identity := 0
  frameCount := 6
  granule := 4096
  maxConcurrentReaders := 1
  peakGuardsPerReader := 1
  maxInflightReads := 1
  missHeadroom := 3
  maxRetainedFrames := 0
  maxInflightProductOps := 1
  registeredFileCapacity := 1
  prefetchCapacity := 2
  readahead := .automatic
  retryBound := 1
  granule_eq := fourFrames.granule_eq
  sector_le := fourFrames.sector_le
  headroom_le := fourFrames.headroom_le
  watermark_le := by decide
  prefetch_le := by decide

/-- A file is registered, and its first page asked for. -/
theorem refused_admission_of_registered :
    ∃ pool, Reach sixFrames .empty pool ∧ Missing pool.locked ⟨⟨0, 0, 1⟩, 0⟩ ∧
      (rules sixFrames).Triple (At sixFrames .empty fun locked ↦ locked = pool.locked)
        (prefetchAdmitRun sixFrames [⟨⟨0, 0, 1⟩, 0⟩] .explicit)
        fun outcome ↦ At sixFrames .empty fun after ↦
          outcome = .admitted ∧ Accepted [⟨⟨0, 0, 1⟩, 0⟩] pool.locked after ∨
            outcome = .deferred ∧ Declined pool.locked after := by
  have hopened := (Reach.new (C := sixFrames)).turn (@Turn.openFile _ _ _ .buffered _ rfl)
  have hregistered := hopened.move (@Move.register _ _ _ _ 0 _ rfl rfl)
  obtain ⟨pool, hreach, hmissing⟩ : ∃ pool, Reach sixFrames .empty pool ∧
      Missing pool.locked ⟨⟨0, 0, 1⟩, 0⟩ := ⟨_, hregistered, Finmap.lookup_empty _, rfl, rfl⟩
  refine ⟨pool, hreach, hmissing, ?_⟩
  refine (refused_admission_leaves_no_trace sixFrames pool.locked _ .explicit ?_).1
  exact List.forall_mem_singleton.mpr hmissing

end DiosPool.Pool
