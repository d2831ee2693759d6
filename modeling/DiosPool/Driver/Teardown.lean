import DiosPool.Driver.Draining

/-!
# The end of the teardown

Every turn of the loop takes a completion out of the backlog or ends an attempt, and a read that is
resubmitted has fewer bytes left. What is left to do therefore falls, and the loop ends with an
empty slab. The one thing that stands in the way is a completion that was parked in the backlog and
asks for the rest of its bundle: by the time it is drained, its lease is gone.
-/

namespace DiosPool.Driver

open Foundation

/-! ## Bundles -/

namespace ReadVector

variable {vector : ReadVector} {token : OpToken}

/-- The frames are aborted one after another. -/
theorem consumeFrames_drop (dropped : List (OpToken × ℕ)) (ordinal : ℕ) (frames : List ℕ) :
    consumeFrames (fun dropped _ frame ↦ (return (token, frame) :: dropped : Except Assertion _))
      dropped ordinal frames = .ok ((tagged token frames).reverse ++ dropped) := by
  induction frames generalizing dropped ordinal with
  | nil => rfl
  | cons frame frames ih =>
    change consumeFrames _ ((token, frame) :: dropped) (ordinal + 1) frames = _
    rw [ih]
    simp [tagged]

/-- The complete frames of a bundle are aborted, and the rest is left as a bundle. -/
theorem WellFormed.takeCompleted (h : vector.WellFormed) (token : OpToken) (dropped : List (OpToken × ℕ)) :
    ∃ after rest, vector.takeCompleted
        (fun dropped _ frame ↦ (return (token, frame) :: dropped : Except Assertion _)) dropped =
        .ok (after, rest) ∧ rest.WellFormed ∧ rest.remaining = vector.remaining ∧
      rest.operation = vector.operation ∧ rest.descriptors = vector.descriptors ∧
      rest.ordinal = rest.filled / rest.granule ∧ ∀ item,
        after.count item + (tagged token rest.frames).count item =
          dropped.count item + (tagged token vector.frames).count item := by
  have hordinal : vector.ordinal ≤ vector.filled / vector.granule :=
    (Nat.le_div_iff_mul_le h.granule).mpr h.ordinal
  have hframes : vector.filled / vector.granule ≤ vector.ordinal + vector.frames.length := by
    refine (Nat.div_le_div_right (h.filled.trans_eq h.total)).trans_eq ?_
    exact Nat.mul_div_cancel _ h.granule
  have hcompleted : vector.filled / vector.granule - vector.ordinal ≤ vector.frames.length := by
    omega
  set completed := vector.filled / vector.granule - vector.ordinal with hdefinition
  refine ⟨(tagged token (vector.frames.take completed)).reverse ++ dropped, { vector with
    frames := vector.frames.drop completed
    ordinal := vector.ordinal + completed }, ?_, ⟨h.granule, ?_, ?_, h.filled⟩, rfl, rfl, rfl, ?_,
    ?_⟩
  · simp only [ReadVector.takeCompleted, subtract_of_le hordinal]
    simp only [← hdefinition, liftM, monadLift, MonadLiftT.monadLift, ok_bind,
      ensure_true hcompleted, consumeFrames_drop]
    rfl
  · simp only [List.length_drop]
    rw [h.total]
    congr 1
    omega
  · simp only
    refine le_trans (Nat.mul_le_mul_right _ ?_) (Nat.div_mul_le_self vector.filled vector.granule)
    omega
  · simp only
    omega
  · intro item
    have hsplit : (tagged token vector.frames).count item =
        (tagged token (vector.frames.take completed)).count item +
          (tagged token (vector.frames.drop completed)).count item := by
      rw [← List.count_append, tagged, tagged, tagged, ← List.map_append, List.take_append_drop]
    rw [List.count_append, List.count_reverse, hsplit]
    simp only
    omega

end ReadVector

/-! ## The loop -/

namespace Machine

variable {C : Config} {machine after : Machine} {token : OpToken} {completion : Completion}

/-- A completion whose lease is gone. -/
structure Dead (machine : Machine) (completion : Completion) : Prop where
  wellFormed : completion.WellFormed
  lease : completion.continuation → (∃ vector, completion.frame = some (.vector vector)) ∧
    completion.token ∈ machine.departed ∧ ¬ completion.Resumes

theorem Dead.disposable (h : machine.Dead completion) : machine.Disposable completion := by
  refine ⟨h.wellFormed, fun hlease ↦ ?_⟩
  obtain ⟨⟨vector, hvector⟩, hgone⟩ := h.lease hlease
  exact ⟨vector, hvector, .inl hgone⟩

theorem Dead.mono (h : machine.Dead completion) (hdeparted : machine.departed ⊆ after.departed) :
    after.Dead completion := by
  refine ⟨h.wellFormed, fun hlease ↦ ?_⟩
  obtain ⟨hvector, hgone, hresumes⟩ := h.lease hlease
  exact ⟨hvector, hdeparted hgone, hresumes⟩

end Machine

namespace Teardown

variable {C : Config} {teardown : Teardown} {origin : Machine}

open Machine

/-- The core since `origin`: the completions that it has to get rid of can be disposed of, and no
frame is lost. -/
structure Draining (C : Config) (origin : Machine) (teardown : Teardown) : Prop where
  still : Still C teardown.machine
  backlog : ∀ completion ∈ teardown.machine.shared.completionBacklog,
    teardown.machine.Dead completion
  batch : ∀ completion ∈ teardown.batch, teardown.machine.Disposable completion
  nodup : (leasesOf (teardown.batch ++ teardown.machine.shared.completionBacklog)).Nodup
  accepted : teardown.machine.accepted = origin.accepted
  frames : ∀ item, teardown.machine.given.count item +
      (framesIn (teardown.batch ++ teardown.machine.shared.completionBacklog)).count item +
      teardown.dropped.count item + origin.handed.count item =
    origin.given.count item + teardown.machine.handed.count item +
      (framesIn origin.shared.completionBacklog).count item

/-- Leases are given up when the batch is empty. -/
theorem Draining.recede (h : Draining C origin teardown) (hbatch : teardown.batch = [])
    {machine : Machine} (hstill : Still C machine) (hrecedes : teardown.machine.Recedes machine) :
    Draining C origin { teardown with machine, batch := [] } := by
  have hnodup := h.nodup
  have hframes := h.frames
  rw [hbatch] at hnodup hframes
  refine ⟨hstill, ?_, by simp, ?_, hrecedes.accepted.trans h.accepted, ?_⟩
  · intro completion hmem
    rw [hrecedes.backlog] at hmem
    exact (h.backlog completion hmem).mono hrecedes.departed
  · rw [hrecedes.backlog]
    exact hnodup
  · intro item
    rw [hrecedes.given, hrecedes.backlog, hrecedes.handed]
    exact hframes item

theorem leasesOf_cons (completion : Completion) (completions : List Completion) :
    leasesOf (completion :: completions) =
      (if completion.continuation then [completion.token] else []) ++ leasesOf completions := by
  unfold leasesOf
  split <;> simp_all

theorem leasesOf_perm {completions others : List Completion} (h : completions.Perm others) :
    (leasesOf completions).Perm (leasesOf others) :=
  (h.filter _).map _

theorem framesIn_cons (completion : Completion) (completions : List Completion) :
    framesIn (completion :: completions) = framesIn [completion] ++ framesIn completions := by
  simp [framesIn]

theorem framesIn_perm {completions others : List Completion} (h : completions.Perm others)
    (item : OpToken × ℕ) : (framesIn completions).count item = (framesIn others).count item :=
  (h.flatMap_right _).count_eq item

/-- The backlog is drained into the batch. -/
theorem Draining.drainCompletionBacklog (h : Draining C origin teardown) (turns : ℕ) :
    ∃ after, drainCompletionBacklog C turns teardown = .ok after ∧ Draining C origin after ∧
      after.machine.shared.completionBacklog =
        teardown.machine.shared.completionBacklog.drop turns ∧
      after.batch.length = teardown.batch.length +
        min turns teardown.machine.shared.completionBacklog.length ∧
      after.machine.shared.ready = teardown.machine.shared.ready ∧
      after.machine.work C = teardown.machine.work C := by
  induction turns generalizing teardown with
  | zero => exact ⟨teardown, rfl, h, by simp, by simp, rfl, rfl⟩
  | succ turns ih =>
    unfold Teardown.drainCompletionBacklog
    cases hbacklog : teardown.machine.shared.completionBacklog with
    | nil => exact ⟨teardown, rfl, h, by simp [hbacklog], by simp, rfl, rfl⟩
    | cons completion rest =>
      have hnext : teardown.machine.next C .drainBacklog = .ok { teardown.machine with
          shared := { teardown.machine.shared with completionBacklog := rest } } := by
        simp [Machine.next, Shared.popBacklog, hbacklog]
      have hperm : ((completion :: teardown.batch) ++ rest).Perm
          (teardown.batch ++ teardown.machine.shared.completionBacklog) := by
        rw [hbacklog]
        exact List.perm_middle.symm
      have hdraining : Draining C origin { teardown with
          machine := { teardown.machine with
            shared := { teardown.machine.shared with completionBacklog := rest } }
          batch := completion :: teardown.batch } := by
        have hold := h.backlog
        rw [hbacklog] at hold
        refine ⟨⟨h.still.sound.next hnext, h.still.operable.congr rfl rfl rfl rfl,
          h.still.executing, h.still.duties, h.still.finishing⟩, ?_, ?_, ?_, h.accepted, ?_⟩
        · intro other hmem
          exact (hold other (List.mem_cons_of_mem _ hmem)).mono fun _ h ↦ h
        · intro other hmem
          rcases List.mem_cons.mp hmem with rfl | hmem
          · exact (hold other List.mem_cons_self).disposable.congr rfl rfl rfl
          · exact (h.batch other hmem).congr rfl rfl rfl
        · exact (leasesOf_perm hperm).nodup_iff.mpr h.nodup
        · intro item
          have hframes := h.frames item
          rw [← framesIn_perm hperm item] at hframes
          exact hframes
      obtain ⟨after, hafter, hdrained, hrest, hlength, hready, hwork⟩ := ih hdraining
      refine ⟨after, ?_, hdrained, hrest, ?_, hready, hwork⟩
      · simp only [hnext, ok_bind]
        exact hafter
      · rw [hlength]
        simp only [List.length_cons]
        omega

/-- One more completion arrives in the batch. -/
theorem Draining.publish (h : Draining C origin teardown) {completion : Completion}
    {machine : Machine} {index : ℕ} (hstill : Still C machine)
    (hpublishes : Publishes C teardown.machine machine completion)
    (hdisposable : machine.Disposable completion)
    (hqueued : ∃ entry, teardown.machine.shared.Holds completion.token entry ∧
      entry.state = .queued) :
    Draining C origin ⟨machine, completion :: teardown.batch, teardown.dropped, index⟩ := by
  obtain ⟨entry, hholds, hstate⟩ := hqueued
  -- an operation that was queued has no completion yet
  have hfresh : ∀ other ∈ teardown.batch ++ teardown.machine.shared.completionBacklog,
      other.continuation → other.token ≠ completion.token := by
    intro other hmem hlease
    have hold : teardown.machine.Disposable other := by
      rcases List.mem_append.mp hmem with hmem | hmem
      · exact h.batch other hmem
      · exact (h.backlog other hmem).disposable
    exact hold.ne_queued h.still.sound hlease hholds hstate
  refine ⟨hstill, ?_, ?_, ?_, hpublishes.accepted.trans h.accepted, ?_⟩
  · intro other hmem
    rw [hpublishes.backlog] at hmem
    exact (h.backlog other hmem).mono hpublishes.spares.departed
  · intro other hmem
    rcases List.mem_cons.mp hmem with rfl | hmem
    · exact hdisposable
    · refine (h.batch other hmem).spared hpublishes.spares fun hlease _ ↦ ?_
      exact hfresh other (List.mem_append_left _ hmem) hlease
  · simp only [hpublishes.backlog, List.cons_append]
    rw [leasesOf_cons]
    split
    · refine List.nodup_cons.mpr ⟨?_, h.nodup⟩
      intro hmem
      obtain ⟨other, hother, htoken⟩ := List.mem_map.mp hmem
      obtain ⟨hother, hlease⟩ := List.mem_filter.mp hother
      exact hfresh other hother hlease htoken
    · exact h.nodup
  · intro item
    have hframes := h.frames item
    simp only [hpublishes.backlog, hpublishes.given, hpublishes.handed, List.cons_append]
    rw [framesIn_cons, List.count_append, List.count_append]
    omega

/-- Ready operations are executed while the batch has room. -/
theorem Draining.pollReady (h : Draining C origin teardown) (arena : ℕ → ℕ → UInt8)
    (executor : BlockingExecutor) (turns : ℕ) :
    ∃ after, pollReady C arena executor turns teardown = .ok after ∧ Draining C origin after ∧
      after.machine.shared.completionBacklog = teardown.machine.shared.completionBacklog ∧
      after.batch.length ≤ teardown.batch.length + turns ∧
      after.machine.work C + after.batch.length ≤ teardown.machine.work C + teardown.batch.length ∧
      (0 < turns → teardown.machine.shared.ready ≠ [] →
        teardown.batch.length < after.batch.length) ∧
      teardown.batch.length ≤ after.batch.length := by
  induction turns generalizing teardown with
  | zero => exact ⟨teardown, rfl, h, rfl, le_rfl, le_rfl, by simp, le_rfl⟩
  | succ turns ih =>
    unfold Teardown.pollReady
    cases hready : teardown.machine.shared.ready with
    | nil =>
      refine ⟨teardown, ?_, h, rfl, by omega, le_rfl, by simp, le_rfl⟩
      simp [pollNext, hready]
    | cons slot ready =>
      obtain ⟨completion, machine, index, hnext, hstill, hpublishes, hdisposable, hqueued⟩ :=
        pollNext_of_ready arena executor h.still hready
      obtain ⟨after, hafter, hdraining, hbacklog, hlength, hwork, -, hle⟩ :=
        ih (h.publish hstill hpublishes hdisposable hqueued)
      have hless := hpublishes.work
      simp only [List.length_cons] at hlength hwork hle
      refine ⟨after, ?_, hdraining, hbacklog.trans hpublishes.backlog, by omega, by omega,
        fun _ _ ↦ by omega, by omega⟩
      simp only [hnext, ok_bind]
      exact hafter

/-- What getting rid of a completion changes, apart from its frames. -/
structure Disposes (C : Config) (machine after : Machine) (completion : Completion) : Prop where
  still : Still C after
  spares : Spares completion.token machine after
  same : completion.continuation = false → after = machine
  backlog : after.shared.completionBacklog = machine.shared.completionBacklog
  accepted : after.accepted = machine.accepted
  handed : after.handed = machine.handed
  work : after.work C ≤ machine.work C

theorem Disposes.refl {machine : Machine} (h : Still C machine) (completion : Completion) :
    Disposes C machine machine completion :=
  ⟨h, .refl _ machine, fun _ ↦ rfl, rfl, rfl, rfl, le_rfl⟩

/-- A completion drops its lease, if it still has one. -/
theorem dropLease_ok (teardown : Teardown) (h : Still C teardown.machine) {completion : Completion}
    (hdisposable : teardown.machine.Disposable completion) :
    ∃ machine, teardown.dropLease C completion = .ok { teardown with machine } ∧
      Disposes C teardown.machine machine completion ∧
      machine.given = teardown.machine.given := by
  unfold Teardown.dropLease
  cases hlease : completion.continuation with
  | false => exact ⟨teardown.machine, rfl, .refl h completion, rfl⟩
  | true =>
    simp only [if_true, Machine.dropContinuation]
    obtain ⟨vector, -, ⟨hgone, -⟩ | ⟨hmem, -⟩⟩ := hdisposable.lease hlease
    · have habsent := (h.sound.ledger.accounted h.sound.inv).absent _ hgone
      refine ⟨teardown.machine, ?_, .refl h completion, rfl⟩
      simp only [habsent, Bool.false_eq_true, if_false, pure_ok, ok_bind]
    · obtain ⟨entry, deferred, released, hrelease, hstill, hholds, hleased, rfl⟩ :=
        h.releaseReadLease hmem
      have hrecedes := Recedes.of_vacated deferred hholds hleased
      refine ⟨_, ?_, ⟨hstill, ⟨hrecedes.departed, ?_, ?_⟩, by simp [hlease], rfl, rfl, rfl,
        hrecedes.work_le⟩, rfl⟩
      · simp only [DriverInv.contains_of_mem_leases h.sound.inv hmem, if_true, hrelease, ok_bind,
          pure_ok]
      · intro other hother hne
        exact (List.mem_erase_of_ne hne).mpr hother
      · intro other found hne hfound
        exact holds_update hholds hne hfound rfl

/-- A leased slot leaves room in the ready queue. -/
theorem length_ready_lt {machine : Machine} (hinv : Inv C machine) {token : OpToken}
    {entry : OpEntry} (hholds : machine.shared.Holds token entry) (hleased : entry.state.isLeased) :
    machine.shared.ready.length < C.queueCapacity := by
  have hslab := hinv.slab
  have hnot : token.slot ∉ machine.shared.ready := by
    intro hmem
    obtain ⟨found, hfound, hqueued⟩ := hslab.mem_ready_iff.mp hmem
    rw [hholds.payload] at hfound
    cases hfound
    simp [hqueued] at hleased
  have hnodup : (token.slot :: machine.shared.ready).Nodup :=
    List.nodup_cons.mpr ⟨hnot, hslab.nodup_ready⟩
  have hbound : ∀ slot ∈ token.slot :: machine.shared.ready, slot ∈ List.range C.queueCapacity := by
    intro slot hmem
    rw [List.mem_range]
    rcases List.mem_cons.mp hmem with rfl | hmem
    · exact hslab.lt_of_payload hholds.payload
    · obtain ⟨found, hfound, -⟩ := hslab.mem_ready_iff.mp hmem
      exact hslab.lt_of_payload hfound
  have hlength := (hnodup.subperm hbound).length_le
  simpa using hlength

/-- A bundle that is not full has frames left. -/
theorem length_frames_pos {vector : ReadVector} (h : vector.WellFormed)
    (hremaining : 0 < vector.remaining) : 0 < vector.frames.length := by
  by_contra hempty
  have htotal := h.total
  rw [Nat.eq_zero_of_not_pos hempty, Nat.add_zero] at htotal
  have hordinal := h.ordinal
  unfold ReadVector.remaining at hremaining
  omega

/-- A bundle that the kernel does not know is aborted with its frames. -/
theorem dropVector_eq {token : OpToken} {vector : ReadVector}
    (hdescriptors : vector.descriptors = none) :
    teardown.dropVector token vector =
      { teardown with dropped := tagged token vector.frames ++ teardown.dropped } := by
  simp [dropVector, hdescriptors, tagged]

/-- A completion is dropped with the rest of its bundle. -/
theorem dropVector_dropLease_ok (teardown : Teardown) (h : Still C teardown.machine)
    {completion : Completion} {vector : ReadVector} (hdisposable : teardown.machine.Disposable completion)
    (hdescriptors : vector.descriptors = none) :
    ∃ machine dropped, (teardown.dropVector completion.token vector).dropLease C completion =
        .ok { teardown with machine, dropped } ∧
      Disposes C teardown.machine machine completion ∧ ∀ item,
        machine.given.count item + dropped.count item = teardown.machine.given.count item +
          teardown.dropped.count item + (tagged completion.token vector.frames).count item := by
  let aborted : Teardown :=
    { teardown with dropped := tagged completion.token vector.frames ++ teardown.dropped }
  obtain ⟨machine, hdrop, hdisposes, hgiven⟩ :=
    dropLease_ok aborted h hdisposable
  refine ⟨machine, aborted.dropped, ?_, hdisposes, ?_⟩
  · rw [dropVector_eq hdescriptors]
    exact hdrop
  · intro item
    rw [hgiven]
    simp only [aborted, List.count_append]
    omega

/-- The rest of a bundle is resubmitted, or refused and dropped. -/
theorem continueReadVector_ok (teardown : Teardown) (h : Still C teardown.machine)
    {completion : Completion} {vector : ReadVector} {entry : OpEntry}
    (hdisposable : teardown.machine.Disposable completion)
    (hlease : completion.continuation = true) (hvector : vector.WellFormed)
    (hremaining : 0 < vector.remaining) (hordinal : vector.ordinal = vector.filled / vector.granule)
    (hoperation : vector.operation = some completion.token) (hdescriptors : vector.descriptors = none)
    (hmem : completion.token ∈ teardown.machine.leases)
    (hholds : teardown.machine.shared.Holds completion.token entry)
    (hstate : entry.state = .continuation) (hrequested : entry.requestedLen = vector.remaining) :
    ∃ machine dropped,
      teardown.continueReadVector C completion vector = .ok { teardown with machine, dropped } ∧
      Disposes C teardown.machine machine completion ∧ ∀ item,
        machine.given.count item + dropped.count item = teardown.machine.given.count item +
          teardown.dropped.count item + (tagged completion.token vector.frames).count item := by
  have hcontains := DriverInv.contains_of_mem_leases h.sound.inv hmem
  have hleased : entry.state.isLeased := by simp [hstate]
  have hslot := h.sound.inv.slab.lt_of_payload hholds.payload
  have hframes := length_frames_pos hvector hremaining
  have hready := length_ready_lt h.sound.inv hholds hleased
  have hcontinueVector : entry.continueVector C.queueCapacity completion.token vector =
      .ok (if entry.continuationAligned vector then some { entry with
          frame := some (.vector (Shared.described vector))
          state := .queued
          retries := 0 } else none) := by
    simp only [OpEntry.continueVector, ensure_true hoperation, ensure_true hstate,
      ensure_true hrequested, ok_bind]
    split
    · simp only [ReadVector.prepare, ensure_true hslot, ensure_true hframes, ensure_true hordinal,
        ok_bind, pure_ok]
      rfl
    · rfl
  have hpeek : teardown.machine.shared.peek completion.token.slot = .ok entry := by
    simp only [Shared.peek, hholds.payload, expect_some]
  by_cases haligned : entry.continuationAligned vector
  · obtain ⟨shared, hshared⟩ : ∃ shared, teardown.machine.shared.continueReadVector C
        completion.token vector = .ok (.ok completion.token, shared) := by
      simp only [Shared.continueReadVector, ensure_true hcontains, hpeek, hcontinueVector, haligned,
        if_true, ensure_true hready, ok_bind, pure_ok]
      exact ⟨_, rfl⟩
    have hnext : teardown.machine.next C (.continueVector completion.token vector) =
        .ok { teardown.machine with
          shared
          leases := teardown.machine.leases.erase completion.token
          given := tagged completion.token vector.frames ++ teardown.machine.given } := by
      simp only [Machine.next, if_pos hmem, hshared, ok_bind, pure_ok, tagged]
    have hoperable : Operable { teardown.machine with
        shared
        leases := teardown.machine.leases.erase completion.token
        given := tagged completion.token vector.frames ++ teardown.machine.given } :=
      h.operable.continued h.sound.inv h.sound.ledger hvector hshared
    have hsound := h.sound.next hnext
    obtain ⟨-, found, hfound, -, -, -, -, -, hafter⟩ := Shared.continueReadVector_eq_ok hshared
    obtain rfl := hholds.unique hfound
    have hslots : shared.slots = Function.update teardown.machine.shared.slots completion.token.slot
        ⟨completion.token.generation, some { entry with
          frame := some (.vector (Shared.described vector))
          state := .queued
          retries := 0 }⟩ := by
      rw [hafter]
      rfl
    refine ⟨_, teardown.dropped, ?_, ⟨⟨hsound, hoperable, h.executing, h.duties, h.finishing⟩,
      ⟨fun _ h ↦ h, ?_, ?_⟩, by simp [hlease], ?_, rfl, rfl, ?_⟩, ?_⟩
    · simp only [Teardown.continueReadVector, hshared, ok_bind, pure_ok, tagged]
    · intro other hother hne
      exact (List.mem_erase_of_ne hne).mpr hother
    · intro other found hne hfound
      exact holds_update hholds hne hfound hslots
    · rw [hafter]
      rfl
    · refine le_of_eq (Nat.add_right_cancel (m := entry.work) ?_)
      rw [work_update h.sound.inv hholds hslots]
      simp [SlabSlot.weight, OpEntry.work, hstate]
    · intro item
      simp only [List.count_append]
      omega
  · have hrefused : teardown.machine.shared.continueReadVector C completion.token vector =
        .ok (.error vector, teardown.machine.shared) := by
      simp only [Shared.continueReadVector, ensure_true hcontains, hpeek, hcontinueVector, haligned,
        Bool.false_eq_true, if_false, ok_bind, pure_ok]
    obtain ⟨machine, dropped, hdrop, hdisposes, hcount⟩ :=
      dropVector_dropLease_ok teardown h hdisposable hdescriptors
    refine ⟨machine, dropped, ?_, hdisposes, hcount⟩
    simp only [Teardown.continueReadVector, hrefused, ok_bind, hdrop]

/-- A completion is got rid of, and each of its frames is aborted or given back to its operation. -/
theorem quiesceCompletion_ok (teardown : Teardown) (h : Still C teardown.machine)
    {completion : Completion}
    (hdisposable : teardown.machine.Disposable completion) :
    ∃ machine dropped,
      teardown.quiesceCompletion C completion = .ok { teardown with machine, dropped } ∧
      Disposes C teardown.machine machine completion ∧ ∀ item,
        machine.given.count item + dropped.count item = teardown.machine.given.count item +
          teardown.dropped.count item + (framesIn [completion]).count item := by
  have hlease := hdisposable.lease
  unfold Teardown.quiesceCompletion
  cases hframe : completion.frame with
  | none =>
    have hnone : completion.continuation = false := by
      by_contra hsome
      obtain ⟨vector, hvector, -⟩ := hlease (by simpa using hsome)
      rw [hframe] at hvector
      cases hvector
    refine ⟨teardown.machine, teardown.dropped, ?_, .refl h completion, fun item ↦ ?_⟩
    · simp only [ensure_true hnone, ok_bind, pure_ok]
    · simp [framesIn, hframe, Shared.framesOf, tagged]
  | some destination =>
    cases destination with
    | point frame =>
      let aborted : Teardown :=
        { teardown with dropped := (completion.token, frame) :: teardown.dropped }
      obtain ⟨machine, hdrop, hdisposes, hgiven⟩ :=
        dropLease_ok aborted h hdisposable
      refine ⟨machine, aborted.dropped, hdrop, hdisposes, fun item ↦ ?_⟩
      rw [hgiven]
      simp only [aborted, framesIn, hframe, Shared.framesOf, tagged, List.flatMap_cons,
        List.flatMap_nil, Option.elim_some, ReadDestination.frames, List.map_cons, List.map_nil,
        List.append_nil, List.count_cons, List.count_nil]
      omega
    | vector vector =>
      obtain ⟨hvector, hdescriptors⟩ := hdisposable.wellFormed vector hframe
      obtain ⟨dropped, rest, htake, hrest, hremaining, hoperation, hsame, hordinal, hcount⟩ :=
        hvector.takeCompleted completion.token teardown.dropped
      have hframes (item : OpToken × ℕ) : (framesIn [completion]).count item =
          (tagged completion.token vector.frames).count item := by
        simp [framesIn, hframe, Shared.framesOf, ReadDestination.frames]
      let taken : Teardown := { teardown with dropped }
      simp only [htake, ok_bind]
      split
      · obtain ⟨machine, final, hdrop, hdisposes, hfinal⟩ :=
          dropVector_dropLease_ok taken h hdisposable (hsame.trans hdescriptors)
        refine ⟨machine, final, hdrop, hdisposes, fun item ↦ ?_⟩
        have hitem := hcount item
        have hlast := hfinal item
        rw [hframes]
        simp only [taken] at hlast
        omega
      · rename_i hresume
        simp only [not_or, Bool.not_eq_true', Bool.not_eq_false] at hresume
        obtain ⟨hleft, hbytes, hcontinuation⟩ := hresume
        have hresumes : completion.Resumes := by
          refine ⟨hcontinuation, Nat.pos_of_ne_zero hbytes, vector, hframe, ?_⟩
          omega
        obtain ⟨other, hother, ⟨-, hdead⟩ | ⟨hmem, hwaits⟩⟩ := hlease hcontinuation
        · exact absurd hresumes hdead
        · obtain rfl : vector = other := by
            rw [hframe] at hother
            cases hother
            rfl
          obtain ⟨hoperates, entry, hholds, hstate, hrequested⟩ := hwaits hresumes
          obtain ⟨machine, final, hdrop, hdisposes, hfinal⟩ :=
            continueReadVector_ok taken h hdisposable hcontinuation hrest
              (Nat.pos_of_ne_zero hleft) hordinal (hoperation.trans hoperates)
              (hsame.trans hdescriptors) hmem hholds hstate (hrequested.trans hremaining.symm)
          refine ⟨machine, final, hdrop, hdisposes, fun item ↦ ?_⟩
          have hitem := hcount item
          have hlast := hfinal item
          rw [hframes]
          simp only [taken] at hlast
          omega

theorem Draining.quiesceCompletion (h : Draining C origin teardown) {completion : Completion}
    {batch : List Completion} (hbatch : teardown.batch = completion :: batch) :
    ∃ after, quiesceCompletion C { teardown with batch } completion = .ok after ∧
      Draining C origin after ∧ after.batch = batch ∧
      after.machine.shared.completionBacklog = teardown.machine.shared.completionBacklog ∧
      after.machine.work C ≤ teardown.machine.work C := by
  have hdisposable := h.batch
  have hnodup := h.nodup
  have hframes := h.frames
  rw [hbatch] at hdisposable hnodup hframes
  let rest : Teardown := { teardown with batch }
  obtain ⟨machine, dropped, hquiesce, hdisposes, hcount⟩ := quiesceCompletion_ok rest h.still
    (hdisposable completion List.mem_cons_self)
  rw [List.cons_append, leasesOf_cons] at hnodup
  refine ⟨{ rest with machine, dropped }, hquiesce, ⟨hdisposes.still, ?_, ?_, ?_,
    hdisposes.accepted.trans h.accepted, ?_⟩, rfl, hdisposes.backlog, hdisposes.work⟩
  · intro other hmem
    rw [hdisposes.backlog] at hmem
    exact (h.backlog other hmem).mono hdisposes.spares.departed
  · intro other hmem
    have hold := hdisposable other (List.mem_cons_of_mem _ hmem)
    cases hlease : completion.continuation with
    | false =>
      rw [hdisposes.same hlease]
      exact hold
    | true =>
      refine hold.spared hdisposes.spares fun hother _ htoken ↦ ?_
      rw [if_pos hlease, List.singleton_append, List.nodup_cons] at hnodup
      refine hnodup.1 (htoken ▸ List.mem_map_of_mem (List.mem_filter.mpr ⟨?_, hother⟩))
      exact List.mem_append_left _ hmem
  · rw [hdisposes.backlog]
    exact hnodup.of_append_right
  · intro item
    have hbefore := hframes item
    rw [List.cons_append, framesIn_cons, List.count_append] at hbefore
    have hitem := hcount item
    rw [hdisposes.backlog, hdisposes.handed]
    simp only [rest] at hitem ⊢
    omega

theorem Draining.quiesceContinueVectors (h : Draining C origin teardown) (turns : ℕ)
    (hturns : teardown.batch.length ≤ turns) :
    ∃ after, quiesceContinueVectors C turns teardown = .ok after ∧ Draining C origin after ∧
      after.batch = [] ∧
      after.machine.shared.completionBacklog = teardown.machine.shared.completionBacklog ∧
      after.machine.work C ≤ teardown.machine.work C := by
  induction turns generalizing teardown with
  | zero => exact ⟨teardown, rfl, h, List.length_eq_zero_iff.mp (by omega), rfl, le_rfl⟩
  | succ turns ih =>
    unfold Teardown.quiesceContinueVectors
    cases hbatch : teardown.batch with
    | nil => exact ⟨teardown, rfl, h, hbatch, rfl, le_rfl⟩
    | cons completion batch =>
      obtain ⟨middle, hmiddle, hdraining, hrest, hbacklog, hwork⟩ := h.quiesceCompletion hbatch
      rw [hbatch, List.length_cons] at hturns
      obtain ⟨after, hafter, hdone, hempty, hsame, hless⟩ := ih hdraining (by rw [hrest]; omega)
      refine ⟨after, ?_, hdone, hempty, hsame.trans hbacklog, hless.trans hwork⟩
      simp only [hmiddle, ok_bind, hafter]

/-- With no lease, what is in flight is ready. -/
theorem ready_ne_nil {machine : Machine} (h : Still C machine) (hleases : machine.leases = [])
    (hinflight : machine.shared.totalInflight C ≠ 0) : machine.shared.ready ≠ [] := by
  have haccounted := h.sound.ledger.accounted h.sound.inv
  rw [← haccounted.occupied] at hinflight
  obtain ⟨slot, hslot⟩ := Finset.card_pos.mp (Nat.pos_of_ne_zero hinflight)
  obtain ⟨-, hsome⟩ := Finset.mem_filter.mp hslot
  obtain ⟨entry, hentry⟩ := Option.isSome_iff_exists.mp hsome
  have hholds : machine.shared.Holds (machine.shared.token slot) entry := by
    unfold Shared.Holds Shared.token
    rw [← hentry]
  have hqueued : entry.state = .queued := by
    cases hstate : entry.state with
    | queued => rfl
    | active =>
      have hactive := h.sound.inv.slab.active (machine.shared.token slot)
      have hkernel : machine.shared.kernel ++ machine.executing.map Prod.fst = [] := by
        simp [Shared.kernel, h.operable.outstanding, h.operable.cqes, h.executing]
      unfold Shared.Holds at hholds
      rw [hkernel, hholds, SlabSlot.countOf_some] at hactive
      simp [hstate] at hactive
    | continuation =>
      have hmem := h.sound.inv.mem_leases hholds (by simp [hstate])
      simp [hleases] at hmem
    | terminal outcome =>
      have hmem := h.sound.inv.mem_leases hholds (by simp [hstate])
      simp [hleases] at hmem
  have hmem := h.sound.inv.slab.mem_ready_iff.mpr ⟨entry, hentry, hqueued⟩
  exact List.ne_nil_of_mem hmem

/-- A turn of the loop polls something, and less is left to do. -/
theorem Draining.quiesceTurn (h : Draining C origin teardown) (arena : ℕ → ℕ → UInt8)
    (executor : BlockingExecutor) (hbatch : teardown.batch = [])
    (hleases : teardown.machine.leases = [])
    (hinflight : teardown.machine.shared.totalInflight C ≠ 0) :
    ∃ drained after, teardown.quiesceTurn C arena executor = .ok (drained, after) ∧ 0 < drained ∧
      Draining C origin after ∧ after.batch = [] ∧ after.machine.leases = [] ∧
      after.machine.work C + after.machine.shared.completionBacklog.length <
        teardown.machine.work C + teardown.machine.shared.completionBacklog.length := by
  have hready := ready_ne_nil h.still hleases hinflight
  have hcapacity : 0 < C.queueCapacity := by
    have hbound := h.still.sound.inv.bound
    omega
  obtain ⟨flushed, hflush, hstill, hrecedes, -, -⟩ := h.still.flushDeferred C.queueCapacity
  obtain ⟨drained, hdrain, hdraining, hrest, hlength, hsame, hwork⟩ :=
    (h.recede hbatch hstill hrecedes).drainCompletionBacklog C.queueCapacity
  obtain ⟨polled, hpoll, hpolling, hbacklog, hroom, hless, hsome, hgrows⟩ :=
    hdraining.pollReady arena executor (C.queueCapacity - drained.batch.length)
  have hflushed := hrecedes.work_le (C := C)
  simp only [hrecedes.backlog, List.length_nil, Nat.zero_add] at hlength hrest hwork
  replace hsame := hsame.trans hrecedes.ready
  obtain ⟨done, hdone, hquiet, hempty, hleft, hfewer⟩ :=
    hpolling.quiesceContinueVectors C.queueCapacity (by omega)
  obtain ⟨machine, habandon, hlast, hgone, hnone⟩ := hquiet.still.abandonHeldContinuations
  have hprogress : 0 < polled.batch.length := by
    by_cases hnothing : drained.batch.length = 0
    · have := hsome (by omega) (hsame ▸ hready)
      omega
    · omega
  have hfinal := hquiet.recede hempty hlast hgone
  refine ⟨polled.batch.length, { done with machine }, ?_, hprogress, ?_, hempty, hnone, ?_⟩
  · simp only [Teardown.quiesceTurn, Teardown.poll, hflush, hdrain, hpoll, hdone, habandon, ok_bind,
      pure_ok]
  · rw [← hempty] at hfinal
    exact hfinal
  · have hmachine := hgone.work_le (C := C)
    simp only [hgone.backlog, hleft, hbacklog, hrest, List.length_drop]
    omega

/-- The loop ends when no operation is in flight. -/
theorem Draining.quiesceLoop (h : Draining C origin teardown) (arena : ℕ → ℕ → UInt8)
    (executor : BlockingExecutor) (idle : ℕ) (hbatch : teardown.batch = [])
    (hleases : teardown.machine.leases = []) :
    ∃ turns after, quiesceLoop C arena executor turns idle teardown = .ok (some after) ∧
      Draining C origin after ∧ after.batch = [] ∧
      after.machine.shared.totalInflight C = 0 := by
  -- every turn takes work or a completion off the backlog
  induction hleft : teardown.machine.work C + teardown.machine.shared.completionBacklog.length using
    Nat.strong_induction_on generalizing teardown idle
  rename_i left ih
  by_cases hinflight : teardown.machine.shared.totalInflight C = 0
  · refine ⟨1, teardown, ?_, h, hbatch, hinflight⟩
    simp only [Teardown.quiesceLoop, if_pos hinflight, pure_ok]
  · obtain ⟨drained, middle, hturn, hdrained, hdraining, hempty, hnone, hless⟩ :=
      h.quiesceTurn arena executor hbatch hleases hinflight
    obtain ⟨turns, after, hloop, hafter⟩ := ih _ (hleft ▸ hless) hdraining 0 hempty hnone rfl
    refine ⟨turns + 1, after, ?_, hafter⟩
    simp only [Teardown.quiesceLoop, if_neg hinflight, hturn, ok_bind, if_pos hdrained, hloop]

end Teardown

namespace Machine

variable {C : Config} {machine : Machine}

/-- The core is drained: nothing is in flight, every operation gave its slot back once, and every
frame that an operation or a parked completion held is back in the arena once, or still parked if
nothing had to be drained. -/
structure Quiesced (C : Config) (machine : Machine) (teardown : Teardown) : Prop where
  idle : teardown.machine.shared.totalInflight C = 0
  vacant : ∀ slot, (teardown.machine.shared.slots slot).payload = none
  released : ∀ token, teardown.machine.departed.count token =
    machine.departed.count token + if machine.shared.contains token then 1 else 0
  frames : ∀ token frame, teardown.dropped.count (token, frame) +
      teardown.machine.aborted.count (token, frame) +
      (framesIn teardown.machine.shared.completionBacklog).count (token, frame) =
    machine.aborted.count (token, frame) +
      weightIn machine.shared.slots (fun entry ↦ entry.framesHeld.count frame) token +
      (framesIn machine.shared.completionBacklog).count (token, frame)

/-- A run of events that are always permitted. -/
theorem EagerReach.run {after : Machine} (h : EagerReach C machine) {events : List DriverEvent}
    (hpermitted : ∀ event ∈ events, ∀ machine : Machine, machine.Permitted event)
    (hrun : machine.run C events = .ok after) : EagerReach C after := by
  induction events generalizing machine with
  | nil =>
    cases hrun
    exact h
  | cons event events ih =>
    simp only [Machine.run, bind_eq_ok] at hrun
    obtain ⟨middle, hnext, hrun⟩ := hrun
    refine ih (h.next (hpermitted event List.mem_cons_self machine) hnext) ?_ hrun
    intro other hother
    exact hpermitted other (List.mem_cons_of_mem _ hother)

/-- A driver with three slots, one file and frames of four bytes. -/
def threeSlots : Config := ⟨0, 3, 1, 1, 2, 4⟩

/-- A device that moves nothing. -/
def idleExecutor : BlockingExecutor where
  answer _ _ := some (.ok 0)
  fits := by
    rintro _ transfer _ ⟨⟩
    exact Nat.zero_le _
  lasts _ _ := rfl

/-- A caller who waits for a write slot pumps a vector read, which moves `bytes` bytes, and a write
into the backlog. An fsync stays queued. -/
def pumped (bytes : ℕ) : List DriverEvent :=
  let fd : FileHandle := ⟨⟨0, 0, 1⟩, .buffered⟩
  [.openFile, .submitReadVector .pool fd ⟨[0, 1], 0, 0, 8, 4, none, none⟩ 0, .submitWrite fd 0 4 0,
    .submitFsync fd .data, .prepare, .publishToBacklog 0 (.ok bytes), .prepare,
    .publishToBacklog 0 (.ok 4)]

end Machine

end DiosPool.Driver
