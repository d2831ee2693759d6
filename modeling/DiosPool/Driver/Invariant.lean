import DiosPool.Driver.Files

/-!
# The invariant of the driver

The slab, the file table and the queues, as one critical section after another leaves them. What
holds here holds for every backend: `executing` are the operations that an eager backend took out of
the ready queue, and the ring backend keeps its own in the submission and completion queues.
-/

namespace DiosPool.Driver

open Foundation

/-- The operations that the kernel works on or has completed. -/
def Shared.kernel (shared : Shared) : List OpToken :=
  shared.outstanding ++ shared.cqes.map Cqe.userData

structure DriverInv (C : Config) (shared : Shared) (executing : List OpToken)
    (leases : Multiset OpToken) : Prop where
  slab : SlabInv C.queueCapacity shared.slots shared.free shared.ready
    (shared.kernel ++ executing) leases
  files : FileInv C.id C.queueCapacity C.fileCapacity shared.slots shared.files
  bound : shared.totalInflight C + shared.deferred.length ≤ C.queueCapacity

namespace DriverInv

variable {C : Config} {shared after : Shared} {executing : List OpToken}
  {leases : Multiset OpToken} {token : OpToken} {entry : OpEntry}

theorem new (C : Config) : DriverInv C (Shared.new C) [] 0 := by
  have htotal : (Shared.new C).totalInflight C = 0 := by
    simp [Shared.totalInflight, Shared.new]
  refine ⟨⟨?_, ?_, ?_, ?_, ?_⟩, ⟨?_, ?_, ?_, ?_, ?_⟩, ?_⟩
  · intro slot
    simp [Shared.new, List.count_range]
  · simp [Shared.new]
  · simp [Shared.new]
  · simp [Shared.new, Shared.kernel]
  · simp [Shared.new]
  · simp [Shared.new, slotFile]
  · simp [Shared.new]
  · simp [Shared.new]
  · simp [Shared.new]
  · simp [Shared.new]
  · rw [htotal]
    simp [Shared.new]

/-- The total count of operations changes with the count of one file. -/
theorem totalInflight_update (h : DriverInv C shared executing leases)
    (hentry : (shared.slots token.slot).payload = some entry) :
    (shared.vacated token entry).totalInflight C + 1 = shared.totalInflight C := by
  have hfile := h.files.lt_of_payload hentry
  have hpos : 1 ≤ (shared.files entry.fd.slot).inflight := by
    by_contra hzero
    exact h.files.no_entry h.slab.beyond (by omega) _ _ hentry rfl
  have hsum := sum_range_update_add hfile (fun _ file ↦ FileSlot.inflight file) shared.files
    { shared.files entry.fd.slot with inflight := (shared.files entry.fd.slot).inflight - 1 }
  simp only [Shared.totalInflight, Shared.vacated]
  simp only at hsum
  omega

theorem submitted (h : DriverInv C shared executing leases)
    (hsubmitted : Shared.Submitted C shared entry token after) (hqueued : entry.state = .queued) :
    DriverInv C after executing leases := by
  have hlive := hsubmitted.live
  simp only [Shared.isLive, Bool.and_eq_true, beq_iff_eq] at hlive
  obtain ⟨slot, free, hfree, rfl, rfl⟩ := hsubmitted.step
  have hslab := h.slab
  rw [hfree] at hslab
  obtain ⟨hslot, hvacant⟩ := hslab.vacant_of_free
  refine ⟨hslab.submit hqueued _, h.files.submit hslot hvacant hsubmitted.driver hlive.1 hlive.2 _,
    ?_⟩
  have hfile := h.files.range entry.fd.slot (by simp [hlive.2])
  have hsum := sum_range_update_add hfile (fun _ file ↦ FileSlot.inflight file) shared.files
    { shared.files entry.fd.slot with inflight := (shared.files entry.fd.slot).inflight + 1 }
  have hroom := hsubmitted.room
  simp only [Shared.totalInflight, Shared.submitted] at hroom ⊢
  simp only at hsum
  omega

/-- An operation that an eager backend executes is in its slot. -/
theorem of_executing {operations : List (OpToken × Option ReadDestination)} {index : ℕ}
    {destination : Option ReadDestination}
    (h : DriverInv C shared (operations.map Prod.fst) leases)
    (hindex : operations[index]? = some (token, destination)) :
    ∃ entry, shared.Holds token entry ∧ entry.state = .active := by
  refine h.slab.of_mem_active (List.mem_append_right _ ?_)
  exact List.mem_map_of_mem (f := Prod.fst) (List.mem_of_getElem? hindex)

/-- The kernel takes the next ready operation. -/
theorem fill (h : DriverInv C shared executing leases)
    (hfill : shared.fillNext = .ok (true, after)) : DriverInv C after executing leases := by
  obtain ⟨slot, ready, entry, hready, hholds, hqueued, rfl⟩ := Shared.fillNext_eq_ok hfill
  have hslab := h.slab
  rw [hready] at hslab
  refine ⟨?_, h.files.replace hholds rfl, h.bound⟩
  refine SlabInv.start hholds hslab hqueued rfl ?_
  simp only [Shared.kernel, List.append_assoc]
  exact List.perm_middle

/-- The kernel posts a completion. -/
theorem post (h : DriverInv C shared executing leases) (htoken : token ∈ shared.outstanding)
    (result : IoResult) : DriverInv C (shared.postCompletion token result) executing leases := by
  refine ⟨h.slab.perm ?_, h.files, h.bound⟩
  refine List.Perm.append_right _ ?_
  simp only [Shared.kernel, Shared.postCompletion, List.map_append, List.map_cons, List.map_nil]
  rw [← List.append_assoc]
  refine ((List.perm_cons_erase htoken).append_right _).trans ?_
  exact (List.perm_append_singleton token _).symm

/-- An operation keeps its slot when its frames leave for a completion. -/
theorem suspend (h : DriverInv C shared executing leases) (hholds : shared.Holds token entry)
    (hactive : entry.state = .active) {executing' : List OpToken} {cqes : List Cqe}
    (hperm : (shared.kernel ++ executing).Perm
      (token :: ({ shared with cqes }.kernel ++ executing')))
    {next : OpEntry} (hnext : next.state.isLeased) (hfd : next.fd = entry.fd) :
    DriverInv C { shared.replaced token next with cqes } executing' (token ::ₘ leases) :=
  ⟨SlabInv.suspend hholds h.slab hactive hnext hperm, h.files.replace hholds hfd, h.bound⟩

theorem finish (h : DriverInv C shared executing leases) (hholds : shared.Holds token entry)
    (hactive : entry.state = .active) {executing' : List OpToken} {cqes : List Cqe}
    (hperm : (shared.kernel ++ executing).Perm
      (token :: ({ shared with cqes }.kernel ++ executing'))) :
    DriverInv C { shared.vacated token entry with cqes } executing' leases := by
  refine ⟨SlabInv.finish hholds h.slab hactive hperm,
    h.files.vacate (h.slab.lt_of_payload hholds.payload) hholds.payload _, ?_⟩
  have htotal := h.totalInflight_update hholds.payload
  have hbound := h.bound
  simp only [Shared.totalInflight, Shared.vacated] at htotal hbound ⊢
  omega

theorem retry (h : DriverInv C shared executing leases) (hholds : shared.Holds token entry)
    (hactive : entry.state = .active) {cqes : List Cqe}
    (hperm : shared.kernel.Perm (token :: { shared with cqes }.kernel)) {next : OpEntry}
    (hnext : next.state = .queued) (hfd : next.fd = entry.fd) :
    DriverInv C { shared.replaced token next with
      cqes
      ready := shared.ready ++ [token.slot] } executing leases :=
  ⟨SlabInv.retry hholds h.slab hactive hnext (hperm.append_right executing),
    h.files.replace hholds hfd, h.bound⟩

theorem resume (h : DriverInv C shared executing (token ::ₘ leases)) {vector : ReadVector}
    (hcontinue : shared.continueReadVector C token vector = .ok (.ok token, after)) :
    DriverInv C after executing leases := by
  obtain ⟨-, entry, hholds, hstate, _, _, _, _, rfl⟩ := Shared.continueReadVector_eq_ok hcontinue
  exact ⟨SlabInv.resume hholds h.slab (by simp [hstate]) rfl rfl, h.files.replace hholds rfl, h.bound⟩

theorem contains_of_mem_leases (h : DriverInv C shared executing leases) (hmem : token ∈ leases) :
    shared.contains token := by
  obtain ⟨entry, hslot, -⟩ := h.slab.of_mem_leases hmem
  simp [Shared.contains, hslot]

theorem release (h : DriverInv C shared executing (token ::ₘ leases))
    (hrelease : shared.releaseReadLease C token = .ok ((), after)) :
    DriverInv C after executing leases := by
  have hmem : token ∈ token ::ₘ leases := Multiset.mem_cons_self token leases
  obtain ⟨entry, retire, outcome, hholds, -, -, -, rfl⟩ :=
    Shared.releaseReadLease_eq_ok (h.contains_of_mem_leases hmem) hrelease
  obtain ⟨other, hother, hleased⟩ := h.slab.of_mem_leases hmem
  obtain rfl := hholds.unique hother
  refine ⟨SlabInv.release hholds h.slab hleased rfl,
    h.files.vacate (h.slab.lt_of_payload hholds.payload) hholds.payload _, ?_⟩
  have htotal := h.totalInflight_update hholds.payload
  have hbound := h.bound
  simp only [Shared.totalInflight, Shared.vacated, List.length_append, List.length_cons,
    List.length_nil] at htotal hbound ⊢
  omega

/-! ### Files -/

/-- The state of a file changes, but not its count. -/
theorem setFile (h : DriverInv C shared executing leases) {file : ℕ} {next : FileSlot}
    (hinflight : next.inflight = (shared.files file).inflight)
    (hlive : (next.generation = (shared.files file).generation ∧
        (next.state = .opened ∨ next.state = .closing)) ∨ (shared.files file).inflight = 0)
    (hrange : next.state ≠ .free → file < C.fileCapacity) :
    DriverInv C (shared.setFile file next) executing leases := by
  refine ⟨h.slab, h.files.setFile hinflight ?_ hrange, ?_⟩
  · exact hlive.imp_right (h.files.no_entry h.slab.beyond)
  · have htotal : (shared.setFile file next).totalInflight C = shared.totalInflight C :=
      sum_range_update_of_eq C.fileCapacity (fun _ file ↦ FileSlot.inflight file) shared.files next
        hinflight
    rw [htotal]
    exact h.bound

/-- Operations keep their files open or closing. -/
theorem inflight_eq_zero (h : DriverInv C shared executing leases) {file : ℕ}
    (hstate : (shared.files file).state = .free ∨ (shared.files file).state = .closed) :
    (shared.files file).inflight = 0 := by
  rw [h.files.inflight]
  refine Finset.sum_eq_zero fun slot _ ↦ ?_
  cases hentry : (shared.slots slot).payload with
  | none => simp [slotFile, hentry]
  | some entry =>
    have hne : entry.fd.slot ≠ file := by
      rintro rfl
      have hlive := h.files.state slot entry hentry
      rcases hstate with hstate | hstate <;> simp [hstate] at hlive
    simp [slotFile, hentry, hne]

theorem openFile (h : DriverInv C shared executing leases) {id : FileId}
    (hopen : shared.openFile C = (some id, after)) : DriverInv C after executing leases := by
  obtain ⟨hslot, hstate, -, rfl⟩ := Shared.openFile_eq_some hopen
  have hzero := h.inflight_eq_zero hstate
  exact h.setFile hzero.symm (.inr hzero) fun _ ↦ hslot

theorem abortFile (h : DriverInv C shared executing leases) {id : FileId}
    (habort : shared.abortFile C id = .ok after) : DriverInv C after executing leases := by
  obtain ⟨-, -, -, hzero, rfl⟩ := Shared.abortFile_eq_ok habort
  exact h.setFile rfl (.inr hzero) (by simp)

theorem closeFile (h : DriverInv C shared executing leases) {id : FileId} {due : Bool}
    (hclose : shared.closeFile id = .ok (due, after)) : DriverInv C after executing leases := by
  obtain ⟨-, hopened, -, rfl⟩ := Shared.closeFile_eq_ok hclose
  refine h.setFile rfl (.inl ⟨rfl, .inr rfl⟩) fun _ ↦ ?_
  exact h.files.range _ (by simp [hopened])

theorem finishRetire (h : DriverInv C shared executing leases) {id : FileId}
    (hfinish : shared.finishRetire id = .ok after) : DriverInv C after executing leases := by
  obtain ⟨hclosing, hzero, rfl⟩ := Shared.finishRetire_eq_ok hfinish
  refine h.setFile rfl (.inr hzero) fun _ ↦ ?_
  exact h.files.range _ (by simp [hclosing])

/-! ### Queues -/

/-- The backlog changes, and releases that waited are taken away. -/
theorem queues (h : DriverInv C shared executing leases) (completionBacklog : List Completion)
    {deferred : List DeferredCompletion} (hlength : deferred.length ≤ shared.deferred.length) :
    DriverInv C { shared with completionBacklog, deferred } executing leases := by
  refine ⟨h.slab, h.files, ?_⟩
  have hbound := h.bound
  simp only [Shared.totalInflight] at hbound ⊢
  omega

end DriverInv

end DiosPool.Driver
