import DiosPool.Pool.Invariant.Moves

/-!
# The driver of a pool

The pool is the only user of its driver. Every operation of the slab is a page read or a product
operation, the completion of a vector read holds the lease on its slot, and the product operations
that the pool has submitted are the ones in the slab and in completions.
-/

namespace DiosPool.Pool

open Driver Foundation

/-- What the entry of an operation of a pool looks like. -/
structure EntrySound (entry : OpEntry) : Prop where
  read : entry.frame ≠ none → entry.kind = .read
  lease : entry.kind = .read → entry.frameLease = .pool
  bundle : ∀ vector, entry.frame = some (.vector vector) → vector.frames ≠ []
  leased : entry.state.isLeased ↔ entry.kind = .read ∧ entry.frame = none

structure CompletionSound (completion : Completion) : Prop where
  read : completion.kind = .read ↔ completion.frame ≠ none
  continuation : completion.continuation ↔ ∃ vector, completion.frame = some (.vector vector)
  bundle : ∀ vector, completion.frame = some (.vector vector) → vector.frames ≠ []

/-- The driver operation of a product operation. -/
def productToken (slot : ProductOpSlot) : Multiset OpToken :=
  (slot.operation.bind ProductOp.driverToken).elim 0 singleton

/-- The driver operations of all product operations. -/
def productTokens (C : Config) (productOps : ℕ → ProductOpSlot) : Multiset OpToken :=
  ∑ index ∈ Finset.range C.maxInflightProductOps, productToken (productOps index)

/-- `completions` are on their way to the pool, `leases` and `finished` are in the hands of the
running call. -/
structure DriverSound (C : Config) (leases finished : Multiset OpToken) (shared : Shared)
    (completions : List Completion) (productOps : ℕ → ProductOpSlot) : Prop where
  inv : DriverInv C.driver shared [] ((completions.map completionLease).sum + leases)
  entries : ∀ slot entry, (shared.slots slot).payload = some entry → EntrySound entry
  sound : ∀ completion ∈ completions, CompletionSound completion
  products : productCargo.total C.queueCapacity shared.slots completions + finished =
    productTokens C productOps
  backlog : shared.completionBacklog = []

namespace DriverSound

variable {C : Config} {leases finished finished' : Multiset OpToken} {shared after : Shared}
  {completions completions' : List Completion} {productOps productOps' : ℕ → ProductOpSlot}
  {token : OpToken} {entry next : OpEntry}

theorem new (C : Config) :
    DriverSound C 0 0 (Shared.new C.driver) [] fun _ ↦ ⟨0, none⟩ := by
  refine ⟨DriverInv.new C.driver, ?_, ?_, ?_, rfl⟩
  · intro slot entry hentry
    cases hentry
  · intro completion hmem
    cases hmem
  · simp [Cargo.total, Cargo.slot, Shared.new, productTokens, productToken]

theorem perm (h : DriverSound C leases finished shared completions productOps)
    (hperm : completions.Perm completions') :
    DriverSound C leases finished shared completions' productOps := by
  refine ⟨?_, h.entries, ?_, ?_, h.backlog⟩
  · rw [← (hperm.map completionLease).sum_eq]
    exact h.inv
  · intro completion hmem
    exact h.sound completion (hperm.mem_iff.mpr hmem)
  · rw [← productCargo.total_perm shared.slots hperm]
    exact h.products

theorem lt_capacity (h : DriverSound C leases finished shared completions productOps)
    (hholds : shared.Holds token entry) : token.slot < C.queueCapacity :=
  h.inv.slab.lt_of_payload hholds.payload

/-- Every entry after the change of one is sound. -/
theorem entries_update (h : DriverSound C leases finished shared completions productOps)
    {index generation : ℕ} {payload : Option OpEntry} (hsound : ∀ found ∈ payload, EntrySound found) :
    ∀ slot entry, (Function.update shared.slots index ⟨generation, payload⟩ slot).payload =
      some entry → EntrySound entry := by
  intro slot entry hentry
  by_cases hslot : slot = index
  · subst hslot
    rw [Function.update_self] at hentry
    exact hsound entry hentry
  · rw [Function.update_of_ne hslot] at hentry
    exact h.entries slot entry hentry

/-- The driver changes nothing that the pool has in it. -/
theorem keep (h : DriverSound C leases finished shared completions productOps)
    (hinv : DriverInv C.driver after [] ((completions.map completionLease).sum + leases))
    (hslots : after.slots = shared.slots) (hbacklog : after.completionBacklog = []) :
    DriverSound C leases finished after completions productOps := by
  refine ⟨hinv, ?_, h.sound, ?_, hbacklog⟩
  · rw [hslots]
    exact h.entries
  · rw [hslots]
    exact h.products

theorem openFile (h : DriverSound C leases finished shared completions productOps) {file : FileId}
    (hopen : shared.openFile C.driver = (some file, after)) :
    DriverSound C leases finished after completions productOps := by
  have hinv := h.inv.openFile hopen
  obtain ⟨-, -, -, rfl⟩ := Shared.openFile_eq_some hopen
  exact h.keep hinv rfl h.backlog

theorem closeFile (h : DriverSound C leases finished shared completions productOps) {file : FileId}
    {retire : Bool} (hclose : shared.closeFile file = .ok (retire, after)) :
    DriverSound C leases finished after completions productOps := by
  have hinv := h.inv.closeFile hclose
  obtain ⟨-, -, -, rfl⟩ := Shared.closeFile_eq_ok hclose
  exact h.keep hinv rfl h.backlog

theorem post (h : DriverSound C leases finished shared completions productOps)
    (htoken : token ∈ shared.outstanding) (result : IoResult) :
    DriverSound C leases finished (shared.postCompletion token result) completions productOps :=
  h.keep (h.inv.post htoken result) rfl h.backlog

/-- The operation of the next completion of the kernel. -/
theorem kernel_cons {cqe : Cqe} {cqes : List Cqe} (hcqes : shared.cqes = cqe :: cqes) :
    shared.kernel.Perm (cqe.userData :: { shared with cqes }.kernel) := by
  simp only [Shared.kernel, hcqes, List.map_cons]
  exact List.perm_middle

theorem active (h : DriverSound C leases finished shared completions productOps) {cqe : Cqe}
    {cqes : List Cqe} (hcqes : shared.cqes = cqe :: cqes) (hholds : shared.Holds cqe.userData entry) :
    entry.state = .active := by
  have hmem : cqe.userData ∈ shared.kernel ++ [] := by
    simp [Shared.kernel, hcqes]
  obtain ⟨other, hother, hactive⟩ := h.inv.slab.of_mem_active hmem
  obtain rfl := hholds.unique hother
  exact hactive

theorem products_of_total (h : DriverSound C leases finished shared completions productOps)
    (htotal : productCargo.total C.queueCapacity after.slots completions' =
      productCargo.total C.queueCapacity shared.slots completions) :
    productCargo.total C.queueCapacity after.slots completions' + finished =
      productTokens C productOps :=
  (congrArg (· + finished) htotal).trans h.products

theorem reaped (h : DriverSound C leases finished shared completions productOps)
    {completion : Option Completion} {retire : Option FileId}
    (hreap : shared.reapNext C.driver = .ok (some (completion, retire), after)) :
    Shared.Reaped shared completion after := by
  refine Shared.reapNext_eq_ok (fun slot entry hentry hframe ↦ ?_) hreap
  have hsound := h.entries slot entry hentry
  exact ⟨hsound.read hframe, hsound.lease (hsound.read hframe)⟩

theorem contains_of_mem_leases (h : DriverSound C leases finished shared completions productOps)
    (hmem : token ∈ leases) : shared.contains token :=
  h.inv.contains_of_mem_leases (Multiset.mem_add.mpr (.inr hmem))

/-- The entry of a lease has given its frames away. -/
theorem of_mem_leases (h : DriverSound C leases finished shared completions productOps)
    (hmem : token ∈ leases) (hholds : shared.Holds token entry) :
    entry.kind = .read ∧ entry.frame = none := by
  obtain ⟨other, hother, hleased⟩ := h.inv.slab.of_mem_leases (Multiset.mem_add.mpr (.inr hmem))
  obtain rfl := hholds.unique hother
  exact (h.entries _ _ hholds.payload).leased.mp hleased

end DriverSound

/-! ## The cargo of the driver -/

namespace Cargo

variable {β : Type} (cargo : Cargo β) {C : Config} {leases finished : Multiset OpToken}
  {shared after : Shared} {completions : List Completion} {productOps : ℕ → ProductOpSlot}
  {token : OpToken} {entry : OpEntry}

theorem total_upkeep (h : DriverSound C leases finished shared completions productOps)
    (hupkeep : Upkeep shared after) (routed : List Completion) :
    cargo.total C.queueCapacity after.slots routed =
      cargo.total C.queueCapacity shared.slots routed := by
  cases hupkeep with
  | flush hdeferred => rfl
  | retire hretire =>
    obtain ⟨-, -, rfl⟩ := Shared.finishRetire_eq_ok hretire
    rfl
  | fill hfill =>
    obtain ⟨slot, ready, entry, -, hholds, hqueued, rfl⟩ := Shared.fillNext_eq_ok hfill
    exact cargo.total_same (h.lt_capacity hholds) hholds { entry with state := .active } rfl rfl
      routed

/-- What an operation carries goes to its completion. -/
theorem total_reaped (h : DriverSound C leases finished shared completions productOps)
    {completion : Option Completion} (hreaped : Shared.Reaped shared completion after)
    (routed : List Completion) :
    cargo.total C.queueCapacity after.slots (completion.toList ++ routed) =
      cargo.total C.queueCapacity shared.slots routed := by
  cases hreaped with
  | @retry cqe cqes entry next hcqes hholds hsame hread =>
    exact cargo.total_same (h.lt_capacity hholds) hholds { next with state := .queued } hsame.kind
      (congrArg Shared.framesOf hsame.frame) routed
  | @lease cqe cqes entry vector hcqes hholds hactive hframe hbytes =>
    have hkind := (h.entries _ _ hholds.payload).read (by simp [hframe])
    obtain ⟨_, _, _, state, hnext, -⟩ := Shared.suspended_eq entry vector cqe.result
    have htotal := cargo.total_replaced (h.lt_capacity hholds) hholds
      (Shared.suspended entry vector cqe.result) routed
    rw [hnext, hkind, hframe] at htotal
    simp only [Shared.framesOf, Option.elim_none, cargo.leased, add_zero] at htotal
    simp only [Option.toList_some, List.singleton_append, total_cons]
    rw [← htotal, add_comm, hnext, completion, hkind]
    rfl
  | @finish cqe cqes entry result hcqes hholds hactive hframe hread hinflight =>
    simp only [Option.toList_some, List.singleton_append, total_cons]
    rw [add_comm]
    exact cargo.total_vacated (h.lt_capacity hholds) hholds routed

theorem total_submitted (h : DriverSound C leases finished shared completions productOps)
    (hsubmitted : Shared.Submitted C.driver shared entry token after) (routed : List Completion) :
    cargo.total C.queueCapacity after.slots routed =
      cargo.total C.queueCapacity shared.slots routed +
        cargo.of token entry.kind (Shared.framesOf entry.frame) := by
  obtain ⟨slot, free, hfree, rfl, rfl⟩ := hsubmitted.step
  have hslab := h.inv.slab
  rw [hfree] at hslab
  obtain ⟨hslot, hvacant⟩ := hslab.vacant_of_free
  have htotal := cargo.total_update hslot shared.slots
    ⟨(shared.slots slot).generation + 1, some entry⟩ routed
  have hnone : cargo.slot slot (shared.slots slot) = 0 := by
    rw [Cargo.slot, hvacant]
    rfl
  rw [hnone, add_zero] at htotal
  exact htotal

/-- A lease carries nothing. -/
theorem total_released (h : DriverSound C leases finished shared completions productOps)
    (hmem : token ∈ leases) (hrelease : shared.releaseReadLease C.driver token = .ok ((), after))
    (routed : List Completion) :
    cargo.total C.queueCapacity after.slots routed =
      cargo.total C.queueCapacity shared.slots routed := by
  obtain ⟨entry, retire, outcome, hholds, hframe, -, -, rfl⟩ :=
    Shared.releaseReadLease_eq_ok (h.contains_of_mem_leases hmem) hrelease
  obtain ⟨hkind, -⟩ := h.of_mem_leases hmem hholds
  have htotal := cargo.total_vacated (h.lt_capacity hholds) hholds routed
  rw [hkind, hframe] at htotal
  simp only [Shared.framesOf, Option.elim_none, cargo.leased, add_zero] at htotal
  exact htotal

/-- The frames of a bundle are back in the slab. -/
theorem total_resumed (h : DriverSound C leases finished shared completions productOps)
    (hmem : token ∈ leases) {vector : ReadVector}
    (hcontinue : shared.continueReadVector C.driver token vector = .ok (.ok token, after))
    (routed : List Completion) :
    cargo.total C.queueCapacity after.slots routed =
      cargo.total C.queueCapacity shared.slots routed + cargo.of token .read vector.frames := by
  obtain ⟨-, entry, hholds, _, _, _, _, _, rfl⟩ := Shared.continueReadVector_eq_ok hcontinue
  obtain ⟨hkind, hframe⟩ := h.of_mem_leases hmem hholds
  have htotal := cargo.total_replaced (h.lt_capacity hholds) hholds { entry with
    frame := some (.vector (Shared.described vector)), state := .queued, retries := 0 } routed
  have hleased : cargo.of token entry.kind (Shared.framesOf entry.frame) = 0 := by
    rw [hkind, hframe]
    exact cargo.leased token
  rw [hleased, add_zero] at htotal
  refine htotal.trans ?_
  rw [hkind]
  rfl

end Cargo

/-! ## Steps of the driver -/

namespace DriverSound

variable {C : Config} {leases finished : Multiset OpToken} {shared after : Shared}
  {completions : List Completion} {productOps productOps' : ℕ → ProductOpSlot}
  {token : OpToken} {entry : OpEntry}

theorem upkeep (h : DriverSound C leases finished shared completions productOps)
    (hupkeep : Upkeep shared after) :
    DriverSound C leases finished after completions productOps := by
  have hproducts := h.products_of_total (productCargo.total_upkeep h hupkeep completions)
  cases hupkeep with
  | flush hdeferred =>
    refine h.keep ?_ rfl h.backlog
    exact h.inv.queues shared.completionBacklog (by simp [hdeferred])
  | retire hretire =>
    have hinv := h.inv.finishRetire hretire
    obtain ⟨-, -, rfl⟩ := Shared.finishRetire_eq_ok hretire
    exact h.keep hinv rfl h.backlog
  | fill hfill =>
    have hinv := h.inv.fill hfill
    obtain ⟨slot, ready, entry, -, hholds, hqueued, rfl⟩ := Shared.fillNext_eq_ok hfill
    have hsound := h.entries _ _ hholds.payload
    have hleased := hsound.leased
    rw [hqueued] at hleased
    refine ⟨hinv, h.entries_update fun found hfound ↦ ?_, h.sound, hproducts, h.backlog⟩
    cases hfound
    exact ⟨hsound.read, hsound.lease, hsound.bundle, hleased⟩

theorem reap (h : DriverSound C leases finished shared completions productOps)
    {completion : Option Completion} (hreaped : Shared.Reaped shared completion after) :
    DriverSound C leases finished after (completion.toList ++ completions) productOps := by
  have hproducts := h.products_of_total (productCargo.total_reaped h hreaped completions)
  cases hreaped with
  | @retry cqe cqes entry next hcqes hholds hsame hread =>
    have hactive := h.active hcqes hholds
    have hsound := h.entries _ _ hholds.payload
    have hleased := hsound.leased
    rw [hactive] at hleased
    refine ⟨h.inv.retry hholds hactive (kernel_cons hcqes) rfl hsame.fd, ?_, h.sound, hproducts,
      h.backlog⟩
    refine h.entries_update fun found hfound ↦ ?_
    cases hfound
    constructor
    · rw [hsame.kind, hsame.frame]
      exact hsound.read
    · rw [hsame.kind, hsame.lease]
      exact hsound.lease
    · rw [hsame.frame]
      exact hsound.bundle
    · rw [hsame.kind, hsame.frame]
      exact hleased
  | @lease cqe cqes entry vector hcqes hholds hactive hframe hbytes =>
    have hsound := h.entries _ _ hholds.payload
    have hkind := hsound.read (by simp [hframe])
    obtain ⟨_, _, _, state, hnext, hstate⟩ := Shared.suspended_eq entry vector cqe.result
    have hleased : (Shared.suspended entry vector cqe.result).state.isLeased := by
      rw [hnext]
      rcases hstate with rfl | rfl <;> rfl
    have hperm : (shared.kernel ++ []).Perm (cqe.userData :: ({ shared with cqes }.kernel ++ [])) := by
      simpa using kernel_cons hcqes
    have hinv := h.inv.suspend hholds hactive hperm hleased (by rw [hnext])
    refine ⟨?_, ?_, ?_, hproducts, h.backlog⟩
    · simpa [completionLease, ← Multiset.singleton_add, add_assoc] using hinv
    · refine h.entries_update fun found hfound ↦ ?_
      cases hfound
      rw [hnext] at hleased ⊢
      exact ⟨by simp, hsound.lease, by simp, by simpa [hkind] using hleased⟩
    · intro completion hmem
      rcases List.mem_cons.mp hmem with rfl | hmem
      · refine ⟨by simp [hkind], by simp, fun bundle hbundle ↦ ?_⟩
        cases hbundle
        exact hsound.bundle vector hframe
      · exact h.sound completion hmem
  | @finish cqe cqes entry result hcqes hholds hactive hframe hread hinflight =>
    have hsound := h.entries _ _ hholds.payload
    have hperm : (shared.kernel ++ []).Perm (cqe.userData :: ({ shared with cqes }.kernel ++ [])) := by
      simpa using kernel_cons hcqes
    have hinv := h.inv.finish hholds hactive hperm
    refine ⟨?_, ?_, ?_, hproducts, h.backlog⟩
    · simpa [completionLease] using hinv
    · refine h.entries_update fun found hfound ↦ ?_
      cases hfound
    · intro completion hmem
      rcases List.mem_cons.mp hmem with rfl | hmem
      · have hactive' := hsound.leased
        rw [hactive] at hactive'
        refine ⟨⟨fun hkind hnone ↦ ?_, hsound.read⟩, by simp [hframe], fun bundle hbundle ↦ ?_⟩
        · cases hactive'.mpr ⟨hkind, hnone⟩
        · exact absurd hbundle (hframe bundle)
      · exact h.sound completion hmem

theorem submitted (h : DriverSound C leases finished shared completions productOps)
    (hsubmitted : Shared.Submitted C.driver shared entry token after) (hsound : EntrySound entry)
    (hqueued : entry.state = .queued)
    (hproducts : productTokens C productOps' = productTokens C productOps +
      productCargo.of token entry.kind (Shared.framesOf entry.frame)) :
    DriverSound C leases finished after completions productOps' := by
  have htotal := productCargo.total_submitted h hsubmitted completions
  have hinv := h.inv.submitted hsubmitted hqueued
  obtain ⟨slot, free, hfree, rfl, rfl⟩ := hsubmitted.step
  refine ⟨hinv, h.entries_update fun found hfound ↦ ?_, h.sound, ?_, h.backlog⟩
  · cases hfound
    exact hsound
  · rw [htotal, hproducts, ← h.products]
    abel

theorem release (h : DriverSound C leases finished shared completions productOps)
    (hmem : token ∈ leases)
    (hrelease : shared.releaseReadLease C.driver token = .ok ((), after)) :
    DriverSound C (leases.erase token) finished after completions productOps := by
  have hproducts := h.products_of_total (productCargo.total_released h hmem hrelease completions)
  have hinv := h.inv
  rw [← Multiset.cons_erase hmem, Multiset.add_cons] at hinv
  have hinv' := hinv.release hrelease
  obtain ⟨entry, retire, outcome, hholds, -, -, -, rfl⟩ :=
    Shared.releaseReadLease_eq_ok (h.contains_of_mem_leases hmem) hrelease
  refine ⟨hinv', h.entries_update fun found hfound ↦ ?_, h.sound, hproducts, h.backlog⟩
  cases hfound

theorem resume (h : DriverSound C leases finished shared completions productOps)
    (hmem : token ∈ leases) {vector : ReadVector}
    (hcontinue : shared.continueReadVector C.driver token vector = .ok (.ok token, after)) :
    DriverSound C (leases.erase token) finished after completions productOps := by
  have hproducts := h.products_of_total
    ((productCargo.total_resumed h hmem hcontinue completions).trans (add_zero _))
  have hinv := h.inv
  rw [← Multiset.cons_erase hmem, Multiset.add_cons] at hinv
  have hinv' := hinv.resume hcontinue
  obtain ⟨-, entry, hholds, -, -, -, hframes, -, rfl⟩ := Shared.continueReadVector_eq_ok hcontinue
  obtain ⟨hkind, -⟩ := h.of_mem_leases hmem hholds
  have hsound := h.entries _ _ hholds.payload
  refine ⟨hinv', h.entries_update fun found hfound ↦ ?_, h.sound, hproducts, h.backlog⟩
  cases hfound
  refine ⟨fun _ ↦ hkind, hsound.lease, fun bundle hbundle ↦ ?_, by simp⟩
  cases hbundle
  exact hframes

/-- A completion is taken to be routed. -/
theorem take {completion : Completion}
    (h : DriverSound C leases finished shared (completion :: completions) productOps) :
    DriverSound C (completionLease completion + leases)
      (productCargo.completion completion + finished) shared completions productOps := by
  refine ⟨?_, h.entries, fun other hmem ↦ h.sound other (List.mem_cons_of_mem _ hmem), ?_,
    h.backlog⟩
  · have hinv := h.inv
    rw [List.map_cons, List.sum_cons, add_assoc, add_left_comm] at hinv
    exact hinv
  · rw [← h.products, Cargo.total_cons]
    abel

/-- The product operations change, but not what they have in the driver. -/
theorem recount (h : DriverSound C leases finished shared completions productOps)
    {finished' : Multiset OpToken}
    (hproducts : productTokens C productOps + finished' = productTokens C productOps' + finished) :
    DriverSound C leases finished' shared completions productOps' := by
  refine ⟨h.inv, h.entries, h.sound, ?_, h.backlog⟩
  apply add_right_cancel (b := finished)
  rw [← hproducts, ← h.products]
  abel

end DriverSound

theorem Upkeep.deferred_eq_nil {shared after : Shared} (h : Upkeep shared after)
    (hdeferred : shared.deferred = []) : after.deferred = [] := by
  cases h with
  | flush hflush =>
    rw [hdeferred] at hflush
    cases hflush
  | retire hretire =>
    obtain ⟨-, -, rfl⟩ := Shared.finishRetire_eq_ok hretire
    exact hdeferred
  | fill hfill =>
    obtain ⟨_, _, _, -, -, -, rfl⟩ := Shared.fillNext_eq_ok hfill
    exact hdeferred

/-! ## Product operations -/

section Products

variable {C : Config} {locked after : Locked} {token : OpToken}

/-- The completion of a driver operation reaches the slot of its product operation. -/
inductive Finishes (C : Config) (locked : Locked) (token : OpToken) (result : IoResult) :
    Locked → Prop
  | write {index order : ℕ} {poolToken : PoolToken} {file : FileId}
    (hindex : index < C.maxInflightProductOps)
    (hoperation : (locked.productOps index).operation = some (.write poolToken token file order)) :
    Finishes C locked token result
      ((setProductOp locked index (.completed file (.write poolToken result))).record
        (.finished token (.write poolToken result)))
  | fsync {index : ℕ} {poolToken : PoolToken} {file : FileId}
    (hindex : index < C.maxInflightProductOps)
    (hoperation : (locked.productOps index).operation = some (.fsync poolToken token file)) :
    Finishes C locked token result
      ((setProductOp locked index (.completed file (.fsync poolToken (result.map fun _ ↦ ())))).record
        (.finished token (.fsync poolToken (result.map fun _ ↦ ()))))

theorem finishProductCompletion_eq_ok {kind : OpKind} {result : IoResult}
    (h : finishProductCompletion C locked token kind result = .ok after) :
    Finishes C locked token result after := by
  simp only [finishProductCompletion, bind_eq_ok, expect_eq_ok] at h
  obtain ⟨index, hfind, h⟩ := h
  have hindex := List.mem_range.mp (List.mem_of_find?_eq_some hfind)
  have hawaits := List.find?_some hfind
  simp only [awaits, beq_iff_eq] at hawaits
  split at h
  · rename_i poolToken driverToken file order hoperation
    cases h
    rw [hoperation] at hawaits
    cases hawaits
    exact .write hindex hoperation
  · rename_i poolToken driverToken file hoperation
    cases h
    rw [hoperation] at hawaits
    cases hawaits
    exact .fsync hindex hoperation
  · cases h

theorem productTokens_update (productOps : ℕ → ProductOpSlot) {index : ℕ}
    (hindex : index < C.maxInflightProductOps) (slot : ProductOpSlot) :
    productTokens C (Function.update productOps index slot) + productToken (productOps index) =
      productTokens C productOps + productToken slot :=
  sum_range_update_add hindex (fun _ ↦ productToken) productOps slot

/-- A slot without a driver operation changes to another one. -/
theorem productTokens_update_of_zero (productOps : ℕ → ProductOpSlot) (index : ℕ)
    {slot : ProductOpSlot} (hbefore : productToken (productOps index) = 0)
    (hafter : productToken slot = 0) :
    productTokens C (Function.update productOps index slot) = productTokens C productOps :=
  sum_range_update_of_eq _ (fun _ ↦ productToken) productOps slot (hafter.trans hbefore.symm)

theorem Finishes.productTokens {result : IoResult} (h : Finishes C locked token result after) :
    productTokens C after.productOps + {token} = Pool.productTokens C locked.productOps := by
  cases h with
  | @write index order poolToken file hindex hoperation =>
    have hupdate := productTokens_update locked.productOps hindex
      { locked.productOps index with operation := some (.completed file (.write poolToken result)) }
    simp only [productToken, hoperation] at hupdate
    exact hupdate.trans (add_zero _)
  | @fsync index poolToken file hindex hoperation =>
    have hupdate := productTokens_update locked.productOps hindex
      { locked.productOps index with
        operation := some (.completed file (.fsync poolToken (result.map fun _ ↦ ()))) }
    simp only [productToken, hoperation] at hupdate
    exact hupdate.trans (add_zero _)

theorem productTokens_deliverFrom (C : Config) (turns : ℕ) :
    ∀ (index room : ℕ) (delivered completions : List PoolCompletion) (locked after : Locked),
      deliverFrom turns index room delivered locked = (completions, after) →
        productTokens C after.productOps = productTokens C locked.productOps := by
  induction turns with
  | zero =>
    intro index room delivered completions locked after h
    cases h
    rfl
  | succ turns ih =>
    intro index room delivered completions locked after h
    cases room with
    | zero =>
      cases h
      rfl
    | succ room =>
      simp only [deliverFrom] at h
      split at h
      · rename_i file completion hoperation
        refine (ih _ _ _ _ _ _ h).trans ?_
        refine productTokens_update_of_zero _ index ?_ rfl
        simp [productToken, hoperation, ProductOp.driverToken]
      · exact ih _ _ _ _ _ _ h

/-- A delivery changes the product operations only. -/
theorem deliverFrom_eq (turns : ℕ) :
    ∀ (index room : ℕ) (delivered completions : List PoolCompletion) (locked after : Locked),
      deliverFrom turns index room delivered locked = (completions, after) →
        ∃ productOps, after = { locked with productOps } := by
  induction turns with
  | zero =>
    intro index room delivered completions locked after h
    cases h
    exact ⟨locked.productOps, rfl⟩
  | succ turns ih =>
    intro index room delivered completions locked after h
    cases room with
    | zero =>
      cases h
      exact ⟨locked.productOps, rfl⟩
    | succ room =>
      simp only [deliverFrom] at h
      split at h
      · obtain ⟨productOps, rfl⟩ := ih _ _ _ _ _ _ h
        exact ⟨productOps, rfl⟩
      · exact ih _ _ _ _ _ _ h

end Products

/-! ## Files -/

theorem registerFile_eq_ok {C : Config} {pool after : Pool} {index : ℕ} {handle : FileHandle}
    (hopened : pool.unlocked.opened[index]? = some handle)
    (h : registerFile C pool index = .ok after) :
    (∀ entry, pool.locked.files handle.fileId.slot = some entry → entry.state = .retired) ∧
      handle.fileId.driver = C.identity ∧ pool.unlocked.leases handle.fileId.slot = 0 ∧
      ∃ fileRetiring, after = {
        locked := Locked.record { pool.locked with
          fileRetiring
          leaseGenerations := Function.update pool.locked.leaseGenerations handle.fileId.slot
            handle.fileId.generation
          files := Function.update pool.locked.files handle.fileId.slot
            (some ⟨handle.fileId, some handle, .live⟩)
          liveGenerations := Function.update pool.locked.liveGenerations handle.fileId.slot
            (some handle.fileId.generation) } (.registered handle.fileId)
        unlocked := { pool.unlocked with opened := pool.unlocked.opened.eraseIdx index } } := by
  simp only [registerFile, hopened, bind_eq_ok, ensure_eq_ok, pure_ok, Except.ok.injEq] at h
  obtain ⟨_, hretired, _, hdriver, _, hleases, rfl⟩ := h
  refine ⟨fun entry hentry ↦ ?_, hdriver, hleases, _, rfl⟩
  rw [hentry] at hretired
  simpa using hretired

theorem beginFileRetirement_eq_some {C : Config} {locked after : Locked} {file : FileId}
    (h : beginFileRetirement C locked file = some after) :
    ∃ entry fileRetiring, locked.files file.slot = some entry ∧ (entry.id = file ∧
      entry.state ≠ .retired) ∧
      after = Locked.record { locked with
        files := Function.update locked.files file.slot (some { entry with state := .retiring })
        fileRetiring
        liveGenerations := Function.update locked.liveGenerations file.slot none }
          (.retiring file) := by
  unfold beginFileRetirement at h
  split at h
  · cases h
  · rename_i entry hentry
    split at h
    · rename_i hfile
      cases h
      exact ⟨entry, _, hentry, hfile, rfl⟩
    · cases h

/-! ## The driver in every state -/

theorem perm_append_left_comm {α : Type} (first second third : List α) :
    (first ++ (second ++ third)).Perm (second ++ (first ++ third)) := by
  rw [← List.append_assoc, ← List.append_assoc]
  exact List.perm_append_comm.append_right third

theorem Reaped.deferred_eq {shared after : Shared} {completion : Option Completion}
    (h : shared.Reaped completion after) : after.deferred = shared.deferred := by
  cases h <;> rfl

/-- The pool and its driver agree. -/
structure Connected (C : Config) (c : Custody) (pool : Pool) : Prop where
  driver : DriverSound C c.leases c.finished pool.unlocked.driver (queued pool)
    pool.locked.productOps
  flushed : c.flushed → pool.unlocked.driver.deferred = []
  waiting : pool.unlocked.waiting = false → pool.unlocked.waitBatch = []
  routing : c.routing = false → pool.locked.batch = []

theorem Connected.new (C : Config) : Connected C .empty (Pool.new C) :=
  ⟨DriverSound.new C, fun _ ↦ rfl, fun _ ↦ rfl, fun _ ↦ rfl⟩

section Steps

variable {C : Config} {c c' : Custody} {pool after : Pool}

theorem Turn.connected (hturn : Turn C pool after) (h : Connected C c pool) :
    Connected C c after := by
  cases hturn with
  | reader hcall hreader => cases hreader <;> exact ⟨h.driver, h.flushed, h.waiting, h.routing⟩
  | openFile hopen =>
    refine ⟨h.driver.openFile hopen, ?_, h.waiting, h.routing⟩
    obtain ⟨-, -, -, rfl⟩ := Shared.openFile_eq_some hopen
    exact h.flushed
  | beginWait hwaiting =>
    have hdriver := h.driver
    rw [queued, h.waiting hwaiting] at hdriver
    exact ⟨hdriver, h.flushed, fun _ ↦ rfl, h.routing⟩
  | upkeep hupkeep =>
    refine ⟨h.driver.upkeep hupkeep, fun hflushed ↦ ?_, h.waiting, h.routing⟩
    exact hupkeep.deferred_eq_nil (h.flushed hflushed)
  | reap hwaiting hreap =>
    have hreaped := h.driver.reaped hreap
    refine ⟨(h.driver.reap hreaped).perm (perm_append_left_comm _ _ _), ?_, ?_, h.routing⟩
    · rw [Reaped.deferred_eq hreaped]
      exact h.flushed
    · intro hidle
      rw [hwaiting] at hidle
      cases hidle
  | complete hentry houtstanding hlen herror =>
    exact ⟨h.driver.post houtstanding _, h.flushed, h.waiting, h.routing⟩
  | _ => exact ⟨h.driver, h.flushed, h.waiting, h.routing⟩

/-- The entry of a point read of the pool. -/
theorem EntrySound.point (fd : FileHandle) (frame fileOffset destinationOffset requestedLen : ℕ) :
    EntrySound (Shared.pointEntry .pool fd frame fileOffset destinationOffset requestedLen) := by
  constructor <;> simp [Shared.pointEntry]

theorem EntrySound.vector (fd : FileHandle) {vector : ReadVector} (offset : ℕ) (token : OpToken)
    (hframes : vector.frames ≠ []) :
    EntrySound (Shared.vectorEntry .pool fd vector offset token) := by
  constructor <;> simp [Shared.vectorEntry, OpEntry.ofVector, Shared.described, hframes]

theorem EntrySound.write (fd : FileHandle) (writeSlot len offset : ℕ) :
    EntrySound (Shared.writeEntry fd writeSlot len offset) := by
  constructor <;> simp [Shared.writeEntry]

theorem EntrySound.fsync (fd : FileHandle) (mode : SyncMode) :
    EntrySound (Shared.fsyncEntry fd mode) := by
  constructor <;> simp [Shared.fsyncEntry]

theorem heldFsync_eq_some {locked : Locked} {index : ℕ} {token : PoolToken} {file : FileId}
    {mode : SyncMode} (h : heldFsync C locked index = some (token, file, mode)) :
    ∃ order, (locked.productOps index).operation = some (.fsyncHeld token file order mode) ∧
      ∀ other < C.maxInflightProductOps, ∀ written driverToken writeOrder,
        (locked.productOps other).operation = some (.write written driverToken file writeOrder) →
          order ≤ writeOrder := by
  unfold heldFsync at h
  split at h
  · rename_i held heldFile order heldMode hoperation
    split at h
    · cases h
    · rename_i hearlier
      cases h
      refine ⟨order, hoperation, fun other hother written driverToken writeOrder hwrite ↦ ?_⟩
      by_contra hlt
      refine hearlier (List.any_eq_true.mpr ⟨other, List.mem_range.mpr hother, ?_⟩)
      rw [hwrite]
      simp only [beq_self_eq_true, Bool.true_and, decide_eq_true_eq]
      omega
  · cases h

theorem Move.connected (hmove : Move C (c, pool) (c', after)) (h : Connected C c pool) :
    Connected C c' after := by
  cases hmove with
  | pin hpinning hreader => cases hreader <;> exact ⟨h.driver, h.flushed, h.waiting, h.routing⟩
  | startRouting => exact ⟨h.driver, h.flushed, h.waiting, by simp⟩
  | stopRouting hbatch => exact ⟨h.driver, h.flushed, h.waiting, fun _ ↦ hbatch⟩
  | upkeep hupkeep =>
    refine ⟨h.driver.upkeep hupkeep, fun hflushed ↦ ?_, h.waiting, h.routing⟩
    exact hupkeep.deferred_eq_nil (h.flushed hflushed)
  | flushed hdeferred => exact ⟨h.driver, fun _ ↦ hdeferred, h.waiting, h.routing⟩
  | reap hrouting hreap =>
    have hreaped := h.driver.reaped hreap
    refine ⟨?_, ?_, h.waiting, ?_⟩
    · have hdriver := h.driver.reap hreaped
      rw [queued, ← List.append_assoc] at hdriver
      exact hdriver
    · rw [setDriver, Reaped.deferred_eq hreaped]
      exact h.flushed
    · rw [hrouting]
      simp
  | collect hrouting =>
    refine ⟨h.driver.perm ?_, h.flushed, fun _ ↦ rfl, ?_⟩
    · simp only [queued, collectWait, List.append_nil]
      refine List.perm_append_comm.trans ?_
      exact (List.reverse_perm _).symm.append_right _
    · rw [hrouting]
      simp
  | take hbatch hbundle hspan hfacts =>
    have hdriver := h.driver
    rw [queued, hbatch] at hdriver
    refine ⟨hdriver.take, h.flushed, h.waiting, fun hrouting ↦ ?_⟩
    have hnone := h.routing hrouting
    rw [hbatch] at hnone
    cases hnone
  | releaseLease hlease hrelease =>
    exact ⟨h.driver.release hlease hrelease, by simp, h.waiting, h.routing⟩
  | submit hloose hpage hfile hsubmit =>
    have hsubmitted := (Shared.submitRead_eq_ok hsubmit).2
    refine ⟨h.driver.submitted hsubmitted (.point ..) rfl (add_zero _).symm, ?_, h.waiting,
      h.routing⟩
    obtain ⟨_, _, _, rfl, rfl⟩ := hsubmitted.step
    exact h.flushed
  | resubmit howed hentry hfile hsubmit hadvance =>
    have hsubmitted := (Shared.submitRead_eq_ok hsubmit).2
    refine ⟨h.driver.submitted hsubmitted (.point ..) rfl (add_zero _).symm, ?_, h.waiting,
      h.routing⟩
    obtain ⟨_, _, _, rfl, rfl⟩ := hsubmitted.step
    exact h.flushed
  | submitVector hloose hgranule hordinal htotal hunrouted hpages hfile hsubmit =>
    obtain ⟨-, hframes, hsubmitted⟩ := Shared.submitReadVector_eq_ok hsubmit
    refine ⟨h.driver.submitted hsubmitted (.vector _ _ _ hframes) rfl (add_zero _).symm, ?_,
      h.waiting, h.routing⟩
    obtain ⟨_, _, _, rfl, rfl⟩ := hsubmitted.step
    exact h.flushed
  | continueVector hbundle hvector hcompleted hlease hspan hunrouted howed hcontinue =>
    refine ⟨h.driver.resume hlease hcontinue, ?_, h.waiting, h.routing⟩
    obtain ⟨-, _, _, _, _, _, _, _, rfl⟩ := Shared.continueReadVector_eq_ok hcontinue
    exact h.flushed
  | @submitWrite _ _ fd index writeSlot len offset token driverToken file shared locked hindex
      hvacant hlive hsubmit hlocked =>
    have hsubmitted := Shared.submitWrite_eq_ok hsubmit
    cases hlocked
    refine ⟨h.driver.submitted hsubmitted (.write ..) rfl ?_, ?_, h.waiting, h.routing⟩
    · have hupdate := productTokens_update pool.locked.productOps hindex
        ⟨(pool.locked.productOps index).generation + 1, some (.write
          ⟨index, (pool.locked.productOps index).generation + 1⟩ driverToken file
          (pool.locked.productSequence + 1))⟩
      simp only [productToken, hvacant, Option.bind_none, Option.elim_none, add_zero] at hupdate
      exact hupdate
    · obtain ⟨_, _, _, rfl, rfl⟩ := hsubmitted.step
      exact h.flushed
  | @holdFsync _ _ index token file mode fd locked hindex hvacant hlive hlocked =>
    cases hlocked
    refine ⟨h.driver.recount ?_, h.flushed, h.waiting, h.routing⟩
    refine congrArg (· + c.finished) (productTokens_update_of_zero _ index ?_ rfl).symm
    simp [productToken, hvacant]
  | @submitFsync _ _ fd index token driverToken file mode shared hindex hheld hsubmit =>
    have hsubmitted := Shared.submitFsync_eq_ok hsubmit
    obtain ⟨order, hoperation, -⟩ := heldFsync_eq_some hheld
    refine ⟨h.driver.submitted hsubmitted (.fsync ..) rfl ?_, ?_, h.waiting, h.routing⟩
    · have hupdate := productTokens_update pool.locked.productOps hindex
        { pool.locked.productOps index with operation := some (.fsync token driverToken file) }
      simp only [productToken, hoperation, Option.bind_some, ProductOp.driverToken,
        Option.elim_none, add_zero] at hupdate
      exact hupdate
    · obtain ⟨_, _, _, rfl, rfl⟩ := hsubmitted.step
      exact h.flushed
  | @finish _ _ token kind result locked hfinished hfinish =>
    have hfinishes := finishProductCompletion_eq_ok hfinish
    have hbatch : locked.batch = pool.locked.batch := by
      cases hfinishes <;> rfl
    refine ⟨?_, h.flushed, h.waiting, ?_⟩
    · have hdriver : DriverSound C c.leases (c.finished.erase token) pool.unlocked.driver
          (queued pool) locked.productOps := by
        refine h.driver.recount ?_
        rw [← hfinishes.productTokens, add_assoc, Multiset.singleton_add,
          Multiset.cons_erase hfinished]
      rw [queued, ← hbatch] at hdriver
      exact hdriver
    · rw [hbatch]
      exact h.routing
  | deliver hdeliver =>
    have hproducts := productTokens_deliverFrom C _ _ _ _ _ _ _ hdeliver
    obtain ⟨productOps, rfl⟩ := deliverFrom_eq _ _ _ _ _ _ _ hdeliver
    refine ⟨h.driver.recount ?_, h.flushed, h.waiting, h.routing⟩
    exact congrArg (· + c.finished) hproducts.symm
  | register hopened hregister =>
    obtain ⟨_, _, _, _, rfl⟩ := registerFile_eq_ok hopened hregister
    exact ⟨h.driver, h.flushed, h.waiting, h.routing⟩
  | beginRetire hlive hretire =>
    obtain ⟨_, _, _, _, rfl⟩ := beginFileRetirement_eq_some hretire
    exact ⟨h.driver, h.flushed, h.waiting, h.routing⟩
  | close hclosing hclose =>
    refine ⟨h.driver.closeFile hclose, ?_, h.waiting, h.routing⟩
    obtain ⟨-, -, -, rfl⟩ := Shared.closeFile_eq_ok hclose
    exact h.flushed
  | forget hfilled habsent hroom hbundle hflushed hquiet hlive hdrained =>
    exact ⟨h.driver, fun hset ↦ h.flushed (hflushed hset), h.waiting, h.routing⟩
  | _ => exact ⟨h.driver, h.flushed, h.waiting, h.routing⟩

/-- The pool and its driver agree in every state. -/
theorem Reach.connected (h : Reach C c pool) : Connected C c pool := by
  induction h with
  | new => exact .new C
  | turn _ hturn ih => exact hturn.connected ih
  | move _ hmove ih => exact hmove.connected ih

end Steps

end DiosPool.Pool
