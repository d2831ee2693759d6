import DiosPool.Driver.Machine

/-!
# Operations, frames and write slots over a run

Every token that a submission returned names an operation that is in the slab or has left it, and it
leaves once. What an operation was given is accounted for at every moment: a frame is in the entry
of its operation, with the thread that executes it, in a completion or back in the arena.
-/

namespace DiosPool.Driver

open Foundation

/-- A quantity of an operation, none if it is not in the slab. -/
def weightIn (slots : ℕ → SlabSlot) (measure : OpEntry → ℕ) (token : OpToken) : ℕ :=
  (slots token.slot).weightOf measure token.slot token

/-- The number of operations in the slab that a token names. -/
def liveCount (slots : ℕ → SlabSlot) (token : OpToken) : ℕ := weightIn slots (fun _ ↦ 1) token

section Weight

variable {slots : ℕ → SlabSlot} {token : OpToken} {entry : OpEntry}

theorem weightIn_replace (hslot : slots token.slot = ⟨token.generation, some entry⟩)
    (next : OpEntry) (measure : OpEntry → ℕ) (other : OpToken) :
    weightIn (Function.update slots token.slot ⟨token.generation, some next⟩) measure other +
        (if other = token then measure entry else 0) =
      weightIn slots measure other + if other = token then measure next else 0 := by
  have hupdate := SlabSlot.weightOf_update slots token.slot ⟨token.generation, some next⟩ measure other
  rw [hslot] at hupdate
  exact hupdate

theorem weightIn_vacate (hslot : slots token.slot = ⟨token.generation, some entry⟩)
    (measure : OpEntry → ℕ) (other : OpToken) :
    weightIn (Function.update slots token.slot ⟨token.generation, none⟩) measure other +
        (if other = token then measure entry else 0) = weightIn slots measure other := by
  have hupdate := SlabSlot.weightOf_update slots token.slot ⟨token.generation, none⟩ measure other
  rw [hslot, SlabSlot.weightOf_none] at hupdate
  exact hupdate

theorem weightIn_submit {slot : ℕ} (hvacant : (slots slot).payload = none) (generation : ℕ)
    (measure : OpEntry → ℕ) (other : OpToken) :
    weightIn (Function.update slots slot ⟨generation, some entry⟩) measure other =
      weightIn slots measure other + if other = ⟨slot, generation⟩ then measure entry else 0 := by
  have hupdate := SlabSlot.weightOf_update slots slot ⟨generation, some entry⟩ measure other
  have hnone : slots slot = ⟨(slots slot).generation, none⟩ := by rw [← hvacant]
  rw [hnone, SlabSlot.weightOf_none] at hupdate
  exact hupdate

/-- An operation that is not in the slab has no quantities. -/
theorem weightIn_eq_zero (hlive : liveCount slots token = 0) (measure : OpEntry → ℕ) :
    weightIn slots measure token = 0 := by
  unfold liveCount at hlive
  unfold weightIn at hlive ⊢
  rcases hcontent : slots token.slot with ⟨generation, _ | entry⟩
  · exact SlabSlot.weightOf_none
  · rw [hcontent, SlabSlot.weightOf_some] at hlive
    rw [SlabSlot.weightOf_some]
    split at hlive
    · omega
    · rename_i hother
      exact if_neg hother

end Weight

/-! ## Tokens -/

structure TokenInv (slots : ℕ → SlabSlot) (accepted departed : List OpToken) : Prop where
  issued : ∀ token : OpToken, accepted.count token =
    if 0 < token.generation ∧ token.generation ≤ (slots token.slot).generation then 1 else 0
  left : ∀ token, departed.count token + liveCount slots token = accepted.count token

namespace TokenInv

variable {slots : ℕ → SlabSlot} {accepted departed : List OpToken} {token : OpToken}
  {entry : OpEntry}

/-- An operation stays in its slot. -/
theorem replace (h : TokenInv slots accepted departed)
    (hslot : slots token.slot = ⟨token.generation, some entry⟩) (next : OpEntry) :
    TokenInv (Function.update slots token.slot ⟨token.generation, some next⟩) accepted departed := by
  constructor
  · intro other
    rw [h.issued]
    by_cases hother : other.slot = token.slot
    · simp [hother, hslot]
    · rw [Function.update_of_ne hother]
  · intro other
    rw [← h.left other]
    have hweight := weightIn_replace hslot next (fun _ ↦ 1) other
    simp only [liveCount]
    omega

/-- A free slot takes an operation under a new generation. -/
theorem submit (h : TokenInv slots accepted departed) {slot : ℕ}
    (hvacant : (slots slot).payload = none) (entry : OpEntry) :
    TokenInv (Function.update slots slot ⟨(slots slot).generation + 1, some entry⟩)
      (⟨slot, (slots slot).generation + 1⟩ :: accepted) departed := by
  constructor
  · rintro ⟨other, generation⟩
    have hissued := h.issued ⟨other, generation⟩
    rw [List.count_cons, hissued]
    by_cases hother : other = slot
    · subst hother
      simp only [Function.update_self, beq_iff_eq, OpToken.mk.injEq, true_and]
      split_ifs <;> omega
    · simp [hother, Ne.symm hother]
  · intro other
    have hleft := h.left other
    simp only [liveCount] at hleft ⊢
    rw [weightIn_submit hvacant, List.count_cons]
    simp only [beq_iff_eq, eq_comm (a := other)]
    omega

/-- An operation leaves its slot. -/
theorem vacate (h : TokenInv slots accepted departed)
    (hslot : slots token.slot = ⟨token.generation, some entry⟩) :
    TokenInv (Function.update slots token.slot ⟨token.generation, none⟩) accepted
      (token :: departed) := by
  constructor
  · intro other
    rw [h.issued]
    by_cases hother : other.slot = token.slot
    · simp [hother, hslot]
    · rw [Function.update_of_ne hother]
  · intro other
    rw [← h.left other, List.count_cons]
    have hweight := weightIn_vacate hslot (fun _ ↦ 1) other
    simp only [liveCount, beq_iff_eq, eq_comm (a := token)]
    omega

/-- An operation that has left is not in the slab. -/
theorem not_live (h : TokenInv slots accepted departed) (hmem : token ∈ departed) :
    departed.count token = 1 ∧ liveCount slots token = 0 := by
  have hpos := List.count_pos_iff.mpr hmem
  have hleft := h.left token
  have hissued := h.issued token
  split at hissued <;> omega

end TokenInv

/-! ## What operations hold -/

/-- Every item that was given to an operation is in its entry, or it is gone. -/
def Balanced (held : OpEntry → List ℕ) (slots : ℕ → SlabSlot) (given gone : List (OpToken × ℕ)) :
    Prop :=
  ∀ token item, given.count (token, item) =
    weightIn slots (fun entry ↦ (held entry).count item) token + gone.count (token, item)

/-- Items under the token of their operation. -/
def tagged (token : OpToken) (items : List ℕ) : List (OpToken × ℕ) := items.map (token, ·)

theorem count_tagged (token other : OpToken) (items : List ℕ) (item : ℕ) :
    (tagged token items).count (other, item) = if other = token then items.count item else 0 := by
  unfold tagged
  split
  · rename_i htoken
    subst htoken
    exact List.count_map_of_injective items (other, ·) (Prod.mk_right_injective other) item
  · rename_i hother
    refine List.count_eq_zero.mpr fun hmem ↦ ?_
    obtain ⟨_, _, hpair⟩ := List.mem_map.mp hmem
    exact hother (Prod.mk.inj hpair).1.symm

namespace Balanced

variable {held : OpEntry → List ℕ} {slots : ℕ → SlabSlot} {token : OpToken} {entry next : OpEntry}
  {given gone gone' : List (OpToken × ℕ)}

/-- An operation stays in its slot, takes new items and gives some away. -/
theorem replace (h : Balanced held slots given gone) (new : List (OpToken × ℕ))
    (hslot : slots token.slot = ⟨token.generation, some entry⟩)
    (hmoved : (tagged token (held next) ++ gone').Perm
      (new ++ (tagged token (held entry) ++ gone))) :
    Balanced held (Function.update slots token.slot ⟨token.generation, some next⟩) (new ++ given)
      gone' := by
  intro other item
  have hbalanced := h other item
  have hweight := weightIn_replace hslot next (fun entry ↦ (held entry).count item) other
  have hcount := hmoved.count_eq (other, item)
  simp only [List.count_append, count_tagged] at hcount hweight ⊢
  omega

/-- An operation leaves its slot, and everything it holds is given away. -/
theorem vacate (h : Balanced held slots given gone)
    (hslot : slots token.slot = ⟨token.generation, some entry⟩)
    (hmoved : gone'.Perm (tagged token (held entry) ++ gone)) :
    Balanced held (Function.update slots token.slot ⟨token.generation, none⟩) given gone' := by
  intro other item
  have hbalanced := h other item
  have hweight := weightIn_vacate hslot (fun entry ↦ (held entry).count item) other
  have hcount := hmoved.count_eq (other, item)
  simp only [List.count_append, count_tagged] at hcount hweight ⊢
  omega

theorem submit (h : Balanced held slots given gone) {slot : ℕ}
    (hvacant : (slots slot).payload = none) (generation : ℕ) (entry : OpEntry) :
    Balanced held (Function.update slots slot ⟨generation, some entry⟩)
      (tagged ⟨slot, generation⟩ (held entry) ++ given) gone := by
  intro other item
  have hbalanced := h other item
  rw [weightIn_submit hvacant, List.count_append, count_tagged]
  omega

end Balanced

/-- Only reads hold frames, and only other operations hold write slots. The frames of a leased
operation are in its completion. -/
structure OpEntry.Sound (entry : OpEntry) : Prop where
  frame : entry.frame ≠ none → entry.kind = .read
  leased : entry.state.isLeased → entry.kind = .read ∧ entry.frame = none
  writeSlot : entry.kind = .read → entry.writeSlot = none

def OpEntry.framesHeld (entry : OpEntry) : List ℕ := Shared.framesOf entry.frame

def OpEntry.writeSlotsHeld (entry : OpEntry) : List ℕ := entry.writeSlot.toList

/-- The frames that executing threads hold. -/
def executingFrames (executing : List (OpToken × Option ReadDestination)) : List (OpToken × ℕ) :=
  executing.flatMap fun operation ↦ tagged operation.1 (Shared.framesOf operation.2)

/-- `gone` are the frames that operations handed over or released. -/
structure LedgerInv (slots : ℕ → SlabSlot) (executing : List (OpToken × Option ReadDestination))
    (accepted departed : List OpToken) (given gone staged unstaged : List (OpToken × ℕ)) : Prop where
  tokens : TokenInv slots accepted departed
  sound : ∀ slot entry, (slots slot).payload = some entry → entry.Sound
  taken : ∀ token destination entry, (token, destination) ∈ executing → destination ≠ none →
    slots token.slot = ⟨token.generation, some entry⟩ → entry.kind = .read ∧ entry.frame = none
  frames : Balanced OpEntry.framesHeld slots given (executingFrames executing ++ gone)
  writeSlots : Balanced OpEntry.writeSlotsHeld slots staged unstaged

namespace LedgerInv

variable {slots : ℕ → SlabSlot} {executing executing' : List (OpToken × Option ReadDestination)}
  {accepted departed : List OpToken} {given gone gone' staged unstaged : List (OpToken × ℕ)}
  {token : OpToken} {entry next : OpEntry}

/-- An operation stays in its slot. -/
theorem replace (h : LedgerInv slots executing accepted departed given gone staged unstaged)
    (new : List (OpToken × ℕ)) (hslot : slots token.slot = ⟨token.generation, some entry⟩) (hsound : next.Sound)
    (hwriteSlot : next.writeSlot = entry.writeSlot)
    (hothers : ∀ operation ∈ executing', operation.1 ≠ token → operation ∈ executing)
    (htaken : ∀ destination, (token, destination) ∈ executing' → destination ≠ none →
      next.kind = .read ∧ next.frame = none)
    (hmoved : (tagged token next.framesHeld ++ (executingFrames executing' ++ gone')).Perm
      (new ++ (tagged token entry.framesHeld ++ (executingFrames executing ++ gone)))) :
    LedgerInv (Function.update slots token.slot ⟨token.generation, some next⟩) executing' accepted
      departed (new ++ given) gone' staged unstaged := by
  refine ⟨h.tokens.replace hslot next, ?_, ?_, h.frames.replace new hslot hmoved, ?_⟩
  · intro slot found hfound
    by_cases hsame : slot = token.slot
    · subst hsame
      rw [Function.update_self] at hfound
      cases hfound
      exact hsound
    · rw [Function.update_of_ne hsame] at hfound
      exact h.sound slot found hfound
  · intro other destination found hmem hdestination hfound
    by_cases hsame : other.slot = token.slot
    · rw [hsame, Function.update_self] at hfound
      have htoken : other = token := by
        cases other
        cases token
        simp_all
      subst htoken
      cases hfound
      exact htaken destination hmem hdestination
    · rw [Function.update_of_ne hsame] at hfound
      refine h.taken other destination found (hothers _ hmem ?_) hdestination hfound
      rintro rfl
      exact hsame rfl
  · refine h.writeSlots.replace [] hslot ?_
    unfold OpEntry.writeSlotsHeld
    rw [hwriteSlot]
    exact List.Perm.refl _

/-- An operation leaves its slot. -/
theorem vacate (h : LedgerInv slots executing accepted departed given gone staged unstaged)
    (hslot : slots token.slot = ⟨token.generation, some entry⟩)
    (hothers : ∀ operation ∈ executing', operation ∈ executing)
    (hmoved : (executingFrames executing' ++ gone').Perm
      (tagged token entry.framesHeld ++ (executingFrames executing ++ gone))) :
    LedgerInv (Function.update slots token.slot ⟨token.generation, none⟩) executing' accepted
      (token :: departed) given gone' staged (tagged token entry.writeSlotsHeld ++ unstaged) := by
  refine ⟨h.tokens.vacate hslot, ?_, ?_, h.frames.vacate hslot hmoved,
    h.writeSlots.vacate hslot (List.Perm.refl _)⟩
  · intro slot found hfound
    by_cases hsame : slot = token.slot
    · subst hsame
      simp at hfound
    · rw [Function.update_of_ne hsame] at hfound
      exact h.sound slot found hfound
  · intro other destination found hmem hdestination hfound
    by_cases hsame : other.slot = token.slot
    · rw [hsame, Function.update_self] at hfound
      simp at hfound
    · rw [Function.update_of_ne hsame] at hfound
      exact h.taken other destination found (hothers _ hmem) hdestination hfound

/-- A free slot takes an operation. No thread executes an operation of a free slot. -/
theorem submit (h : LedgerInv slots executing accepted departed given gone staged unstaged)
    {slot : ℕ} (hvacant : (slots slot).payload = none) (hsound : entry.Sound)
    (hidle : ∀ operation ∈ executing, operation.1.slot ≠ slot) :
    LedgerInv (Function.update slots slot ⟨(slots slot).generation + 1, some entry⟩) executing
      (⟨slot, (slots slot).generation + 1⟩ :: accepted) departed
      (tagged ⟨slot, (slots slot).generation + 1⟩ entry.framesHeld ++ given) gone
      (tagged ⟨slot, (slots slot).generation + 1⟩ entry.writeSlotsHeld ++ staged) unstaged := by
  refine ⟨h.tokens.submit hvacant entry, ?_, ?_, h.frames.submit hvacant _ entry,
    h.writeSlots.submit hvacant _ entry⟩
  · intro other found hfound
    by_cases hsame : other = slot
    · subst hsame
      rw [Function.update_self] at hfound
      cases hfound
      exact hsound
    · rw [Function.update_of_ne hsame] at hfound
      exact h.sound other found hfound
  · intro other destination found hmem hdestination hfound
    rw [Function.update_of_ne (hidle _ hmem)] at hfound
    exact h.taken other destination found hmem hdestination hfound

end LedgerInv

/-! ## Runs -/

namespace Machine

variable {C : Config} {machine after : Machine}

/-- The ledger of a machine balances. -/
def Ledger (machine : Machine) : Prop :=
  LedgerInv machine.shared.slots machine.executing machine.accepted machine.departed machine.given
    (machine.handed ++ machine.aborted) machine.staged machine.unstaged

theorem Ledger.new (C : Config) : (Machine.new C).Ledger := by
  refine ⟨⟨?_, ?_⟩, ?_, ?_, ?_, ?_⟩
  · intro token
    simp [Machine.new, Shared.new]
    omega
  · intro token
    simp [Machine.new, Shared.new, liveCount, weightIn]
  · simp [Machine.new, Shared.new]
  · simp [Machine.new]
  · intro token item
    simp [Machine.new, Shared.new, weightIn, executingFrames]
  · intro token item
    simp [Machine.new, Shared.new, weightIn]

/-- An operation keeps what it holds. -/
theorem Ledger.keep {token : OpToken} {entry next : OpEntry} (hledger : machine.Ledger)
    (hholds : machine.shared.Holds token entry) (hsame : next.SameOwner entry)
    {state : OpState} (hunleased : state.isLeased = false) (ready : List ℕ)
    (outstanding : List OpToken) (cqes : List Cqe) :
    Ledger { machine with shared := { machine.shared.replaced token { next with state } with
      ready
      outstanding
      cqes } } := by
  have hsound := hledger.sound _ _ hholds.payload
  refine LedgerInv.replace hledger [] hholds ?_ hsame.writeSlot (fun _ hmem _ ↦ hmem) ?_ ?_
  · refine ⟨?_, by simp [hunleased], ?_⟩
    · dsimp only
      rw [hsame.frame, hsame.kind]
      exact hsound.frame
    · dsimp only
      rw [hsame.writeSlot, hsame.kind]
      exact hsound.writeSlot
  · intro destination hmem hdestination
    dsimp only
    rw [hsame.kind, hsame.frame]
    exact hledger.taken token destination entry hmem hdestination hholds
  · unfold OpEntry.framesHeld
    rw [hsame.frame]
    exact List.Perm.refl _

/-- The end of an attempt: what the operation held goes to its completion or to the arenas. -/
theorem Ledger.attempted {token : OpToken} {entry next : OpEntry} {held : Option ReadDestination}
    {result : IoResult} {completion : Completion} {retire : Option FileId}
    {released : Shared.Released} {shared : Shared} {cqes : List Cqe}
    (hledger : machine.Ledger) (executing : List (OpToken × Option ReadDestination))
    (hholds : machine.shared.Holds token entry) (hsame : next.SameOwner entry)
    (hread : held ≠ none → entry.kind = .read)
    (hothers : ∀ operation ∈ executing, operation ∈ machine.executing)
    (hheld : (tagged token (Shared.framesOf held) ++ executingFrames executing).Perm
      (tagged token entry.framesHeld ++ executingFrames machine.executing))
    (hattempted : Shared.Attempted { machine.shared with cqes } token next held result completion
      retire released shared) :
    Ledger ({ machine with executing }.completed shared completion retire released) := by
  have hsound := hledger.sound _ _ hholds.payload
  have hcount := fun pair ↦ hheld.count_eq pair
  cases hattempted with
  | @lease vector hvector hbytes =>
    obtain ⟨_, _, _, state, hnext, hstate⟩ := Shared.suspended_eq next vector result
    have hkind : next.kind = .read := by
      rw [hsame.kind]
      exact hread (by simp [hvector])
    subst hvector
    refine LedgerInv.replace hledger [] hholds ?_ ?_ (fun _ hmem _ ↦ hothers _ hmem) ?_ ?_
    · rw [hnext]
      refine ⟨by simp, fun _ ↦ ⟨hkind, rfl⟩, fun _ ↦ ?_⟩
      exact hsame.writeSlot.trans (hsound.writeSlot (hsame.kind.symm.trans hkind))
    · rw [hnext]
      exact hsame.writeSlot
    · rw [hnext]
      exact fun _ _ _ ↦ ⟨hkind, rfl⟩
    · have hframes : (Shared.suspended next vector result).framesHeld = [] := by
        rw [hnext]
        rfl
      rw [List.perm_iff_count]
      intro pair
      have hpair := hcount pair
      rw [hframes]
      simp only [completed, tagged, Shared.framesOf, Option.elim_some, ReadDestination.frames,
        Shared.advanced, List.map_nil, List.nil_append, List.count_append] at hpair ⊢
      omega
  | @finish frame frames retire hframes hpool hinflight hretire =>
    have hwriteSlot : next.writeSlot = entry.writeSlot := hsame.writeSlot
    have hvacated : LedgerInv (Function.update machine.shared.slots token.slot
        ⟨token.generation, none⟩) executing machine.accepted (token :: machine.departed) machine.given
        ((tagged token (Shared.framesOf frame) ++ machine.handed) ++
          (tagged token frames ++ machine.aborted)) machine.staged
        (tagged token entry.writeSlotsHeld ++ machine.unstaged) := by
      refine LedgerInv.vacate hledger hholds hothers ?_
      rw [List.perm_iff_count]
      intro pair
      have hpair := hcount pair
      rw [← hframes] at hpair
      simp only [tagged, List.map_append, List.count_append] at hpair ⊢
      omega
    unfold OpEntry.writeSlotsHeld at hvacated
    rw [← hwriteSlot] at hvacated
    exact hvacated

/-- A frame is with the thread that executes its operation or in the entry, not in both. -/
theorem Ledger.held_of_executing {index : ℕ} {token : OpToken} {destination : Option ReadDestination}
    {entry : OpEntry} (hledger : machine.Ledger) (hholds : machine.shared.Holds token entry)
    (hindex : machine.executing[index]? = some (token, destination)) :
    (destination.or entry.frame ≠ none → entry.kind = .read) ∧
      (tagged token (Shared.framesOf (destination.or entry.frame)) ++
        executingFrames (machine.executing.eraseIdx index)).Perm
      (tagged token entry.framesHeld ++ executingFrames machine.executing) := by
  have hsound := hledger.sound _ _ hholds.payload
  have hperm : (executingFrames machine.executing).Perm (tagged token (Shared.framesOf destination) ++
      executingFrames (machine.executing.eraseIdx index)) := by
    unfold executingFrames
    exact (executing_erase hindex).flatMap_right _
  cases destination with
  | none => exact ⟨hsound.frame, hperm.symm.append_left _⟩
  | some destination =>
    obtain ⟨hkind, hframe⟩ := hledger.taken token (some destination) entry
      (List.mem_of_getElem? hindex) (by simp) hholds
    refine ⟨fun _ ↦ hkind, ?_⟩
    have hnone : entry.framesHeld = [] := by
      unfold OpEntry.framesHeld
      rw [hframe]
      rfl
    rw [hnone]
    exact hperm.symm

theorem CallEffect.ledger (h : CallEffect C machine after) (hinv : Inv C machine)
    (hledger : machine.Ledger) : after.Ledger := by
  cases h with
  | @submit entry token shared hsubmitted hqueued hread hwrite =>
    obtain ⟨slot, free, hfree, rfl, rfl⟩ := hsubmitted.step
    have hslab := hinv.slab
    rw [hfree] at hslab
    have hvacant := hslab.vacant_of_free.2
    refine LedgerInv.submit hledger hvacant ⟨hread, by simp [hqueued], hwrite⟩ ?_
    rintro ⟨other, destination⟩ hmem rfl
    obtain ⟨index, hindex⟩ := List.mem_iff_getElem?.mp hmem
    obtain ⟨found, hfound, -⟩ := DriverInv.of_executing hinv hindex
    rw [hfound.payload] at hvacant
    cases hvacant
  | @resume token vector shared hmem hcontinue =>
    obtain ⟨-, entry, hholds, hstate, _, _, _, _, rfl⟩ := Shared.continueReadVector_eq_ok hcontinue
    have hsound := hledger.sound _ _ hholds.payload
    obtain ⟨hkind, hframe⟩ := hsound.leased (by simp [hstate])
    refine LedgerInv.replace hledger (tagged token vector.frames) hholds
      ⟨fun _ ↦ hkind, by simp, hsound.writeSlot⟩ rfl
      (fun _ hmem _ ↦ hmem) ?_ ?_
    · intro destination hexecuting _
      obtain ⟨index, hindex⟩ := List.mem_iff_getElem?.mp hexecuting
      obtain ⟨found, hfound, hactive⟩ := DriverInv.of_executing hinv hindex
      obtain rfl := hholds.unique hfound
      rw [hstate] at hactive
      cases hactive
    · have hnone : entry.framesHeld = [] := by
        unfold OpEntry.framesHeld
        rw [hframe]
        rfl
      rw [hnone]
      exact List.Perm.refl _
  | @release token shared hmem hrelease =>
    obtain ⟨entry, retire, outcome, hholds, hframe, -, -, rfl⟩ :=
      Shared.releaseReadLease_eq_ok (DriverInv.contains_of_mem_leases hinv hmem) hrelease
    have hsound := hledger.sound _ _ hholds.payload
    obtain ⟨other, hother, hleased⟩ := hinv.slab.of_mem_leases hmem
    obtain rfl := hholds.unique hother
    have hnone : entry.framesHeld = [] := by
      unfold OpEntry.framesHeld
      rw [hframe]
      rfl
    have hwriteSlots : entry.writeSlotsHeld = [] := by
      unfold OpEntry.writeSlotsHeld
      rw [hsound.writeSlot (hsound.leased hleased).1]
      rfl
    have hmoved : (executingFrames machine.executing ++ (machine.handed ++ machine.aborted)).Perm
        (tagged token entry.framesHeld ++
          (executingFrames machine.executing ++ (machine.handed ++ machine.aborted))) := by
      rw [hnone]
      exact List.Perm.refl _
    have hvacated := LedgerInv.vacate hledger hholds (fun _ hmem ↦ hmem) hmoved
    rw [hwriteSlots] at hvacated
    exact hvacated
  | flush hdeferred => exact hledger
  | drain hbacklog => exact hledger
  | openFile hopen =>
    obtain ⟨-, -, -, rfl⟩ := Shared.openFile_eq_some hopen
    exact hledger
  | abortFile habort =>
    obtain ⟨-, -, -, -, rfl⟩ := Shared.abortFile_eq_ok habort
    exact hledger
  | close hdriver hclose =>
    obtain ⟨-, -, -, rfl⟩ := Shared.closeFile_eq_ok hclose
    exact hledger
  | retire hindex => exact hledger
  | finishRetire hindex hfinish =>
    obtain ⟨-, -, rfl⟩ := Shared.finishRetire_eq_ok hfinish
    exact hledger

theorem Effect.ledger (h : Effect C machine after) (hinv : Inv C machine)
    (hledger : machine.Ledger) : after.Ledger := by
  cases h with
  | call hcall => exact hcall.ledger hinv hledger
  | fill hfill =>
    obtain ⟨slot, ready, entry, hready, hholds, hqueued, rfl⟩ := Shared.fillNext_eq_ok hfill
    exact hledger.keep hholds (.refl entry) OpState.isLeased_active _ _ _
  | post hmem result => exact hledger
  | @retry cqe cqes entry next hcqes hholds hsame =>
    exact hledger.keep hholds hsame OpState.isLeased_queued _ _ _
  | @reap cqe cqes entry next result completion retire released shared hcqes hholds hsame
      hattempted =>
    have hsound := hledger.sound _ _ hholds.payload
    refine hledger.attempted machine.executing hholds hsame ?_ (fun _ hmem ↦ hmem) ?_
      hattempted
    · rw [hsame.frame]
      exact hsound.frame
    · unfold OpEntry.framesHeld
      rw [hsame.frame]
  | @publish index token destination entry result completion retire released shared
      completionBacklog hindex hholds hattempted =>
    obtain ⟨hread, hheld⟩ := hledger.held_of_executing hholds hindex
    have hfinished := hledger.attempted (machine.executing.eraseIdx index) hholds
      (.refl entry) hread (fun _ hmem ↦ List.mem_of_mem_eraseIdx hmem) hheld hattempted
    exact hfinished
  | @prepare slot ready entry hready hholds hqueued =>
    have hsound := hledger.sound _ _ hholds.payload
    refine LedgerInv.replace hledger [] hholds ?_ rfl ?_ ?_ ?_
    · refine ⟨?_, by simp, hsound.writeSlot⟩
      dsimp only
      split
      · simp
      · exact hsound.frame
    · intro operation hmem hother
      rcases List.mem_cons.mp hmem with rfl | hmem
      · exact absurd rfl hother
      · exact hmem
    · intro destination hmem hdestination
      by_cases hkind : entry.kind = .read
      · exact ⟨hkind, if_pos hkind⟩
      · have hframe : entry.frame = none := by
          by_contra hframe
          exact hkind (hsound.frame hframe)
        rcases List.mem_cons.mp hmem with heq | hmem
        · rw [if_neg hkind] at heq
          exact absurd (Prod.mk.inj heq).2 hdestination
        · exact absurd (hledger.taken _ destination entry hmem hdestination hholds).1 hkind
    · by_cases hkind : entry.kind = .read
      · simp only [hkind, if_true, OpEntry.framesHeld, executingFrames, List.flatMap_cons,
          List.append_assoc]
        exact List.Perm.refl _
      · simp only [hkind, if_false, OpEntry.framesHeld, executingFrames, List.flatMap_cons,
          List.append_assoc]
        exact List.Perm.refl _

/-- The books of the driver: the slots, the queues, the tokens and everything operations hold. -/
structure Accounted (C : Config) (machine : Machine) : Prop where
  /-- The operations of all files are the occupied slots. -/
  occupied : ((Finset.range C.queueCapacity).filter fun slot ↦
    (machine.shared.slots slot).payload.isSome).card = machine.shared.totalInflight C
  /-- Only the slots of the slab hold operations. -/
  beyond : ∀ slot, C.queueCapacity ≤ slot → (machine.shared.slots slot).payload = none
  /-- Operations and deferred releases fit the queue. -/
  bound : machine.shared.totalInflight C + machine.shared.deferred.length ≤ C.queueCapacity
  /-- The ready queue lists each queued operation once, and nothing else. -/
  ready : machine.shared.ready.Nodup ∧ ∀ slot, slot ∈ machine.shared.ready ↔
    ∃ entry, (machine.shared.slots slot).payload = some entry ∧ entry.state = .queued
  /-- No token is given out twice. -/
  accepted : machine.accepted.Nodup
  /-- An operation leaves the slab at most once. -/
  departed : machine.departed.Nodup
  /-- Every operation is in the slab or has left it, and never both. -/
  present : ∀ token, token ∈ machine.accepted ↔
    (machine.shared.contains token = true ∨ token ∈ machine.departed)
  absent : ∀ token ∈ machine.departed, machine.shared.contains token = false
  /-- Every frame given to an operation is in its entry, with the thread that executes it, in a
  completion or back in the arena. -/
  frames : ∀ token frame, machine.given.count (token, frame) =
    weightIn machine.shared.slots (fun entry ↦ entry.framesHeld.count frame) token +
      (executingFrames machine.executing).count (token, frame) +
      (machine.handed.count (token, frame) + machine.aborted.count (token, frame))
  /-- An operation that has left handed over or released each of its frames once. -/
  framesGone : ∀ token ∈ machine.departed, ∀ frame, machine.given.count (token, frame) =
    machine.handed.count (token, frame) + machine.aborted.count (token, frame)
  /-- Every write slot given to an operation is in its entry or back in its arena. -/
  writeSlots : ∀ token slot, machine.staged.count (token, slot) =
    weightIn machine.shared.slots (fun entry ↦ entry.writeSlotsHeld.count slot) token +
      machine.unstaged.count (token, slot)
  /-- An operation that has left released each of its write slots once. -/
  writeSlotsGone : ∀ token ∈ machine.departed, ∀ slot,
    machine.staged.count (token, slot) = machine.unstaged.count (token, slot)

theorem liveCount_eq (shared : Shared) (token : OpToken) :
    liveCount shared.slots token = if shared.contains token then 1 else 0 := by
  unfold liveCount weightIn Shared.contains
  rcases hcontent : shared.slots token.slot with ⟨generation, _ | entry⟩
  · simp
  · have htoken : token = ⟨token.slot, generation⟩ ↔ generation = token.generation := by
      cases token
      simp [eq_comm]
    simp [SlabSlot.weightOf_some, htoken]

theorem Ledger.accounted (hinv : Inv C machine) (hledger : machine.Ledger) :
    machine.Accounted C := by
  have hlive (token : OpToken) : machine.departed.count token +
      (if machine.shared.contains token then 1 else 0) = machine.accepted.count token := by
    rw [← liveCount_eq]
    exact hledger.tokens.left token
  have hissued (token : OpToken) : machine.accepted.count token ≤ 1 := by
    rw [hledger.tokens.issued]
    split <;> omega
  have hweight {token : OpToken} (hmem : token ∈ machine.departed) (measure : OpEntry → ℕ) :
      weightIn machine.shared.slots measure token = 0 :=
    weightIn_eq_zero (hledger.tokens.not_live hmem).2 measure
  have hidle {token : OpToken} (hmem : token ∈ machine.departed) (frame : ℕ) :
      (executingFrames machine.executing).count (token, frame) = 0 := by
    rw [List.count_eq_zero]
    intro hframe
    obtain ⟨⟨other, destination⟩, hother, hpair⟩ := List.mem_flatMap.mp hframe
    obtain ⟨_, _, heq⟩ := List.mem_map.mp hpair
    obtain rfl : other = token := (Prod.mk.inj heq).1
    obtain ⟨index, hindex⟩ := List.mem_iff_getElem?.mp hother
    obtain ⟨entry, hentry, -⟩ := DriverInv.of_executing hinv hindex
    have hnone := (hledger.tokens.not_live hmem).2
    rw [liveCount_eq] at hnone
    simp [Shared.contains, hentry.payload, hentry.generation] at hnone
  have hframes (token : OpToken) (frame : ℕ) := hledger.frames token frame
  simp only [List.count_append] at hframes
  refine ⟨hinv.files.sum_inflight.symm, hinv.slab.beyond, hinv.bound,
    ⟨hinv.slab.nodup_ready, fun _ ↦ hinv.slab.mem_ready_iff⟩, ?_, ?_, ?_, ?_, ?_, ?_,
    hledger.writeSlots, ?_⟩
  · rw [List.nodup_iff_count_le_one]
    exact hissued
  · rw [List.nodup_iff_count_le_one]
    intro token
    have htoken := hlive token
    have hcount := hissued token
    omega
  · intro token
    rw [← List.count_pos_iff, ← hlive token, ← List.count_pos_iff]
    by_cases hcontains : machine.shared.contains token <;> simp [hcontains]
  · intro token hmem
    have hnone := (hledger.tokens.not_live hmem).2
    rw [liveCount_eq] at hnone
    by_contra hcontains
    rw [if_pos (by simpa using hcontains)] at hnone
    omega
  · intro token frame
    have hbalance := hframes token frame
    omega
  · intro token hmem frame
    have hbalance := hframes token frame
    have hzero := hweight hmem fun entry ↦ entry.framesHeld.count frame
    have hnone := hidle hmem frame
    omega
  · intro token hmem slot
    have hbalance := hledger.writeSlots token slot
    have hzero := hweight hmem fun entry ↦ entry.writeSlotsHeld.count slot
    omega

/-- Whatever the callers, the threads and the backends do, the books of the driver balance. -/
theorem run_accounted {events : List DriverEvent}
    (hrun : (Machine.new C).run C events = .ok machine) : machine.Accounted C := by
  obtain ⟨hinv, hledger⟩ := run_induct (P := Ledger)
    (fun hinv hledger heffect ↦ heffect.ledger hinv hledger) (Inv.new C) (Ledger.new C) hrun
  exact hledger.accounted hinv

/-- A driver with two slots, one file and frames of four bytes. -/
def twoSlots : Config := ⟨0, 2, 1, 1, 2, 4⟩

/-- A vector read of two frames whose first attempt stops in the second frame. -/
def splitRead : List DriverEvent :=
  let token : OpToken := ⟨0, 1⟩
  [.openFile, .submitReadVector .pool ⟨⟨0, 0, 1⟩, .buffered⟩ ⟨[0, 1], 0, 0, 8, 4, none, none⟩ 0,
    .fill, .complete token (.ok 5), .reap,
    .continueVector token ⟨[1], 1, 5, 8, 4, none, some token⟩, .fill, .complete token (.ok 3), .reap,
    .dropLease token, .flush]

theorem run_accounted_splitRead : ∃ machine,
    (Machine.new twoSlots).run twoSlots splitRead = .ok machine ∧ machine.departed = [⟨0, 1⟩] ∧
      machine.Accounted twoSlots := by
  have hrun : (Machine.new twoSlots).run twoSlots splitRead = .ok _ := rfl
  exact ⟨_, hrun, rfl, run_accounted hrun⟩

end Machine

end DiosPool.Driver
