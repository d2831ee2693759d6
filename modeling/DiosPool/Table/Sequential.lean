import DiosPool.Foundation.LinearProbing
import DiosPool.Foundation.Simulation
import DiosPool.Table.Seqlock

/-!
# The page table as a finite map

Executed by a single owner, the page table is a finite map from pages to frames. The capacity may
be any power of two up to the largest the constructor accepts, pages may be hashed in any way,
and the table may be filled to its last slot.
-/

namespace DiosPool.Table

open Foundation Cyclic

namespace Geometry

variable (G : Geometry)

theorem capacity_pos : 0 < G.capacity := Nat.two_pow_pos _

theorem and_mask (value : ℕ) : value &&& G.mask = value % G.capacity :=
  Nat.and_two_pow_sub_one_eq_mod _ _

/-- The table's slots as a probed ring. -/
def probing : Probing PageId where
  capacity := G.capacity
  capacity_pos := G.capacity_pos
  home := G.homeSlot
  home_lt page := by
    rw [homeSlot, and_mask]
    exact Nat.mod_lt _ G.capacity_pos

theorem nextSlot_eq (slot : ℕ) : G.nextSlot slot = walk G.capacity slot 1 :=
  G.and_mask _

theorem nextSlot_slotAt (page : PageId) (distance : ℕ) :
    G.nextSlot (G.probing.slotAt page distance) = G.probing.slotAt page (distance + 1) := by
  rw [nextSlot_eq]
  exact G.probing.slotAt_succ page distance

/-- Masking a wrapped 32-bit difference gives the distance on the ring. -/
theorem wrappingSub_and_mask {source : ℕ} (target : ℕ) (hsource : source < G.capacity) :
    wrappingSub target source &&& G.mask = ahead G.capacity source target := by
  have hdvd : G.capacity ∣ 2 ^ 32 := Nat.pow_dvd_pow 2 (by have := G.bits_le; omega)
  obtain ⟨rounds, hrounds⟩ := hdvd
  have hpos : 0 < rounds := by
    rcases Nat.eq_zero_or_pos rounds with rfl | hpos
    · simp at hrounds
    · exact hpos
  obtain ⟨more, rfl⟩ : ∃ more, rounds = more + 1 := ⟨rounds - 1, by omega⟩
  have hsplit : target + 2 ^ 32 - source = target + G.capacity - source + G.capacity * more := by
    rw [hrounds, Nat.mul_add, Nat.mul_one]
    omega
  rw [and_mask, wrappingSub, Nat.mod_mod_of_dvd _ ⟨_, hrounds⟩, hsplit,
    Nat.add_mul_mod_self_left]
  rfl

theorem fillsGap_iff {gap : ℕ} (home scan : ℕ) (hgap : gap < G.capacity) :
    G.fillsGap home gap scan = true ↔ G.probing.Fills home gap scan := by
  simp only [fillsGap, G.wrappingSub_and_mask _ hgap,
    Bool.or_eq_true, beq_iff_eq, decide_eq_true_eq]
  rfl

/-- The table at rest holds the entries of `map`, which is the map the writer has announced. -/
structure Settled (memory : Memory) (map : Mapping) : Prop where
  quiet : memory.Quiet
  represents : G.probing.Represents memory.slots map
  live_eq : memory.live = map

/-- Execution by the writer alone, every step of which a concurrent reader can bear. -/
abbrev Reaches {α : Type} : TableM α → Memory → TableM α → Memory → Prop :=
  Program.Reaches (Evolves G.capacity)

/-- A probe loop that goes on to the next slot after meeting another page. -/
def Skips {α : Type} (page : PageId) (memory : Memory) (loop : ℕ → ℕ → TableM α) : Prop :=
  ∀ fuel slot other, memory.slots slot = some other → other.1 ≠ page →
    G.Reaches (loop (fuel + 1) slot) memory (loop fuel (G.nextSlot slot)) memory

variable {G}

/-- Such a loop walks past any stretch of other pages. -/
theorem Skips.reaches {α : Type} {page : PageId} {memory : Memory} {loop : ℕ → ℕ → TableM α}
    (h : G.Skips page memory loop) (fuel start distance : ℕ)
    (hpassed : ∀ j < distance, ∃ other,
      memory.slots (G.probing.slotAt page (start + j)) = some other ∧ other.1 ≠ page) :
    G.Reaches (loop (fuel + distance) (G.probing.slotAt page start)) memory
      (loop fuel (G.probing.slotAt page (start + distance))) memory := by
  induction distance generalizing start with
  | zero => exact .refl _ _
  | succ distance ih =>
    obtain ⟨other, hslot, hne⟩ := hpassed 0 (Nat.succ_pos _)
    have hfirst := h (fuel + distance) _ other hslot hne
    rw [Nat.add_zero, nextSlot_slotAt] at hfirst
    refine hfirst.trans ?_
    rw [← Nat.add_assoc, Nat.add_right_comm start distance 1]
    refine ih (start + 1) fun j hj ↦ ?_
    obtain ⟨other', hslot', hne'⟩ := hpassed (j + 1) (Nat.succ_lt_succ hj)
    exact ⟨other', by rwa [Nat.add_assoc, Nat.add_comm 1], hne'⟩

namespace Settled

variable {memory : Memory} {map : Mapping} (h : G.Settled memory map) (page : PageId)

include h

theorem consistent : memory.Consistent G.capacity := by
  intro slot hslot _ key frame hentry
  rw [h.live_eq]
  exact (h.represents.agrees key frame).mpr ⟨slot, hslot, hentry⟩

theorem read_bind {α : Type} (slot : ℕ) {continuation : Option (PageId × ℕ) → TableM α}
    {last : TableM α} {final : Memory}
    (hrest : G.Reaches (continuation (memory.slots slot)) memory last final) :
    G.Reaches (read slot >>= continuation) memory last final :=
  (reaches_read h.consistent slot h.quiet).bind_done hrest

theorem skips_lookupLoop : G.Skips page memory (G.lookupLoop page) := by
  intro fuel slot other hslot hne
  refine h.read_bind slot ?_
  simp only [hslot, hne, if_false]
  exact .refl _ _

theorem skips_findLoop : G.Skips page memory (G.findLoop page) := by
  intro fuel slot other hslot hne
  refine h.read_bind slot ?_
  simp only [hslot, hne, if_false]
  exact .refl _ _

theorem skips_insertLoop (frame : ℕ) : G.Skips page memory (G.insertLoop page frame) := by
  intro fuel slot other hslot hne
  refine h.read_bind slot ?_
  simp only [hslot, hne, if_false]
  exact .refl _ _

/-- A whole probe for a present page ends at its entry. -/
theorem probe_present {α : Type} {loop : ℕ → ℕ → TableM α} (hloop : G.Skips page memory loop)
    {frame : ℕ} (hpage : map page = some frame) :
    ∃ fuel slot, slot < G.capacity ∧ memory.slots slot = some (page, frame) ∧
      G.Reaches (loop G.capacity (G.homeSlot page)) memory (loop (fuel + 1) slot) memory := by
  obtain ⟨distance, hdistance, hslot, hpassed⟩ := h.represents.probe_hit hpage
  refine ⟨G.capacity - distance - 1, G.probing.slotAt page distance,
    G.probing.slotAt_lt page distance, hslot, ?_⟩
  have hfuel : G.capacity - distance - 1 + 1 + distance = G.capacity := by
    have : distance < G.capacity := hdistance
    omega
  have hreach := hloop.reaches (G.capacity - distance - 1 + 1) 0 distance (by simpa using hpassed)
  rw [hfuel, G.probing.slotAt_zero, Nat.zero_add] at hreach
  exact hreach

/-- A whole probe for an absent page ends at the first vacant slot, or has passed every slot of a
full table. -/
theorem probe_absent {α : Type} {loop : ℕ → ℕ → TableM α} (hloop : G.Skips page memory loop)
    (hpage : map page = none) :
    (∃ fuel distance, distance < G.capacity ∧
      memory.slots (G.probing.slotAt page distance) = none ∧
      (∀ j < distance, (memory.slots (G.probing.slotAt page j)).isSome) ∧
      G.Reaches (loop G.capacity (G.homeSlot page)) memory
        (loop (fuel + 1) (G.probing.slotAt page distance)) memory) ∨
    ((∀ i < G.capacity, (memory.slots i).isSome) ∧ ∃ slot,
      G.Reaches (loop G.capacity (G.homeSlot page)) memory (loop 0 slot) memory) := by
  have hother : ∀ j, (memory.slots (G.probing.slotAt page j)).isSome → ∃ other,
      memory.slots (G.probing.slotAt page (0 + j)) = some other ∧ other.1 ≠ page := by
    intro j hj
    obtain ⟨other, hslot⟩ := Option.isSome_iff_exists.mp hj
    rw [Nat.zero_add]
    exact ⟨other, hslot, h.represents.probe_miss hpage (G.probing.slotAt_lt _ _) hslot⟩
  by_cases hvacant : ∃ distance, distance < G.capacity ∧
      memory.slots (G.probing.slotAt page distance) = none
  · classical
    left
    have hspec := Nat.find_spec hvacant
    have hpassed : ∀ j < Nat.find hvacant,
        (memory.slots (G.probing.slotAt page j)).isSome := by
      intro j hj
      have hmin := Nat.find_min hvacant hj
      rw [Option.isSome_iff_ne_none]
      exact fun hnone ↦ hmin ⟨hj.trans hspec.1, hnone⟩
    refine ⟨G.capacity - Nat.find hvacant - 1, Nat.find hvacant, hspec.1, hspec.2, hpassed, ?_⟩
    have hfuel : G.capacity - Nat.find hvacant - 1 + 1 + Nat.find hvacant = G.capacity := by
      have := hspec.1
      omega
    have hreach := hloop.reaches (G.capacity - Nat.find hvacant - 1 + 1) 0 (Nat.find hvacant)
      fun j hj ↦ hother j (hpassed j hj)
    rw [hfuel, G.probing.slotAt_zero, Nat.zero_add] at hreach
    exact hreach
  · right
    have hall : ∀ j < G.capacity, (memory.slots (G.probing.slotAt page j)).isSome := by
      intro j hj
      rw [Option.isSome_iff_ne_none]
      exact fun hnone ↦ hvacant ⟨j, hj, hnone⟩
    refine ⟨fun i hi ↦ ?_, G.probing.slotAt page G.capacity, ?_⟩
    · have := hall _ (ahead_lt G.capacity_pos (G.homeSlot page) i)
      rwa [show G.probing.slotAt page (ahead G.capacity (G.homeSlot page) i) = i from
        G.probing.slotAt_ahead page hi] at this
    · have hreach := hloop.reaches 0 0 G.capacity fun j hj ↦ hother j (hall j hj)
      rw [Nat.zero_add, G.probing.slotAt_zero] at hreach
      exact hreach

/-- Lookup is exact and leaves the table alone. -/
theorem reaches_lookup : G.Reaches (G.lookup page) memory (.done (map page)) memory := by
  have hskips := h.skips_lookupLoop page
  cases hpage : map page with
  | some frame =>
    obtain ⟨fuel, slot, -, hslot, hreach⟩ := h.probe_present page hskips hpage
    refine hreach.trans (h.read_bind slot ?_)
    simp only [hslot, if_true]
    exact .refl _ _
  | none =>
    rcases h.probe_absent page hskips hpage with
      ⟨fuel, distance, -, hslot, -, hreach⟩ | ⟨-, slot, hreach⟩
    · refine hreach.trans (h.read_bind _ ?_)
      rw [hslot]
      exact .refl _ _
    · exact hreach

theorem reaches_findLoop_none (hpage : map page = none) :
    G.Reaches (G.findLoop page G.capacity (G.homeSlot page)) memory (.done none) memory := by
  rcases h.probe_absent page (h.skips_findLoop page) hpage with
    ⟨fuel, distance, -, hslot, -, hreach⟩ | ⟨-, slot, hreach⟩
  · refine hreach.trans (h.read_bind _ ?_)
    rw [hslot]
    exact .refl _ _
  · exact hreach

theorem reaches_findLoop_some {frame : ℕ} (hpage : map page = some frame) :
    ∃ slot < G.capacity, memory.slots slot = some (page, frame) ∧
      G.Reaches (G.findLoop page G.capacity (G.homeSlot page)) memory
        (.done (some (slot, frame))) memory := by
  obtain ⟨fuel, slot, hlt, hslot, hreach⟩ := h.probe_present page (h.skips_findLoop page) hpage
  refine ⟨slot, hlt, hslot, hreach.trans (h.read_bind slot ?_)⟩
  simp only [hslot, if_true]
  exact .refl _ _

/-- No slot but the one written holds the page whose mapping changes. -/
theorem others_of_sole {slot : ℕ} (change : Option ℕ)
    (hsole : ∀ i < G.capacity, i ≠ slot → ∀ frame, memory.slots i ≠ some (page, frame)) :
    ∀ i < G.capacity, i ≠ slot → ∀ key frame, memory.slots i = some (key, frame) →
      Function.update memory.live page change key = some frame := by
  intro i hi hne key frame hslot
  have hkey : key ≠ page := by
    rintro rfl
    exact hsole i hi hne frame hslot
  rw [Function.update_of_ne hkey, h.live_eq]
  exact (h.represents.agrees key frame).mpr ⟨i, hi, hslot⟩

/-- The write that maps a page, at its own slot or at a vacant one. -/
theorem reaches_write_page {slot frame : ℕ}
    (hsole : ∀ i < G.capacity, i ≠ slot → ∀ old, memory.slots i ≠ some (page, old))
    (hnew : G.probing.Represents (Function.update memory.slots slot (some (page, frame)))
      (Function.update map page (some frame))) :
    G.Reaches (write slot (some (page, frame)) (Function.update · page (some frame))) memory
        (.done ()) (memory.written slot (some (page, frame))
          (Function.update · page (some frame))) ∧
      G.Settled (memory.written slot (some (page, frame)) (Function.update · page (some frame)))
        (Function.update map page (some frame)) := by
  constructor
  · refine reaches_write (Function.update · page (some frame)) h.quiet
      (h.others_of_sole page _ hsole) h.consistent _ ?_
    intro key value hentry
    obtain ⟨rfl, rfl⟩ := Prod.mk.inj (Option.some.inj hentry)
    rw [Function.update_self]
  · refine ⟨h.quiet.written _ _ _, ?_, ?_⟩
    · rwa [Memory.slots_written]
    · rw [← h.live_eq]
      rfl

theorem reaches_insertShared_full (frame : ℕ) (hpage : map page = none)
    (hfull : ∀ i < G.capacity, (memory.slots i).isSome) :
    G.Reaches (G.insertShared page frame) memory
      (Program.fail (.capacityExceeded G.capacity)) memory := by
  rcases h.probe_absent page (h.skips_insertLoop page frame) hpage with
    ⟨fuel, distance, -, hslot, -, -⟩ | ⟨-, slot, hreach⟩
  · have := hfull _ (G.probing.slotAt_lt page distance)
    rw [hslot] at this
    cases this
  · exact hreach

/-- Insertion maps the page, and counts it if it is new. -/
theorem reaches_insertShared (frame : ℕ)
    (hroom : map page ≠ none ∨ ∃ i < G.capacity, memory.slots i = none) :
    ∃ memory', G.Reaches (G.insertShared page frame) memory (.done ()) memory' ∧
      G.Settled memory' (Function.update map page (some frame)) ∧
      memory'.len = if map page = none then memory.len + 1 else memory.len := by
  have hskips := h.skips_insertLoop page frame
  cases hpage : map page with
  | some old =>
    obtain ⟨fuel, slot, hlt, hslot, hreach⟩ := h.probe_present page hskips hpage
    obtain ⟨hwrite, hsettled⟩ := h.reaches_write_page page
      (fun i hi hne value hi' ↦ hne (h.represents.unique i slot page value old hi hlt hi' hslot))
      (h.represents.update_value frame hlt hslot)
    refine ⟨_, hreach.trans (h.read_bind slot ?_), hsettled, rfl⟩
    simp only [hslot, if_true]
    exact hwrite
  | none =>
    rcases h.probe_absent page hskips hpage with
      ⟨fuel, distance, hlt, hslot, hpassed, hreach⟩ | ⟨hfull, slot, -⟩
    · obtain ⟨hwrite, hsettled⟩ := h.reaches_write_page page
        (fun i hi _ value hi' ↦ h.represents.probe_miss hpage hi hi' rfl)
        (h.represents.insert_new frame hpage hlt hslot hpassed)
      have hcount : ∀ after : Memory, after.Consistent G.capacity →
          G.Reaches (do let len ← loadLen; storeLen (len + 1)) after (.done ())
            { after with len := after.len + 1 } := by
        intro after hafter
        have hlen : Evolves G.capacity after { after with len := after.len + 1 } :=
          ⟨hafter, fun _ ↦ Nat.le_refl _, fun _ _ _ ↦ rfl⟩
        exact (Program.Reaches.load _ (Evolves.refl hafter)).bind_done
          (Program.Reaches.store hlen)
      refine ⟨{ memory.written (G.probing.slotAt page distance) (some (page, frame))
        (Function.update · page (some frame)) with len := memory.len + 1 },
        hreach.trans (h.read_bind _ ?_),
        ⟨hsettled.quiet, hsettled.represents, hsettled.live_eq⟩, rfl⟩
      rw [hslot]
      exact hwrite.bind_done (hcount _ hsettled.consistent)
    · rcases hroom with hroom | ⟨i, hi, hnone⟩
      · exact absurd hpage hroom
      · have := hfull i hi
        rw [hnone] at this
        cases this

end Settled

theorem nextSlot_walk (base y : ℕ) :
    G.nextSlot (walk G.capacity base y) = walk G.capacity base (y + 1) := by
  rw [nextSlot_eq, walk_walk]

/-- The table between two moves of a backward shift. -/
structure Moving (G : Geometry) (base gap scan : ℕ) (memory : Memory) (map : Mapping) :
    Prop where
  quiet : memory.Quiet
  shifting : G.probing.Shifting base gap scan memory.slots map
  live_eq : memory.live = map

namespace Moving

variable {base gap scan : ℕ} {memory : Memory} {map : Mapping}
  (h : G.Moving base gap scan memory map)

include h

theorem live_of_slot {slot : ℕ} (hslot : slot < G.capacity) {page : PageId} {frame : ℕ}
    (hentry : memory.slots slot = some (page, frame)) : memory.live page = some frame := by
  rw [h.live_eq, h.shifting.agrees]
  refine ⟨ahead G.capacity base slot, ahead_lt G.capacity_pos _ _, ?_⟩
  rwa [show walk G.probing.capacity base (ahead G.capacity base slot) = slot from
    walk_ahead h.shifting.base_lt hslot]

theorem consistent : memory.Consistent G.capacity :=
  fun _ hslot _ _ _ hentry ↦ h.live_of_slot hslot hentry

theorem settled_of_represents (hrep : G.probing.Represents memory.slots map) :
    G.Settled memory map :=
  ⟨h.quiet, hrep, h.live_eq⟩

/-- Copying the scanned entry into the gap and clearing its old slot. -/
theorem reaches_move {entry : PageId × ℕ} (hscan : scan < G.capacity)
    (hslot : memory.slots (walk G.capacity base scan) = some entry)
    (hpasses : ahead G.capacity base (G.homeSlot entry.1) ≤ gap) :
    ∃ memory', G.Reaches (do
          write (walk G.capacity base gap) (some entry) id
          write (walk G.capacity base scan) none id) memory (.done ()) memory' ∧
      G.Moving base scan (scan + 1) memory' map ∧ memory'.len = memory.len := by
  have hlive : memory.live entry.1 = some entry.2 :=
    h.live_of_slot (walk_lt G.capacity_pos _ _) hslot
  have hcopy := reaches_write id h.quiet
    (fun i hi (_ : i ≠ walk G.capacity base gap) _ _ hi' ↦ h.live_of_slot hi hi')
    h.consistent (some entry) (by rintro page frame ⟨⟩; exact hlive)
  have hcopied : ∀ i < G.capacity, ∀ page frame,
      (memory.written (walk G.capacity base gap) (some entry) id).slots i = some (page, frame) →
      memory.live page = some frame := by
    intro i hi page frame hi'
    rw [Memory.slots_written] at hi'
    by_cases heq : i = walk G.capacity base gap
    · rw [heq, Function.update_self] at hi'
      cases hi'
      exact hlive
    · rw [Function.update_of_ne heq] at hi'
      exact h.live_of_slot hi hi'
  have hclear := reaches_write id (h.quiet.written _ (some entry) id)
    (fun i hi (_ : i ≠ walk G.capacity base scan) page frame hi' ↦ hcopied i hi page frame hi')
    (fun i hi _ page frame hi' ↦ hcopied i hi page frame hi') none (by simp)
  refine ⟨_, hcopy.bind_done hclear, ⟨(h.quiet.written _ _ _).written _ _ _, ?_, h.live_eq⟩, rfl⟩
  rw [Memory.slots_written, Memory.slots_written]
  exact h.shifting.move hscan hslot hpasses

/-- Past the end of the line the backward shift only reads. -/
theorem reaches_wrapped (hend : scan = G.capacity) (fuel y : ℕ) :
    G.Reaches (G.backwardShiftLoop fuel (walk G.capacity base gap) (walk G.capacity base y))
      memory (.done ()) memory := by
  induction fuel generalizing y with
  | zero => exact .refl _ _
  | succ fuel ih =>
    refine (reaches_read h.consistent _ h.quiet).bind_done ?_
    cases hslot : memory.slots (walk G.capacity base y) with
    | none => exact .refl _ _
    | some entry =>
      have hfills : ¬ G.fillsGap (G.homeSlot entry.1) (walk G.capacity base gap)
          (walk G.capacity base y) = true := by
        rw [← walk_mod base y] at hslot ⊢
        rw [G.fillsGap_iff _ _ (walk_lt G.capacity_pos _ _)]
        exact h.shifting.not_fills_of_wrapped hend (Nat.mod_lt _ G.capacity_pos) hslot
      simp only [hfills, nextSlot_walk]
      exact ih (y + 1)

/-- The backward shift restores the probe chains whatever the load of the table. -/
theorem reaches_backwardShiftLoop (fuel : ℕ) (hfuel : G.capacity ≤ fuel + scan) :
    ∃ memory', G.Reaches (G.backwardShiftLoop fuel (walk G.capacity base gap)
        (walk G.capacity base scan)) memory (.done ()) memory' ∧
      G.Settled memory' map ∧ memory'.len = memory.len := by
  induction fuel generalizing memory gap scan with
  | zero =>
    have hend : scan = G.capacity := Nat.le_antisymm h.shifting.scan_le (by simpa using hfuel)
    exact ⟨memory, .refl _ _, h.settled_of_represents (h.shifting.represents_of_wrapped hend), rfl⟩
  | succ fuel ih =>
    rcases Nat.lt_or_eq_of_le h.shifting.scan_le with hscan | hend
    · have hread := reaches_read h.consistent (walk G.capacity base scan) h.quiet
      cases hslot : memory.slots (walk G.capacity base scan) with
      | none =>
        rw [hslot] at hread
        exact ⟨memory, hread.bind_done (.refl _ _),
          h.settled_of_represents (h.shifting.represents_of_vacant hscan hslot), rfl⟩
      | some entry =>
        rw [hslot] at hread
        have hfills := (G.fillsGap_iff (G.homeSlot entry.1) (walk G.capacity base scan)
          (walk_lt G.capacity_pos base gap)).trans (h.shifting.fills_iff hscan hslot)
        by_cases hpasses : ahead G.capacity base (G.homeSlot entry.1) ≤ gap
        · obtain ⟨moved, hmove, hmoving, hlen⟩ := h.reaches_move hscan hslot hpasses
          obtain ⟨memory', hrest, hsettled, hlen'⟩ := ih hmoving (by omega)
          refine ⟨memory', hread.bind_done ?_, hsettled, hlen'.trans hlen⟩
          simp only [hfills.mpr hpasses, if_true, nextSlot_walk]
          exact hread.bind_done (hmove.bind_done hrest)
        · have hstays : ¬ G.fillsGap (G.homeSlot entry.1) (walk G.capacity base gap)
              (walk G.capacity base scan) = true := fun hf ↦ hpasses (hfills.mp hf)
          have hkept : G.Moving base gap (scan + 1) memory map :=
            ⟨h.quiet, h.shifting.keep hscan hslot (Nat.lt_of_not_le hpasses), h.live_eq⟩
          obtain ⟨memory', hrest, hsettled, hlen⟩ := ih hkept (by omega)
          refine ⟨memory', hread.bind_done ?_, hsettled, hlen⟩
          simp only [hstays, nextSlot_walk]
          exact hrest
    · exact ⟨memory, h.reaches_wrapped hend _ _,
        h.settled_of_represents (h.shifting.represents_of_wrapped hend), rfl⟩

end Moving

/-- Removal returns the mapping of the page and erases exactly that one. -/
theorem Settled.reaches_removeShared {memory : Memory} {map : Mapping} (h : G.Settled memory map)
    (page : PageId) :
    ∃ memory', G.Reaches (G.removeShared page) memory (.done (map page)) memory' ∧
      G.Settled memory' (Function.update map page none) ∧
      memory'.len = if map page = none then memory.len else memory.len - 1 := by
  cases hpage : map page with
  | none =>
    refine ⟨memory, ?_, ?_, rfl⟩
    · exact (h.reaches_findLoop_none page hpage).bind_done (.refl _ _)
    · rwa [← hpage, Function.update_eq_self]
  | some frame =>
    obtain ⟨slot, hlt, hslot, hfind⟩ := h.reaches_findLoop_some page hpage
    have hclear := reaches_write (Function.update · page none) h.quiet
      (h.others_of_sole page none fun i hi hne value hi' ↦
        hne (h.represents.unique i slot page value frame hi hlt hi' hslot))
      h.consistent none (by simp)
    obtain ⟨base, gap, hgap, hshift⟩ := h.represents.clear hlt hslot
    rw [← Memory.slots_written _ _ _ (Function.update · page none)] at hshift
    have hlive : (memory.written slot none (Function.update · page none)).live =
        Function.update map page none := by
      rw [← h.live_eq]
      rfl
    have hmoving : G.Moving base gap (gap + 1)
        { memory.written slot none (Function.update · page none) with len := memory.len - 1 }
        (Function.update map page none) :=
      ⟨h.quiet.written _ _ (Function.update · page none), hshift, hlive⟩
    obtain ⟨memory', hloop, hsettled, hlen⟩ :=
      hmoving.reaches_backwardShiftLoop G.capacity (Nat.le_add_right _ _)
    have hconsistent := hmoving.consistent
    have hcount : G.Reaches loadLen (memory.written slot none (Function.update · page none))
        (.done memory.len) (memory.written slot none (Function.update · page none)) :=
      Program.Reaches.load _ (Evolves.refl hconsistent)
    have hstore : G.Reaches (storeLen (memory.len - 1))
        (memory.written slot none (Function.update · page none)) (.done ()) _ :=
      Program.Reaches.store ⟨hconsistent, fun _ ↦ Nat.le_refl _, fun _ _ _ ↦ rfl⟩
    refine ⟨memory', hfind.bind_done (hclear.bind_done (hcount.bind_done
      (hstore.bind_done ?_))), hsettled, hlen⟩
    rw [← nextSlot_walk, show walk G.capacity base gap = slot from hgap] at hloop
    exact hloop.bind_done (.refl _ _)

end Geometry

/-- The operations a table serves. -/
inductive Op
  | lookup (page : PageId)
  | insert (page : PageId) (frame : ℕ)
  | remove (page : PageId)
  deriving DecidableEq, Repr

def Geometry.perform (G : Geometry) : Op → TableM (Option ℕ)
  | .lookup page => G.lookup page
  | .insert page frame => do
    G.insertShared page frame
    pure none
  | .remove page => G.removeShared page

/-- One operation, answered with what it returns and the length the table then reports. -/
def Geometry.exec (G : Geometry) (op : Op) : TableM (Option ℕ × ℕ) := do
  let returned ← G.perform op
  let len ← Geometry.loadLen
  pure (returned, len)

/-- A finite map from pages to frames. -/
abbrev Pages := Finmap fun _ : PageId ↦ ℕ

/-- What the table is for: a finite map that never holds more than `capacity` pages. -/
def Pages.exec (capacity : ℕ) (op : Op) (pages : Pages) :
    Except Panic ((Option ℕ × ℕ) × Pages) :=
  match op with
  | .lookup page => .ok ((pages.lookup page, pages.keys.card), pages)
  | .insert page frame =>
    if page ∉ pages ∧ pages.keys.card = capacity then
      .error (.capacityExceeded capacity)
    else
      .ok ((none, (pages.insert page frame).keys.card), pages.insert page frame)
  | .remove page =>
    .ok ((pages.lookup page, (pages.erase page).keys.card), pages.erase page)

/-- The table at rest stands for the finite map, and counts its pages. -/
structure Geometry.Refines (G : Geometry) (memory : Memory) (pages : Pages) : Prop where
  settled : G.Settled memory fun page ↦ pages.lookup page
  len_eq : memory.len = pages.keys.card

theorem Pages.keys_insert (pages : Pages) (page : PageId) (frame : ℕ) :
    (pages.insert page frame).keys = insert page pages.keys := by
  ext key
  simp [Finmap.mem_keys]

theorem Pages.keys_erase (pages : Pages) (page : PageId) :
    (pages.erase page).keys = pages.keys.erase page := by
  ext key
  simp [Finmap.mem_keys]

theorem Pages.lookup_insert_eq (pages : Pages) (page : PageId) (frame : ℕ) :
    (fun key ↦ (pages.insert page frame).lookup key) =
      Function.update (fun key ↦ pages.lookup key) page (some frame) := by
  funext key
  by_cases hkey : key = page
  · subst hkey
    simp
  · simp [hkey, Finmap.lookup_insert_of_ne]

theorem Pages.lookup_erase_eq (pages : Pages) (page : PageId) :
    (fun key ↦ (pages.erase page).lookup key) =
      Function.update (fun key ↦ pages.lookup key) page none := by
  funext key
  by_cases hkey : key = page
  · subst hkey
    simp
  · simp [hkey, Finmap.lookup_erase_ne]

namespace Geometry.Refines

variable {G : Geometry} {memory : Memory} {pages : Pages} (h : G.Refines memory pages)

include h

/-- No slot is vacant exactly when the finite map holds `capacity` pages. -/
theorem full_iff : (∀ i < G.capacity, (memory.slots i).isSome) ↔ pages.keys.card = G.capacity := by
  rw [← h.settled.represents.occupancy_eq]
  exact G.probing.occupancy_eq_capacity_iff.symm

theorem reaches_loadLen {last : TableM (Option ℕ × ℕ)} (returned : Option ℕ)
    (hlast : last = .done (returned, pages.keys.card)) :
    G.Reaches (do let len ← loadLen; pure (returned, len)) memory last memory := by
  rw [hlast, ← h.len_eq]
  exact (Program.Reaches.load _ (Evolves.refl h.settled.consistent)).bind_done (.refl _ _)

/-- Every operation does to the table what it does to the finite map, and panics where the finite
map is exhausted. -/
theorem reaches_exec (op : Op) :
    match Pages.exec G.capacity op pages with
    | .ok (answer, pages') => ∃ memory', G.Reaches (G.exec op) memory (.done answer) memory' ∧
        G.Refines memory' pages'
    | .error error => ∃ last, G.Reaches (G.exec op) memory last memory ∧
        ∀ seen, last.advance seen = .error error := by
  have habsent : ∀ page, pages.lookup page = none ↔ page ∉ pages := fun _ ↦ Finmap.lookup_eq_none
  cases op with
  | lookup page =>
    refine ⟨memory, (h.settled.reaches_lookup page).bind_done ?_, h⟩
    exact h.reaches_loadLen _ rfl
  | insert page frame =>
    by_cases hfull : page ∉ pages ∧ pages.keys.card = G.capacity
    · have hfail := h.settled.reaches_insertShared_full page frame ((habsent page).mpr hfull.1)
        (h.full_iff.mpr hfull.2)
      have hinsert : G.Reaches (G.perform (.insert page frame)) memory
          (do Program.fail (.capacityExceeded G.capacity); pure none) memory := hfail.bind _
      simp only [Pages.exec, if_pos hfull]
      exact ⟨_, hinsert.bind _, fun _ ↦ rfl⟩
    · have hroom : pages.lookup page ≠ none ∨ ∃ i < G.capacity, memory.slots i = none := by
        by_contra hnone
        push Not at hnone
        refine hfull ⟨(habsent page).mp hnone.1, h.full_iff.mp fun i hi ↦ ?_⟩
        exact Option.isSome_iff_ne_none.mpr (hnone.2 i hi)
      obtain ⟨memory', hreach, hsettled, hlen⟩ := h.settled.reaches_insertShared page frame hroom
      have hcard : memory'.len = (pages.insert page frame).keys.card := by
        rw [hlen, h.len_eq, Pages.keys_insert]
        by_cases hpage : page ∈ pages
        · rw [if_neg (by simpa [habsent] using hpage),
            Finset.insert_eq_of_mem (Finmap.mem_keys.mpr hpage)]
        · rw [if_pos ((habsent page).mpr hpage),
            Finset.card_insert_of_notMem (by rwa [Finmap.mem_keys])]
      have hrefines : G.Refines memory' (pages.insert page frame) :=
        ⟨by rwa [Pages.lookup_insert_eq], hcard⟩
      have hinsert : G.Reaches (G.perform (.insert page frame)) memory
          (.done none) memory' := hreach.bind_done (.refl _ _)
      simp only [Pages.exec, if_neg hfull]
      exact ⟨memory', hinsert.bind_done (hrefines.reaches_loadLen none rfl), hrefines⟩
  | remove page =>
    obtain ⟨memory', hreach, hsettled, hlen⟩ := h.settled.reaches_removeShared page
    have hcard : memory'.len = (pages.erase page).keys.card := by
      rw [hlen, h.len_eq, Pages.keys_erase]
      by_cases hpage : page ∈ pages
      · rw [if_neg (by simpa [habsent] using hpage),
          Finset.card_erase_of_mem (Finmap.mem_keys.mpr hpage)]
      · rw [if_pos ((habsent page).mpr hpage),
          Finset.erase_eq_of_notMem (by rwa [Finmap.mem_keys])]
    have hrefines : G.Refines memory' (pages.erase page) :=
      ⟨by rwa [Pages.lookup_erase_eq], hcard⟩
    exact ⟨memory', hreach.bind_done (hrefines.reaches_loadLen _ rfl), hrefines⟩

theorem lockstep_exec (op : Op) :
    Lockstep G.Refines ((G.exec op).run memory) (Pages.exec G.capacity op pages) := by
  have hexec := h.reaches_exec op
  cases hspec : Pages.exec G.capacity op pages with
  | ok outcome =>
    rw [hspec] at hexec
    obtain ⟨memory', hreach, hrefines⟩ := hexec
    rw [hreach.run_eq]
    exact .answer _ hrefines
  | error error =>
    rw [hspec] at hexec
    obtain ⟨last, hreach, hfails⟩ := hexec
    rw [hreach.run_eq, Program.run_of_advance_error (hfails memory)]
    exact .failure _

end Geometry.Refines

theorem Geometry.refines_empty (G : Geometry) : G.Refines Memory.empty ∅ where
  settled := ⟨fun _ ↦ rfl, G.probing.represents_empty, rfl⟩
  len_eq := rfl

/-- Every sequence of operations on a new table is answered as by a finite map. In particular a
lookup is exact, a removal returns and erases exactly the mapping of its page, the reported length
is the number of live pages, and the only panic is the insertion of a new page into a full
table. -/
theorem Geometry.observe_exec_eq (G : Geometry) (ops : List Op) :
    observe (fun op memory ↦ (G.exec op).run memory) ops Memory.empty =
      observe (Pages.exec G.capacity) ops ∅ := by
  exact observe_eq_of_lockstep (fun op _ _ h ↦ h.lockstep_exec op) ops G.refines_empty

end DiosPool.Table
