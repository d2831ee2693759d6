import DiosPool.Pool.Invariant.Driver

/-!
# Routes of vector reads

The span that the next completion of a vector read goes to. Reserving, cancelling and committing a
route leaves the routes of the other reads as they are.
-/

namespace DiosPool.Pool

open Driver Foundation

/-! ## The routes -/

namespace ReadSpans

variable {spans after : ReadSpans} {token other : OpToken} {span : ReadSpan} {slot : ℕ}

theorem completing_eq_ok (h : spans.completing token = .ok (slot, span, after)) :
    spans.operations[token.slot]? = some (some ⟨token, slot⟩) ∧
      spans.slots[slot]? = some (.inFlight span) ∧ span.token = token ∧
      after = { spans with slots := spans.slots.set slot .completing } := by
  simp only [completing, bind_eq_ok, expect_eq_ok, ensure_eq_ok] at h
  obtain ⟨route, hroute, _, hexact, h⟩ := h
  split at h
  · rename_i found hfound
    simp only [bind_eq_ok, ensure_eq_ok, pure_ok, Except.ok.injEq, Prod.mk.injEq] at h
    obtain ⟨_, htoken, rfl, rfl, rfl⟩ := h
    cases route
    cases hexact
    exact ⟨Option.join_eq_some_iff.mp hroute, hfound, htoken, rfl⟩
  · cases h

theorem routed_eq_some :
    spans.routed token = some span ↔ ∃ slot,
      spans.operations[token.slot]? = some (some ⟨token, slot⟩) ∧
        spans.slots[slot]? = some (.inFlight span) ∧ span.token = token := by
  constructor
  · intro h
    rw [routed, Option.map_eq_some_iff] at h
    obtain ⟨⟨slot, found, after⟩, hfound, rfl⟩ := h
    cases hcompleting : spans.completing token with
    | error error =>
      rw [hcompleting] at hfound
      cases hfound
    | ok result =>
      rw [hcompleting] at hfound
      cases hfound
      obtain ⟨hoperation, hslot, htoken, -⟩ := completing_eq_ok hcompleting
      exact ⟨slot, hoperation, hslot, htoken⟩
  · rintro ⟨slot, hoperation, hslot, htoken⟩
    simp [routed, completing, hoperation, hslot, htoken, Except.toOption]

/-- A route stays as long as its operation and its span do. -/
theorem routed_of_keep (h : spans.routed token = some span)
    (hoperations : ∀ route, spans.operations[token.slot]? = some (some route) →
      route.token = token → after.operations[token.slot]? = some (some route))
    (hslots : ∀ slot : ℕ, spans.slots[slot]? = some (.inFlight span) → span.token = token →
      after.slots[slot]? = some (.inFlight span)) : after.routed token = some span := by
  obtain ⟨slot, hoperation, hslot, htoken⟩ := routed_eq_some.mp h
  exact routed_eq_some.mpr ⟨slot, hoperations _ hoperation rfl, hslots _ hslot htoken, htoken⟩

/-- A slot without a span in flight changes. -/
theorem slots_set {state : SpanState} (hslot : spans.slots[slot]? ≠ some (.inFlight span))
    (index : ℕ) (h : spans.slots[index]? = some (.inFlight span)) :
    (spans.slots.set slot state)[index]? = some (.inFlight span) := by
  rw [List.getElem?_set_ne]
  · exact h
  · rintro rfl
    exact hslot h

theorem reserve_routed {reserved : Option ℕ} (h : spans.reserve = .ok (reserved, after))
    (hrouted : spans.routed token = some span) : after.routed token = some span := by
  unfold reserve at h
  split at h
  · cases h
    exact hrouted
  · split at h
    · rename_i next hfree
      cases h
      exact routed_of_keep hrouted (fun _ hroute _ ↦ hroute)
        fun index hindex _ ↦ slots_set (by rw [hfree]; simp) index hindex
    · cases h

theorem cancel_routed (h : spans.cancel slot = .ok after)
    (hrouted : spans.routed token = some span) : after.routed token = some span := by
  simp only [cancel, bind_eq_ok, ensure_eq_ok, pure_ok, Except.ok.injEq] at h
  obtain ⟨_, hpreparing, rfl⟩ := h
  exact routed_of_keep hrouted (fun _ hroute _ ↦ hroute)
    fun index hindex _ ↦ slots_set (by rw [hpreparing]; simp) index hindex

/-- A committed span is routed, and no other one is disturbed. -/
theorem commit_routed (h : spans.commit slot span = .ok after) :
    after.routed span.token = some span ∧ ∀ other found, spans.routed other = some found →
      after.routed other = some found := by
  simp only [commit, bind_eq_ok, ensure_eq_ok, pure_ok, Except.ok.injEq] at h
  obtain ⟨_, hpreparing, _, _, _, hvacant, rfl⟩ := h
  constructor
  · refine routed_eq_some.mpr ⟨slot, ?_, ?_, rfl⟩
    · exact List.getElem?_set_self (List.getElem?_eq_some_iff.mp hvacant).1
    · exact List.getElem?_set_self (List.getElem?_eq_some_iff.mp hpreparing).1
  · intro other found hrouted
    refine routed_of_keep hrouted (fun route hroute _ ↦ ?_)
      fun index hindex _ ↦ slots_set (by rw [hpreparing]; simp) index hindex
    rw [List.getElem?_set_ne]
    · exact hroute
    · intro heq
      rw [heq] at hvacant
      rw [hvacant] at hroute
      cases hroute

end ReadSpans

end DiosPool.Pool
