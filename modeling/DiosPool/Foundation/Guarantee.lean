import DiosPool.Foundation.Safety

/-!
# Guarantees of programs

What every step of a program does to the memory, whatever the memory is and whatever other parties
have done before. A guarantee that is a preorder holds across a run of the program by itself, and
across every interleaving with parties that respect it as well.
-/

namespace DiosPool.Foundation

variable {σ τ ε ε' α β : Type}

/-- Every step respects a relation. -/
def Program.Respects (guarantee : σ → σ → Prop) : Program σ ε α → Prop
  | .done _ => True
  | .step action next => ∀ memory read after, action memory = .ok (read, after) →
      guarantee memory after ∧ (next read).Respects guarantee

namespace Program.Respects

variable {guarantee : σ → σ → Prop}

theorem done (value : α) : (done value : Program σ ε α).Respects guarantee := trivial

theorem bind {program : Program σ ε α} {continuation : α → Program σ ε β}
    (h : program.Respects guarantee) (hnext : ∀ value, (continuation value).Respects guarantee) :
    (program >>= continuation).Respects guarantee := by
  induction program with
  | done value => exact hnext value
  | step action next ih =>
    intro memory read after haction
    obtain ⟨hstep, hrest⟩ := h memory read after haction
    exact ⟨hstep, ih read hrest⟩

theorem act {action : σ → Except ε (α × σ)}
    (h : ∀ memory read after, action memory = .ok (read, after) → guarantee memory after) :
    (act action).Respects guarantee :=
  fun memory read after haction ↦ ⟨h memory read after haction, trivial⟩

theorem load (hrefl : ∀ memory, guarantee memory memory) (read : σ → α) :
    (load read : Program σ ε α).Respects guarantee := by
  intro memory value after haction
  cases haction
  exact ⟨hrefl memory, trivial⟩

theorem store {write : σ → σ} (h : ∀ memory, guarantee memory (write memory)) :
    (store write : Program σ ε Unit).Respects guarantee := by
  intro memory value after haction
  cases haction
  exact ⟨h memory, trivial⟩

theorem fail (error : ε) : (fail error : Program σ ε α).Respects guarantee := by
  intro memory read after haction
  cases haction

theorem lift (value : Except ε α) : (lift value : Program σ ε α).Respects guarantee := by
  cases value with
  | ok value => exact done value
  | error error => exact fail error

/-- What the program does by itself. -/
theorem run {program : Program σ ε α} (h : program.Respects guarantee)
    (hrefl : ∀ memory, guarantee memory memory)
    (htrans : ∀ first second third, guarantee first second → guarantee second third →
      guarantee first third)
    {memory after : σ} {value : α} (hrun : program.run memory = .ok (value, after)) :
    guarantee memory after := by
  induction program generalizing memory with
  | done result =>
    cases hrun
    exact hrefl _
  | step action next ih =>
    simp only [Program.run] at hrun
    cases haction : action memory with
    | error error =>
      rw [haction] at hrun
      cases hrun
    | ok outcome =>
      rw [haction] at hrun
      obtain ⟨hstep, hrest⟩ := h _ _ _ haction
      exact htrans _ _ _ hstep (ih outcome.1 hrest hrun)

end Program.Respects

/-! ## Guarantees that depend on the outcome -/

/-- Every value that the program may return has a property. -/
def Program.Returns (property : α → Prop) : Program σ ε α → Prop
  | .done value => property value
  | .step action next => ∀ memory read after, action memory = .ok (read, after) →
      (next read).Returns property

/-- Every step respects a relation, unless it leaves no choice but to return a value with a
property. -/
def Program.RespectsUnless (guarantee : σ → σ → Prop) (property : α → Prop) :
    Program σ ε α → Prop
  | .done _ => True
  | .step action next => ∀ memory read after, action memory = .ok (read, after) →
      (guarantee memory after ∨ (next read).Returns property) ∧
        (next read).RespectsUnless guarantee property

namespace Program.RespectsUnless

variable {guarantee : σ → σ → Prop}

theorem done {property : α → Prop} (value : α) :
    (done value : Program σ ε α).RespectsUnless guarantee property := trivial

/-- A first part that respects the relation in any case. -/
theorem bind {property : β → Prop} {program : Program σ ε α} {continuation : α → Program σ ε β}
    (h : program.Respects guarantee)
    (hnext : ∀ value, (continuation value).RespectsUnless guarantee property) :
    (program >>= continuation).RespectsUnless guarantee property := by
  induction program with
  | done value => exact hnext value
  | step action next ih =>
    intro memory read after haction
    obtain ⟨hstep, hrest⟩ := h memory read after haction
    exact ⟨.inl hstep, ih read hrest⟩

theorem act {property : α → Prop} {action : σ → Except ε (α × σ)}
    (h : ∀ memory value after, action memory = .ok (value, after) →
      guarantee memory after ∨ property value) :
    (act action).RespectsUnless guarantee property :=
  fun memory value after haction ↦ ⟨h memory value after haction, trivial⟩

theorem fail {property : α → Prop} (error : ε) :
    (fail error : Program σ ε α).RespectsUnless guarantee property := by
  intro memory read after haction
  cases haction

end Program.RespectsUnless

/-- A program over a part of the memory keeps every condition that its steps keep. -/
theorem Rules.Triple.zoom {R : Rules σ ε} {pre : σ → Prop} (hstable : R.Stable pre) {lens : Lens σ τ}
    {wrap : ε' → ε} {part : τ → τ → Prop} {program : Program τ ε' α} (h : program.Respects part)
    (hset : ∀ memory after, pre memory → part (lens.get memory) after → pre (lens.set after memory))
    (hwrap : ∀ error, R.tolerated (wrap error)) :
    R.Triple pre (program.zoom lens wrap) fun _ ↦ pre := by
  induction program with
  | done value => exact fun memory hpre ↦ hpre
  | step action next ih =>
    intro memory hpre
    refine ⟨hstable.always memory hpre, fun seen hseen ↦ ?_⟩
    have hseen' := hstable.rely memory seen hpre hseen
    cases haction : action (lens.get seen) with
    | error error =>
      simp only [haction]
      exact hwrap error
    | ok outcome =>
      simp only [haction]
      obtain ⟨hstep, hrest⟩ := h _ _ _ haction
      exact ih outcome.1 hrest _ (hset seen outcome.2 hseen' hstep)

end DiosPool.Foundation
