import Mathlib

/-!
# Programs of atomic steps

A program over a shared memory either returns or takes one atomic step and continues with what
the step read. The same program text has two readings. `Program.run` executes it with nothing in
between, which is what a caller holding the only reference sees, and `Program.Reaches` follows that
execution while every step respects a guarantee relation. Under `Program.holds` the memory may be
changed by other parties between two steps, as far as a rely relation allows.

A step may fail. A failed step stands for a panic, and ends the program.
-/

namespace DiosPool.Foundation

/-- A program with memory `σ`, failures `ε` and result `α`. -/
inductive Program (σ ε α : Type) : Type 1
  | done (value : α)
  | step {β : Type} (action : σ → Except ε (β × σ)) (next : β → Program σ ε α)

namespace Program

variable {σ ε α β : Type}

protected def bind : Program σ ε α → (α → Program σ ε β) → Program σ ε β
  | done value, continuation => continuation value
  | step action next, continuation => step action fun read ↦ (next read).bind continuation

instance : Monad (Program σ ε) where
  pure := done
  bind := Program.bind

@[simp] theorem pure_eq (value : α) : (pure value : Program σ ε α) = done value := rfl

@[simp] theorem done_bind (value : α) (continuation : α → Program σ ε β) :
    (done value : Program σ ε α) >>= continuation = continuation value := rfl

@[simp] theorem step_bind {γ : Type} (action : σ → Except ε (γ × σ))
    (next : γ → Program σ ε α) (continuation : α → Program σ ε β) :
    step action next >>= continuation = step action fun read ↦ next read >>= continuation := rfl

/-- One atomic load. -/
def load (read : σ → α) : Program σ ε α :=
  step (fun memory ↦ .ok (read memory, memory)) done

/-- One atomic store. -/
def store (write : σ → σ) : Program σ ε Unit :=
  step (fun memory ↦ .ok ((), write memory)) done

/-- A panic. -/
def fail (error : ε) : Program σ ε α :=
  step (fun _ ↦ (.error error : Except ε (Unit × σ))) fun _ ↦ step (fun _ ↦ .error error) done

/-- Execution with no other party. -/
def run : Program σ ε α → σ → Except ε (α × σ)
  | done value, memory => .ok (value, memory)
  | step action next, memory =>
    match action memory with
    | .ok (read, memory') => (next read).run memory'
    | .error error => .error error

@[simp] theorem run_done (value : α) (memory : σ) :
    (done value : Program σ ε α).run memory = .ok (value, memory) := rfl

@[simp] theorem run_fail (error : ε) (memory : σ) :
    (fail error : Program σ ε α).run memory = .error error := rfl

/-- One atomic step. A program that has returned stays as it is. -/
def advance : Program σ ε α → σ → Except ε (Program σ ε α × σ)
  | done value, memory => .ok (done value, memory)
  | step action next, memory =>
    match action memory with
    | .ok (read, memory') => .ok (next read, memory')
    | .error error => .error error

theorem run_of_advance_error {program : Program σ ε α} {memory : σ} {error : ε}
    (h : program.advance memory = .error error) : program.run memory = .error error := by
  cases program with
  | done value => cases h
  | step action next =>
    simp only [advance] at h
    simp only [run]
    cases haction : action memory with
    | error other =>
      rw [haction] at h
      exact congrArg _ (Except.error.inj h)
    | ok outcome =>
      rw [haction] at h
      cases h

/-- With no other party, the program at one memory gets to another program at another memory, and
each of its steps on the way respects `guarantee`. -/
inductive Reaches (guarantee : σ → σ → Prop) :
    Program σ ε α → σ → Program σ ε α → σ → Prop
  | refl (program : Program σ ε α) (memory : σ) : Reaches guarantee program memory program memory
  | step {γ : Type} {action : σ → Except ε (γ × σ)} {next : γ → Program σ ε α}
    {memory memory' : σ} {read : γ} {last : Program σ ε α} {final : σ}
    (haction : action memory = .ok (read, memory')) (hstep : guarantee memory memory')
    (hrest : Reaches guarantee (next read) memory' last final) :
    Reaches guarantee (.step action next) memory last final

namespace Reaches

variable {guarantee : σ → σ → Prop} {program middle last : Program σ ε α} {memory seen final : σ}

theorem trans (first : Reaches guarantee program memory middle seen)
    (second : Reaches guarantee middle seen last final) :
    Reaches guarantee program memory last final := by
  induction first with
  | refl => exact second
  | step haction hstep _ ih => exact .step haction hstep (ih second)

theorem bind (h : Reaches guarantee program memory last final)
    (continuation : α → Program σ ε β) :
    Reaches guarantee (program >>= continuation) memory (last >>= continuation) final := by
  induction h with
  | refl => exact .refl _ _
  | step haction hstep _ ih => exact .step haction hstep ih

/-- Composition after a part that returns. -/
theorem bind_done {value : α} {continuation : α → Program σ ε β} {after : Program σ ε β}
    {memory' : σ} (h : Reaches guarantee program memory (done value) memory')
    (hrest : Reaches guarantee (continuation value) memory' after final) :
    Reaches guarantee (program >>= continuation) memory after final :=
  (h.bind continuation).trans hrest

theorem load (read : σ → α) (h : guarantee memory memory) :
    Reaches guarantee (Program.load read : Program σ ε α) memory (done (read memory)) memory :=
  .step rfl h (.refl _ _)

theorem store {write : σ → σ} (h : guarantee memory (write memory)) :
    Reaches guarantee (Program.store write : Program σ ε Unit) memory (done ()) (write memory) :=
  .step rfl h (.refl _ _)

theorem run_eq (h : Reaches guarantee program memory last final) :
    program.run memory = last.run final := by
  induction h with
  | refl => rfl
  | step haction _ _ ih =>
    rw [run, haction]
    exact ih

/-- The next step of an execution that has not arrived yet. -/
theorem advance (h : Reaches guarantee program memory last final) :
    (program = last ∧ memory = final) ∨ ∃ program' memory',
      program.advance memory = .ok (program', memory') ∧ guarantee memory memory' ∧
        Reaches guarantee program' memory' last final := by
  cases h with
  | refl => exact Or.inl ⟨rfl, rfl⟩
  | step haction hstep hrest =>
    refine Or.inr ⟨_, _, ?_, hstep, hrest⟩
    rw [Program.advance, haction]

end Reaches

/-- Whatever the other parties do within `rely` between two steps, the program itself changes
nothing, and when it returns the postcondition holds at that instant. -/
def holds (rely : σ → σ → Prop) : Program σ ε α → (α → σ → Prop) → σ → Prop
  | done value, post, memory => post value memory
  | step action next, post, memory =>
    ∀ seen, rely memory seen →
      match action seen with
      | .ok (read, memory') => memory' = seen ∧ (next read).holds rely post seen
      | .error _ => True

theorem holds_bind (rely : σ → σ → Prop) (program : Program σ ε α)
    (continuation : α → Program σ ε β) (post : β → σ → Prop) (memory : σ) :
    (program >>= continuation).holds rely post memory ↔
      program.holds rely (fun value after ↦ (continuation value).holds rely post after) memory := by
  induction program generalizing memory with
  | done value => rfl
  | step action next ih =>
    simp only [step_bind, holds]
    refine forall_congr' fun seen ↦ imp_congr_right fun _ ↦ ?_
    cases action seen with
    | error error => rfl
    | ok outcome => exact and_congr_right fun _ ↦ ih outcome.1 seen

theorem holds_mono {rely : σ → σ → Prop} {program : Program σ ε α} {post post' : α → σ → Prop}
    (h : ∀ value memory, post value memory → post' value memory) {memory : σ}
    (hp : program.holds rely post memory) : program.holds rely post' memory := by
  induction program generalizing memory with
  | done value => exact h _ _ hp
  | step action next ih =>
    intro seen hseen
    have hstep := hp seen hseen
    cases hact : action seen with
    | error error => trivial
    | ok outcome =>
      rw [hact] at hstep
      exact ⟨hstep.1, ih outcome.1 hstep.2⟩

theorem holds_load {rely : σ → σ → Prop} {read : σ → α} {post : α → σ → Prop} {memory : σ}
    (h : ∀ seen, rely memory seen → post (read seen) seen) :
    (load read : Program σ ε α).holds rely post memory :=
  fun seen hseen ↦ ⟨rfl, h seen hseen⟩

/-- A step of the program itself. -/
theorem holds_advance {rely : σ → σ → Prop} {program program' : Program σ ε α}
    {post : α → σ → Prop} {memory memory' : σ} (hp : program.holds rely post memory)
    (hrefl : rely memory memory) (h : program.advance memory = .ok (program', memory')) :
    memory' = memory ∧ program'.holds rely post memory := by
  cases program with
  | done value =>
    cases h
    exact ⟨rfl, hp⟩
  | step action next =>
    have hstep := hp memory hrefl
    rw [advance] at h
    cases haction : action memory with
    | error error =>
      rw [haction] at h
      cases h
    | ok outcome =>
      rw [haction] at h hstep
      cases h
      exact hstep

/-- A step of another party, while the program has not returned. -/
theorem holds_of_rely {rely : σ → σ → Prop} {program : Program σ ε α} {post : α → σ → Prop}
    {memory memory' : σ} (htrans : ∀ a b c, rely a b → rely b c → rely a c)
    (hrunning : ∀ value, program ≠ done value) (hp : program.holds rely post memory)
    (hrely : rely memory memory') : program.holds rely post memory' := by
  cases program with
  | done value => exact absurd rfl (hrunning value)
  | step action next =>
    intro seen hseen
    exact hp seen (htrans memory memory' seen hrely hseen)

end Program

/-- A part of a memory that programs can work on by themselves. -/
structure Lens (σ τ : Type) where
  get : σ → τ
  set : τ → σ → σ

namespace Program

variable {σ τ ε ε' α : Type}

/-- A program over a part of the memory, step by step as a program over the whole. -/
def zoom (lens : Lens σ τ) (wrap : ε → ε') : Program τ ε α → Program σ ε' α
  | done value => done value
  | step action next =>
    step (fun memory ↦ match action (lens.get memory) with
      | .ok (read, part) => .ok (read, lens.set part memory)
      | .error error => .error (wrap error)) fun read ↦ (next read).zoom lens wrap

/-- One atomic step that may fail. -/
def act (action : σ → Except ε (α × σ)) : Program σ ε α := step action done

@[simp] theorem run_act (action : σ → Except ε (α × σ)) (memory : σ) :
    (act action).run memory = action memory := by
  simp only [act, run]
  cases action memory with
  | error error => rfl
  | ok outcome => rfl

/-- A program runs part by part. -/
theorem run_bind {β : Type} (program : Program σ ε α) (continuation : α → Program σ ε β)
    (memory : σ) :
    (program >>= continuation).run memory =
      program.run memory >>= fun outcome ↦ (continuation outcome.1).run outcome.2 := by
  induction program generalizing memory with
  | done value => rfl
  | step action next ih =>
    simp only [step_bind, run]
    cases action memory with
    | error error => rfl
    | ok read => exact ih read.1 read.2

theorem run_load (read : σ → α) (memory : σ) :
    (load read : Program σ ε α).run memory = .ok (read memory, memory) := rfl

/-- A program that returns is a part that returns and the rest. -/
theorem run_bind_eq_ok {β : Type} {program : Program σ ε α} {continuation : α → Program σ ε β}
    {memory : σ} {outcome : β × σ} :
    (program >>= continuation).run memory = .ok outcome ↔ ∃ value seen,
      program.run memory = .ok (value, seen) ∧ (continuation value).run seen = .ok outcome := by
  rw [run_bind]
  cases program.run memory with
  | error error => simp [bind, Except.bind]
  | ok read =>
    obtain ⟨value, seen⟩ := read
    simp [bind, Except.bind]

/-- A program over a part of the memory runs as it does by itself. -/
theorem run_zoom {lens : Lens σ τ} {wrap : ε → ε'}
    (hget : ∀ part memory, lens.get (lens.set part memory) = part)
    (hset : ∀ first second memory, lens.set second (lens.set first memory) = lens.set second memory)
    (hself : ∀ memory, lens.set (lens.get memory) memory = memory) (program : Program τ ε α)
    (memory : σ) :
    (program.zoom lens wrap).run memory =
      ((program.run (lens.get memory)).mapError wrap).map fun outcome ↦
        (outcome.1, lens.set outcome.2 memory) := by
  induction program generalizing memory with
  | done value => simp [zoom, run, Except.mapError, Except.map, hself]
  | step action next ih =>
    simp only [zoom, run]
    cases haction : action (lens.get memory) with
    | error error => rfl
    | ok outcome =>
      simp only [ih, hget, hset]

/-- A computation that may fail and does not touch the memory. -/
def lift (value : Except ε α) : Program σ ε α :=
  match value with
  | .ok value => done value
  | .error error => fail error

instance : MonadLift (Except ε) (Program σ ε) := ⟨lift⟩

end Program

end DiosPool.Foundation
