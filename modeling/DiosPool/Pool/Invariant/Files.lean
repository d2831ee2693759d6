import DiosPool.Pool.Invariant.Driver

/-!
# The files of a pool in every state

A file entry keeps the handle it was registered with until it is closed.
-/

namespace DiosPool.Pool

open Driver Foundation

/-- Every handle is one of the file it is kept for. -/
def Handled (files : ℕ → Option PoolFile) : Prop :=
  ∀ slot entry handle, files slot = some entry → entry.handle = some handle →
    handle.fileId = entry.id

section Steps

variable {C : Config} {c c' : Custody} {pool after : Pool}

/-- The entry of a slot changes. -/
theorem Handled.update {files : ℕ → Option PoolFile} (h : Handled files) {slot : ℕ}
    {entry : PoolFile} (hentry : ∀ handle, entry.handle = some handle → handle.fileId = entry.id) :
    Handled (Function.update files slot (some entry)) := by
  intro other found handle hfound hhandle
  by_cases hother : other = slot
  · subst hother
    rw [Function.update_self] at hfound
    cases hfound
    exact hentry handle hhandle
  · rw [Function.update_of_ne hother] at hfound
    exact h other found handle hfound hhandle

theorem Move.handled (hmove : Move C (c, pool) (c', after)) (h : Handled pool.locked.files) :
    Handled after.locked.files := by
  cases hmove with
  | pin hpinning hreader => cases hreader <;> exact h
  | submitWrite hindex hvacant hlive hsubmit hlocked =>
    cases hlocked
    exact h
  | holdFsync hindex hvacant hlive hlocked =>
    cases hlocked
    exact h
  | finish hfinished hfinish => cases finishProductCompletion_eq_ok hfinish <;> exact h
  | deliver hdeliver =>
    obtain ⟨productOps, rfl⟩ := deliverFrom_eq _ _ _ _ _ _ _ hdeliver
    exact h
  | register hopened hregister =>
    obtain ⟨_, _, _, _, rfl⟩ := registerFile_eq_ok hopened hregister
    refine h.update fun handle hhandle ↦ ?_
    cases hhandle
    rfl
  | beginRetire hlive hretire =>
    obtain ⟨entry, _, hentry, _, rfl⟩ := beginFileRetirement_eq_some hretire
    exact h.update fun handle hhandle ↦ h _ entry handle hentry hhandle
  | takeHandle hfile hdrained hclosing => exact h.update (by simp)
  | retired hfile hdrained hhandle hclosing hclosed => exact h.update (by simp [hhandle])
  | _ => exact h

theorem Reach.handled (h : Reach C c pool) : Handled pool.locked.files := by
  induction h with
  | new => exact fun slot entry handle hentry ↦ by cases hentry
  | turn hreach hturn ih =>
    rw [hturn.locked_eq]
    exact ih
  | move hreach hmove ih => exact hmove.handled ih

/-- The handle of a registered page is one of its file. -/
theorem Reach.fileId_eq (h : Reach C c pool) {page : PageId} {handle : FileHandle}
    (hregistered : pool.locked.registeredFile page = .ok handle) : handle.fileId = page.file := by
  simp only [Locked.registeredFile, bind_eq_ok, expect_eq_ok, ensure_eq_ok] at hregistered
  obtain ⟨entry, hentry, _, hid, hhandle⟩ := hregistered
  exact (h.handled _ entry handle hentry hhandle).trans hid

end Steps

end DiosPool.Pool
