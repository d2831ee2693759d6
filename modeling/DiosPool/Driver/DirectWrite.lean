import DiosPool.Driver.Eager

/-!
# Alignment of direct writes

A direct file is written from whole staging slots at aligned offsets. A short count moves the rest
of the write to wherever the device stopped, and neither backend looks at the alignment again. The
attempts stay aligned as long as the device stops at multiples of the alignment, and only then.
-/

namespace DiosPool.Driver

open Foundation

/-- Offsets and length are multiples of the alignment. -/
structure Transfer.Aligned (alignment : Alignment) (transfer : Transfer) : Prop where
  fileOffset : alignment.check transfer.fileOffset
  bufferOffset : alignment.check transfer.bufferOffset
  length : alignment.check transfer.length

instance (alignment : Alignment) (transfer : Transfer) :
    Decidable (transfer.Aligned alignment) :=
  decidable_of_iff (alignment.check transfer.fileOffset ∧ alignment.check transfer.bufferOffset ∧
    alignment.check transfer.length) ⟨fun h ↦ ⟨h.1, h.2.1, h.2.2⟩, fun h ↦ ⟨h.1, h.2, h.3⟩⟩

/-- The device stops aligned transfers at multiples of the alignment. -/
def Executor.StopsAligned (executor : Executor) (alignment : Alignment) : Prop :=
  ∀ index transfer result, transfer.Aligned alignment →
    executor.answer index transfer = some result → alignment.check (transferred result)

namespace Alignment

variable (alignment : Alignment) {left right : ℕ}

theorem check_iff {offset : ℕ} : alignment.check offset = true ↔ alignment.bytes ∣ offset := by
  rw [check, beq_iff_eq, Nat.dvd_iff_mod_eq_zero]

theorem check_add (hleft : alignment.check left) (hright : alignment.check right) :
    alignment.check (left + right) := by
  rw [check_iff] at hleft hright ⊢
  exact Nat.dvd_add hleft hright

theorem check_sub (hleft : alignment.check left) (hright : alignment.check right) :
    alignment.check (left - right) := by
  rw [check_iff] at hleft hright ⊢
  exact Nat.dvd_sub hleft hright

end Alignment

section Attempts

variable {C : Config} {alignment : Alignment} {executor : Executor} {logicalLen : ℕ}

/-- The state of the eager loop asks for an aligned part of its buffer. -/
structure OpContext.WritesAligned (alignment : Alignment) (context : OpContext) : Prop where
  aligned : context.transfer.Aligned alignment
  whole : context.writeBuf.length = context.requestedLen

theorem OpContext.WritesAligned.tail {context : OpContext} {bytes : ℕ}
    (h : context.WritesAligned alignment) (hbytes : alignment.check bytes) :
    (OpContext.write context.fd (context.fileOffset + bytes) (context.destinationOffset + bytes)
      (context.writeBuf.drop bytes)).WritesAligned alignment := by
  have hlength : (context.writeBuf.drop bytes).length = context.requestedLen - bytes := by
    rw [List.length_drop, h.whole]
  refine ⟨⟨?_, ?_, ?_⟩, rfl⟩
  · exact alignment.check_add h.aligned.fileOffset hbytes
  · exact alignment.check_add h.aligned.bufferOffset hbytes
  · show alignment.check (context.writeBuf.drop bytes).length
    rw [hlength]
    exact alignment.check_sub h.aligned.length hbytes

end Attempts

/-- Sectors of 512 bytes. -/
def sector : Alignment := ⟨512, 9, rfl⟩

/-- A device that moves one sector at a time. -/
def sectorwise : Executor where
  answer _ transfer := some (.ok (min 512 transfer.length))
  fits := by
    rintro _ transfer _ ⟨⟩
    exact min_le_right 512 transfer.length

/-- A device that stops after one byte at first, and then finishes. -/
def oneByteShort : Executor where
  answer index transfer := some (.ok (if index = 0 then min 1 transfer.length else transfer.length))
  fits := by
    rintro index transfer _ ⟨⟩
    simp only [transferred]
    split
    · exact min_le_right 1 transfer.length
    · exact le_rfl

end DiosPool.Driver
