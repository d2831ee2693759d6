import DiosPool.Driver.Eager

/-!
# Blocking metadata writes

`write_all_blocking` loops past short transfers until the whole buffer is in the file. On an eager
backend every turn goes through `execute` and its retry policy. On the ring backend every turn is a
single `pwrite`, so an interruption ends the call and an empty transfer fails an assertion. The two
agree as long as the device neither interrupts a write nor leaves one empty.
-/

namespace DiosPool.Driver

open Foundation

/-- The result of a blocking write, once it has one. -/
abbrev WriteOutcome := List Transfer × Option (Except ℕ Unit)

def ebadf : ℕ := 9

/-! ## The eager backend -/

/-- The loop of the eager `write_all_blocking`, with the answers of the device used so far. -/
def writeAllBlockingFrom (C : Config) (executor : Executor) (fd : FileId) (buf : List UInt8)
    (offset index written : ℕ) : Except Assertion WriteOutcome :=
  if written < buf.length then
    match execute C executor index .write
        (.write fd (offset + written) written (buf.drop written)) with
    | .error assertion => .error assertion
    | .ok (transfers, none) => .ok (transfers, none)
    | .ok (transfers, some (.error errno)) => .ok (transfers, some (.error errno))
    | .ok (transfers, some (.ok bytes)) =>
      if _hfits : bytes ≤ buf.length - written then
        if _hpos : 0 < bytes then
          match writeAllBlockingFrom C executor fd buf offset (index + transfers.length)
              (written + bytes) with
          | .error assertion => .error assertion
          | .ok (later, result) => .ok (transfers ++ later, result)
        else .error ⟨"blocking write made no forward progress"⟩
      else .error ⟨"executor reported more bytes than requested"⟩
  else .ok ([], some (.ok ()))
termination_by buf.length - written

/-- The checks of a blocking write before its loop. -/
def withLiveFile (C : Config) (shared : Shared) (fd : FileHandle) (buf : List UInt8)
    (write : Except Assertion WriteOutcome) : Except Assertion WriteOutcome := do
  ensure (buf.length < 2 ^ 32) "metadata write length within u32 bound"
  ensure (fd.fileId.driver = C.id) "file handle used with a foreign driver"
  if shared.isLive fd.fileId then write else return ([], some (.error ebadf))

def writeAllBlocking (C : Config) (shared : Shared) (executor : Executor) (fd : FileHandle)
    (buf : List UInt8) (offset : ℕ) : Except Assertion WriteOutcome :=
  withLiveFile C shared fd buf (writeAllBlockingFrom C executor fd.fileId buf offset 0 0)

/-! ## The ring backend -/

/-- One turn of the loop in `write_all_blocking_ring`, with the bytes written before it. The loop
ends when the buffer does. -/
def blockingTurn (total written : ℕ) (result : IoResult) :
    Except Assertion (ℕ ⊕ Except ℕ Unit) :=
  match result with
  | .ok bytes => do
    ensure (bytes ≤ total - written) "backend reported more bytes than requested"
    ensure (0 < bytes) "blocking write made no forward progress"
    if written + bytes < total then return .inl (written + bytes) else return .inr (.ok ())
  | .error errno => return .inr (.error errno)

theorem blockingTurn_eq_ok {total written : ℕ} {result : IoResult} {outcome : ℕ ⊕ Except ℕ Unit}
    (h : blockingTurn total written result = .ok outcome) :
    (∃ bytes, result = .ok bytes ∧ 0 < bytes ∧ bytes ≤ total - written ∧
        ((written + bytes < total ∧ outcome = .inl (written + bytes)) ∨
          (total ≤ written + bytes ∧ outcome = .inr (.ok ())))) ∨
      ∃ errno, result = .error errno ∧ outcome = .inr (.error errno) := by
  cases result with
  | ok bytes =>
    simp only [blockingTurn, bind_eq_ok, ensure_eq_ok] at h
    obtain ⟨-, hfits, -, hpos, h⟩ := h
    refine .inl ⟨bytes, rfl, hpos, hfits, ?_⟩
    split at h
    · cases h
      exact .inl ⟨‹_›, rfl⟩
    · cases h
      exact .inr ⟨by omega, rfl⟩
  | error errno =>
    cases h
    exact .inr ⟨errno, rfl, rfl⟩

def blockingLoop (total offset : ℕ) :
    Resumable Transfer IoResult ℕ (Except ℕ Unit) Assertion where
  request written := ⟨offset + written, written, total - written⟩
  turn := blockingTurn total
  budget written := total - written
  decreases := by
    intro written result next h
    obtain ⟨bytes, -, hpos, hfits, ⟨hless, h⟩ | ⟨-, h⟩⟩ | ⟨errno, -, h⟩ := blockingTurn_eq_ok h
    · cases h
      omega
    · cases h
    · cases h

def writeAllBlockingRing (C : Config) (shared : Shared) (executor : Executor) (fd : FileHandle)
    (buf : List UInt8) (offset : ℕ) : Except Assertion WriteOutcome :=
  withLiveFile C shared fd buf
    (if 0 < buf.length then (blockingLoop buf.length offset).run executor 0 0
    else .ok ([], some (.ok ())))

/-! ## Where the two differ -/

/-- The device answers its first request as given and carries out every other one. -/
def firstAnswer (first : IoResult) (hfirst : transferred first = 0) : Executor where
  answer index transfer := some (if index = 0 then first else .ok transfer.length)
  fits := by
    rintro index transfer _ ⟨⟩
    split
    · simp [hfirst]
    · simp [transferred]

/-- A driver for one file that retries once. -/
def oneFile : Config := ⟨0, 1, 1, 1, 1, 4096⟩

/-- A write of one byte to the only file of a driver, on both backends. -/
def writeOneByte (executor : Executor) :
    Except Assertion WriteOutcome × Except Assertion WriteOutcome :=
  let shared := ((Shared.new oneFile).openFile oneFile).2
  (writeAllBlocking oneFile shared executor ⟨⟨0, 0, 1⟩, .buffered⟩ [7] 0,
    writeAllBlockingRing oneFile shared executor ⟨⟨0, 0, 1⟩, .buffered⟩ [7] 0)

/-! ## Where they agree -/

/-- No write is interrupted and none leaves a non-empty request untouched. -/
def Steady (executor : Executor) : Prop :=
  ∀ index transfer result, executor.answer index transfer = some result →
    result ≠ .error eintr ∧ (result = .ok 0 → transfer.length = 0)

/-- The context of the eager loop stands where the ring loop does. -/
structure Aligned (total offset : ℕ) (state : OpContext × ℕ) (written : ℕ) : Prop where
  transfer : state.1.transfer = ⟨offset + written, written, total - written⟩
  buffer : state.1.writeBuf.length = total - written
  unfinished : written < total

/-- The file after a write of `data` at `offset`. -/
def pwrite (file : ℕ → UInt8) (offset : ℕ) (data : List UInt8) (position : ℕ) : UInt8 :=
  if offset ≤ position then (data[position - offset]?).getD (file position) else file position

/-- The file after the transfers of a run from its `index`th attempt on. -/
def landed (executor : Executor) (buf : List UInt8) :
    ℕ → List Transfer → (ℕ → UInt8) → ℕ → UInt8
  | _, [], file => file
  | index, transfer :: rest, file =>
    landed executor buf (index + 1) rest
      (match executor.answer index transfer with
      | some (.ok bytes) =>
        pwrite file transfer.fileOffset ((buf.drop transfer.bufferOffset).take bytes)
      | _ => file)

end DiosPool.Driver
