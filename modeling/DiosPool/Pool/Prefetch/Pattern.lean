import DiosPool.Driver.Operation

/-!
# Sequential patterns

What the pool remembers of one reader's cold demand: the last page, how long it has followed its
predecessor, and once a stream is confirmed how far ahead it has been read.
-/

namespace DiosPool.Pool

/-- The largest page index and the largest 32-bit count. -/
def u32Max : ℕ := 2 ^ 32 - 1

/-- `checked_add(1)` on 32 bits. -/
def checkedSucc (value : ℕ) : Option ℕ := if value < u32Max then some (value + 1) else none

def saturatingAdd (left right : ℕ) : ℕ := min (left + right) u32Max

inductive PatternState
  | empty
  | following (last : PageId) (run : ℕ)
  | streaming (demand : PageId) (next width : ℕ)
  deriving DecidableEq, Repr

structure Pattern where
  state : PatternState
  incarnation : ℕ
  deriving DecidableEq, Repr

/-- Who asked for a speculative page. -/
inductive Source
  | explicit
  | automatic (reader incarnation : ℕ)
  deriving DecidableEq, Repr

namespace Pattern

def new : Pattern := ⟨.empty, 0⟩

def reset (pattern : Pattern) : Pattern := ⟨.empty, pattern.incarnation + 1⟩

def observeSequential (pattern : Pattern) (page : PageId) (capacity : ℕ) :
    Except Assertion Pattern :=
  match checkedSucc page.granuleIdx with
  | none => return pattern.reset
  | some next =>
    match pattern.state with
    | .following _ run =>
      if run < 2 then
        return { pattern with state := .following page (run + 1) }
      else
        return { pattern with state := .streaming page next (min capacity 4) }
    | .streaming _ issued width =>
      return { pattern with state := .streaming page (max issued next) width }
    | .empty => .error ⟨"a sequential observation has a predecessor"⟩

/-- The page a pattern last saw. -/
def last (pattern : Pattern) : Option PageId :=
  match pattern.state with
  | .empty => none
  | .following last _ => some last
  | .streaming demand _ _ => some demand

/-- Whether `page` follows `last` in the same file. -/
def follows (last page : PageId) : Bool :=
  last.file == page.file && checkedSucc last.granuleIdx == some page.granuleIdx

def observe (pattern : Pattern) (page : PageId) (capacity : ℕ) : Except Assertion Pattern := do
  ensure (0 < capacity) "patterns need speculative capacity"
  if pattern.last = some page then
    return pattern
  else if pattern.last.any fun last ↦ follows last page then
    pattern.observeSequential page capacity
  else
    return { pattern.reset with state := .following page 1 }

def request (pattern : Pattern) (reader : ℕ) : Option (PageId × Source) :=
  match pattern.state with
  | .streaming demand next width =>
    if saturatingAdd demand.granuleIdx width < next then none
    else some (⟨demand.file, next⟩, .automatic reader pattern.incarnation)
  | _ => none

def window (pattern : Pattern) (reader vectorWidth : ℕ) : Option (PageId × Source × ℕ) :=
  match pattern.request reader, pattern.state with
  | some (page, source), .streaming demand next width =>
    let count := min width vectorWidth
    let eligible := saturatingAdd demand.granuleIdx width - next + 1
    if eligible < count then none else some (page, source, count)
  | _, _ => none

def issued (pattern : Pattern) (page : PageId) : Except Assertion Pattern :=
  match pattern.state with
  | .streaming demand next width => do
    ensure (page = ⟨demand.file, next⟩) "a stream issues its next page"
    match checkedSucc next with
    | some next => return { pattern with state := .streaming demand next width }
    | none => return pattern.reset
  | _ => .error ⟨"only an active stream issues predictions"⟩

def promoted (pattern : Pattern) (page : PageId) (incarnation capacity : ℕ) :
    Except Assertion Pattern :=
  if pattern.incarnation ≠ incarnation then
    return pattern
  else
    match pattern.state with
    | .streaming demand next width => do
      ensure (demand.file = page.file) "a stream stays in its file"
      if page.granuleIdx ≤ demand.granuleIdx then
        return pattern
      else if checkedSucc demand.granuleIdx = some page.granuleIdx then
        return { pattern with
          state := .streaming page next (min (min (width * 2) u32Max) capacity) }
      else
        pattern.observe page capacity
    | _ => return pattern

def owns (pattern : Pattern) (incarnation : ℕ) : Bool := pattern.incarnation == incarnation

end Pattern

end DiosPool.Pool
