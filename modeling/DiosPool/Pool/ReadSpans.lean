import DiosPool.Driver.Operation

/-!
# Routes from a vector read to its pages

A span remembers which miss each page of a vector read belongs to, how many bytes the read has
received and how many pages it has published. The routes hold the spans in flight, addressed by the
driver slot of the read.
-/

namespace DiosPool.Pool

open Driver

/-- The miss slot of a page and the generation it was admitted with. -/
structure SpanPage where
  slot : ℕ
  generation : ℕ
  deriving DecidableEq, Repr

structure ReadSpan where
  pages : List (Option SpanPage)
  first : PageId
  token : OpToken
  count : ℕ
  bytes : ℕ
  filled : ℕ
  published : ℕ
  deriving DecidableEq, Repr

namespace ReadSpan

def new (first : PageId) (token : OpToken) (count granule : ℕ) : Except Assertion ReadSpan := do
  ensure (2 ≤ count ∧ count ≤ vectorFramesMax) "a span has 2 to 32 pages"
  let bytes := count * granule
  ensure (bytes < 2 ^ 32) "bounded vector bytes"
  ensure (bytes ≤ vectorBytesMax) "a span fits its byte limit"
  return ⟨List.replicate vectorFramesMax none, first, token, count, bytes, 0, 0⟩

def install (span : ReadSpan) (ordinal : ℕ) (page : SpanPage) : Except Assertion ReadSpan := do
  ensure (ordinal < span.count) "ordinal of the span"
  ensure (span.pages[ordinal]? = some none) "one install for each ordinal"
  return { span with pages := span.pages.set ordinal (some page) }

section Publish

variable {m : Type → Type*} [Monad m] [MonadLiftT (Except Assertion) m]

/-- The closure that `publish_completed` hands to the bundle. -/
def publishNext (publish : ReadSpan → ℕ → ℕ → m Unit) (span : ReadSpan) (ordinal write : ℕ) :
    m ReadSpan := do
  (ensure (ordinal = span.published) "publication follows the complete prefix" : Except Assertion Unit)
  publish span ordinal write
  return { span with published := span.published + 1 }

def publishCompleted (span : ReadSpan) (vector : ReadVector) (bytes granule : ℕ)
    (publish : ReadSpan → ℕ → ℕ → m Unit) : m (ReadSpan × ReadVector) := do
  (ensure (bytes ≤ span.bytes - span.filled) "completion fits the span" : Except Assertion Unit)
  let (span, vector) ← vector.takeCompleted (publishNext publish)
    { span with filled := span.filled + bytes }
  (ensure (span.published = span.filled / granule) "published prefix" : Except Assertion Unit)
  return (span, vector)

end Publish

def isComplete (span : ReadSpan) : Except Assertion Bool :=
  if span.filled = span.bytes then do
    ensure (span.published = span.count) "a full span has published every page"
    return true
  else
    return false

end ReadSpan

/-- One entry of the span storage. `free` carries the next free slot. -/
inductive SpanState
  | free (next : Option ℕ)
  | preparing
  | inFlight (span : ReadSpan)
  | completing
  deriving DecidableEq, Repr

structure Route where
  token : OpToken
  slot : ℕ
  deriving DecidableEq, Repr

structure ReadSpans where
  slots : List SpanState
  operations : List (Option Route)
  free : Option ℕ

namespace ReadSpans

/-- Slot 0 links to nothing, every later slot to the one before it. -/
def new (reads operations : ℕ) : ReadSpans where
  slots := (List.range reads).map fun index ↦ .free (if index = 0 then none else some (index - 1))
  operations := List.replicate operations none
  free := if reads = 0 then none else some (reads - 1)

def reserve (spans : ReadSpans) : Except Assertion (Option ℕ × ReadSpans) :=
  match spans.free with
  | none => return (none, spans)
  | some slot =>
    match spans.slots[slot]? with
    | some (.free next) =>
      return (some slot, { spans with free := next, slots := spans.slots.set slot .preparing })
    | _ => .error ⟨"the free list contains only vacant routes"⟩

/-- A slot goes back to the head of the free list. -/
def release (spans : ReadSpans) (slot : ℕ) : ReadSpans :=
  { spans with slots := spans.slots.set slot (.free spans.free), free := some slot }

def cancel (spans : ReadSpans) (slot : ℕ) : Except Assertion ReadSpans := do
  ensure (spans.slots[slot]? = some .preparing) "a cancelled route was prepared"
  return spans.release slot

def commit (spans : ReadSpans) (slot : ℕ) (span : ReadSpan) : Except Assertion ReadSpans := do
  ensure (spans.slots[slot]? = some .preparing) "a committed route was prepared"
  ensure (∀ page ∈ span.pages.take span.count, page.isSome) "every ordinal is installed"
  ensure (spans.operations[span.token.slot]? = some none)
    "a vector retains its driver slot through routing"
  return { spans with
    operations := spans.operations.set span.token.slot (some ⟨span.token, slot⟩)
    slots := spans.slots.set slot (.inFlight span) }

def completing (spans : ReadSpans) (token : OpToken) :
    Except Assertion (ℕ × ReadSpan × ReadSpans) := do
  let route ← expect (spans.operations[token.slot]?.join) "a pool vector has a route"
  ensure (route.token = token) "route generation is exact"
  match spans.slots[route.slot]? with
  | some (.inFlight span) =>
    ensure (span.token = token) "the span belongs to its route"
    return (route.slot, span, { spans with slots := spans.slots.set route.slot .completing })
  | _ => .error ⟨"only an in-flight span receives a completion"⟩

def resume (spans : ReadSpans) (slot : ℕ) (span : ReadSpan) : Except Assertion ReadSpans := do
  ensure (spans.slots[slot]? = some .completing) "a resumed route was completing"
  ensure (span.filled < span.bytes) "a resumed span has bytes left"
  return { spans with slots := spans.slots.set slot (.inFlight span) }

def finish (spans : ReadSpans) (slot : ℕ) (token : OpToken) : Except Assertion ReadSpans := do
  ensure (spans.slots[slot]? = some .completing) "a finished route was completing"
  let route ← expect (spans.operations[token.slot]?.join) "live route"
  ensure (route.token = token) "route generation is exact"
  ensure (route.slot = slot) "the route names its slot"
  return ReadSpans.release
    { spans with operations := spans.operations.set token.slot none } slot

end ReadSpans

end DiosPool.Pool
