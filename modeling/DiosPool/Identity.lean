import Mathlib

/-!
# Identities of files and pages

A file is named by the driver that registered it, its slot in that driver's file table and the
generation of that slot. A page is a granule of such a file, so two incarnations of one slot
never share a page.
-/

namespace DiosPool

structure FileId where
  driver : Nat
  slot : Nat
  generation : Nat
  deriving DecidableEq, Repr, Inhabited

structure PageId where
  file : FileId
  granuleIdx : Nat
  deriving DecidableEq, Repr, Inhabited

end DiosPool
