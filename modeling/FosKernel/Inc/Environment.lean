import Mathlib.Data.Nat.Notation

/-!
# Working-set and reference-stream elements

The fields of `struct Env` that page replacement and the page file read, with
working-set elements and elements of the reference stream.
-/

namespace FosKernel

/-- `struct WorkingSetElement`, with the fields page replacement reads. -/
structure WorkingSetElement where
  virtualAddress : Nat
  timeStamp : Nat
  deriving DecidableEq, Repr

/-- `struct PageRefElement`. -/
structure PageRefElement where
  virtualAddress : Nat
  deriving DecidableEq, Repr

/-- `struct Env`. The lists hold the addresses of their elements, which are allocated on the
kernel heap. The page directory is named by a number; the disk directory holds disk frame
numbers, with 0 for a page that is not in the page file. -/
structure Env where
  envPageDirectory : Nat
  diskEnvPgdir : Option (Nat → Option (Nat → Nat))
  pageWsMaxSize : Nat
  pageWsList : List Nat
  pageLastWsElement : Option Nat
  referenceStreamList : List PageRefElement

/-- A `LIST_HEAD` as its element sequence, with the cursor `___ptr_next` that
`LIST_FOREACH` keeps inside the header. -/
structure ListHead (α : Type) where
  elements : List α
  ptrNext : Option α

namespace ListHead

variable {α σ : Type}

/-- `LIST_FOREACH_SAFE`: the cursor is a local variable. -/
def forEachSafe (head : ListHead α) (body : σ → α → σ) (start : σ) : σ :=
  head.elements.foldl body start

/-- `LIST_FOREACH`: after a complete traversal the cursor in the header is `NULL`. -/
def forEach (head : ListHead α) (body : σ → α → σ) (start : σ) : σ × ListHead α :=
  (head.elements.foldl body start, { head with ptrNext := none })

end ListHead

end FosKernel
