import Mathlib.Logic.Relation
import FosKernel.Heap.Invariant

/-!
# A correct dynamic allocator

What the kernel heap relies on in the dynamic allocator, whose code is not part
of the repository: it reaches memory through `get_page`, `return_page` and its
own addresses only, its live blocks are mapped and disjoint, and its operations
create, release and move blocks without touching the contents of others.
-/

namespace FosKernel

/-- One access of the dynamic allocator to memory. -/
inductive BlockAccess (memory : Memory) : Memory → Prop where
  | getPage {index : Nat} {next : Memory} (block : index < blockPages)
      (mapped : getPage memory (heapVa index) = .ok next) : BlockAccess memory next
  | returnPage {index : Nat} (block : index < blockPages) :
      BlockAccess memory (returnPage memory (heapVa index))
  | write {va : Nat} (value : UInt8) (lower : kernelHeapStart ≤ va) (upper : va < dynAllocEnd) :
      BlockAccess memory (memory.writeByte kernelDirectory va value)

/-- Any number of accesses of the dynamic allocator. -/
abbrev BlockAccesses : Memory → Memory → Prop :=
  Relation.ReflTransGen fun before after => BlockAccess before after

/-- The same byte at an address of the heap. -/
def SameByte (before after : Memory) (va : Nat) : Prop :=
  after.readByte kernelDirectory va = before.readByte kernelDirectory va

/-- A byte stays the same when its page keeps its entry and the frames keep theirs. -/
theorem SameByte.of_entry {before after : Memory} {va page : Nat} (tables : KernelTables before)
    (tables' : KernelTables after) (lies : roundDown va pageSize = heapVa page)
    (inside : page < kheapPagesCount) (entry : heapEntry after page = heapEntry before page)
    (bytes : after.bytes = before.bytes) : SameByte before after va := by
  rw [SameByte, Memory.readByte, Memory.readByte, tables'.translate_eq lies inside,
    tables.translate_eq lies inside, entry, bytes]

/-- The contents of a block are unchanged. -/
def SameBlock (before after : Memory) (va size : Nat) : Prop :=
  ∀ offset < size, SameByte before after (va + offset)

/-- A correct dynamic allocator: `block` gives the sizes of the live blocks, and `Valid` is
the invariant of its state. -/
structure DynAllocator.Correct {β : Type} (D : DynAllocator β) (block : β → Nat → Option Nat)
    (Valid : β → Memory → Prop) : Prop where
  confined : D.Confined
  initial : ∀ memory, KernelTables memory →
    (∀ index < blockPages, (heapEntry memory index).Clean) →
      BlockAccesses memory (D.initializeDynamicAllocator memory).2 ∧
        Valid (D.initializeDynamicAllocator memory).1 (D.initializeDynamicAllocator memory).2 ∧
        ∀ va, block (D.initializeDynamicAllocator memory).1 va = none
  inside : ∀ {blocks memory va size}, Valid blocks memory → block blocks va = some size →
    kernelHeapStart ≤ va ∧ va + size ≤ dynAllocEnd
  bounded : ∀ {blocks memory va size}, Valid blocks memory → block blocks va = some size →
    size ≤ dynAllocMaxBlockSize
  mapped : ∀ {blocks memory va size}, Valid blocks memory → block blocks va = some size →
    ∀ offset < size, (memory.translate kernelDirectory (va + offset)).isSome = true
  apart : ∀ {blocks memory first second size size'}, Valid blocks memory → first ≠ second →
    block blocks first = some size → block blocks second = some size' →
      first + size ≤ second ∨ second + size' ≤ first
  stable : ∀ {blocks memory memory'}, Valid blocks memory → KernelTables memory' →
    (∀ index < blockPages, heapEntry memory' index = heapEntry memory index) →
    (∀ va, kernelHeapStart ≤ va → va < dynAllocEnd →
      (∀ start size, block blocks start = some size →
        ¬ (start ≤ va ∧ va < start + size)) →
        SameByte memory memory' va) → Valid blocks memory'
  alloc : ∀ {size blocks memory va blocks' memory'}, Valid blocks memory → 0 < size →
    size ≤ dynAllocMaxBlockSize → D.allocBlock size (blocks, memory) =
      .ok (va, blocks', memory') →
      va = 0 ∧ blocks' = blocks ∧ memory' = memory ∨
        va ≠ 0 ∧ BlockAccesses memory memory' ∧ Valid blocks' memory' ∧
          block blocks va = none ∧
          (∃ size', size ≤ size' ∧ block blocks' =
            Function.update (block blocks) va (some size')) ∧
          ∀ other size, block blocks other = some size → SameBlock memory memory' other size
  alloc_halt : ∀ {size state halt}, D.allocBlock size state = .error halt → halt = .panic
  free : ∀ {blocks memory va size blocks' memory'}, Valid blocks memory →
    block blocks va = some size → D.freeBlock va (blocks, memory) = .ok (blocks', memory') →
      BlockAccesses memory memory' ∧ Valid blocks' memory' ∧
        block blocks' = Function.update (block blocks) va none ∧
        ∀ other size, other ≠ va → block blocks other = some size →
          SameBlock memory memory' other size
  realloc : ∀ {blocks memory va size newSize va' blocks' memory'}, Valid blocks memory →
    block blocks va = some size → 0 < newSize → newSize ≤ dynAllocMaxBlockSize →
    D.reallocBlock va newSize (blocks, memory) = .ok (va', blocks', memory') →
      va' = 0 ∧ blocks' = blocks ∧ memory' = memory ∨
        va' ≠ 0 ∧ BlockAccesses memory memory' ∧ Valid blocks' memory' ∧
          (va' = va ∨ block blocks va' = none) ∧
          (∃ size', newSize ≤ size' ∧ block blocks' =
            Function.update (Function.update (block blocks) va none) va' (some size')) ∧
          (∀ offset < min size newSize, memory'.readByte kernelDirectory (va' + offset) =
            memory.readByte kernelDirectory (va + offset)) ∧
          ∀ other size, other ≠ va → block blocks other = some size →
            SameBlock memory memory' other size
  getBlockSize : ∀ {blocks memory va size}, Valid blocks memory →
    block blocks va = some size →
    D.getBlockSize va (blocks, memory) = size

/-- The state of a correct allocator stays valid when neither its pages nor the contents of
frames change. -/
theorem DynAllocator.Correct.of_entries {β : Type} {D : DynAllocator β}
    {block : β → Nat → Option Nat} {Valid : β → Memory → Prop}
    (correct : D.Correct block Valid)
    {blocks : β} {before after : Memory} (valid : Valid blocks before)
    (tables : KernelTables before) (tables' : KernelTables after)
    (entries : ∀ index < blockPages, heapEntry after index = heapEntry before index)
    (bytes : after.bytes = before.bytes) : Valid blocks after := by
  apply correct.stable valid tables' entries
  intro va lower upper _
  have limit : dynAllocEnd < kernelHeapMax := by decide
  obtain ⟨lies, inside⟩ := roundDown_eq_heapVa lower (Nat.lt_trans upper limit)
  have ends : dynAllocEnd = heapVa blockPages := by decide
  exact .of_entry tables tables' lies inside
    (entries _ (lt_page_of_lt_heapVa lies (ends ▸ upper))) bytes

/-- `kmalloc` keeps the state of a correct allocator valid. -/
theorem KHeap.WellFormed.kmalloc_valid {β : Type} {D : DynAllocator β}
    {block : β → Nat → Option Nat} {Valid : β → Memory → Prop}
    (correct : D.Correct block Valid)
    {heap next : KHeap β} {top size va : Nat} (wellFormed : heap.WellFormed top)
    (valid : Valid heap.blocks heap.memory) (small : size ≤ 2 ^ 32 - pageSize)
    (returned : heap.kmalloc D size = .ok (va, next)) : Valid next.blocks next.memory := by
  obtain ⟨-, rfl⟩ | ⟨positive, le, allocated⟩ | pages := wellFormed.kmalloc_cases returned
  · exact valid
  · obtain ⟨⟨va', blocks, memory⟩, call, rest⟩ := bind_eq_ok.mp allocated
    obtain ⟨rfl, rfl⟩ := Prod.mk.inj (Except.ok.inj rest)
    obtain ⟨-, rfl, rfl⟩ | ⟨-, -, valid', -⟩ := correct.alloc valid positive le call
    · exact valid
    · exact valid'
  · obtain ⟨large, index, top', space, raised, top_le, tight, allocated⟩ := pages
    obtain ⟨-, kept, -, blocks, mapped⟩ :=
      wellFormed.allocatePages space raised top_le large small tight allocated
    have lower := space.lower
    have upper := Nat.le_trans space.upper top_le
    have limit : blockPages < firstPage := by decide
    obtain ⟨-, bytes, -, same⟩ := getPages_pages wellFormed.pages lower upper mapped
    rw [blocks]
    exact correct.of_entries valid wellFormed.pages.tables kept.pages.tables
      (fun page below => same page (by omega) (by omega)) bytes

end FosKernel
