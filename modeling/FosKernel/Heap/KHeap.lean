import FosKernel.Lib.Calls
import FosKernel.Mem.Memory

/-!
# The kernel heap

`kheap.c` in its `USE_KHEAP` build: the page allocator with its size table and
break, and the calls into the dynamic allocator for small sizes. The dynamic
allocator's code is not part of the repository, so it is a parameter. Arithmetic
is that of `uint32` throughout, wrapping included.

`get_page` returns 0 or panics, so the branches that handle another return value
have no counterpart. The page tables of the kernel heap exist from boot on.
-/

namespace FosKernel

/-- How a call into the kernel stops instead of returning. -/
inductive Halt where
  | panic
  | pageFault
  | hang
  deriving DecidableEq, Repr

/-- `ptr_page_directory`. -/
def kernelDirectory : Nat := 0

/-- `dynAllocEnd`, as `kheap_init` sets it. -/
def dynAllocEnd : Nat := kernelHeapStart + dynAllocMaxSize

/-- `kheapPageAllocStart`. -/
def kheapPageAllocStart : Nat := dynAllocEnd + pageSize

/-- `KHEAP_PAGES_COUNT`. -/
def kheapPagesCount : Nat := (kernelHeapMax - kernelHeapStart) / pageSize

/-- `kva_to_index`. -/
def kvaToIndex (va : Nat) : Nat := sub32 va kernelHeapStart / pageSize

/-- `ROUNDUP(size, PAGE_SIZE) / PAGE_SIZE`. -/
def pagesOf (size : Nat) : Nat := roundUp size pageSize / pageSize

/-- The dynamic allocator: its state and the functions that the kernel heap calls. -/
structure DynAllocator (β : Type) where
  initializeDynamicAllocator : Memory → β × Memory
  allocBlock : Nat → β × Memory → Except Halt (Nat × β × Memory)
  freeBlock : Nat → β × Memory → Except Halt (β × Memory)
  reallocBlock : Nat → Nat → β × Memory → Except Halt (Nat × β × Memory)
  getBlockSize : Nat → β × Memory → Nat

/-- The state of the kernel heap. -/
structure KHeap (β : Type) where
  memory : Memory
  blocks : β
  kallocationSizes : Nat → Nat
  kheapPageAllocBreak : Nat

variable {β : Type}

/-- `get_page`. -/
def getPage (memory : Memory) (va : Nat) : Except Halt Memory :=
  match memory.allocPage kernelDirectory kernelDirectory (roundDown va pageSize) permWriteable
    false with
  | none => .error .panic
  | some (memory, _) => .ok memory

/-- `return_page`. -/
def returnPage (memory : Memory) (va : Nat) : Memory :=
  memory.unmapFrame kernelDirectory (roundDown va pageSize)

/-- `get_page` for a number of pages from an address on. -/
def getPages (memory : Memory) (va : Nat) : Nat → Except Halt Memory
  | 0 => .ok memory
  | count + 1 => do
      let memory ← getPage memory va
      getPages memory (add32 va pageSize) count

/-- `return_page` for a number of pages from an address on. -/
def returnPages (memory : Memory) (va : Nat) : Nat → Memory
  | 0 => memory
  | count + 1 => returnPages (returnPage memory va) (add32 va pageSize) count

/-- The loop at the end of `kfree` that lowers the break to the last present page. -/
def lowerBreak (memory : Memory) (brk : Nat) : Nat → Except Halt Nat
  | 0 => .error .hang
  | fuel + 1 =>
      if kheapPageAllocStart < brk then
        let prevva := sub32 brk pageSize
        match memory.entry kernelDirectory prevva with
        | none => .error .pageFault
        | some entry => if entry.present then .ok brk else lowerBreak memory prevva fuel
      else .ok brk

namespace KHeap

/-- `kheap_init`. -/
def kheapInit (D : DynAllocator β) (memory : Memory) : KHeap β :=
  let (blocks, memory) := D.initializeDynamicAllocator memory
  { memory := memory
    blocks := blocks
    kallocationSizes := fun _ => 0
    kheapPageAllocBreak := kheapPageAllocStart }

/-- The inner loop of `find_customfit`: the length in pages of the free space at an
address. -/
def countFreeSpace (heap : KHeap β) (tempVa tempIndex : Nat) : Nat → Except Halt Nat
  | 0 => .error .hang
  | fuel + 1 =>
      if tempVa < heap.kheapPageAllocBreak ∧ heap.kallocationSizes tempIndex = 0 then do
        let freeSpaceSize ← heap.countFreeSpace (add32 tempVa pageSize) (tempIndex + 1) fuel
        return freeSpaceSize + 1
      else .ok 0

/-- What `find_customfit` remembers of the free spaces it has passed. -/
structure Fit where
  firstExactVa : Nat
  worstVa : Nat
  worstSize : Nat
  deriving DecidableEq, Repr

/-- Take a free space into account: the first exact fit, and the worst fit. -/
def Fit.update (fit : Fit) (numPages freeSpaceVa freeSpaceSize : Nat) : Fit :=
  let fit := if freeSpaceSize = numPages ∧ fit.firstExactVa = 0 then
    { fit with firstExactVa := freeSpaceVa } else fit
  if numPages ≤ freeSpaceSize ∧ fit.worstSize < freeSpaceSize then
    { fit with worstVa := freeSpaceVa, worstSize := freeSpaceSize } else fit

/-- The outer loop of `find_customfit`. -/
def scanFreeSpace (heap : KHeap β) (numPages currVa : Nat) (fit : Fit) :
    Nat → Except Halt Fit
  | 0 => .error .hang
  | fuel + 1 =>
      if currVa < heap.kheapPageAllocBreak then
        let index := kvaToIndex currVa
        if heap.kallocationSizes index ≠ 0 then
          let usedSpacePages := pagesOf (heap.kallocationSizes index)
          heap.scanFreeSpace numPages (add32 currVa (usedSpacePages * pageSize)) fit fuel
        else do
          let freeSpaceSize ← heap.countFreeSpace currVa index (kheapPagesCount + 1)
          heap.scanFreeSpace numPages (add32 currVa (freeSpaceSize * pageSize))
            (fit.update numPages currVa freeSpaceSize) fuel
      else .ok fit

/-- `find_customfit`. A loop that has not ended after one round for every page of the heap
stands still. -/
def findCustomfit (heap : KHeap β) (numPages : Nat) : Except Halt Nat := do
  let fit ← heap.scanFreeSpace numPages kheapPageAllocStart ⟨0, 0, 0⟩ (kheapPagesCount + 1)
  if fit.firstExactVa ≠ 0 then return fit.firstExactVa
  else if numPages ≤ fit.worstSize then return fit.worstVa
  else return 0

/-- The last part of `kmalloc`: map the pages and record the size. -/
def allocatePages (heap : KHeap β) (allocVa brk numPages size : Nat) :
    Except Halt (Nat × KHeap β) := do
  let memory ← getPages heap.memory allocVa numPages
  return (allocVa,
    { heap with
      memory := memory
      kallocationSizes := Function.update heap.kallocationSizes (kvaToIndex allocVa) size
      kheapPageAllocBreak := brk })

/-- `alloc_block` on the heap state. -/
def allocBlock (D : DynAllocator β) (heap : KHeap β) (size : Nat) :
    Except Halt (Nat × KHeap β) := do
  let (va, blocks, memory) ← D.allocBlock size (heap.blocks, heap.memory)
  return (va, { heap with memory := memory, blocks := blocks })

/-- `free_block` on the heap state. -/
def freeBlock (D : DynAllocator β) (heap : KHeap β) (va : Nat) : Except Halt (KHeap β) := do
  let (blocks, memory) ← D.freeBlock va (heap.blocks, heap.memory)
  return { heap with memory := memory, blocks := blocks }

/-- `realloc_block` on the heap state. -/
def reallocBlock (D : DynAllocator β) (heap : KHeap β) (va newSize : Nat) :
    Except Halt (Nat × KHeap β) := do
  let (va, blocks, memory) ← D.reallocBlock va newSize (heap.blocks, heap.memory)
  return (va, { heap with memory := memory, blocks := blocks })

/-- `kmalloc`; the address 0 is `NULL`. -/
def kmalloc (D : DynAllocator β) (heap : KHeap β) (size : Nat) : Except Halt (Nat × KHeap β) :=
  let numPages := pagesOf size
  let neededBytes := numPages * pageSize
  if size = 0 ∨ sub32 kernelHeapMax heap.kheapPageAllocBreak < neededBytes then .ok (0, heap)
  else if size ≤ dynAllocMaxBlockSize then heap.allocBlock D size
  else do
    let allocVa ← heap.findCustomfit numPages
    if allocVa = 0 then
      let newBreak := add32 heap.kheapPageAllocBreak neededBytes
      if kernelHeapMax < newBreak then return (0, heap)
      else heap.allocatePages heap.kheapPageAllocBreak newBreak numPages size
    else heap.allocatePages allocVa heap.kheapPageAllocBreak numPages size

/-- The part of `kfree` that releases the run of pages of a recorded size. -/
def freePages (heap : KHeap β) (va size : Nat) : Except Halt (KHeap β) := do
  let memory := returnPages heap.memory va (pagesOf size)
  let brk ← lowerBreak memory heap.kheapPageAllocBreak (kheapPagesCount + 1)
  return { heap with
    memory := memory
    kallocationSizes := Function.update heap.kallocationSizes (kvaToIndex va) 0
    kheapPageAllocBreak := brk }

/-- `kfree`. -/
def kfree (D : DynAllocator β) (heap : KHeap β) (va : Nat) : Except Halt (KHeap β) :=
  if va = 0 then .ok heap
  else if va < kernelHeapStart ∨ kernelHeapMax ≤ va then .ok heap
  else
    let size := heap.kallocationSizes (kvaToIndex va)
    if size = 0 then .ok heap
    else if size ≤ dynAllocMaxBlockSize then heap.freeBlock D va
    else heap.freePages va size

/-- The loop of `krealloc` that tests whether a run can grow by some pages in place. -/
def canExtend (heap : KHeap β) (va : Nat) : Nat → Bool
  | 0 => true
  | extra + 1 =>
      if kernelHeapMax ≤ va ∨ heap.kheapPageAllocBreak ≤ va ∨
          heap.kallocationSizes (kvaToIndex va) ≠ 0 then false
      else heap.canExtend (add32 va pageSize) extra

/-- `memcpy` between heap addresses. -/
def memcpy (heap : KHeap β) (dst src count : Nat) : Except Halt (KHeap β) :=
  match heap.memory.memcpy kernelDirectory dst src count with
  | none => .error .pageFault
  | some memory => .ok { heap with memory := memory }

/-- The part of `krealloc` that shrinks a run of pages in place. -/
def shrinkPages (heap : KHeap β) (va oldPages newPages newSize : Nat) : KHeap β :=
  { heap with
    memory := returnPages heap.memory (add32 va (newPages * pageSize)) (oldPages - newPages)
    kallocationSizes := Function.update heap.kallocationSizes (kvaToIndex va) newSize
    kheapPageAllocBreak :=
      if add32 va (oldPages * pageSize) = heap.kheapPageAllocBreak then
        add32 va (newPages * pageSize)
      else heap.kheapPageAllocBreak }

/-- The part of `krealloc` that grows a run of pages in place. -/
def growPages (heap : KHeap β) (va oldPages newPages newSize : Nat) :
    Except Halt (KHeap β) := do
  let memory ← getPages heap.memory (add32 va (oldPages * pageSize)) (newPages - oldPages)
  return { heap with
    memory := memory
    kallocationSizes := Function.update heap.kallocationSizes (kvaToIndex va) newSize }

/-- The part of `krealloc` that moves a page allocation. -/
def movePages (D : DynAllocator β) (heap : KHeap β) (va oldSize newSize : Nat) :
    Except Halt (Nat × KHeap β) := do
  let (newVa, heap) ← heap.kmalloc D newSize
  if newVa = 0 then return (0, heap)
  else
    let heap ← heap.memcpy newVa va oldSize
    let heap ← heap.kfree D va
    return (newVa, heap)

/-- `krealloc` of a page allocation to another size of more than a block. -/
def reallocPages (D : DynAllocator β) (heap : KHeap β) (va oldSize newSize : Nat) :
    Except Halt (Nat × KHeap β) :=
  let oldPages := pagesOf oldSize
  let newPages := pagesOf newSize
  if newPages < oldPages then .ok (va, heap.shrinkPages va oldPages newPages newSize)
  else if oldPages < newPages ∧
      heap.canExtend (add32 va (oldPages * pageSize)) (newPages - oldPages) then do
    let heap ← heap.growPages va oldPages newPages newSize
    return (va, heap)
  else heap.movePages D va oldSize newSize

/-- `krealloc` of a block to more than a block. -/
def blockToPages (D : DynAllocator β) (heap : KHeap β) (va oldSize newSize : Nat) :
    Except Halt (Nat × KHeap β) := do
  let (newVa, heap) ← heap.kmalloc D newSize
  if newVa = 0 then return (0, heap)
  else
    let heap ← heap.memcpy newVa va oldSize
    let heap ← heap.freeBlock D va
    return (newVa, heap)

/-- `krealloc` of a page allocation to a block. -/
def pagesToBlock (D : DynAllocator β) (heap : KHeap β) (va oldSize newSize : Nat) :
    Except Halt (Nat × KHeap β) := do
  let (newVa, heap) ← heap.allocBlock D newSize
  if newVa = 0 then return (0, heap)
  else
    let heap ← heap.memcpy newVa va oldSize
    let heap ← heap.kfree D va
    return (newVa, heap)

/-- `krealloc`. -/
def krealloc (D : DynAllocator β) (heap : KHeap β) (va newSize : Nat) :
    Except Halt (Nat × KHeap β) :=
  if va = 0 then heap.kmalloc D newSize
  else if newSize = 0 then do
    let heap ← heap.kfree D va
    return (0, heap)
  else if kheapPageAllocStart ≤ va ∧ va < heap.kheapPageAllocBreak then
    let oldSize := heap.kallocationSizes (kvaToIndex va)
    if oldSize = 0 then .ok (0, heap)
    else if oldSize = newSize then .ok (va, heap)
    else if newSize ≤ dynAllocMaxBlockSize then heap.pagesToBlock D va oldSize newSize
    else heap.reallocPages D va oldSize newSize
  else if kernelHeapStart ≤ va ∧ va < dynAllocEnd then
    let oldSize := D.getBlockSize va (heap.blocks, heap.memory)
    if oldSize = 0 then .ok (0, heap)
    else if oldSize = newSize then .ok (va, heap)
    else if newSize ≤ dynAllocMaxBlockSize then heap.reallocBlock D va newSize
    else heap.blockToPages D va oldSize newSize
  else .ok (0, heap)

end KHeap

end FosKernel
