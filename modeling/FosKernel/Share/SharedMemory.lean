import Mathlib.Algebra.Group.Int.Defs
import FosKernel.Heap.KHeap

/-!
# The shared memory manager

`shared_memory_manager.c` in its `USE_KHEAP` build, on the kernel heap and the
page directories of the calling environments. The list of shares holds the
shares themselves, in list order; a share is named by its place, since none is
ever removed here. Strings are the bytes before their NUL. The bytes that
`strcmp` reads behind a name field that holds no NUL are left open, and so are
the contents of fresh memory.
-/

namespace FosKernel

/-- `E_NO_SHARE`, `E_SHARED_MEM_EXISTS`, `E_SHARED_MEM_NOT_EXISTS`, `E_INVAL`. -/
def eNoShare : Int := -14
def eSharedMemExists : Int := -15
def eSharedMemNotExists : Int := -16
def eInval : Int := -3

/-- `sizeof(struct Share)` and the length of its name field. -/
def sizeofShare : Nat := 96
def shareNameLength : Nat := 64

/-- `struct Share`. -/
structure Share where
  id : Nat
  ownerId : BitVec 32
  name : List UInt8
  size : Nat
  references : Nat
  isWritable : UInt8
  framesStorage : List Nat

/-- The kernel heap, the number of page tables ever created, and `AllShares.shares_list`. -/
structure SharedMemory (β : Type) where
  heap : KHeap β
  nextTable : Nat
  sharesList : List Share

/-- The string at the start of some bytes. -/
def cString (bytes : List UInt8) : List UInt8 := bytes.takeWhile (· ≠ 0)

/-- `strncpy`, with the bytes that the destination holds. -/
def strncpy (dst src : List UInt8) (count : Nat) : List UInt8 :=
  src.take count ++ List.replicate (count - src.length) 0 ++ dst.drop count

/-- A `uint32` read as an `int`. -/
def toInt32 (word : Nat) : Int := if word < 2 ^ 31 then word else (word : Int) - 2 ^ 32

namespace SharedMemory

variable {β : Type}

/-- Replace the memory behind the kernel heap. -/
def setMemory (shared : SharedMemory β) (memory : Memory) : SharedMemory β :=
  { shared with heap := { shared.heap with memory := memory } }

/-- The loop of `find_share`. -/
def findShareFrom (overrun : Nat → List UInt8) (ownerId : BitVec 32) (name : List UInt8) :
    List Share → Nat → Option Nat
  | [], _ => none
  | share :: shares, index =>
      if share.ownerId = ownerId ∧ name = cString (share.name ++ overrun index) then some index
      else findShareFrom overrun ownerId name shares (index + 1)

/-- `find_share`. -/
def findShare (shared : SharedMemory β) (overrun : Nat → List UInt8) (ownerId : BitVec 32)
    (name : List UInt8) : Option Nat :=
  findShareFrom overrun ownerId name shared.sharesList 0

/-- `size_of_shared_object`. -/
def sizeOfSharedObject (shared : SharedMemory β) (overrun : Nat → List UInt8)
    (ownerId : BitVec 32) (shareName : List UInt8) : Int :=
  match shared.findShare overrun ownerId shareName with
  | none => eSharedMemNotExists
  | some index =>
      match shared.sharesList[index]? with
      | none => eSharedMemNotExists
      | some share => toInt32 share.size

/-- `AllocFramesStorage`. -/
def allocFramesStorage (D : DynAllocator β) (heap : KHeap β) (framesNum : Nat) :
    Except Halt (Option (List Nat) × KHeap β) :=
  if framesNum = 0 then .ok (none, heap)
  else do
    let (va, heap) ← heap.kmalloc D (framesNum * 4)
    if va = 0 then return (none, heap)
    else return (some (List.replicate framesNum 0), heap)

/-- `alloc_share`, with what the name field of the fresh memory holds. -/
def allocShare (D : DynAllocator β) (heap : KHeap β) (contents : List UInt8)
    (ownerId : BitVec 32) (shareName : List UInt8) (size : Nat) (isWritable : UInt8) :
    Except Halt (Option Share × KHeap β) := do
  let (va, heap) ← heap.kmalloc D sizeofShare
  if va = 0 then return (none, heap)
  else
    let (storage, heap) ← allocFramesStorage D heap (pagesOf size)
    match storage with
    | none =>
        let heap ← heap.kfree D va
        return (none, heap)
    | some framesStorage =>
        return (some
          { id := va % 2 ^ 28
            ownerId := ownerId
            name := strncpy contents shareName (shareNameLength - 1)
            size := size
            references := 1
            isWritable := isWritable
            framesStorage := framesStorage }, heap)

/-- `create_page_table`. -/
def createPageTable (D : DynAllocator β) (shared : SharedMemory β) (directory va : Nat) :
    Except Halt (SharedMemory β) := do
  let (table, heap) ← shared.heap.kmalloc D pageSize
  if table = 0 then .error .panic
  else
    let memory := { heap.memory with
      directories := Function.update heap.memory.directories directory
        (Function.update (heap.memory.directories directory) (pdx va) (some shared.nextTable))
      tables := fun slot => if slot.1 = shared.nextTable then .zero else heap.memory.tables slot }
    return { shared with
      heap := { heap with memory := memory }
      nextTable := shared.nextTable + 1 }

/-- The first part of `map_frame`, which creates the page table when there is none. -/
def ensurePageTable (D : DynAllocator β) (shared : SharedMemory β) (directory va : Nat) :
    Except Halt (SharedMemory β) :=
  match shared.heap.memory.getPageTable directory va with
  | some _ => .ok shared
  | none => shared.createPageTable D directory va

/-- `map_frame`. -/
def mapFrame (D : DynAllocator β) (shared : SharedMemory β) (directory frame va : Nat)
    (perm : Perm) : Except Halt (SharedMemory β) := do
  let shared ← shared.ensurePageTable D directory va
  match shared.heap.memory.mapFrame directory frame va perm with
  | none => .error .panic
  | some memory => return shared.setMemory memory

/-- The loop of `create_shared_object`: allocate, map and record the frames. -/
def placeFrames (D : DynAllocator β) (shared : SharedMemory β) (directory pageAddress : Nat)
    (framesStorage : List Nat) (index : Nat) : Nat → Except Halt (List Nat × SharedMemory β)
  | 0 => .ok (framesStorage, shared)
  | count + 1 =>
      match shared.heap.memory.allocateFrame with
      | none => .error .panic
      | some (frame, memory) => do
          let shared ← (shared.setMemory memory).mapFrame D directory frame pageAddress
            (permUser ||| permPresent ||| permWriteable)
          placeFrames D shared directory (add32 pageAddress pageSize)
            (framesStorage.set index frame) (index + 1) count

/-- `create_shared_object`, called by the environment with a page directory. -/
def createSharedObject (D : DynAllocator β) (shared : SharedMemory β)
    (overrun : Nat → List UInt8) (contents : List UInt8) (directory : Nat) (ownerId : BitVec 32)
    (shareName : List UInt8) (size : Nat) (isWritable : UInt8) (va : Nat) :
    Except Halt (Int × SharedMemory β) :=
  if (shared.findShare overrun ownerId shareName).isSome then .ok (eSharedMemExists, shared)
  else do
    let (share, heap) ← allocShare D shared.heap contents ownerId shareName size isWritable
    let shared := { shared with heap := heap }
    match share with
    | none => return (eNoShare, shared)
    | some share =>
        let (framesStorage, shared) ←
          shared.placeFrames D directory va share.framesStorage 0 (pagesOf size)
        return (share.id, { shared with
          sharesList := shared.sharesList ++ [{ share with framesStorage := framesStorage }] })

/-- `Numframe`, an `int` that the loop of `get_shared_object` compares as a `uint32`. -/
def numframe (size : Nat) : Nat :=
  ((toInt32 (roundUp size pageSize)).tdiv pageSize % 2 ^ 32).toNat

/-- The loop of `get_shared_object`. The model stops at the first read past the stored frames. With
a negative `Numframe` the source reads on from there, through every address, until a read faults. -/
def mapStorage (D : DynAllocator β) (shared : SharedMemory β) (directory va : Nat)
    (perm : Perm) (framesStorage : List Nat) (index : Nat) :
    Nat → Except Halt (SharedMemory β)
  | 0 => .ok shared
  | count + 1 =>
      match framesStorage[index]? with
      | none => .error .pageFault
      | some frame => do
          let shared ← shared.mapFrame D directory frame (add32 va (index * pageSize)) perm
          mapStorage D shared directory va perm framesStorage (index + 1) count

/-- `get_shared_object`, called by the environment with a page directory. -/
def getSharedObject (D : DynAllocator β) (shared : SharedMemory β)
    (overrun : Nat → List UInt8) (directory : Nat) (ownerId : BitVec 32)
    (shareName : List UInt8) (va : Nat) : Except Halt (Int × SharedMemory β) :=
  match shared.findShare overrun ownerId shareName with
  | none => .ok (eSharedMemNotExists, shared)
  | some index =>
      match shared.sharesList[index]? with
      | none => .ok (eSharedMemNotExists, shared)
      | some share => do
          let perm := if share.isWritable ≠ 0 then permUser ||| permWriteable else permUser
          let shared ← shared.mapStorage D directory va perm share.framesStorage 0
            (numframe share.size)
          return (share.id, { shared with
            sharesList := shared.sharesList.modify index fun share =>
              { share with references := add32 share.references 1 } })

/-- `__sys_unmap_frame`, called by the environment with a page directory. -/
def sysUnmapFrame (shared : SharedMemory β) (directory va : Nat) : Int × SharedMemory β :=
  if userTop ≤ va ∨ va % pageSize ≠ 0 then (eInval, shared)
  else (0, shared.setMemory (shared.heap.memory.unmapFrame directory va))

end SharedMemory

end FosKernel
