import FosKernel.Lib.TwoLevelMap
import FosKernel.Mem.PageTable

/-!
# Memory at boot time

`boot_memory_manager.c` before paging is on: physical memory in words, the pointer
`ptr_free_mem` that allocations move up, and `boot_map_range` with the functions it
calls. A kernel virtual address stands for the physical address `KERNEL_BASE` below it.
Sizes of boot allocations are whole words.

The counter of the loop in `boot_map_range` is an `int`; the loop is the one for sizes
below `2 ^ 31`, where it makes a round for each page.
-/

namespace FosKernel

/-- `CONSTRUCT_ENTRY`. -/
def constructEntry (physFrameAddress permissions : Nat) : Nat := physFrameAddress ||| permissions

/-- `EXTRACT_ADDRESS`. -/
def extractAddress (entry : Nat) : Nat := entry &&& 0xFFFFF000

/-- The low twelve bits of an entry. -/
def entryFlags (entry : Nat) : Nat := entry &&& 0xFFF

/-- `PERM_PRESENT` is set in an entry. -/
def entryPresent (entry : Nat) : Bool := entry &&& permPresent.toNat != 0

/-- `STATIC_KERNEL_PHYSICAL_ADDRESS`, or `none` when the kernel panics. -/
def staticKernelPhysicalAddress (kva : Nat) : Option Nat :=
  if kva < kernelBase then none else some (kva - kernelBase)

/-- The word at a kernel virtual address. -/
def wordOf (kva : Nat) : Nat := sub32 kva kernelBase / 4

/-- Physical memory, `number_of_frames`, `end_of_kernel` and `ptr_free_mem`. -/
structure BootMemory where
  words : Nat → Nat
  numberOfFrames : Nat
  endOfKernel : Nat
  ptrFreeMem : Nat

namespace BootMemory

/-- `STATIC_KERNEL_VIRTUAL_ADDRESS`, or `none` when the kernel panics. -/
def staticKernelVirtualAddress (boot : BootMemory) (pa : Nat) : Option Nat :=
  if boot.numberOfFrames ≤ vpn pa then none else some (add32 pa kernelBase)

/-- Store a word. -/
def setWord (boot : BootMemory) (word value : Nat) : BootMemory :=
  { boot with words := Function.update boot.words word value }

/-- `memset` with 0. -/
def clear (boot : BootMemory) (start size : Nat) : BootMemory :=
  { boot with
    words := fun word =>
      if wordOf start ≤ word ∧ word < wordOf start + size / 4 then 0 else boot.words word }

/-- `boot_allocate_space`. -/
def bootAllocateSpace (boot : BootMemory) (size align : Nat) : Nat × BootMemory :=
  let ptrFreeMem := if boot.ptrFreeMem = 0 then boot.endOfKernel else boot.ptrFreeMem
  let ptrAllocatedMem := roundUp ptrFreeMem align
  (ptrAllocatedMem,
    { boot.clear ptrAllocatedMem size with ptrFreeMem := add32 ptrAllocatedMem size })

/-- An entry of a page directory. -/
def directoryEntry (boot : BootMemory) (ptrPageDirectory index : Nat) : Nat :=
  boot.words (wordOf ptrPageDirectory + index)

/-- `boot_get_page_table`, or `none` when the kernel panics. -/
def bootGetPageTable (boot : BootMemory) (ptrPageDirectory va : Nat) (create : Bool) :
    Option (Nat × BootMemory) :=
  let indexPageDirectory := pdx va
  let physPageTable := extractAddress (boot.directoryEntry ptrPageDirectory indexPageDirectory)
  match boot.staticKernelVirtualAddress physPageTable with
  | none => none
  | some ptrPageTable =>
      if physPageTable = 0 then
        if create then
          let (ptrPageTable, boot) := boot.bootAllocateSpace pageSize pageSize
          match staticKernelPhysicalAddress ptrPageTable with
          | none => none
          | some physPageTable =>
              some (ptrPageTable, boot.setWord (wordOf ptrPageDirectory + indexPageDirectory)
                (constructEntry physPageTable (permPresent ||| permWriteable).toNat))
        else some (0, boot)
      else some (ptrPageTable, boot)

/-- A round of the loop of `boot_map_range`. -/
def bootMapPage (boot : BootMemory) (ptrPageDirectory va pa perm : Nat) : Option BootMemory :=
  match boot.bootGetPageTable ptrPageDirectory va true with
  | none => none
  | some (ptrPageTable, boot) =>
      some (boot.setWord (wordOf ptrPageTable + ptx va)
        (constructEntry pa (perm ||| permPresent.toNat)))

/-- The loop of `boot_map_range`. -/
def bootMapPages (boot : BootMemory) (ptrPageDirectory va pa perm : Nat) : Nat → Option BootMemory
  | 0 => some boot
  | count + 1 =>
      match boot.bootMapPage ptrPageDirectory va pa perm with
      | none => none
      | some boot =>
          boot.bootMapPages ptrPageDirectory (add32 va pageSize) (add32 pa pageSize) perm count

/-- `boot_map_range`. -/
def bootMapRange (boot : BootMemory) (ptrPageDirectory va size pa perm : Nat) :
    Option BootMemory :=
  boot.bootMapPages ptrPageDirectory va pa perm ((size + (pageSize - 1)) / pageSize)

/-- The address and the flags to which the processor translates an address. -/
def translate (boot : BootMemory) (ptrPageDirectory va : Nat) : Option (Nat × Nat) :=
  let pageDirectoryEntry := boot.directoryEntry ptrPageDirectory (pdx va)
  if entryPresent pageDirectoryEntry then
    let pageTableEntry := boot.words (extractAddress pageDirectoryEntry / 4 + ptx va)
    if entryPresent pageTableEntry then
      some (extractAddress pageTableEntry + pgoff va, entryFlags pageTableEntry)
    else none
  else none

end BootMemory

end FosKernel
