import FosKernel.Disk.PageFileManager

/-!
# Loading a program

`program_segment_alloc_map_copy_workingset` and the steps 7, 8 and 10 of `env_create`
in `user_environment.c`, which load the segments of a program: a first part of their
pages gets frames, and all of them are written to the page file. A stack page follows.

The directory of the environment is the current one. The virtual addresses of the
entries of the table working set have no reader here; its index, which may not wrap,
is kept. `create_page_table` succeeds.
-/

namespace FosKernel

/-- `struct ProgramSegment`. Of the start address the bytes from there on are kept. -/
structure ProgramSegment where
  ptrStart : Nat → UInt8
  sizeInFile : Nat
  sizeInMemory : Nat
  virtualAddress : Nat

/-- `__TWS_MAX_SIZE`. -/
def twsMaxSize : Nat := 50

/-- The kernel while a program is loaded, with the lists and the index of the environment that
loading alone changes and the counters of `env_create`. -/
structure Loading where
  kernel : Kernel
  activeList : List Nat
  secondList : List Nat
  tableLastWsIndex : Nat
  lastTableNumber : Nat
  remainingWsPages : Nat

namespace Memory

/-- A loop that stores bytes from a virtual address on. -/
def storeBytes (memory : Memory) (directory dst : Nat) (src : Nat → UInt8) : Nat → Memory
  | 0 => memory
  | count + 1 =>
      (memory.storeBytes directory dst src count).writeByte directory (add32 dst count) (src count)

end Memory

/-- The programs whose data segment gets nine pages at most. -/
def limitedPrograms : List String :=
    ["tpp", "tia", "tia_slave1", "tia_slave2", "tia_slave3", "tia_slave4"]

namespace ProgramSegment

/-- The limits that `program_segment_alloc_map_copy_workingset` puts on the pages in memory. -/
def wsPages (seg : ProgramSegment) (progName : String) (remainingWsPages : Nat) : Nat :=
  let iVA := roundDown seg.virtualAddress pageSize
  let remainingWsPages := if iVA = 0x200000 then 0 else remainingWsPages
  if iVA = 0x803000 ∧ progName ∈ limitedPrograms then
    if remainingWsPages < 9 then remainingWsPages else 9
  else remainingWsPages

/-- The number of pages that get frames. -/
def allocatedPages (seg : ProgramSegment) (progName : String) (remainingWsPages : Nat) : Nat :=
  let endVaddr := roundUp (add32 seg.virtualAddress seg.sizeInMemory) pageSize
  let iVA := roundDown seg.virtualAddress pageSize
  min ((endVaddr - iVA + (pageSize - 1)) / pageSize) (seg.wsPages progName remainingWsPages)

end ProgramSegment

namespace Kernel

/-- `loadtime_map_frame`, which replaces the entry of the page. -/
def loadtimeMapFrame (kernel : Kernel) (env frame va : Nat) (perm : Perm) : Kernel :=
  let kernel :=
    match kernel.memory.getPageTable (kernel.directory env) va with
    | none => kernel.createPageTable env va
    | some _ => kernel
  match kernel.memory.slot (kernel.directory env) va with
  | none => kernel
  | some slot =>
      let memory := kernel.memory.setReferences frame
        (succ16 (kernel.memory.frames frame).references)
      { kernel with memory := memory.setEntry slot ⟨frame, perm ||| permPresent⟩ }

/-- A new element for a page of a segment. Under LRU by lists it leaves the working set before the
hand is set. -/
def addSegmentElement (kernel : Kernel) (env va : Nat) : Except Stop (Nat × Kernel) := do
  let (wse, kernel) ← kernel.createElement va
  let e := kernel.envs env
  let pageWsList :=
    if kernel.pageRepAlgoType = .lruListsApprox then e.pageWsList else e.pageWsList ++ [wse]
  return (wse, kernel.setEnv env
    { e with
      pageWsList := pageWsList
      pageLastWsElement := if pageWsList.length = e.pageWsMaxSize then pageWsList.head? else none })

/-- A new element for the stack page. Under LRU by lists it leaves the working set after the hand is
set. -/
def addStackElement (kernel : Kernel) (env va : Nat) : Except Stop (Nat × Kernel) := do
  let (wse, kernel) ← kernel.createElement va
  let e := kernel.envs env
  let pageWsList := e.pageWsList ++ [wse]
  return (wse, kernel.setEnv env
    { e with
      pageWsList :=
        if kernel.pageRepAlgoType = .lruListsApprox then e.pageWsList else pageWsList
      pageLastWsElement := if pageWsList.length = e.pageWsMaxSize then pageWsList.head? else none })

/-- `pf_add_env_page` with the panic of `env_create`. -/
def addPage (kernel : Kernel) (env va : Nat) (dataSrc : Nat → UInt8) : Except Stop Kernel := do
  let (added, kernel) ← kernel.pfAddEnvPage env va dataSrc
  if added then return kernel else throw .outOfPageFile

/-- The step 7.2 of `env_create`: the first page, when the segment does not start with it. -/
def writeFirstPage (kernel : Kernel) (env : Nat) (seg : ProgramSegment) : Except Stop Kernel :=
  let segVa := seg.virtualAddress
  let startFirstPage := roundDown segVa pageSize
  let endFirstPage := roundUp segVa pageSize
  let offsetFirstPage := segVa - startFirstPage
  if offsetFirstPage ≠ 0 then
    kernel.addPage env startFirstPage fun index =>
      if offsetFirstPage ≤ index ∧ index < offsetFirstPage + (endFirstPage - segVa) then
        seg.ptrStart (index - offsetFirstPage)
      else 0
  else .ok kernel

/-- The steps 7.2 to 7.5 of `env_create`. -/
def writeSegment (kernel : Kernel) (env : Nat) (seg : ProgramSegment) : Except Stop Kernel := do
  let segVa := seg.virtualAddress
  let endFirstPage := roundUp segVa pageSize
  let kernel ← kernel.writeFirstPage env seg
  let srcPtr := if segVa - roundDown segVa pageSize ≠ 0 then endFirstPage - segVa else 0
  -- the pages before the last one
  let startLastPage := roundDown (add32 segVa seg.sizeInFile) pageSize
  let endLastPage := add32 segVa seg.sizeInFile
  let count := (startLastPage - endFirstPage + (pageSize - 1)) / pageSize
  let kernel ← (List.range count).foldlM
    (fun kernel index => kernel.addPage env (endFirstPage + index * pageSize)
      fun offset => seg.ptrStart (srcPtr + index * pageSize + offset))
    kernel
  let srcPtr := srcPtr + count * pageSize
  -- the last page
  let lastPage : Nat → UInt8 := fun index =>
    if index < endLastPage - startLastPage then seg.ptrStart (srcPtr + index) else 0
  let kernel ← kernel.addPage env startLastPage lastPage
  -- the pages that are not in the file
  let startRemainingArea := roundUp (add32 segVa seg.sizeInFile) pageSize
  let remainingLength := sub32 (add32 segVa seg.sizeInMemory) startRemainingArea
  (List.range ((roundUp remainingLength pageSize + (pageSize - 1)) / pageSize)).foldlM
    (fun kernel index => do
      let (added, kernel) ← kernel.pfAddEmptyEnvPageWith env
        (add32 startRemainingArea (index * pageSize)) true
      if added then return kernel else throw .outOfPageFile)
    kernel

end Kernel

namespace Loading

/-- A round of the loop of `program_segment_alloc_map_copy_workingset`. -/
def placePage (env activeListSize : Nat) (loading : Loading) (iVA : Nat) : Except Stop Loading :=
  match loading.kernel.memory.allocateFrame with
  | none => .error .outOfMemory
  | some (frame, memory) => do
      let kernel := { loading.kernel with memory := memory }.loadtimeMapFrame env frame iVA
        (permUser ||| permWriteable)
      let lists := kernel.pageRepAlgoType = .lruListsApprox
      let (wse, kernel) ← kernel.addSegmentElement env iVA
      let toActive := loading.activeList.length < sub32 activeListSize 1
      let newTable := pdx iVA ≠ loading.lastTableNumber
      let tableLastWsIndex :=
        if newTable then (loading.tableLastWsIndex + 1) % twsMaxSize else loading.tableLastWsIndex
      if newTable ∧ tableLastWsIndex = 0 then throw .panic
      else
        return { loading with
          kernel := kernel
          activeList :=
            if lists ∧ toActive then wse :: loading.activeList else loading.activeList
          secondList :=
            if lists ∧ ¬ toActive then wse :: loading.secondList else loading.secondList
          tableLastWsIndex := tableLastWsIndex
          lastTableNumber := if newTable then pdx iVA else loading.lastTableNumber }

/-- `program_segment_alloc_map_copy_workingset`. -/
def programSegmentAllocMapCopyWorkingset (loading : Loading) (env activeListSize : Nat)
    (progName : String) (seg : ProgramSegment) : Except Stop Loading := do
  let iVA := roundDown seg.virtualAddress pageSize
  let allocatedPages := seg.allocatedPages progName loading.remainingWsPages
  let loading ← (List.range allocatedPages).foldlM
    (fun loading index => loading.placePage env activeListSize (iVA + index * pageSize)) loading
  let directory := loading.kernel.directory env
  -- both loops end at the end of the pages in memory, the first one also where the file ends
  let stop := add32 iVA (allocatedPages * pageSize)
  let copied := min stop (add32 seg.virtualAddress seg.sizeInFile) - seg.virtualAddress
  let memory := loading.kernel.memory.storeBytes directory seg.virtualAddress seg.ptrStart copied
  let dstPtr := seg.virtualAddress + copied
  let memory := memory.memset directory dstPtr 0 (stop - dstPtr)
  return { loading with kernel := { loading.kernel with memory := memory } }

/-- A round of the loop of `env_create` over the segments of a program. -/
def loadSegment (env activeListSize : Nat) (progName : String) (loading : Loading)
    (seg : ProgramSegment) : Except Stop Loading := do
  let allocatedPages := seg.allocatedPages progName loading.remainingWsPages
  let loading ← loading.programSegmentAllocMapCopyWorkingset env activeListSize progName seg
  let kernel ← loading.kernel.writeSegment env seg
  return { loading with
    kernel := kernel
    remainingWsPages := sub32 loading.remainingWsPages allocatedPages }

/-- The step 10 of `env_create`: a stack page, whether or not the page file has space for it. -/
def placeStackPage (env activeListSize : Nat) (loading : Loading) : Except Stop Loading :=
  let stackVa := uStackTop - pageSize
  match loading.kernel.memory.allocateFrame with
  | none => .error .outOfMemory
  | some (frame, memory) => do
      let kernel := { loading.kernel with memory := memory }.loadtimeMapFrame env frame stackVa
        (permUser ||| permWriteable)
      let memory := kernel.memory.memset (kernel.directory env) stackVa 0 pageSize
      let lists := kernel.pageRepAlgoType = .lruListsApprox
      let (wse, kernel) ← { kernel with memory := memory }.addStackElement env stackVa
      let toActive := loading.activeList.length < activeListSize
      let (_, kernel) ← kernel.pfAddEmptyEnvPageWith env stackVa true
      return { loading with
        kernel := kernel
        activeList :=
          if lists ∧ toActive then wse :: loading.activeList else loading.activeList
        secondList :=
          if lists ∧ ¬ toActive then wse :: loading.secondList else loading.secondList }

end Loading

namespace Kernel

/-- The step 8 of `env_create`: no page of the working set counts as modified. -/
def clearModified (kernel : Kernel) (env : Nat) : Except Stop Kernel :=
  (kernel.envs env).pageWsList.foldlM
    (fun kernel wse =>
      match kernel.memory.slot (kernel.directory env) (kernel.elementVa wse) with
      | none => .error .nullPointer
      | some slot =>
          let entry := (kernel.memory.tables slot).setPerms 0 permModified
          .ok { kernel with memory := kernel.memory.setEntry slot entry })
    kernel

/-- The steps 7, 8 and 10 of `env_create` for a program with the given segments. Under LRU by lists
the pages of the second list are not present in the end. -/
def loadProgram (kernel : Kernel) (env activeListSize : Nat) (progName : String)
    (segments : List ProgramSegment) : Except Stop Loading := do
  let remainingWsPages := sub32 (kernel.envs env).pageWsMaxSize 1
  let loading : Loading := ⟨kernel, [], [], 0, 0xFFFFFFFF, remainingWsPages⟩
  let loading ← segments.foldlM (Loading.loadSegment env activeListSize progName) loading
  let kernel ← loading.kernel.clearModified env
  let loading ← { loading with kernel := kernel }.placeStackPage env activeListSize
  if loading.kernel.pageRepAlgoType = .lruListsApprox then
    let kernel ← loading.secondList.foldlM
      (fun kernel elm => kernel.setPagePermissions env (kernel.elementVa elm) 0 permPresent)
      loading.kernel
    return { loading with kernel := kernel }
  else return loading

end Kernel

end FosKernel
