import FosKernel.Inc.Environment
import FosKernel.Lib.Calls
import FosKernel.Mem.Memory

/-!
# The kernel as page faults see it

The state that the fault handler and the page file work on: memory, the disk
frames of the page file, the environments, the working-set elements on the
kernel heap, and the global variables of `fault_handler.c`.

Elements are named by their addresses. `kmalloc` of an element or of a page
table is taken to succeed with an address not used before; `kfree` leaves the
element's fields in place.
-/

namespace FosKernel

/-- The values of `_PageRepAlgoType`. -/
inductive PageRepAlgoType where
  | lruTimeApprox
  | lruListsApprox
  | clock
  | fifo
  | modifiedClock
  | nchanceClock
  | dynamicLocal
  | optimal
  deriving DecidableEq, Repr

/-- The disk frames of the page file and their free list. -/
structure Disk where
  frames : Nat → Nat → UInt8
  freeFrameList : IntrusiveList Nat

/-- The kernel's state. -/
structure Kernel where
  memory : Memory
  disk : Disk
  envs : Nat → Env
  elements : Nat → WorkingSetElement
  nextElement : Nat
  nextTable : Nat
  pageRepAlgoType : PageRepAlgoType
  enableBuffering : Bool
  pageActiveWsList : List Nat
  optimalInitialized : Bool
  lastFaultVa : Nat
  lastFaultedEnv : Option Nat
  numRepeatedFault : Nat

/-- How a fault ends when the handler does not return. -/
inductive Stop where
  | envExit (kernel : Kernel)
  | panic
  | outOfMemory
  | outOfPageFile
  | nullPointer
  | hang

namespace Kernel

/-- A kernel with two environments that have all page tables, no page and a working set of the
given size, and three free frames in memory and on disk. -/
def blank (algorithm : PageRepAlgoType) (pageWsMaxSize : Nat) : Kernel where
  memory := [256, 257, 258].foldl Memory.freeFrame { Memory.blank with
    directories := fun directory index =>
      if directory < 2 ∧ index < 1024 then some (1024 * directory + index) else none }
  disk := {
    frames := fun _ _ => 0
    freeFrameList := [1, 2, 3].foldl IntrusiveList.insertHead
      ⟨none, none, 0, fun _ => none, fun _ => none⟩ }
  envs := fun env => ⟨env, none, pageWsMaxSize, [], none, []⟩
  elements := fun _ => ⟨0, 0⟩
  nextElement := 0
  nextTable := 2 * 1024
  pageRepAlgoType := algorithm
  enableBuffering := false
  pageActiveWsList := []
  optimalInitialized := false
  lastFaultVa := 0
  lastFaultedEnv := none
  numRepeatedFault := 0

/-- Change the fields of an environment. -/
def setEnv (kernel : Kernel) (env : Nat) (value : Env) : Kernel :=
  { kernel with envs := Function.update kernel.envs env value }

/-- The page directory of an environment. -/
def directory (kernel : Kernel) (env : Nat) : Nat := (kernel.envs env).envPageDirectory

/-- The virtual address of an element's page. -/
def elementVa (kernel : Kernel) (element : Nat) : Nat := (kernel.elements element).virtualAddress

/-- `pt_get_page_permissions`, whose -1 has all bits set. -/
def pagePermissions (kernel : Kernel) (env va : Nat) : Perm :=
  (kernel.memory.ptGetPagePermissions (kernel.directory env) va).getD (BitVec.allOnes 12)

/-- `pt_set_page_permissions`. -/
def setPagePermissions (kernel : Kernel) (env va : Nat) (set clear : Perm) : Except Stop Kernel :=
  match kernel.memory.ptSetPagePermissions (kernel.directory env) va set clear with
  | none => .error .panic
  | some memory => .ok { kernel with memory := memory }

/-- `PERM_PRESENT` is set for a page. -/
def pagePresent (kernel : Kernel) (env va : Nat) : Bool :=
  match kernel.memory.entry (kernel.directory env) va with
  | none => false
  | some entry => entry.present

/-- `create_page_table`: a new table without entries. -/
def createPageTable (kernel : Kernel) (env va : Nat) : Kernel :=
  let directory := kernel.directory env
  { kernel with
    nextTable := kernel.nextTable + 1
    memory := { kernel.memory with
      directories := Function.update kernel.memory.directories directory
        (Function.update (kernel.memory.directories directory) (pdx va) (some kernel.nextTable))
      tables := fun slot => if slot.1 = kernel.nextTable then .zero else
        kernel.memory.tables slot } }

/-- `env_page_ws_list_create_element`. -/
def createElement (kernel : Kernel) (va : Nat) : Except Stop (Nat × Kernel) :=
  if va < userTop then
    .ok (kernel.nextElement,
      { kernel with
        elements := Function.update kernel.elements kernel.nextElement
          ⟨roundDown va pageSize, 0⟩
        nextElement := kernel.nextElement + 1 })
  else .error .panic

/-- `LIST_NEXT` of an element; the links of an element outside the list are `NULL`. -/
def listNext (list : List Nat) (element : Nat) : Option Nat :=
  (list.dropWhile (· ≠ element)).tail.head?

/-- `is_page_in_ws`. -/
def isPageInWs (kernel : Kernel) (list : List Nat) (pageVa : Nat) : Bool :=
  list.any fun element => kernel.elementVa element = pageVa

end Kernel

end FosKernel
