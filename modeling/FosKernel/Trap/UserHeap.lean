import FosKernel.Disk.PageFileManager
import FosKernel.Trap.UserAccess
import FosKernel.Trap.WorkingSetRuns

/-!
# The user heap's system calls

`sys_allocate_user_mem` and `sys_free_user_mem` of `syscall.c` with the functions
they call in `chunk_operations.c` and `working_set_manager.c`, and the page faults
of a process. The kernel itself faults when it reads a page of the page file into an
absent user page. Each fault that `fault_handler` gets is recorded.

The two lists that `env_page_ws_invalidate` searches under the LRU lists approximation,
which the fault handler never fills, are left out.
-/

namespace FosKernel

/-- The addresses of the loops over a chunk of user memory. -/
def chunkPages (va size : Nat) : List Nat :=
  (List.range (((va + size) % 2 ^ 32 - va + (pageSize - 1)) / pageSize)).map
    fun index => va + index * pageSize

/-- What the system calls on the user heap reject. -/
def illegalChunk (va size : Nat) : Bool :=
  let stop := (va + size) % 2 ^ 32
  va = 0 ∨ userHeapMax ≤ va ∨ va < userHeapStart ∨ userHeapMax ≤ stop ∨
    stop < userHeapStart

namespace Kernel

/-- `allocate_user_mem`. The condition on the address in the source is always true. -/
def allocateUserMem (kernel : Kernel) (env va size : Nat) : Except Stop Kernel :=
  if size = 0 then .ok kernel
  else
    (chunkPages va size).foldlM
      (fun kernel curr =>
        let kernel :=
          match kernel.memory.getPageTable (kernel.directory env) curr with
          | none => kernel.createPageTable env curr
          | some _ => kernel
        kernel.setPagePermissions env curr permUHPage permPresent)
      kernel

/-- `sys_allocate_user_mem`. -/
def sysAllocateUserMem (kernel : Kernel) (env va size : Nat) : Except Stop Kernel :=
  if illegalChunk va size then .error (.envExit kernel) else kernel.allocateUserMem env va size

/-- The part of the loop of `free_user_mem` that starts with the read of a page. -/
def dropUserPage (kernel : Kernel) (env curr : Nat) : Except Stop Kernel := do
  let (found, kernel) ← kernel.pfReadEnvPage env curr
  let kernel := if found then kernel.pfRemoveEnvPage env curr else kernel
  return if kernel.pageRepAlgoType = .lruListsApprox then kernel
    else kernel.envPageWsInvalidate env curr

/-- `fault_handler` for a fault of the kernel at a user address, which lies in no kernel stack and
not above the kernel heap. -/
def kernelFaultHandler (kernel : Kernel) (env va fuel : Nat) : Except Stop Kernel :=
  let repeated := kernel.lastFaultVa = va ∧ kernel.lastFaultedEnv = some env
  let numRepeatedFault := if repeated then kernel.numRepeatedFault + 1 else 0
  if repeated ∧ numRepeatedFault = 3 then .error .panic
  else
    let kernel := { kernel with
      numRepeatedFault := numRepeatedFault
      lastFaultVa := va
      lastFaultedEnv := some env }
    match kernel.memory.getPageTable (kernel.directory env) va with
    | none => .ok (kernel.createPageTable env va)
    | some _ =>
        if Perm.has (kernel.pagePermissions env va) permPresent then .error .panic
        else if kernel.enableBuffering then .error .panic
        else kernel.pageFaultHandler env va fuel

/-- The fault handler for both values of `userTrap`. -/
def faultHandlerFrom (userTrap : Bool) (kernel : Kernel) (env va fuel : Nat) : Except Stop Kernel :=
  if userTrap then kernel.faultHandler env va fuel else kernel.kernelFaultHandler env va fuel

instance (kernel : Kernel) (env va : Nat) : Decidable (kernel.RepeatedThrice env va) :=
  inferInstanceAs (Decidable (_ ∧ _ ∧ _))

end Kernel

/-- An environment and the address it faulted at. -/
abbrev FaultRecord := Nat × Nat

/-- A kernel and the faults that its handler got, the latest one first. -/
structure FaultLog where
  kernel : Kernel
  faults : List FaultRecord

/-- How a call of a process ends when it does not return: the handler panics because the same
address has faulted successively, or it stops for another reason. The faults are those that the
handler got. -/
inductive FaultHalt where
  | repeated (faults : List FaultRecord)
  | stopped (stop : Stop) (faults : List FaultRecord)

/-- What a process does: access a page, or call the kernel on its heap. Clock interrupts may come
between. -/
inductive UserCall where
  | access (va : Nat)
  | allocate (va size : Nat)
  | free (va size : Nat)
  | clockInterrupt

namespace FaultLog

/-- A call of the kernel without faults. -/
def lift (log : FaultLog) (call : Except Stop Kernel) : Except FaultHalt FaultLog :=
  match call with
  | .ok kernel => .ok { log with kernel := kernel }
  | .error stop => .error (.stopped stop log.faults)

/-- `trap_dispatch` for a page fault. -/
def fault (log : FaultLog) (userTrap : Bool) (env va fuel : Nat) : Except FaultHalt FaultLog := do
  let log ← log.lift (log.kernel.stampLru env)
  let handled := log.kernel.faultHandlerFrom userTrap env va fuel
  let faults := (env, va) :: log.faults
  match handled with
  | .ok kernel => return ⟨kernel, faults⟩
  | .error stop =>
      throw (if log.kernel.RepeatedThrice env va then .repeated faults else .stopped stop faults)

/-- The processor repeats an access until its page is present. -/
def touch (userTrap : Bool) (env va fuel : Nat) : Nat → FaultLog → Except FaultHalt FaultLog
  | 0, log => .error (.stopped .hang log.faults)
  | rounds + 1, log =>
      if log.kernel.pagePresent env va then .ok log
      else do
        let log ← log.fault userTrap env va fuel
        touch userTrap env va fuel rounds log

/-- A round of the loop of `free_user_mem`. -/
def freeUserPage (env fuel rounds : Nat) (log : FaultLog) (curr : Nat) :
    Except FaultHalt FaultLog := do
  let log ← log.lift (log.kernel.setPagePermissions env curr 0 permUHPage)
  let page := roundDown curr pageSize
  -- the disk driver writes a page of the page file through the user's mapping
  let log ←
    if (log.kernel.envs env).diskFrame page = 0 then .ok log
    else touch false env page fuel rounds log
  log.lift (log.kernel.dropUserPage env curr)

/-- `free_user_mem`. -/
def freeUserMem (log : FaultLog) (env fuel rounds va size : Nat) : Except FaultHalt FaultLog :=
  (chunkPages va size).foldlM (freeUserPage env fuel rounds) log

/-- `sys_free_user_mem`. -/
def sysFreeUserMem (log : FaultLog) (env fuel rounds va size : Nat) : Except FaultHalt FaultLog :=
  if illegalChunk va size then .error (.stopped (.envExit log.kernel) log.faults)
  else if log.kernel.enableBuffering then .error (.stopped .panic log.faults)
  else log.freeUserMem env fuel rounds va size

/-- One action of the process. -/
def call (env fuel rounds : Nat) (log : FaultLog) : UserCall → Except FaultHalt FaultLog
  | .access va => log.touch true env va fuel rounds
  | .allocate va size => log.lift (log.kernel.sysAllocateUserMem env va size)
  | .free va size => log.sysFreeUserMem env fuel rounds va size
  | .clockInterrupt => log.lift (log.kernel.stampLru env)

end FaultLog

end FosKernel
