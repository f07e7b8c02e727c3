import FosKernel.Proc.Kernel

/-!
# The page file

`pf_read_env_page` and `pf_update_env_page` of `pagefile_manager.c` with the
functions they call. The disk driver reads and writes whole pages faithfully.
The counters of pages in, out and added have no reader here.
-/

namespace FosKernel

/-- The address lies in the user heap or the user stack. -/
def inHeapOrStack (va : Nat) : Bool :=
  (userHeapStart ≤ va ∧ va < userHeapMax) ∨ (uStackBottom ≤ va ∧ va < uStackTop)

/-- `allocate_disk_frame`, or `none` for `E_NO_PAGE_FILE_SPACE`. -/
def Disk.allocateDiskFrame (disk : Disk) : Option (Nat × Disk) :=
  match disk.freeFrameList.first with
  | none => none
  | some dfn =>
      some (dfn, { disk with freeFrameList := (disk.freeFrameList.remove dfn).clearLinks dfn })

/-- The entry of a page in the disk tables of an environment: 0 without a disk directory or
table. -/
def Env.diskFrame (env : Env) (va : Nat) : Nat :=
  match env.diskEnvPgdir with
  | none => 0
  | some tables =>
      match tables (pdx va) with
      | none => 0
      | some table => table (ptx va)

theorem Env.diskFrame_congr {old new : Env} (same : new.diskEnvPgdir = old.diskEnvPgdir)
    (va : Nat) : new.diskFrame va = old.diskFrame va := by
  unfold diskFrame
  rw [same]

/-- Store a disk frame number in the disk tables, which are created where they do not exist. -/
def Env.setDiskFrame (env : Env) (va dfn : Nat) : Env :=
  let tables := env.diskEnvPgdir.getD fun _ => none
  let table := (tables (pdx va)).getD fun _ => 0
  { env with
    diskEnvPgdir := some
      (Function.update tables (pdx va) (some (Function.update table (ptx va) dfn))) }

namespace Kernel

/-- `pf_add_empty_env_page` without initialization. -/
def pfAddEmptyEnvPage (kernel : Kernel) (env va : Nat) : Except Stop Kernel :=
  if kernelBase ≤ va then .error .panic
  else if (kernel.envs env).diskFrame va = 0 then
    match kernel.disk.allocateDiskFrame with
    | none => .error .outOfPageFile
    | some (dfn, disk) =>
        .ok ({ kernel with disk := disk }.setEnv env ((kernel.envs env).setDiskFrame va dfn))
  else .ok kernel

/-- The end of `pf_update_env_page`: write the page to its disk frame through its own mapping,
made present for the time of the write, and clear the modified bit. -/
def writeDiskPage (kernel : Kernel) (env va : Nat) : Except Stop Kernel :=
  let dfn := (kernel.envs env).diskFrame va
  match kernel.memory.slot (kernel.directory env) va with
  | none => .error .nullPointer
  | some slot =>
      let entry := kernel.memory.tables slot
      .ok { kernel with
        disk := { kernel.disk with
          frames := Function.update kernel.disk.frames dfn (kernel.memory.bytes entry.frame) }
        memory := kernel.memory.setEntry slot (entry.setPerms 0 permModified) }

/-- `pf_update_env_page`. -/
def pfUpdateEnvPage (kernel : Kernel) (env va : Nat) : Except Stop Kernel :=
  if kernelBase ≤ va then .error .panic
  else if (kernel.envs env).diskFrame va = 0 then
    if inHeapOrStack va then do
      let kernel ← kernel.pfAddEmptyEnvPage env va
      kernel.writeDiskPage env va
    else .error .panic
  else kernel.writeDiskPage env va

/-- `pf_read_env_page`, with `false` for `E_PAGE_NOT_EXIST_IN_PF`. -/
def pfReadEnvPage (kernel : Kernel) (env va : Nat) : Except Stop (Bool × Kernel) :=
  let va := roundDown va pageSize
  let dfn := (kernel.envs env).diskFrame va
  if dfn = 0 then .ok (false, kernel)
  else
    match kernel.memory.translate (kernel.directory env) va with
    | none => .error .panic
    | some (frame, _) => do
        let memory := { kernel.memory with
          bytes := Function.update kernel.memory.bytes frame (kernel.disk.frames dfn) }
        let kernel ← { kernel with memory := memory }.setPagePermissions env va 0 permModified
        return (true, kernel)

end Kernel

end FosKernel
