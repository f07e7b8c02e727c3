import FosKernel.Disk.PageFile

/-!
# The page file manager

`initialize_disk_page_file`, `free_disk_frame`, `pf_add_empty_env_page`,
`pf_add_env_page`, `pf_remove_env_page` and `pf_free_env` of `pagefile_manager.c`.
The table directory, which nothing creates, and the counters of pages added are left
out. `kmalloc` of a disk directory or table succeeds.
-/

namespace FosKernel

/-- `initialize_disk_page_file`: all disk frames but 0 are free. -/
def initializeDiskPageFile (pages : Nat) : IntrusiveList Nat :=
  (List.range' 1 (pages - 1)).foldl IntrusiveList.insertHead
    ⟨none, none, 0, fun _ => none, fun _ => none⟩

/-- `free_disk_frame`. -/
def Disk.freeDiskFrame (disk : Disk) (dfn : Nat) : Disk :=
  if dfn = 0 then disk else { disk with freeFrameList := disk.freeFrameList.insertHead dfn }

/-- The loop of `pf_free_env` over the entries of a disk table, where there is one. -/
def Disk.freeDiskTable (disk : Disk) (table : Option (Nat → Nat)) : Disk :=
  match table with
  | none => disk
  | some pt => (List.range 1024).foldl (fun disk pteno => disk.freeDiskFrame (pt pteno)) disk

/-- `get_disk_page_directory` and `get_disk_page_table`, which create the disk directory and the
disk table of a page where they do not exist. -/
def Env.createDiskTable (env : Env) (va : Nat) : Env :=
  let tables := env.diskEnvPgdir.getD fun _ => none
  let table := (tables (pdx va)).getD fun _ => 0
  { env with diskEnvPgdir := some (Function.update tables (pdx va) (some table)) }

/-- Creating a table changes no entry. -/
theorem Env.diskFrame_createDiskTable (env : Env) (va page : Nat) :
    (env.createDiskTable va).diskFrame page = env.diskFrame page := by
  unfold createDiskTable diskFrame
  dsimp only
  by_cases region : pdx page = pdx va
  · rw [region, Function.update_self]
    cases env.diskEnvPgdir with
    | none => rfl
    | some tables =>
        dsimp only [Option.getD_some]
        cases tables (pdx va) <;> rfl
  · rw [Function.update_of_ne region]
    cases env.diskEnvPgdir with
    | none => rfl
    | some tables => rfl

/-- A table that has an entry exists. -/
theorem Env.createDiskTable_eq {env : Env} {va : Nat} (stored : env.diskFrame va ≠ 0) :
    env.createDiskTable va = env := by
  unfold diskFrame at stored
  unfold createDiskTable
  cases directory : env.diskEnvPgdir with
  | none =>
      rw [directory] at stored
      exact absurd rfl stored
  | some tables =>
      rw [directory] at stored
      cases table : tables (pdx va) with
      | none =>
          simp only [table] at stored
          exact absurd rfl stored
      | some entries =>
          dsimp only [Option.getD_some]
          rw [table, Option.getD_some, ← table, Function.update_eq_self, ← directory]

theorem Env.setDiskFrame_createDiskTable (env : Env) (va dfn : Nat) :
    (env.createDiskTable va).setDiskFrame va dfn = env.setDiskFrame va dfn := by
  simp [createDiskTable, setDiskFrame]

namespace Kernel

/-- The common part of `pf_add_empty_env_page` and `pf_add_env_page`: a page without a disk frame
takes one. The result is `false` for `E_NO_PAGE_FILE_SPACE`. -/
def addDiskFrame (kernel : Kernel) (env va : Nat) : Except Stop (Bool × Kernel) :=
  if kernelBase ≤ va then .error .panic
  else
    let kernel := kernel.setEnv env ((kernel.envs env).createDiskTable va)
    if (kernel.envs env).diskFrame va = 0 then
      match kernel.disk.allocateDiskFrame with
      | none => .ok (false, kernel)
      | some (dfn, disk) =>
          .ok (true, { kernel with disk := disk }.setEnv env
            ((kernel.envs env).setDiskFrame va dfn))
    else .ok (true, kernel)

/-- `pf_add_env_page` with the page at the source address. -/
def pfAddEnvPage (kernel : Kernel) (env va : Nat) (dataSrc : Nat → UInt8) :
    Except Stop (Bool × Kernel) := do
  let (added, kernel) ← kernel.addDiskFrame env va
  if added then
    let dfn := (kernel.envs env).diskFrame va
    return (true, { kernel with
      disk := { kernel.disk with frames := Function.update kernel.disk.frames dfn dataSrc } })
  else return (false, kernel)

/-- `pf_add_empty_env_page` with both values of its last argument. -/
def pfAddEmptyEnvPageWith (kernel : Kernel) (env va : Nat) (initializeByZero : Bool) :
    Except Stop (Bool × Kernel) :=
  if initializeByZero then kernel.pfAddEnvPage env va fun _ => 0 else kernel.addDiskFrame env va

/-- `pf_remove_env_page`. -/
def pfRemoveEnvPage (kernel : Kernel) (env va : Nat) : Kernel :=
  match (kernel.envs env).diskEnvPgdir with
  | none => kernel
  | some tables =>
      match tables (pdx va) with
      | none => kernel
      | some table =>
          let dfn := table (ptx va)
          { kernel with disk := kernel.disk.freeDiskFrame dfn }.setEnv env
            ((kernel.envs env).setDiskFrame va 0)

/-- `pf_free_env`. The entries of the tables are reset, and the tables are freed with the
directory. -/
def pfFreeEnv (kernel : Kernel) (env : Nat) : Except Stop Kernel :=
  match (kernel.envs env).diskEnvPgdir with
  | none => .error .nullPointer
  | some tables =>
      let disk := (List.range (pdx userTop)).foldl
        (fun disk pdeno => disk.freeDiskTable (tables pdeno)) kernel.disk
      .ok ({ kernel with disk := disk }.setEnv env
        { kernel.envs env with diskEnvPgdir := none })

/-- Without initialization and with space on the disk, a page takes a disk frame as it does on the
way through `pf_update_env_page`. -/
theorem pfAddEmptyEnvPage_eq_with (kernel : Kernel) (env va : Nat) :
    kernel.pfAddEmptyEnvPage env va =
    (do
      let (added, kernel) ← kernel.pfAddEmptyEnvPageWith env va false
      if added then return kernel else throw .outOfPageFile) := by
  unfold pfAddEmptyEnvPage pfAddEmptyEnvPageWith addDiskFrame
  rw [if_neg Bool.false_ne_true]
  split
  · rfl
  have self : (kernel.setEnv env ((kernel.envs env).createDiskTable va)).envs env =
      (kernel.envs env).createDiskTable va := Function.update_self ..
  dsimp only
  rw [self, Env.diskFrame_createDiskTable]
  by_cases unstored : (kernel.envs env).diskFrame va = 0
  · rw [if_pos unstored, if_pos unstored]
    change _ = (match kernel.disk.allocateDiskFrame with
      | none => _
      | some (dfn, disk) => _ : Except Stop (Bool × Kernel)) >>= _
    cases kernel.disk.allocateDiskFrame with
    | none => rfl
    | some result =>
        obtain ⟨dfn, disk⟩ := result
        dsimp only
        rw [Env.setDiskFrame_createDiskTable]
        simp only [setEnv, Function.update_idem]
        rfl
  · rw [if_neg unstored, if_neg unstored, Env.createDiskTable_eq unstored]
    simp only [setEnv, Function.update_eq_self]
    rfl

end Kernel

end FosKernel
