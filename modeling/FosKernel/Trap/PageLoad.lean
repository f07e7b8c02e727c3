import FosKernel.Trap.Eviction

/-!
# Loading a page

What the steps shared by placement and LRU replacement do with a page that is not
present: read it from the page file, leave the contents of its frame alone, or
reject it.
-/

namespace FosKernel

theorem pdx_roundDown (va : Nat) : pdx (roundDown va pageSize) = pdx va := by
  unfold pdx roundDown pageSize
  omega

theorem ptx_roundDown (va : Nat) : ptx (roundDown va pageSize) = ptx va := by
  unfold ptx roundDown pageSize
  omega

namespace Memory

/-- An address and its page have one entry. -/
theorem slot_roundDown (memory : Memory) (directory va : Nat) :
    memory.slot directory (roundDown va pageSize) = memory.slot directory va := by
  unfold slot getPageTable
  rw [pdx_roundDown, ptx_roundDown]

/-- An allocated frame has no references. -/
theorem allocateFrame_references {memory next : Memory} {frame : Nat}
    (allocated : memory.allocateFrame = some (frame, next)) :
    memory.freeFrameList.first = some frame ∧ (next.frames frame).references = 0 := by
  rw [allocateFrame] at allocated
  split at allocated
  · cases allocated
  · rename_i first listed
    obtain ⟨rfl, rfl⟩ := Prod.mk.inj (Option.some.inj allocated)
    refine ⟨listed, ?_⟩
    simp [initializeFrameInfo]

end Memory

theorem Env.diskFrame_roundDown (env : Env) (va : Nat) :
    env.diskFrame (roundDown va pageSize) = env.diskFrame va := by
  unfold diskFrame
  rw [pdx_roundDown, ptx_roundDown]

namespace Kernel

variable {kernel : Kernel} {env va frame : Nat} {perm : Perm} {slot : Slot} {taken : Memory}

theorem pagePresent_eq (located : kernel.memory.slot (kernel.directory env) va = some slot) :
    kernel.pagePresent env va = (kernel.memory.tables slot).present := by
  simp only [pagePresent, Memory.entry_eq located]

theorem pagePermissions_eq (located : kernel.memory.slot (kernel.directory env) va = some slot) :
    kernel.pagePermissions env va = (kernel.memory.tables slot).perm := by
  simp only [pagePermissions, Memory.ptGetPagePermissions, Memory.entry_eq located, Option.map_some,
    Option.getD_some]

theorem setPagePermissions_eq (kernel : Kernel)
    (located : kernel.memory.slot (kernel.directory env) va = some slot) (set clear : Perm) :
    kernel.setPagePermissions env va set clear = .ok { kernel with
      memory := kernel.memory.setEntry slot ((kernel.memory.tables slot).setPerms set clear) } := by
  simp only [setPagePermissions, Memory.ptSetPagePermissions, located]

theorem setPagePermissions_of_missing (kernel : Kernel)
    (missing : kernel.memory.slot (kernel.directory env) va = none) (set clear : Perm) :
    kernel.setPagePermissions env va set clear = .error .panic := by
  simp only [setPagePermissions, Memory.ptSetPagePermissions, missing]

theorem setEntry_pagePresent (located : kernel.memory.slot (kernel.directory env) va = some slot)
    (entry : PageTableEntry) :
    ({ kernel with memory := kernel.memory.setEntry slot entry } : Kernel).pagePresent env va =
      entry.present := by
  have located' : ({ kernel with memory := kernel.memory.setEntry slot entry } : Kernel).memory.slot
      (kernel.directory env) va = some slot := located
  rw [pagePresent_eq located']
  exact congrArg PageTableEntry.present (Function.update_self ..)

/-- A present page of the page file is read into its frame and is then not modified. -/
theorem pfReadEnvPage_of_stored (kernel : Kernel)
    (located : kernel.memory.slot (kernel.directory env) va = some slot)
    (present : (kernel.memory.tables slot).present = true)
    (stored : (kernel.envs env).diskFrame va ≠ 0) :
    kernel.pfReadEnvPage env va = .ok (true, { kernel with
      memory := ({ kernel.memory with
        bytes := Function.update kernel.memory.bytes (kernel.memory.tables slot).frame
          (kernel.disk.frames ((kernel.envs env).diskFrame va)) } : Memory).setEntry slot
            ((kernel.memory.tables slot).setPerms 0 permModified) }) := by
  have located' : kernel.memory.slot (kernel.directory env) (roundDown va pageSize) =
      some slot := by
    rw [Memory.slot_roundDown, located]
  have translated : kernel.memory.translate (kernel.directory env) (roundDown va pageSize) =
      some ((kernel.memory.tables slot).frame, pgoff (roundDown va pageSize)) := by
    simp only [Memory.translate, Memory.entry_eq located', present, ↓reduceIte]
  simp only [pfReadEnvPage, Env.diskFrame_roundDown, stored, ↓reduceIte, translated]
  generalize Function.update kernel.memory.bytes _ _ = bytes
  rw [setPagePermissions_eq { kernel with memory := { kernel.memory with bytes := bytes } }
    located']
  rfl

/-- A page that is not in the page file is not read. -/
theorem pfReadEnvPage_of_unstored (unstored : (kernel.envs env).diskFrame va = 0)
    (memory : Memory) : ({ kernel with memory := memory } : Kernel).pfReadEnvPage env va =
      .ok (false, { kernel with memory := memory }) := by
  simp only [pfReadEnvPage, Env.diskFrame_roundDown, unstored, ↓reduceIte]

/-- The entry of a page that was not present, after a frame was mapped there. -/
def installedEntry (kernel : Kernel) (slot : Slot) (frame : Nat) (perm : Perm) : PageTableEntry :=
  ⟨frame, (kernel.memory.tables slot).perm &&& permAvailable ||| perm ||| permPresent⟩

theorem installedEntry_present (kernel : Kernel) (slot : Slot) (frame : Nat) (perm : Perm) :
    (kernel.installedEntry slot frame perm).present = true := by
  rw [PageTableEntry.present, installedEntry, Perm.has_or,
    show Perm.has permPresent permPresent = true by decide, Bool.or_true]

/-- A page that is not present, and the frame that is allocated for it. -/
structure Fetch (kernel : Kernel) (env va : Nat) (slot : Slot) (frame : Nat) (taken : Memory) :
    Prop where
  located : kernel.memory.slot (kernel.directory env) va = some slot
  absent : (kernel.memory.tables slot).present = false
  allocated : kernel.memory.allocateFrame = some (frame, taken)

namespace Fetch

variable (fetch : Fetch kernel env va slot frame taken) (perm : Perm)

include fetch

theorem installed_tables : (taken.installFrame slot frame va perm).tables =
    Function.update kernel.memory.tables slot (kernel.installedEntry slot frame perm) := by
  obtain ⟨tables, -, -⟩ := Memory.allocateFrame_spec fetch.allocated
  rw [Memory.installFrame_tables, tables]
  rfl

theorem installed_entry : (taken.installFrame slot frame va perm).tables slot =
    kernel.installedEntry slot frame perm := by
  rw [fetch.installed_tables, Function.update_self]

theorem installed_slot : (taken.installFrame slot frame va perm).slot (kernel.directory env) va =
    some slot := by
  obtain ⟨-, directories, -⟩ := Memory.allocateFrame_spec fetch.allocated
  rw [← fetch.located]
  exact Memory.slot_congr directories ..

theorem installed_bytes :
    (taken.installFrame slot frame va perm).bytes = kernel.memory.bytes := by
  obtain ⟨-, -, bytes⟩ := Memory.allocateFrame_spec fetch.allocated
  exact bytes

theorem mapFrame_eq : taken.mapFrame (kernel.directory env) frame va perm =
    some (taken.installFrame slot frame va perm) := by
  obtain ⟨tables, directories, -⟩ := Memory.allocateFrame_spec fetch.allocated
  apply Memory.mapFrame_of_not_present
  · rw [Memory.slot_congr directories, fetch.located]
  · rw [tables, fetch.absent]

/-- The steps of the load up to the read from the page file. -/
theorem loadPage_eq : kernel.loadPage env va perm =
    (do
      let (found, kernel) ← ({ kernel with
        memory := taken.installFrame slot frame va perm } : Kernel).pfReadEnvPage env va
      if found ∨ inHeapOrStack va then return kernel
      else
        let memory := kernel.memory.unmapFrame (kernel.directory env) va
        let memory := memory.freeFrame frame
        throw (.envExit { kernel with memory := memory })) := by
  simp only [loadPage, fetch.allocated, fetch.mapFrame_eq perm]

theorem installed_present :
    ({ kernel with memory := taken.installFrame slot frame va perm } : Kernel).pagePresent env va =
      true := by
  rw [pagePresent_eq (fetch.installed_slot perm), fetch.installed_entry]
  exact installedEntry_present ..

/-- The memory after the frame was filled from the page file. -/
def filled (_ : Fetch kernel env va slot frame taken) (perm : Perm) : Memory :=
  ({ taken.installFrame slot frame va perm with
    bytes := Function.update kernel.memory.bytes frame
      (kernel.disk.frames ((kernel.envs env).diskFrame va)) } : Memory).setEntry slot
        ((kernel.installedEntry slot frame perm).setPerms 0 permModified)

theorem filled_tables : (fetch.filled perm).tables = Function.update kernel.memory.tables slot
    ((kernel.installedEntry slot frame perm).setPerms 0 permModified) := by
  rw [filled, Memory.setEntry_tables]
  change Function.update (taken.installFrame slot frame va perm).tables slot _ = _
  rw [fetch.installed_tables, Function.update_idem]

theorem filled_present :
    ({ kernel with memory := fetch.filled perm } : Kernel).pagePresent env va = true := by
  rw [pagePresent_eq (fetch.installed_slot perm)]
  refine (congrArg PageTableEntry.present (Function.update_self ..)).trans ?_
  rw [PageTableEntry.present, PageTableEntry.setPerms_has _ (by decide) (by decide)]
  exact installedEntry_present ..

/-- A page of the page file is read into its new frame. -/
theorem pfReadEnvPage_of_stored (stored : (kernel.envs env).diskFrame va ≠ 0) :
    ({ kernel with memory := taken.installFrame slot frame va perm } : Kernel).pfReadEnvPage
      env va =
      .ok (true, { kernel with memory := fetch.filled perm }) := by
  have read := Kernel.pfReadEnvPage_of_stored
    { kernel with memory := taken.installFrame slot frame va perm }
    (fetch.installed_slot perm) (by
      rw [fetch.installed_entry]
      exact installedEntry_present ..) stored
  rw [fetch.installed_entry, fetch.installed_bytes] at read
  exact read

/-- Loading a page of the page file. -/
theorem loadPage_of_stored (stored : (kernel.envs env).diskFrame va ≠ 0) :
    kernel.loadPage env va perm = .ok { kernel with memory := fetch.filled perm } := by
  rw [fetch.loadPage_eq, fetch.pfReadEnvPage_of_stored perm stored]
  rfl

/-- Loading a page of the heap or the stack that is not in the page file. -/
theorem loadPage_of_unstored (unstored : (kernel.envs env).diskFrame va = 0)
    (inside : inHeapOrStack va = true) : kernel.loadPage env va perm =
      .ok { kernel with memory := taken.installFrame slot frame va perm } := by
  rw [fetch.loadPage_eq, Kernel.pfReadEnvPage_of_unstored unstored]
  change (if false = true ∨ inHeapOrStack va = true then _ else _) = _
  rw [if_pos (.inr inside)]
  rfl

/-- Rejecting a page: its frame is unmapped and freed. -/
theorem loadPage_of_illegal (unstored : (kernel.envs env).diskFrame va = 0)
    (outside : inHeapOrStack va = false) : kernel.loadPage env va perm =
      .error (.envExit { kernel with
        memory := ((taken.installFrame slot frame va perm).unmapFrame
          (kernel.directory env) va).freeFrame
          frame }) := by
  rw [fetch.loadPage_eq, Kernel.pfReadEnvPage_of_unstored unstored]
  change (if false = true ∨ inHeapOrStack va = true then _ else _) = _
  rw [if_neg (by simp [outside])]
  rfl

/-- Unmapping the frame of a rejected page frees it a first time. -/
theorem unmapFrame_installed :
    (taken.installFrame slot frame va perm).unmapFrame (kernel.directory env) va =
      ((taken.installFrame slot frame va perm).freeFrame frame).setEntry slot
        (kernel.installedEntry slot frame perm).unmapped := by
  have entry := fetch.installed_entry perm
  have held := PageTableEntry.holdsFrame_of_present
    (kernel.installedEntry_present slot frame perm)
  rw [Memory.unmapFrame_of_holdsFrame (fetch.installed_slot perm) (by rwa [entry]), entry]
  congr 1
  apply Memory.decrementReferences_of_one
  have unreferenced := (Memory.allocateFrame_references fetch.allocated).2
  rw [Memory.installFrame_references]
  simp [installedEntry, unreferenced, succ16]

/-- A rejected page is not present. -/
theorem rejected_tables : (((taken.installFrame slot frame va perm).unmapFrame
      (kernel.directory env) va).freeFrame frame).tables =
    Function.update kernel.memory.tables slot (kernel.installedEntry slot frame perm).unmapped := by
  rw [fetch.unmapFrame_installed, Memory.freeFrame_tables, Memory.setEntry_tables,
    Memory.freeFrame_tables, fetch.installed_tables, Function.update_idem]

end Fetch

theorem loadPage_of_not_located (missing : kernel.memory.slot (kernel.directory env) va = none)
    (perm : Perm) : kernel.loadPage env va perm = .error .outOfMemory ∨
      kernel.loadPage env va perm = .error .panic := by
  unfold loadPage
  split
  · exact .inl rfl
  · rename_i frame taken allocated
    obtain ⟨-, directories, -⟩ := Memory.allocateFrame_spec allocated
    right
    simp only [Memory.mapFrame, Memory.slot_congr directories, missing]

theorem loadPage_of_exhausted (exhausted : kernel.memory.allocateFrame = none) (perm : Perm) :
    kernel.loadPage env va perm = .error .outOfMemory := by
  unfold loadPage
  rw [exhausted]

/-- The state at the rejection of a fault: no more pages are present, and the first free frame
is its own successor. -/
structure Rejected (kernel stopped : Kernel) : Prop where
  withdraws : Withdraws kernel stopped
  looped : ∃ frame, stopped.memory.freeFrameList.first = some frame ∧
    stopped.memory.freeFrameList.next frame = some frame

/-- A fault that ends the environment was rejected. -/
def RejectedBy (kernel : Kernel) (halt : Stop) : Prop :=
  ∀ stopped, halt = .envExit stopped → Rejected kernel stopped

theorem RejectedBy.of_unrejected {halt : Stop} (unrejected : halt.Unrejected) :
    kernel.RejectedBy halt := by
  intro stopped same
  subst same
  exact unrejected.elim

theorem Fetch.rejected (fetch : Fetch kernel env va slot frame taken) (perm : Perm) :
    Rejected kernel { kernel with
      memory := ((taken.installFrame slot frame va perm).unmapFrame
        (kernel.directory env) va).freeFrame
        frame } where
  withdraws := by
    obtain ⟨-, directories, -⟩ := Memory.allocateFrame_spec fetch.allocated
    refine .of_memory (by simpa using directories) fun other present => ?_
    rw [fetch.rejected_tables] at present
    by_cases same : other = slot
    · subst same
      rw [Function.update_self, PageTableEntry.unmapped_not_present] at present
      exact absurd present Bool.false_ne_true
    · rwa [Function.update_of_ne same] at present
  looped := by
    refine ⟨frame, Memory.freeFrame_first _ frame, ?_⟩
    rw [fetch.unmapFrame_installed]
    exact Memory.freeFrame_of_first _ (Memory.freeFrame_first _ frame)

/-- Loading a page that is not present makes it present or rejects it. -/
theorem loadPage_ends (perm : Perm) (absent : kernel.pagePresent env va = false) :
    Ends (kernel.loadPage env va perm)
      (fun after => after.pagePresent env va = true ∧ Settles kernel after)
      kernel.RejectedBy := by
  cases located : kernel.memory.slot (kernel.directory env) va with
  | none =>
      rcases loadPage_of_not_located located perm with ended | ended
      · rw [ended]
        exact .error (RejectedBy.of_unrejected trivial)
      · rw [ended]
        exact .error (RejectedBy.of_unrejected trivial)
  | some slot =>
      rw [pagePresent_eq located] at absent
      cases allocated : kernel.memory.allocateFrame with
      | none =>
          rw [loadPage_of_exhausted allocated]
          exact .error (RejectedBy.of_unrejected trivial)
      | some result =>
          obtain ⟨frame, taken⟩ := result
          have fetch : Fetch kernel env va slot frame taken := ⟨located, absent, allocated⟩
          obtain ⟨-, directories, -⟩ := Memory.allocateFrame_spec allocated
          by_cases unstored : (kernel.envs env).diskFrame va = 0
          · cases inside : inHeapOrStack va with
            | true =>
                rw [fetch.loadPage_of_unstored perm unstored inside]
                exact .ok ⟨fetch.installed_present perm, .of_memory directories⟩
            | false =>
                rw [fetch.loadPage_of_illegal perm unstored inside]
                refine .error fun stopped same => ?_
                obtain rfl := Stop.envExit.inj same
                exact fetch.rejected perm
          · rw [fetch.loadPage_of_stored perm unstored]
            exact .ok ⟨fetch.filled_present perm, .of_memory directories⟩

end Kernel

end FosKernel
