import FosKernel.Trap.VictimSearch

/-!
# The working set

The invariant of an environment's working set: its pages are the present user
pages. What an eviction, a load and a new element do to it.
-/

namespace FosKernel

namespace Memory

/-- Reference counts and page-table entries are apart. -/
theorem decrementReferences_setEntry (memory : Memory) (frame : Nat) (slot : Slot)
    (entry : PageTableEntry) :
    (memory.setEntry slot entry).decrementReferences frame =
      (memory.decrementReferences frame).setEntry slot entry := by
  simp only [decrementReferences]
  split
  · rename_i last
    rw [if_pos (show pred16 (memory.frames frame).references = 0 from last)]
    rfl
  · rename_i more
    rw [if_neg (show ¬ pred16 (memory.frames frame).references = 0 from more)]
    rfl

/-- Unmapping a present page does not depend on its modified bit. -/
theorem unmapFrame_unmodified {memory : Memory} {directory va : Nat} {slot : Slot}
    (located : memory.slot directory va = some slot)
    (present : (memory.tables slot).present = true) :
    (memory.setEntry slot ((memory.tables slot).setPerms 0 permModified)).unmapFrame directory va =
      memory.unmapFrame directory va := by
  have kept : ((memory.tables slot).setPerms 0 permModified).present = true := by
    rw [PageTableEntry.present, PageTableEntry.setPerms_has _ (by decide) (by decide)]
    exact present
  have unmapped : ((memory.tables slot).setPerms 0 permModified).unmapped =
      (memory.tables slot).unmapped := by
    unfold PageTableEntry.unmapped
    rw [PageTableEntry.setPerms_clear_perm, BitVec.and_assoc,
      show ~~~permModified &&& permAvailable = permAvailable by decide]
  have entry : (memory.setEntry slot ((memory.tables slot).setPerms 0 permModified)).tables slot =
      (memory.tables slot).setPerms 0 permModified := Function.update_self ..
  rw [@unmapFrame_of_holdsFrame (memory.setEntry slot _) directory va slot located (by
      rw [entry]
      exact PageTableEntry.holdsFrame_of_present kept), entry, unmapped,
    unmapFrame_of_holdsFrame located (PageTableEntry.holdsFrame_of_present present),
    decrementReferences_setEntry]
  simp only [setEntry, Function.update_idem, PageTableEntry.setPerms_frame]

end Memory

theorem Env.diskFrame_setDiskFrame (env : Env) (va dfn : Nat) :
    (env.setDiskFrame va dfn).diskFrame va = dfn := by
  simp [Env.diskFrame, Env.setDiskFrame]

/-- Storing the disk frame of a page leaves the other pages alone. -/
theorem Env.diskFrame_setDiskFrame_of_ne (env : Env) (dfn : Nat) {va page : Nat}
    (different : roundDown va pageSize ≠ roundDown page pageSize) (bound : va < 2 ^ 32)
    (bound' : page < 2 ^ 32) : (env.setDiskFrame page dfn).diskFrame va = env.diskFrame va := by
  have places : pdx va = pdx page → ptx va ≠ ptx page := by
    intro regions indices
    apply different
    apply vpn_eq_iff.mp
    unfold pdx at regions
    unfold ptx at indices
    unfold vpn pageSize
    omega
  cases stored : env.diskEnvPgdir with
  | none =>
      by_cases region : pdx va = pdx page
      · simp [Env.diskFrame, Env.setDiskFrame, stored, region, places region]
      · simp [Env.diskFrame, Env.setDiskFrame, stored, region]
  | some tables =>
      by_cases region : pdx va = pdx page
      · cases table : tables (pdx page) with
        | none => simp [Env.diskFrame, Env.setDiskFrame, stored, region, table, places region]
        | some entries => simp [Env.diskFrame, Env.setDiskFrame, stored, region,
          table, places region]
      · simp [Env.diskFrame, Env.setDiskFrame, stored, region]

namespace Kernel

variable {kernel before after : Kernel} {env va page victim : Nat} {slot : Slot}

/-- Change the page file and the disk directory of an environment. -/
def withDisk (kernel : Kernel) (env : Nat) (disk : Disk)
    (directory : Option (Nat → Option (Nat → Nat))) : Kernel :=
  ({ kernel with disk := disk } : Kernel).setEnv env
    { kernel.envs env with diskEnvPgdir := directory }

/-- Change the working set of an environment. -/
def withList (kernel : Kernel) (env : Nat) (list : List Nat) : Kernel :=
  kernel.setEnv env { kernel.envs env with pageWsList := list }

/-- What the write-back of a page makes of the page file and of the disk directory: nothing when
the page is not modified, else a write to its disk frame, which is allocated for a page of the
heap or the stack that has none. -/
inductive WritesBack (kernel : Kernel) (env page : Nat) (slot : Slot) :
    Disk → Option (Nat → Option (Nat → Nat)) → Prop
  | clean (unmodified : Perm.has (kernel.memory.tables slot).perm permModified = false) :
      WritesBack kernel env page slot kernel.disk (kernel.envs env).diskEnvPgdir
  | update (modified : Perm.has (kernel.memory.tables slot).perm permModified = true)
      (stored : (kernel.envs env).diskFrame page ≠ 0) :
      WritesBack kernel env page slot
        { kernel.disk with
          frames := Function.update kernel.disk.frames ((kernel.envs env).diskFrame page)
            (kernel.memory.bytes (kernel.memory.tables slot).frame) }
        (kernel.envs env).diskEnvPgdir
  | add {dfn : Nat} {disk : Disk}
      (modified : Perm.has (kernel.memory.tables slot).perm permModified = true)
      (unstored : (kernel.envs env).diskFrame page = 0) (inside : inHeapOrStack page = true)
      (allocated : kernel.disk.allocateDiskFrame = some (dfn, disk)) :
      WritesBack kernel env page slot
        { disk with
          frames := Function.update disk.frames dfn
            (kernel.memory.bytes (kernel.memory.tables slot).frame) }
        ((kernel.envs env).setDiskFrame page dfn).diskEnvPgdir

section Fields

variable (kernel : Kernel) (env : Nat) (disk : Disk)
  (directory : Option (Nat → Option (Nat → Nat))) (list : List Nat)

@[simp] theorem withDisk_memory : (kernel.withDisk env disk directory).memory = kernel.memory := rfl

@[simp] theorem withDisk_disk : (kernel.withDisk env disk directory).disk = disk := rfl

@[simp] theorem withDisk_self : (kernel.withDisk env disk directory).envs env =
    { kernel.envs env with diskEnvPgdir := directory } :=
  Function.update_self ..

@[simp] theorem withDisk_directory (other : Nat) :
    (kernel.withDisk env disk directory).directory other = kernel.directory other :=
  kernel.setEnv_envs env { kernel.envs env with diskEnvPgdir := directory }
    (fun changed old => changed.envPageDirectory = old.envPageDirectory) rfl (fun _ => rfl) other

theorem withDisk_eq_self :
    kernel.withDisk env kernel.disk (kernel.envs env).diskEnvPgdir = kernel := by
  simp [withDisk, setEnv]

end Fields

theorem writeDiskPage_eq (kernel : Kernel)
    (located : kernel.memory.slot (kernel.directory env) va = some slot) :
    kernel.writeDiskPage env va = .ok { kernel with
      disk := { kernel.disk with
        frames := Function.update kernel.disk.frames ((kernel.envs env).diskFrame va)
          (kernel.memory.bytes (kernel.memory.tables slot).frame) }
      memory := kernel.memory.setEntry slot
        ((kernel.memory.tables slot).setPerms 0 permModified) } := by
  simp only [writeDiskPage, located]

/-- A page that the page file lacks gets a disk frame. -/
theorem pfAddEmptyEnvPage_eq (kernel : Kernel) {dfn : Nat} {disk : Disk} (user : va < kernelBase)
    (unstored : (kernel.envs env).diskFrame va = 0)
    (allocated : kernel.disk.allocateDiskFrame = some (dfn, disk)) :
    kernel.pfAddEmptyEnvPage env va =
      .ok (kernel.withDisk env disk ((kernel.envs env).setDiskFrame va dfn).diskEnvPgdir) := by
  simp only [pfAddEmptyEnvPage, Nat.not_le.mpr user, unstored, allocated, ↓reduceIte]
  rfl

/-- How an eviction stops: for lack of disk space, or because the modified page is in neither the
page file, the heap nor the stack. -/
def EvictStops (kernel : Kernel) (env page : Nat) (halt : Stop) : Prop :=
  halt = .outOfPageFile ∨
    halt = .panic ∧ (kernel.envs env).diskFrame page = 0 ∧ inHeapOrStack page = false

/-- The write-back of a page. -/
theorem writeBack_ends (kernel : Kernel) (env victim : Nat)
    (located : kernel.memory.slot (kernel.directory env) (kernel.elementVa victim) = some slot)
    (user : kernel.elementVa victim < kernelBase) :
    Ends (kernel.writeBack env victim)
      (fun after => ∃ disk directory memory,
        WritesBack kernel env (kernel.elementVa victim) slot disk directory ∧
        after = { kernel.withDisk env disk directory with memory := memory } ∧
        (memory = kernel.memory ∨ memory =
          kernel.memory.setEntry slot ((kernel.memory.tables slot).setPerms 0 permModified)))
      (kernel.EvictStops env (kernel.elementVa victim)) := by
  unfold writeBack
  dsimp only
  rw [pagePermissions_eq located]
  cases modified : Perm.has (kernel.memory.tables slot).perm permModified with
  | false =>
      refine .ok ⟨_, _, kernel.memory, .clean modified, ?_, .inl rfl⟩
      rw [withDisk_eq_self]
  | true =>
      rw [if_pos rfl, pfUpdateEnvPage, if_neg (Nat.not_le.mpr user)]
      by_cases unstored : (kernel.envs env).diskFrame (kernel.elementVa victim) = 0
      · rw [if_pos unstored]
        cases inside : inHeapOrStack (kernel.elementVa victim) with
        | false => exact .error (.inr ⟨rfl, unstored, inside⟩)
        | true =>
            cases allocated : kernel.disk.allocateDiskFrame with
            | none =>
                simp only [pfAddEmptyEnvPage, Nat.not_le.mpr user, unstored,
                  allocated, ↓reduceIte]
                exact .error (.inl rfl)
            | some result =>
                obtain ⟨dfn, disk⟩ := result
                rw [if_pos rfl, pfAddEmptyEnvPage_eq kernel user unstored allocated]
                generalize added : kernel.withDisk env disk ((kernel.envs env).setDiskFrame
                  (kernel.elementVa victim) dfn).diskEnvPgdir = stored
                have located' : stored.memory.slot (stored.directory env)
                  (kernel.elementVa victim) =
                    some slot := by
                  rw [← added, withDisk_directory]
                  exact located
                have dfnEq : (stored.envs env).diskFrame (kernel.elementVa victim) = dfn := by
                  rw [← added, withDisk_self]
                  exact Env.diskFrame_setDiskFrame ..
                change Ends (stored.writeDiskPage env (kernel.elementVa victim)) _ _
                rw [writeDiskPage_eq stored located', dfnEq, ← added]
                exact .ok ⟨_, _, _, .add modified unstored inside allocated, rfl, .inr rfl⟩
      · rw [if_neg unstored, writeDiskPage_eq kernel located]
        refine .ok ⟨_, _, _, .update modified unstored, ?_, .inr rfl⟩
        rw [withDisk, setEnv]
        simp

/-- An eviction writes a modified page back and unmaps it. -/
theorem evict_ends (kernel : Kernel) (env victim : Nat)
    (located : kernel.memory.slot (kernel.directory env) (kernel.elementVa victim) = some slot)
    (present : (kernel.memory.tables slot).present = true)
    (user : kernel.elementVa victim < kernelBase) :
    Ends (kernel.evict env victim)
      (fun after => ∃ disk directory,
        WritesBack kernel env (kernel.elementVa victim) slot disk directory ∧
        after = { kernel.withDisk env disk directory with
          memory := kernel.memory.unmapFrame (kernel.directory env) (kernel.elementVa victim) })
      (kernel.EvictStops env (kernel.elementVa victim)) := by
  unfold evict
  apply (writeBack_ends kernel env victim located user).bind
  rintro after ⟨disk, directory, memory, writes, rfl, same⟩
  refine .ok ⟨disk, directory, writes, ?_⟩
  have unmapped : memory.unmapFrame (kernel.directory env) (kernel.elementVa victim) =
      kernel.memory.unmapFrame (kernel.directory env) (kernel.elementVa victim) := by
    rcases same with rfl | rfl
    · rfl
    · exact Memory.unmapFrame_unmodified located present
  have directory' : ({ kernel.withDisk env disk directory with memory := memory } :
    Kernel).directory env =
      kernel.directory env := withDisk_directory ..
  rw [directory', ← unmapped]
  rfl

/-- Unmapping a present page changes the entry of no other page. -/
theorem unmapFrame_pageEntry (separate : kernel.SeparateTables env) (start : IsUserPage page)
    (present : kernel.pagePresent env page = true)
    (memory : after.memory = kernel.memory.unmapFrame (kernel.directory env) page)
    (directory : after.directory env = kernel.directory env) (bound : va < 2 ^ 32) :
    after.pageEntry env va = if roundDown va pageSize = page then
      (kernel.pageEntry env page).unmapped else kernel.pageEntry env va := by
  obtain ⟨slot, located⟩ := exists_slot present
  have here := pageEntry_eq located
  have holds : (kernel.memory.tables slot).holdsFrame = true :=
    PageTableEntry.holdsFrame_of_present (by rwa [← here, pageEntry_present])
  have directories : after.memory.directories = kernel.memory.directories := by
    rw [memory, Memory.unmapFrame_directories]
  have tables : after.memory.tables = Function.update kernel.memory.tables slot
      (kernel.pageEntry env page).unmapped := by
    rw [memory, Memory.unmapFrame_tables located, if_pos holds, here]
  rw [pageEntry_update separate directories directory located tables start.lt bound,
    start.roundDown_eq]

namespace Mapped

variable {pages rest free : List Nat} {frame : Nat} {entry : PageTableEntry}

/-- Unmapping a page changes its own entry only. -/
theorem unmap_pageEntry (mapped : Mapped kernel env pages free) (member : page ∈ pages)
    (memory : after.memory = kernel.memory.unmapFrame (kernel.directory env) page)
    (directory : after.directory env = kernel.directory env) (user : va < userTop) :
    after.pageEntry env va = if roundDown va pageSize = page then
      (kernel.pageEntry env page).unmapped else kernel.pageEntry env va := by
  have start := mapped.user page member
  have present : kernel.pagePresent env page = true :=
    (mapped.present page start.2).mpr (by rwa [start.roundDown_eq])
  exact unmapFrame_pageEntry mapped.separate start present memory directory
    (Nat.lt_trans user (by decide))

/-- Unmapping a page takes it out; its frame may become free. -/
theorem unmap (mapped : Mapped kernel env pages free) (member : page ∈ pages)
    (memory : after.memory = kernel.memory.unmapFrame (kernel.directory env) page)
    (directory : after.directory env = kernel.directory env) (nodup : rest.Nodup)
    (others : ∀ other, other ∈ rest ↔ other ∈ pages ∧ other ≠ page) :
    ∃ free', Mapped after env rest free' ∧
      (free' = (kernel.pageEntry env page).frame :: free ∨ free' = free) := by
  have user := mapped.user page member
  have present : kernel.pagePresent env page = true :=
    (mapped.present page user.2).mpr (by rwa [user.roundDown_eq])
  obtain ⟨slot, located⟩ := exists_slot present
  have here := pageEntry_eq located
  have holds : (kernel.memory.tables slot).holdsFrame = true :=
    PageTableEntry.holdsFrame_of_present (by rwa [← here, pageEntry_present])
  have entries := fun va (below : va < userTop) =>
    mapped.unmap_pageEntry member memory directory below
  rw [Memory.unmapFrame_of_holdsFrame located holds, ← here] at memory
  have kept : ∀ other ∈ rest, other ∈ pages ∧
      after.pageEntry env other = kernel.pageEntry env other := by
    intro other inside
    obtain ⟨old, different⟩ := (others other).mp inside
    have user' := mapped.user other old
    refine ⟨old, ?_⟩
    rw [entries other user'.2, user'.roundDown_eq, if_neg different]
  obtain ⟨free', represents, freed⟩ :=
    Memory.decrementReferences_represents mapped.represents (mapped.apart page member)
  refine ⟨free', ?_, freed⟩
  exact {
    separate := by
      unfold SeparateTables
      rw [directory, memory, Memory.setEntry_directories, Memory.decrementReferences_directories]
      exact mapped.separate
    nodup := nodup
    user := fun other inside => mapped.user other (kept other inside).1
    present := by
      intro va below
      rw [← pageEntry_present, entries va below, others]
      by_cases same : roundDown va pageSize = page
      · simp [same]
      · rw [if_neg same, pageEntry_present, mapped.present va below]
        simp [same]
    owns := by
      intro other inside other' inside' same
      rw [(kept other inside).2, (kept other' inside').2] at same
      exact mapped.owns other (kept other inside).1 other' (kept other' inside').1 same
    represents := by
      rw [memory, Memory.setEntry_freeFrameList]
      exact represents
    apart := by
      intro other inside
      rw [(kept other inside).2]
      obtain ⟨old, different⟩ := (others other).mp inside
      have apart := mapped.apart other old
      rcases freed with rfl | rfl
      · rw [List.mem_cons, not_or]
        exact ⟨fun same => different (mapped.owns other old page member same), apart⟩
      · exact apart }

/-- Mapping the first free frame at a page that was not present adds the page. -/
theorem load (mapped : Mapped kernel env pages (frame :: free)) (user : va < userTop)
    (located : kernel.memory.slot (kernel.directory env) va = some slot)
    (absent : kernel.pagePresent env va = false)
    (directories : after.memory.directories = kernel.memory.directories)
    (directory : after.directory env = kernel.directory env)
    (tables : after.memory.tables = Function.update kernel.memory.tables slot entry)
    (present : entry.present = true) (holds : entry.frame = frame)
    (represents : after.memory.freeFrameList.Represents free) :
    Mapped after env (pages ++ [roundDown va pageSize]) free := by
  have bound : va < 2 ^ 32 := Nat.lt_trans user (by decide)
  have start := roundDown_isUserPage user
  have entries : ∀ va' < userTop, after.pageEntry env va' =
      if roundDown va' pageSize = roundDown va pageSize then entry else kernel.pageEntry env va' :=
    fun va' below => pageEntry_update mapped.separate directories directory located tables bound
      (Nat.lt_trans below (by decide))
  have outside : roundDown va pageSize ∉ pages := by
    rw [← mapped.present va user, absent]
    exact Bool.false_ne_true
  have new : after.pageEntry env (roundDown va pageSize) = entry := by
    rw [entries _ start.2, start.roundDown_eq, if_pos rfl]
  have kept : ∀ other ∈ pages, after.pageEntry env other = kernel.pageEntry env other := by
    intro other inside
    have user' := mapped.user other inside
    rw [entries other user'.2, user'.roundDown_eq, if_neg]
    intro same
    exact outside (same ▸ inside)
  have free' : frame ∉ free := (List.nodup_cons.mp mapped.represents.nodup).1
  have apart : ∀ other ∈ pages, (kernel.pageEntry env other).frame ≠ frame :=
    fun other inside same => mapped.apart other inside (same ▸ List.mem_cons_self ..)
  exact {
    separate := by
      unfold SeparateTables
      rw [directories, directory]
      exact mapped.separate
    nodup := by
      rw [← List.concat_eq_append]
      exact (List.nodup_concat ..).mpr ⟨outside, mapped.nodup⟩
    user := by
      intro other inside
      rcases List.mem_append.mp inside with old | same
      · exact mapped.user other old
      · rw [List.mem_singleton.mp same]
        exact start
    present := by
      intro va' below
      rw [← pageEntry_present, entries va' below, List.mem_append, List.mem_singleton]
      by_cases same : roundDown va' pageSize = roundDown va pageSize
      · simp [same, present]
      · rw [if_neg same, pageEntry_present, mapped.present va' below]
        simp [same]
    owns := by
      intro other inside other' inside' same
      rcases List.mem_append.mp inside with old | fresh <;>
        rcases List.mem_append.mp inside' with old' | fresh'
      · rw [kept other old, kept other' old'] at same
        exact mapped.owns other old other' old' same
      · rw [List.mem_singleton.mp fresh', new, kept other old, holds] at same
        exact absurd same (apart other old)
      · rw [List.mem_singleton.mp fresh, new, kept other' old', holds] at same
        exact absurd same.symm (apart other' old')
      · rw [List.mem_singleton.mp fresh, List.mem_singleton.mp fresh']
    represents := represents
    apart := by
      intro other inside
      rcases List.mem_append.mp inside with old | fresh
      · rw [kept other old]
        exact fun listed => mapped.apart other old (List.mem_cons_of_mem _ listed)
      · rw [List.mem_singleton.mp fresh, new, holds]
        exact free' }

end Mapped

/-- The pages of the working set, in the order of its elements. -/
def wsPages (kernel : Kernel) (env : Nat) : List Nat :=
  (kernel.envs env).pageWsList.map kernel.elementVa

/-- The pages of the working set are the present user pages of the environment, its elements have
been created, and there are no more of them than allowed. -/
structure WorkingSet (kernel : Kernel) (env : Nat) (free : List Nat) : Prop where
  mapped : Mapped kernel env (kernel.wsPages env) free
  created : ∀ element ∈ (kernel.envs env).pageWsList, element < kernel.nextElement
  fits : (kernel.envs env).pageWsList.length ≤ (kernel.envs env).pageWsMaxSize

/-- The elements of the working set stand for different present user pages, have been created, and
there are no more of them than allowed. Other pages may be present too. -/
structure Resident (kernel : Kernel) (env : Nat) : Prop where
  separate : kernel.SeparateTables env
  nodup_pages : (kernel.wsPages env).Nodup
  user : ∀ element ∈ (kernel.envs env).pageWsList, IsUserPage (kernel.elementVa element)
  present : ∀ element ∈ (kernel.envs env).pageWsList,
    kernel.pagePresent env (kernel.elementVa element) = true
  created : ∀ element ∈ (kernel.envs env).pageWsList, element < kernel.nextElement
  fits : (kernel.envs env).pageWsList.length ≤ (kernel.envs env).pageWsMaxSize

theorem Resident.nodup (resident : Resident kernel env) : (kernel.envs env).pageWsList.Nodup :=
  List.Nodup.of_map _ resident.nodup_pages

theorem Resident.located (resident : Resident kernel env) : kernel.Located env :=
  fun element member => exists_slot (resident.present element member)

namespace WorkingSet

variable {free : List Nat} {front back list : List Nat} {element frame : Nat}

theorem nodup (ws : WorkingSet kernel env free) : (kernel.envs env).pageWsList.Nodup :=
  List.Nodup.of_map _ ws.mapped.nodup

theorem page_mem (member : element ∈ (kernel.envs env).pageWsList) :
    kernel.elementVa element ∈ kernel.wsPages env :=
  List.mem_map_of_mem member

theorem user (ws : WorkingSet kernel env free) (member : element ∈ (kernel.envs env).pageWsList) :
    IsUserPage (kernel.elementVa element) :=
  ws.mapped.user _ (page_mem member)

theorem pagePresent (ws : WorkingSet kernel env free)
    (member : element ∈ (kernel.envs env).pageWsList) :
    kernel.pagePresent env (kernel.elementVa element) = true := by
  have user := ws.user member
  rw [ws.mapped.present _ user.2, user.roundDown_eq]
  exact page_mem member

theorem located (ws : WorkingSet kernel env free) : kernel.Located env :=
  fun _ member => exists_slot (ws.pagePresent member)

theorem resident (ws : WorkingSet kernel env free) : Resident kernel env where
  separate := ws.mapped.separate
  nodup_pages := ws.mapped.nodup
  user _ member := ws.user member
  present _ member := ws.pagePresent member
  created := ws.created
  fits := ws.fits

/-- A page that is not present is not in the working set. -/
theorem not_mem_of_absent (ws : WorkingSet kernel env free) (user : va < userTop)
    (absent : kernel.pagePresent env va = false) :
        roundDown va pageSize ∉ kernel.wsPages env := by
  rw [← ws.mapped.present va user, absent]
  exact Bool.false_ne_true

/-- The invariant depends only on the list, the pages of its elements, the frames and the presence
of user pages, and the free frames. -/
theorem congr (ws : WorkingSet before env free)
    (list : (after.envs env).pageWsList = (before.envs env).pageWsList)
    (size : (after.envs env).pageWsMaxSize = (before.envs env).pageWsMaxSize)
    (vas : after.elementVa = before.elementVa) (next : after.nextElement = before.nextElement)
    (directories : after.memory.directories = before.memory.directories)
    (directory : after.directory env = before.directory env)
    (frames : after.memory.freeFrameList = before.memory.freeFrameList)
    (entries : ∀ slot,
      (after.memory.tables slot).present = (before.memory.tables slot).present ∧
      (after.memory.tables slot).frame = (before.memory.tables slot).frame) :
    WorkingSet after env free where
  mapped := by
    have pages : after.wsPages env = before.wsPages env := by
      unfold wsPages
      rw [list, vas]
    rw [pages]
    refine ws.mapped.congr directories directory frames fun va _ => ?_
    unfold pageEntry Memory.entry
    rw [directory, Memory.slot_congr directories]
    cases before.memory.slot (before.directory env) va with
    | none => exact ⟨rfl, rfl⟩
    | some slot => exact entries slot
  created := by
    rw [list, next]
    exact ws.created
  fits := by
    rw [list, size]
    exact ws.fits

/-- Nothing but a search happened: the working set is the same. -/
theorem of_searched (ws : WorkingSet before env free) (searched : Searched env before after) :
    WorkingSet after env free := by
  have withdraws := searched.withdraws
  have next : after.nextElement = before.nextElement := by
    obtain ⟨⟨tables, hand, rfl⟩, _⟩ := searched
    rfl
  have frames : after.memory.freeFrameList = before.memory.freeFrameList := by
    obtain ⟨⟨tables, hand, rfl⟩, _⟩ := searched
    rfl
  have vas : after.elementVa = before.elementVa := by
    unfold elementVa
    rw [withdraws.elements]
  refine ws.congr searched.pageWsList searched.pageWsMaxSize vas next withdraws.directories
    (withdraws.directory env) frames fun slot => ?_
  rcases searched.entries slot with same | cleared
  · rw [same]
    exact ⟨rfl, rfl⟩
  · rw [cleared, PageTableEntry.present, PageTableEntry.setPerms_has _ (by decide) (by decide)]
    exact ⟨rfl, rfl⟩

/-- Permission changes that leave the present bit alone keep the working set. -/
theorem of_setPagePermissions (ws : WorkingSet kernel env free) {set clear : Perm}
    (unset : set &&& permPresent = 0#12) (kept : ~~~clear &&& permPresent = permPresent)
    (other va : Nat) : Ends (kernel.setPagePermissions other va set clear)
      (fun after => WorkingSet after env free) Stop.Unrejected := by
  cases located : kernel.memory.slot (kernel.directory other) va with
  | none =>
      rw [setPagePermissions_of_missing kernel located]
      exact .error trivial
  | some slot =>
      rw [setPagePermissions_eq kernel located]
      refine .ok (ws.congr rfl rfl rfl rfl rfl rfl rfl fun place => ?_)
      by_cases same : place = slot
      · subst same
        rw [Memory.setEntry_tables, Function.update_self, PageTableEntry.present,
          PageTableEntry.setPerms_has _ unset kept]
        exact ⟨rfl, rfl⟩
      · rw [Memory.setEntry_tables, Function.update_of_ne same]
        exact ⟨rfl, rfl⟩

/-- A new time stamp keeps the working set. -/
theorem of_stamp (ws : WorkingSet kernel env free) (element timeStamp : Nat) :
    WorkingSet { kernel with
      elements := Function.update kernel.elements element
        { kernel.elements element with timeStamp := timeStamp } } env free := by
  exact ws.congr rfl rfl (funext fun other => kernel.elementVa_stamp element timeStamp other)
    rfl rfl
    rfl rfl fun _ => ⟨rfl, rfl⟩

/-- Updating the time stamps keeps the working set. -/
theorem of_updateWsTimeStamps (ws : WorkingSet kernel env free) (other : Nat) :
    Ends (kernel.updateWsTimeStamps other) (fun after => WorkingSet after env free)
      Stop.Unrejected := by
  unfold updateWsTimeStamps
  refine Ends.foldlM (fun stamped => WorkingSet stamped env free) ?_ kernel ws
  intro stamped element _ ws
  dsimp only
  split
  · exact (ws.of_stamp element _).of_setPagePermissions (by decide) (by decide) other _
  · exact .ok (ws.of_stamp element _)

end WorkingSet

/-- The kernel after the eviction of a page and the removal of its element. -/
def evicted (kernel : Kernel) (env page : Nat) (disk : Disk)
    (directory : Option (Nat → Option (Nat → Nat))) (list : List Nat) : Kernel :=
  ({ kernel.withDisk env disk directory with
    memory := kernel.memory.unmapFrame (kernel.directory env) page } : Kernel).withList env list

/-- The kernel after an element was appended to the working set. -/
def appended (kernel : Kernel) (env va : Nat) : Kernel :=
  ({ kernel with
    elements := Function.update kernel.elements kernel.nextElement ⟨roundDown va pageSize, 0⟩
    nextElement := kernel.nextElement + 1 } : Kernel).setEnv env
      { kernel.envs env with
        pageWsList := (kernel.envs env).pageWsList ++ [kernel.nextElement] }

/-- The kernel after a placement appended an element and set the hand. -/
def placed (kernel : Kernel) (env va : Nat) : Kernel :=
  (kernel.appended env va).setHand env
    (if (kernel.envs env).pageWsList.length + 1 = (kernel.envs env).pageWsMaxSize then
      ((kernel.envs env).pageWsList ++ [kernel.nextElement]).head?
    else none)

/-- How a fault is served once the working set has room: after an eviction LRU leaves the hand. -/
def serve (kernel : Kernel) (env va : Nat) : Except Stop Kernel :=
  if kernel.pageRepAlgoType = .lruTimeApprox then do
    let kernel ← kernel.loadPage env va (permUser ||| permPresent ||| permWriteable ||| permUsed)
    kernel.appendElement env va
  else kernel.placement env va

section Fields

variable (kernel : Kernel) (env page va : Nat) (disk : Disk)
  (directory : Option (Nat → Option (Nat → Nat))) (list : List Nat)

@[simp] theorem evicted_self : (kernel.evicted env page disk directory list).envs env =
    { kernel.envs env with diskEnvPgdir := directory, pageWsList := list } := by
  simp [evicted, withList, withDisk, setEnv]

@[simp] theorem evicted_directory (other : Nat) :
    (kernel.evicted env page disk directory list).directory other = kernel.directory other := by
  by_cases same : other = env
  · subst same
    rw [Kernel.directory, evicted_self, Kernel.directory]
  · simp [evicted, withList, withDisk, setEnv, Kernel.directory, same]

@[simp] theorem appended_self : (kernel.appended env va).envs env = { kernel.envs env with
    pageWsList := (kernel.envs env).pageWsList ++ [kernel.nextElement] } :=
  Function.update_self ..

@[simp] theorem appended_directory (other : Nat) :
    (kernel.appended env va).directory other = kernel.directory other :=
  kernel.setEnv_envs env
    { kernel.envs env with pageWsList := (kernel.envs env).pageWsList ++ [kernel.nextElement] }
    (fun changed old => changed.envPageDirectory = old.envPageDirectory) rfl (fun _ => rfl) other

variable {kernel va}

theorem appendElement_eq (user : va < userTop) :
    kernel.appendElement env va = .ok (kernel.appended env va) := by
  unfold appendElement createElement
  rw [if_pos user]
  rfl

theorem placement_eq (user : va < userTop) : kernel.placement env va =
    kernel.loadPage env va (permUser ||| permPresent ||| permWriteable) >>= fun loaded =>
      .ok (loaded.placed env va) := by
  unfold placement
  congr 1
  funext loaded
  rw [appendElement_eq env user]
  change Except.ok _ = Except.ok _
  rw [appended_self]
  simp only [List.length_append, List.length_singleton]
  rw [placed, setHand, appended_self]

end Fields

namespace WorkingSet

variable {free : List Nat} {front back list : List Nat} {element frame : Nat}

/-- Evicting an element takes its page out of the working set. -/
theorem of_evicted (ws : WorkingSet kernel env free) (disk : Disk)
    (directory : Option (Nat → Option (Nat → Nat)))
    (split : (kernel.envs env).pageWsList = front ++ victim :: back)
    (rest : list.Perm (front ++ back)) :
    ∃ free', WorkingSet (kernel.evicted env (kernel.elementVa victim) disk directory list) env
      free' ∧
      (free' = (kernel.pageEntry env (kernel.elementVa victim)).frame :: free ∨
          free' = free) := by
  have perm : (kernel.envs env).pageWsList.Perm (victim :: list) := by
    rw [split]
    exact List.perm_middle.trans (rest.symm.cons victim)
  have pages : (kernel.wsPages env).Perm (kernel.elementVa victim :: list.map kernel.elementVa) :=
    perm.map kernel.elementVa
  have member : victim ∈ (kernel.envs env).pageWsList := by simp [split]
  obtain ⟨outside, nodup⟩ := List.nodup_cons.mp (pages.nodup_iff.mp ws.mapped.nodup)
  obtain ⟨free', mapped, freed⟩ := ws.mapped.unmap (page_mem member)
    (show (kernel.evicted env (kernel.elementVa victim) disk directory list).memory = _ from rfl)
    (evicted_directory ..) nodup (by
      intro other
      rw [pages.mem_iff, List.mem_cons]
      constructor
      · intro inside
        exact ⟨.inr inside, fun same => outside (same ▸ inside)⟩
      · rintro ⟨same | inside, different⟩
        · exact absurd same different
        · exact inside)
  refine ⟨free', ⟨?_, ?_, ?_⟩, freed⟩
  · rw [wsPages, evicted_self]
    exact mapped
  · rw [evicted_self]
    intro other inside
    exact ws.created other (perm.mem_iff.mpr (List.mem_cons_of_mem _ inside))
  · rw [evicted_self]
    have shorter := perm.length_eq
    rw [List.length_cons] at shorter
    have fits := ws.fits
    change list.length ≤ (kernel.envs env).pageWsMaxSize
    omega

/-- Appending an element for a page that was mapped gives a working set again. -/
theorem of_appended (mapped : Mapped kernel env
    (kernel.wsPages env ++ [roundDown va pageSize]) free)
    (created : ∀ element ∈ (kernel.envs env).pageWsList, element < kernel.nextElement)
    (room : (kernel.envs env).pageWsList.length < (kernel.envs env).pageWsMaxSize) :
    WorkingSet (kernel.appended env va) env free where
  mapped := by
    have pages : (kernel.appended env va).wsPages env =
        kernel.wsPages env ++ [roundDown va pageSize] := by
      rw [wsPages, appended_self, List.map_append, List.map_singleton]
      congr 1
      · apply List.map_congr_left
        intro element member
        exact congrArg WorkingSetElement.virtualAddress
          (Function.update_of_ne (Nat.ne_of_lt (created element member)) ..)
      · have new : (kernel.appended env va).elementVa kernel.nextElement = roundDown va pageSize :=
          congrArg WorkingSetElement.virtualAddress
            (Function.update_self kernel.nextElement _ kernel.elements)
        rw [new]
    rw [pages]
    refine mapped.congr rfl (appended_directory ..) rfl fun va' _ => ?_
    have same : (kernel.appended env va).pageEntry env va' = kernel.pageEntry env va' := by
      apply pageEntry_congr
      · rfl
      · rfl
      · exact appended_directory ..
    rw [same]
    exact ⟨rfl, rfl⟩
  created := by
    rw [appended_self]
    intro element member
    rcases List.mem_append.mp member with old | new
    · exact Nat.lt_succ_of_lt (created element old)
    · rw [List.mem_singleton.mp new]
      exact Nat.lt_succ_self _
  fits := by
    rw [appended_self]
    simpa using Nat.succ_le_of_lt room

end WorkingSet

/-- What the load of a page leaves of memory: its frame is filled from the page file, or kept as
it was allocated. -/
inductive Loads (kernel : Kernel) (env va : Nat) (perm : Perm) (slot : Slot) (frame : Nat) :
    Memory → Prop
  | stored {taken : Memory} (fetch : Fetch kernel env va slot frame taken)
      (stored : (kernel.envs env).diskFrame va ≠ 0) :
      Loads kernel env va perm slot frame (fetch.filled perm)
  | unstored {taken : Memory} (fetch : Fetch kernel env va slot frame taken)
      (unstored : (kernel.envs env).diskFrame va = 0) (inside : inHeapOrStack va = true) :
      Loads kernel env va perm slot frame (taken.installFrame slot frame va perm)

namespace Loads

variable {perm : Perm} {frame : Nat} {memory : Memory} {free : List Nat}

/-- The load changes one entry, which then is present. -/
theorem tables (loads : Loads kernel env va perm slot frame memory) :
    ∃ entry, memory.directories = kernel.memory.directories ∧
      memory.tables = Function.update kernel.memory.tables slot entry ∧
      entry.present = true ∧ entry.frame = frame := by
  cases loads with
  | stored fetch stored =>
      obtain ⟨-, directories, -⟩ := Memory.allocateFrame_spec fetch.allocated
      refine ⟨(kernel.installedEntry slot frame perm).setPerms 0 permModified, directories,
        fetch.filled_tables perm, ?_, rfl⟩
      rw [PageTableEntry.present, PageTableEntry.setPerms_has _ (by decide) (by decide)]
      exact installedEntry_present ..
  | unstored fetch unstored inside =>
      obtain ⟨-, directories, -⟩ := Memory.allocateFrame_spec fetch.allocated
      exact ⟨kernel.installedEntry slot frame perm, directories, fetch.installed_tables perm,
        installedEntry_present .., rfl⟩

/-- The load takes the first free frame and changes one entry. -/
theorem spec (loads : Loads kernel env va perm slot frame memory)
    (represents : kernel.memory.freeFrameList.Represents free) :
    ∃ rest entry, free = frame :: rest ∧ memory.freeFrameList.Represents rest ∧
      memory.directories = kernel.memory.directories ∧
      memory.tables = Function.update kernel.memory.tables slot entry ∧
      entry.present = true ∧ entry.frame = frame := by
  obtain ⟨entry, tables⟩ := loads.tables
  cases loads with
  | stored fetch _ | unstored fetch _ _ =>
      obtain ⟨rest, same, represents', -⟩ :=
        Memory.allocateFrame_cases represents fetch.allocated
      exact ⟨rest, entry, same, represents', tables⟩

theorem fetch (loads : Loads kernel env va perm slot frame memory) :
    ∃ taken, Fetch kernel env va slot frame taken := by
  cases loads with
  | stored fetch _ => exact ⟨_, fetch⟩
  | unstored fetch _ _ => exact ⟨_, fetch⟩

end Loads

/-- A load returns, or stops for lack of memory or of a page table, or rejects the page. -/
theorem loadPage_cases (kernel : Kernel) (env va : Nat) (perm : Perm)
    (absent : kernel.pagePresent env va = false) :
    Ends (kernel.loadPage env va perm)
      (fun after => ∃ slot frame memory, Loads kernel env va perm slot frame memory ∧
        after = { kernel with memory := memory })
      (fun halt => halt = .outOfMemory ∨
        kernel.memory.slot (kernel.directory env) va = none ∧ halt = .panic ∨
        (kernel.envs env).diskFrame va = 0 ∧ inHeapOrStack va = false ∧
          ∃ stopped, halt = .envExit stopped ∧ Rejected kernel stopped) := by
  cases located : kernel.memory.slot (kernel.directory env) va with
  | none =>
      rcases loadPage_of_not_located located perm with ended | ended
      · rw [ended]
        exact .error (.inl rfl)
      · rw [ended]
        exact .error (.inr (.inl ⟨rfl, rfl⟩))
  | some slot =>
      rw [pagePresent_eq located] at absent
      cases allocated : kernel.memory.allocateFrame with
      | none =>
          rw [loadPage_of_exhausted allocated]
          exact .error (.inl rfl)
      | some result =>
          obtain ⟨frame, taken⟩ := result
          have fetch : Fetch kernel env va slot frame taken := ⟨located, absent, allocated⟩
          by_cases unstored : (kernel.envs env).diskFrame va = 0
          · cases inside : inHeapOrStack va with
            | true =>
                rw [fetch.loadPage_of_unstored perm unstored inside]
                exact .ok ⟨slot, frame, _, .unstored fetch unstored inside, rfl⟩
            | false =>
                rw [fetch.loadPage_of_illegal perm unstored inside]
                exact .error (.inr (.inr ⟨unstored, rfl, _, rfl, fetch.rejected perm⟩))
          · rw [fetch.loadPage_of_stored perm unstored]
            exact .ok ⟨slot, frame, _, .stored fetch unstored, rfl⟩

/-- Loading a page and appending an element for it gives a working set again. -/
theorem WorkingSet.of_loads {free : List Nat} {perm : Perm} {frame : Nat} {memory : Memory}
    (ws : WorkingSet kernel env free) (loads : Loads kernel env va perm slot frame memory)
    (user : va < userTop)
    (room : (kernel.envs env).pageWsList.length < (kernel.envs env).pageWsMaxSize) :
    ∃ rest, free = frame :: rest ∧
      WorkingSet (({ kernel with memory := memory } : Kernel).appended env va) env rest := by
  obtain ⟨rest, entry, rfl, represents, directories, tables, present, holds⟩ :=
    loads.spec ws.mapped.represents
  obtain ⟨taken, fetch⟩ := loads.fetch
  refine ⟨rest, rfl, .of_appended ?_ ws.created room⟩
  exact ws.mapped.load user fetch.located ((pagePresent_eq fetch.located).trans fetch.absent)
    directories rfl tables present holds represents

end Kernel

end FosKernel
