import FosKernel.Lib.PagedStore
import FosKernel.Trap.WorkingSetRuns

/-!
# The pages of an environment as a paged store

The contents of an environment's pages, in memory and in the page file, form a
paged store. A page fault moves pages in it: it evicts a victim and loads the
faulted page.
-/

namespace FosKernel

/-- The address of a user page. -/
abbrev UserPage : Type := { va : Nat // IsUserPage va }

/-- The page of a user address. -/
def UserPage.of (va : Nat) (user : va < userTop) : UserPage :=
  ⟨roundDown va pageSize, roundDown_isUserPage user⟩

/-- Allocating a disk frame takes the first free one. -/
theorem Disk.allocateDiskFrame_cases {disk next : Disk} {dfn : Nat} {free : List Nat}
    (represents : disk.freeFrameList.Represents free)
    (allocated : disk.allocateDiskFrame = some (dfn, next)) :
    ∃ rest, free = dfn :: rest ∧ next.freeFrameList.Represents rest ∧
        next.frames = disk.frames := by
  cases free with
  | nil =>
      have first := represents.first_eq
      rw [List.head?_nil] at first
      simp [Disk.allocateDiskFrame, first] at allocated
  | cons head rest =>
      have first := represents.first_eq
      rw [List.head?_cons] at first
      simp only [Disk.allocateDiskFrame, first, Option.some.injEq, Prod.mk.injEq] at allocated
      obtain ⟨rfl, rfl⟩ := allocated
      have split : disk.freeFrameList.Represents ([] ++ head :: rest) := represents
      have removed : (disk.freeFrameList.remove head).Represents rest := split.remove
      exact ⟨rest, rfl, removed.clearLinks (List.nodup_cons.mp represents.nodup).1, rfl⟩

namespace Kernel

variable {kernel searched before after evicted : Kernel} {env va victim dfn : Nat} {slot : Slot}
  {free list : List Nat}

/-- The contents of the user pages of an environment. -/
def store (kernel : Kernel) (env : Nat) : PagedStore UserPage (Nat → UInt8) where
  resident page :=
    if kernel.pagePresent env page then some (kernel.memory.bytes (kernel.pageEntry env page).frame)
    else none
  modified page := Perm.has (kernel.pageEntry env page).perm permModified
  stored page :=
    if (kernel.envs env).diskFrame page = 0 then none
    else some (kernel.disk.frames ((kernel.envs env).diskFrame page))

/-- Every stored page of the environment has a disk frame of its own, and the free disk frames are
none of these. -/
structure DiskOwned (disk : Disk) (env : Env) (free : List Nat) : Prop where
  represents : disk.freeFrameList.Represents free
  nonzero : 0 ∉ free
  owns : ∀ page page' : UserPage, env.diskFrame page ≠ 0 →
    env.diskFrame page = env.diskFrame page' → page = page'
  apart : ∀ page : UserPage, env.diskFrame page ∉ free

/-- The store depends on the entries of user pages, the bytes of their frames and the page file. -/
theorem store_congr (entries : ∀ page : UserPage,
      (after.pageEntry env page).present = (before.pageEntry env page).present ∧
      (after.pageEntry env page).frame = (before.pageEntry env page).frame ∧
      Perm.has (after.pageEntry env page).perm permModified =
        Perm.has (before.pageEntry env page).perm permModified)
    (bytes : after.memory.bytes = before.memory.bytes)
    (stored : (after.envs env).diskEnvPgdir = (before.envs env).diskEnvPgdir)
    (frames : after.disk.frames = before.disk.frames) : after.store env = before.store env := by
  have diskFrames := Env.diskFrame_congr stored
  apply PagedStore.ext
  · funext page
    simp only [store, ← pageEntry_present, (entries page).1, (entries page).2.1, bytes]
  · funext page
    exact (entries page).2.2
  · funext page
    simp only [store, diskFrames, frames]

/-- A search moves no page. -/
theorem Searched.store (searched : Searched env before after) :
    after.store env = before.store env := by
  have withdraws := searched.withdraws
  have entries := searched.entries
  obtain ⟨⟨tables, hand, same⟩, -⟩ := searched
  refine store_congr (fun page => ?_) ?_ ?_ ?_
  · unfold pageEntry Memory.entry
    rw [withdraws.directory, Memory.slot_congr withdraws.directories]
    cases before.memory.slot (before.directory env) page.1 with
    | none => exact ⟨rfl, rfl, rfl⟩
    | some slot =>
        simp only [Option.map_some, Option.getD_some]
        rcases entries slot with kept | cleared
        · rw [kept]
          exact ⟨rfl, rfl, rfl⟩
        · rw [cleared, PageTableEntry.present,
            PageTableEntry.setPerms_has _ (by decide) (by decide),
            PageTableEntry.setPerms_has _ (by decide) (by decide)]
          exact ⟨rfl, rfl, rfl⟩
  · rw [same]
    rfl
  · rw [same, Kernel.setHand, setEnv_self]
  · rw [same]
    rfl

/-- What the write-back of a page makes of the stored pages. -/
theorem WritesBack.stored {disk : Disk} {directory : Option (Nat → Option (Nat → Nat))}
    {page : UserPage} (writes : WritesBack kernel env page slot disk directory)
    (owned : DiskOwned kernel.disk (kernel.envs env) free) :
    (∃ free', DiskOwned disk { kernel.envs env with diskEnvPgdir := directory } free') ∧
    ∀ other : UserPage,
      (if ({ kernel.envs env with diskEnvPgdir := directory } : Env).diskFrame other = 0 then none
        else some (disk.frames
          (({ kernel.envs env with diskEnvPgdir := directory } : Env).diskFrame other))) =
      if other = page ∧ Perm.has (kernel.memory.tables slot).perm permModified = true then
        some (kernel.memory.bytes (kernel.memory.tables slot).frame)
      else (kernel.store env).stored other := by
  cases writes with
  | clean unmodified => exact ⟨⟨free, owned⟩, fun other => by simp [unmodified, store]⟩
  | update modified stored =>
      refine ⟨⟨free, owned.represents, owned.nonzero, owned.owns, owned.apart⟩,
        fun other => ?_⟩
      change (if (kernel.envs env).diskFrame other = 0 then none else some (Function.update _ _ _
        ((kernel.envs env).diskFrame other))) = _
      by_cases same : other = page
      · subst same
        rw [if_neg stored, Function.update_self, if_pos ⟨rfl, modified⟩]
      · have different : (kernel.envs env).diskFrame other ≠ (kernel.envs env).diskFrame page :=
          fun equal => same (owned.owns page other stored equal.symm).symm
        simp only [store, same, false_and, ↓reduceIte, Function.update_of_ne different]
  | @add dfn disk modified unstored inside allocated =>
      obtain ⟨rest, rfl, represents, frames⟩ :=
        Disk.allocateDiskFrame_cases owned.represents allocated
      obtain ⟨outside, -⟩ := List.nodup_cons.mp owned.represents.nodup
      have nonzero : dfn ≠ 0 := fun zero => owned.nonzero (zero ▸ List.mem_cons_self ..)
      have unused : ∀ other : UserPage, (kernel.envs env).diskFrame other ≠ dfn :=
        fun other same => owned.apart other (same ▸ List.mem_cons_self ..)
      -- the new disk frame belongs to the page alone
      have diskFrames : ∀ other : UserPage, ({ kernel.envs env with
          diskEnvPgdir := ((kernel.envs env).setDiskFrame page dfn).diskEnvPgdir } : Env).diskFrame
            other = if other = page then dfn else (kernel.envs env).diskFrame other := by
        intro other
        split
        · rename_i same
          rw [same]
          exact Env.diskFrame_setDiskFrame ..
        · rename_i different
          refine Env.diskFrame_setDiskFrame_of_ne _ _ ?_ other.2.lt page.2.lt
          rw [other.2.roundDown_eq, page.2.roundDown_eq]
          exact fun same => different (Subtype.ext same)
      refine ⟨⟨rest, represents, fun zero =>
        owned.nonzero (List.mem_cons_of_mem _ zero), ?_, ?_⟩, ?_⟩
      · intro first second
        rw [diskFrames, diskFrames]
        by_cases here : first = page <;> by_cases there : second = page
        · exact fun _ _ => here.trans there.symm
        · simp only [here, there, ↓reduceIte]
          exact fun _ same => absurd same.symm (unused second)
        · simp only [here, there, ↓reduceIte]
          exact fun _ same => absurd same (unused first)
        · simp only [here, there, ↓reduceIte]
          exact owned.owns first second
      · intro other
        rw [diskFrames]
        split
        · exact outside
        · exact fun listed => owned.apart other (List.mem_cons_of_mem _ listed)
      · intro other
        rw [diskFrames]
        by_cases same : other = page
        · simp [same, nonzero, modified]
        · simp only [store, same, false_and, ↓reduceIte,
            Function.update_of_ne (unused other), frames]

/-- An eviction of the kernel is one of the store. -/
theorem Evicts.store (ws : WorkingSet searched env free)
    (member : victim ∈ (searched.envs env).pageWsList)
    (owned : DiskOwned searched.disk (searched.envs env) list)
    {rest : List Nat} (evicts : searched.Evicts env victim rest evicted) :
    ∃ page : UserPage, page.1 = searched.elementVa victim ∧
      evicted.store env = (searched.store env).evict page ∧
      ∃ free', DiskOwned evicted.disk (evicted.envs env) free' := by
  obtain ⟨slot, disk, directory, located, writes, same⟩ := evicts
  have user := ws.user member
  have present := ws.pagePresent member
  have entry := pageEntry_eq located
  let page : UserPage := ⟨searched.elementVa victim, user⟩
  have writes' : WritesBack searched env page slot disk directory := writes
  obtain ⟨owned', stored⟩ := writes'.stored owned
  have envEq : evicted.envs env =
      { searched.envs env with diskEnvPgdir := directory, pageWsList := rest } := by
    rw [same, evicted_self]
  have diskEq : evicted.disk = disk := by rw [same]; rfl
  have memoryEq : evicted.memory =
      searched.memory.unmapFrame (searched.directory env) (searched.elementVa victim) := by
    rw [same]
    rfl
  have directoryEq : evicted.directory env = searched.directory
    env := by rw [same, evicted_directory]
  have diskFrames : ∀ va, (evicted.envs env).diskFrame va =
      ({ searched.envs env with diskEnvPgdir := directory } : Env).diskFrame va := by
    rw [envEq]
    exact fun va => rfl
  have entries : ∀ other : UserPage, evicted.pageEntry env other =
      if other = page then (searched.pageEntry env page).unmapped
      else searched.pageEntry env other := by
    intro other
    rw [ws.mapped.unmap_pageEntry (WorkingSet.page_mem member) memoryEq directoryEq other.2.2,
      other.2.roundDown_eq]
    by_cases here : other = page
    · rw [if_pos here, if_pos (congrArg Subtype.val here)]
    · rw [if_neg here, if_neg fun equal => here (Subtype.ext equal)]
  have bytes : evicted.memory.bytes = searched.memory.bytes := by
    rw [memoryEq, Memory.unmapFrame_bytes]
  refine ⟨page, rfl, PagedStore.ext ?_ ?_ ?_, ?_⟩
  · funext other
    by_cases here : other = page
    · simp [Kernel.store, PagedStore.evict, ← pageEntry_present, entries, here]
    · simp [Kernel.store, PagedStore.evict, ← pageEntry_present, entries, here, bytes]
  · funext other
    by_cases here : other = page
    · simp [Kernel.store, PagedStore.evict, entries, here, PageTableEntry.unmapped_has _
        (show permAvailable &&& permModified = 0#12 by decide)]
    · simp [Kernel.store, PagedStore.evict, entries, here]
  · funext other
    have resident : (searched.store env).resident page =
        some (searched.memory.bytes (searched.memory.tables slot).frame) := by
      rw [← entry]
      exact if_pos present
    have modified : (searched.store env).modified page =
        Perm.has (searched.memory.tables slot).perm permModified := by
      rw [← entry]
      rfl
    have now : (evicted.store env).stored other =
        if other = page ∧ Perm.has (searched.memory.tables slot).perm permModified = true then
          some (searched.memory.bytes (searched.memory.tables slot).frame)
        else (searched.store env).stored other := by
      rw [← stored other]
      simp only [Kernel.store, diskFrames, diskEq]
    rw [now, PagedStore.evict, modified]
    by_cases here : other = page
    · subst here
      cases Perm.has (searched.memory.tables slot).perm permModified <;> simp [resident]
    · cases Perm.has (searched.memory.tables slot).perm permModified <;> simp [here]
  · obtain ⟨free', owned'⟩ := owned'
    refine ⟨free', ?_, owned'.nonzero, ?_, ?_⟩
    · rw [diskEq]
      exact owned'.represents
    · intro first second
      rw [diskFrames, diskFrames]
      exact owned'.owns first second
    · intro other
      rw [diskFrames]
      exact owned'.apart other

/-- What a load leaves of the entry and of the frame of its page: the page is not modified, and its
frame holds the stored contents if there are any. -/
theorem Loads.content {perm : Perm} {frame : Nat} {memory : Memory}
    (loads : Loads kernel env va perm slot frame memory)
    (unmodified : Perm.has perm permModified = false) :
    Perm.has (memory.tables slot).perm permModified = false ∧
      (∀ other, other ≠ frame → memory.bytes other = kernel.memory.bytes other) ∧
      ((kernel.envs env).diskFrame va ≠ 0 →
        memory.bytes frame = kernel.disk.frames ((kernel.envs env).diskFrame va)) := by
  have installed : Perm.has (kernel.installedEntry slot frame perm).perm permModified = false := by
    rw [installedEntry, Perm.has_or, Perm.has_or, unmodified,
      show Perm.has permPresent permModified = false by decide, Perm.has_and,
      show permAvailable &&& permModified = 0#12 by decide]
    simp [Perm.has]
  cases loads with
  | stored fetch stored =>
      refine ⟨?_, fun other different => ?_, fun _ => ?_⟩
      · rw [Fetch.filled, Memory.setEntry_tables, Function.update_self,
          PageTableEntry.setPerms_clear_perm]
        exact Perm.has_clear_of_subset _ (by decide)
      · exact Function.update_of_ne different ..
      · exact Function.update_self ..
  | unstored fetch unstored inside =>
      refine ⟨?_, fun other _ => ?_, fun stored => absurd unstored stored⟩
      · rw [fetch.installed_entry]
        exact installed
      · rw [fetch.installed_bytes]

/-- A load of the kernel is one of the store. -/
theorem Loads.store {perm : Perm} {frame : Nat} {memory : Memory} (ws : WorkingSet kernel env free)
    (user : va < userTop) (loads : Loads kernel env va perm slot frame memory)
    (unmodified : Perm.has perm permModified = false) :
    (kernel.store env).resident (.of va user) = none ∧
      (∀ old, (kernel.store env).stored (.of va user) = some old → memory.bytes frame = old) ∧
      ({ kernel with memory := memory } : Kernel).store env =
        (kernel.store env).load (.of va user) (memory.bytes frame) := by
  obtain ⟨rest, entry, taken, -, directories, tables, present, holds⟩ :=
    loads.spec ws.mapped.represents
  obtain ⟨clear, bytes, stored⟩ := loads.content unmodified
  obtain ⟨_, fetch⟩ := loads.fetch
  rw [tables, Function.update_self] at clear
  have absent : kernel.pagePresent env (UserPage.of va user).1 = false := by
    rw [UserPage.of, pagePresent_roundDown, pagePresent_eq fetch.located, fetch.absent]
  have diskFrame : (kernel.envs env).diskFrame (UserPage.of va user).1 =
      (kernel.envs env).diskFrame va :=
    Env.diskFrame_roundDown ..
  have entries : ∀ other : UserPage,
      ({ kernel with memory := memory } : Kernel).pageEntry env other =
        if other = .of va user then entry else kernel.pageEntry env other := by
    intro other
    have changed : ({ kernel with memory := memory } : Kernel).pageEntry env other =
        if roundDown other pageSize = roundDown va pageSize then entry
        else kernel.pageEntry env other :=
      pageEntry_update ws.mapped.separate directories (by rfl) fetch.located tables
        (Nat.lt_trans user (by decide)) other.2.lt
    rw [changed, other.2.roundDown_eq]
    by_cases here : other = .of va user
    · have there : other.1 = roundDown va pageSize := congrArg Subtype.val here
      rw [if_pos here, if_pos there]
    · have there : other.1 ≠ roundDown va pageSize := fun equal => here (Subtype.ext equal)
      rw [if_neg here, if_neg there]
  refine ⟨by simp [Kernel.store, absent], fun old held => ?_, PagedStore.ext ?_ ?_ ?_⟩
  · simp only [Kernel.store, diskFrame] at held
    split at held
    · cases held
    · rename_i nonzero
      rw [stored nonzero]
      exact Option.some.inj held
  · funext other
    by_cases here : other = .of va user
    · simp [Kernel.store, PagedStore.load, ← pageEntry_present, entries, here, present, holds]
    · cases resident : kernel.pagePresent env other with
      | false =>
          simp [Kernel.store, PagedStore.load, ← pageEntry_present, entries, here,
            (pageEntry_present kernel env other).trans resident]
      | true =>
          have member : other.1 ∈ kernel.wsPages env := by
            have listed := (ws.mapped.present other other.2.2).mp resident
            rwa [other.2.roundDown_eq] at listed
          have different : (kernel.pageEntry env other).frame ≠ frame := by
            intro same
            apply ws.mapped.apart other member
            rw [same, taken]
            exact List.mem_cons_self ..
          simp [Kernel.store, PagedStore.load, ← pageEntry_present, entries, here,
            bytes _ different,
            (pageEntry_present kernel env other).trans resident]
  · funext other
    by_cases here : other = .of va user
    · simp [Kernel.store, PagedStore.load, entries, here, clear]
    · simp [Kernel.store, PagedStore.load, entries, here]
  · rfl

end Kernel

end FosKernel
