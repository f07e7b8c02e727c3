import FosKernel.Proc.LoadedProgram

/-!
# What an environment cannot reach

The steps of one environment change its own pages, free frames and its own part of the
page file. Every other environment keeps its record, its page-table entries up to used
bits, the bytes of its frames and its stored pages.
-/

namespace FosKernel

/-- The entry is the same, or its used bit was cleared. -/
def PageTableEntry.Fades (old new : PageTableEntry) : Prop :=
    new = old ∨ new = old.setPerms 0 permUsed

namespace PageTableEntry.Fades

variable {old middle new : PageTableEntry} {mask : Perm}

theorem trans (first : Fades old middle) (second : Fades middle new) : Fades old new := by
  rcases second with rfl | rfl
  · exact first
  · rcases first with rfl | rfl
    · exact .inr rfl
    · exact .inr (setPerms_clear_clear ..)

theorem frame (fades : Fades old new) : new.frame = old.frame := by
  rcases fades with rfl | rfl
  · rfl
  · rfl

/-- The other bits stay. -/
theorem has (fades : Fades old new) (kept : ~~~permUsed &&& mask = mask) :
    Perm.has new.perm mask = Perm.has old.perm mask := by
  rcases fades with rfl | rfl
  · rfl
  · exact setPerms_has _ BitVec.zero_and kept

theorem present (fades : Fades old new) : new.present = old.present := fades.has (by decide)

end PageTableEntry.Fades

namespace Kernel

variable {kernel before middle after : Kernel} {env other va victim frame fuel : Nat}
  {free list : List Nat} {memory : Memory} {perm : Perm} {slot : Slot}

/-- An environment with tables of its own keeps them, and its entries up to their used bits. -/
def FadesForeign (env : Nat) (before after : Kernel) : Prop :=
  ∀ other, before.TablesApart env other → after.TablesApart env other ∧
    after.memory.directories (after.directory other) =
        before.memory.directories (before.directory other) ∧
      ∀ va, (before.pageEntry other va).Fades (after.pageEntry other va)

theorem FadesForeign.trans (first : FadesForeign env before middle)
    (second : FadesForeign env middle after) : FadesForeign env before after := by
  intro other apart
  obtain ⟨apart', tables, entries⟩ := first other apart
  obtain ⟨apart'', tables', entries'⟩ := second other apart'
  exact ⟨apart'', tables'.trans tables, fun va => (entries va).trans (entries' va)⟩

theorem LeavesForeign.fades (leaves : LeavesForeign env before after) :
    FadesForeign env before after := by
  intro other apart
  obtain ⟨apart', tables, entries⟩ := leaves other apart
  exact ⟨apart', tables, fun va => .inl (entries va)⟩

/-- An entry of the environment is written. -/
theorem FadesForeign.of_entry {entry : PageTableEntry}
    (located : before.memory.slot (before.directory env) va = some slot)
    (tables : after.memory.tables = Function.update before.memory.tables slot entry)
    (directories : after.memory.directories = before.memory.directories)
    (directory : ∀ other, after.directory other = before.directory other) :
    FadesForeign env before after :=
  (LeavesForeign.of_entry located tables directories directory).fades

/-- Used bits are cleared in the tables. -/
theorem pageEntry_fades (directories : after.memory.directories = before.memory.directories)
    (directory : after.directory env = before.directory env)
    (tables : ∀ slot, (before.memory.tables slot).Fades (after.memory.tables slot)) (va : Nat) :
    (before.pageEntry env va).Fades (after.pageEntry env va) := by
  have same : after.memory.slot (after.directory env) va =
      before.memory.slot (before.directory env) va := by
    rw [directory, Memory.slot_congr directories]
  cases located : before.memory.slot (before.directory env) va with
  | none =>
      left
      simp only [pageEntry, Memory.entry, same, located, Option.map_none]
  | some slot =>
      rw [pageEntry_eq located, pageEntry_eq (same.trans located)]
      exact tables slot

theorem FadesForeign.of_tables (env : Nat)
    (directories : after.memory.directories = before.memory.directories)
    (directory : ∀ other, after.directory other = before.directory other)
    (tables : ∀ slot, (before.memory.tables slot).Fades (after.memory.tables slot)) :
    FadesForeign env before after := by
  intro other apart
  refine ⟨?_, ?_, pageEntry_fades directories (directory other) tables⟩
  · unfold TablesApart
    rw [directory, directory, directories]
    exact apart
  · rw [directories, directory]

/-- The frame is neither free nor that of a page of the environment. -/
structure Beyond (kernel : Kernel) (env frame : Nat) : Prop where
  unlisted : ∀ free, kernel.memory.freeFrameList.Represents free → frame ∉ free
  unmapped : ∀ page : UserPage, kernel.pagePresent env page = true →
    (kernel.pageEntry env page).frame ≠ frame

/-- A frame stays out of reach of an environment that gets no further pages. -/
theorem Beyond.congr (beyond : before.Beyond env frame)
    (list : after.memory.freeFrameList = before.memory.freeFrameList)
    (entries : ∀ page : UserPage, after.pagePresent env page = true →
      before.pagePresent env page = true ∧
        (after.pageEntry env page).frame = (before.pageEntry env page).frame) :
    after.Beyond env frame where
  unlisted := by
    rw [list]
    exact beyond.unlisted
  unmapped page present := by
    obtain ⟨held, same⟩ := entries page present
    rw [same]
    exact beyond.unmapped page held

/-- The page file still holds a map, which is the same for the other environments. -/
def KeepsStored (env : Nat) (before after : Kernel) : Prop :=
  ∀ managed free map, 0 ∉ managed → Stores before managed free map →
    ∃ free' map', Stores after managed free' map' ∧ ∀ key,
      key.1 ≠ env → map' key = map key

theorem KeepsStored.of_sameDisk (env : Nat) (same : SameDisk before after) :
    KeepsStored env before after :=
  fun _ free map _ stores => ⟨free, map, stores.of_sameDisk same, fun _ _ => rfl⟩

/-- The faults that the guard counts are the same, or they are those of the environment. -/
def NotesOwn (env : Nat) (before after : Kernel) : Prop :=
  after.lastFaultedEnv = some env ∨ SameGuard before after

/-- What the steps of an environment leave alone. -/
structure Confined (env : Nat) (before after : Kernel) : Prop where
  others : ∀ other, other ≠ env → after.envs other = before.envs other
  foreign : FadesForeign env before after
  frames : ∀ frame, before.Beyond env frame →
    after.Beyond env frame ∧ after.memory.bytes frame = before.memory.bytes frame
  stored : KeepsStored env before after
  elements : before.nextElement ≤ after.nextElement ∧
    ∀ element < before.nextElement, after.elementVa element = before.elementVa element
  algorithm : after.pageRepAlgoType = before.pageRepAlgoType
  active : after.pageActiveWsList = before.pageActiveWsList
  buffering : after.enableBuffering = before.enableBuffering
  guard : NotesOwn env before after

namespace Confined

theorem trans (first : Confined env before middle) (second : Confined env middle after) :
    Confined env before after where
  others other different := (second.others other different).trans (first.others other different)
  foreign := first.foreign.trans second.foreign
  frames frame beyond := by
    obtain ⟨beyond', same⟩ := first.frames frame beyond
    obtain ⟨beyond'', same'⟩ := second.frames frame beyond'
    exact ⟨beyond'', same'.trans same⟩
  stored managed free map nonzero stores := by
    obtain ⟨free', map', stores', same⟩ := first.stored managed free map nonzero stores
    obtain ⟨free'', map'', stores'', same'⟩ := second.stored managed free' map' nonzero stores'
    exact ⟨free'', map'', stores'', fun key foreign =>
      (same' key foreign).trans (same key foreign)⟩
  elements := ⟨first.elements.1.trans second.elements.1, fun element old =>
    (second.elements.2 element (Nat.lt_of_lt_of_le old first.elements.1)).trans
      (first.elements.2 element old)⟩
  algorithm := second.algorithm.trans first.algorithm
  active := second.active.trans first.active
  buffering := second.buffering.trans first.buffering
  guard := by
    rcases second.guard with own | same
    · exact .inl own
    · rcases first.guard with own | same'
      · exact .inl (same.faulted.trans own)
      · exact .inr (same'.trans same)

/-- Steps that leave the frames of pages and the page file as they are. -/
theorem of_entries (others : ∀ other, other ≠ env → after.envs other = before.envs other)
    (foreign : FadesForeign env before after)
    (list : after.memory.freeFrameList = before.memory.freeFrameList)
    (entries : ∀ page : UserPage, after.pagePresent env page = true →
      before.pagePresent env page = true ∧
        (after.pageEntry env page).frame = (before.pageEntry env page).frame)
    (bytes : after.memory.bytes = before.memory.bytes) (disk : SameDisk before after)
    (elements : before.nextElement ≤ after.nextElement ∧
      ∀ element < before.nextElement, after.elementVa element = before.elementVa element)
    (algorithm : after.pageRepAlgoType = before.pageRepAlgoType)
    (active : after.pageActiveWsList = before.pageActiveWsList) (guard : SameGuard before after) :
    Confined env before after where
  others := others
  foreign := foreign
  frames frame beyond := ⟨beyond.congr list entries, by rw [bytes]⟩
  stored := .of_sameDisk env disk
  elements := elements
  algorithm := algorithm
  active := active
  buffering := guard.buffering
  guard := .inr guard

/-- Used bits are cleared, and the record of the environment changes but for its directories. -/
theorem of_tables (env : Nat) (others : ∀ other,
    other ≠ env → after.envs other = before.envs other)
    (directory : after.directory env = before.directory env)
    (diskDirectory : (after.envs env).diskEnvPgdir = (before.envs env).diskEnvPgdir)
    (directories : after.memory.directories = before.memory.directories)
    (tables : ∀ slot, (before.memory.tables slot).Fades (after.memory.tables slot))
    (list : after.memory.freeFrameList = before.memory.freeFrameList)
    (bytes : after.memory.bytes = before.memory.bytes) (disk : after.disk = before.disk)
    (elements : before.nextElement ≤ after.nextElement ∧
      ∀ element < before.nextElement, after.elementVa element = before.elementVa element)
    (algorithm : after.pageRepAlgoType = before.pageRepAlgoType)
    (active : after.pageActiveWsList = before.pageActiveWsList) (guard : SameGuard before after) :
    Confined env before after := by
  have directory' : ∀ other, after.directory other = before.directory other := by
    intro other
    by_cases own : other = env
    · rw [own, directory]
    · exact congrArg Env.envPageDirectory (others other own)
  have fades := pageEntry_fades directories directory tables
  refine of_entries others (.of_tables env directories directory' tables) list
    (fun page present => ?_)
    bytes ⟨disk, fun other => ?_⟩ elements algorithm active guard
  · rw [← pageEntry_present, (fades page).present, pageEntry_present] at present
    exact ⟨present, (fades page).frame⟩
  · by_cases own : other = env
    · rw [own, diskDirectory]
    · rw [others other own]

theorem of_searched (search : Searched env before after) : Confined env before after := by
  have withdraws := search.withdraws
  have entries := search.entries
  have guard := search.sameGuard
  have disk := search.disk
  obtain ⟨⟨tables, hand, same⟩, -⟩ := search
  refine of_tables env (fun other different => ?_) (withdraws.directory env) disk.2
    withdraws.directories entries ?_ ?_ disk.1 ⟨?_, fun element _ => ?_⟩ withdraws.algorithm
    withdraws.active guard
  · rw [same, setHand, setEnv_of_ne _ _ _ different]
  · rw [same]
    rfl
  · rw [same]
    rfl
  · rw [same]
    exact Nat.le_refl _
  · rw [elementVa, withdraws.elements]
    rfl

theorem of_ticked (ticked : Ticked before after) (env : Nat) : Confined env before after := by
  have envs := ticked.envs
  have vas := ticked.vas
  refine of_tables env (fun other _ => ?_) ?_ ?_ ticked.directories ticked.entries ?_ ?_ ticked.disk
    ⟨?_, fun element _ => ?_⟩ ticked.algorithm ?_ ticked.sameGuard
  · rw [envs]
  · rw [directory, envs]
    rfl
  · rw [envs]
  · obtain ⟨elements, tables, rfl⟩ := ticked.shape
    rfl
  · obtain ⟨elements, tables, rfl⟩ := ticked.shape
    rfl
  · obtain ⟨elements, tables, rfl⟩ := ticked.shape
    exact Nat.le_refl _
  · rw [vas]
  · obtain ⟨elements, tables, rfl⟩ := ticked.shape
    rfl

/-- The record of the environment changes but for its directories. -/
theorem of_setEnv (kernel : Kernel) {value : Env}
    (directory : value.envPageDirectory = (kernel.envs env).envPageDirectory)
    (diskDirectory : value.diskEnvPgdir = (kernel.envs env).diskEnvPgdir) :
    Confined env kernel (kernel.setEnv env value) := by
  refine of_tables env (fun other different => setEnv_of_ne _ _ _ different) ?_ ?_ rfl
    (fun _ => .inl rfl) rfl rfl rfl ⟨Nat.le_refl _, fun _ _ => rfl⟩ rfl rfl
      ⟨rfl, rfl, rfl, rfl⟩
  · rw [Kernel.directory, setEnv_self, directory]
    rfl
  · rw [setEnv_self, diskDirectory]

/-- A new element is created. -/
theorem of_appended (kernel : Kernel) (env va : Nat) :
    Confined env kernel (kernel.appended env va) := by
  refine of_tables env (fun other different => setEnv_of_ne _ _ _ different) (appended_directory ..)
    (by rw [appended_self]) rfl (fun _ => .inl rfl) rfl rfl rfl
    ⟨Nat.le_succ _, fun element old => ?_⟩ rfl rfl ⟨rfl, rfl, rfl, rfl⟩
  exact congrArg WorkingSetElement.virtualAddress (Function.update_of_ne (Nat.ne_of_lt old) ..)

theorem of_placed (kernel : Kernel) (env va : Nat) : Confined env kernel (kernel.placed env va) :=
  (of_appended kernel env va).trans (of_setEnv _ rfl rfl)

theorem of_served (kernel : Kernel) (env va : Nat) :
    Confined env kernel (kernel.served env va) := by
  unfold served
  split
  · exact of_appended kernel env va
  · exact of_placed kernel env va

/-- An entry of the environment changes, and no frame comes to it. -/
theorem of_setEntry (located : kernel.memory.slot (kernel.directory env) va = some slot)
    {entry : PageTableEntry} (holds : entry.present = true →
      (kernel.memory.tables slot).present = true ∧
        entry.frame = (kernel.memory.tables slot).frame) :
    Confined env kernel { kernel with memory := kernel.memory.setEntry slot entry } := by
  refine of_entries (fun _ _ => rfl) (.of_entry located rfl rfl fun _ => rfl) rfl
    (fun page present => ?_) rfl ⟨rfl, fun _ => rfl⟩ ⟨Nat.le_refl _, fun _ _ => rfl⟩ rfl rfl
    ⟨rfl, rfl, rfl, rfl⟩
  obtain ⟨place, located'⟩ := exists_slot present
  have located'' : kernel.memory.slot (kernel.directory env) page = some place := located'
  rw [← pageEntry_present, pageEntry_eq located'] at present
  rw [← pageEntry_present, pageEntry_eq located', pageEntry_eq located'']
  rw [Memory.setEntry_tables] at present ⊢
  by_cases same : place = slot
  · subst same
    rw [Function.update_self] at present ⊢
    exact holds present
  · rw [Function.update_of_ne same] at present ⊢
    exact ⟨present, rfl⟩

/-- The permissions of a page change, but not its presence. -/
theorem of_setPagePermissions {set clear : Perm} (unset : set &&& permPresent = 0#12)
    (kept : ~~~clear &&& permPresent = permPresent)
    (changed : kernel.setPagePermissions env va set clear = .ok after) :
        Confined env kernel after := by
  cases located : kernel.memory.slot (kernel.directory env) va with
  | none =>
      rw [setPagePermissions_of_missing kernel located] at changed
      cases changed
  | some slot =>
      rw [setPagePermissions_eq kernel located] at changed
      obtain rfl := Except.ok.inj changed
      refine of_setEntry located fun present => ⟨?_, rfl⟩
      rwa [PageTableEntry.present, PageTableEntry.setPerms_has _ unset kept] at present

/-- A page fault is noted. -/
theorem of_notedFault (kernel : Kernel) (env va : Nat) :
    Confined env kernel (kernel.notedFault env va) where
  others _ _ := rfl
  foreign := .of_tables env rfl (fun _ => rfl) fun _ => .inl rfl
  frames _ beyond := ⟨beyond.congr rfl fun _ present => ⟨present, rfl⟩, rfl⟩
  stored := .of_sameDisk env ⟨rfl, fun _ => rfl⟩
  elements := ⟨Nat.le_refl _, fun _ _ => rfl⟩
  algorithm := rfl
  active := rfl
  buffering := rfl
  guard := .inl rfl

/-- A page table is created. -/
theorem of_createPageTable (orderly : kernel.Orderly)
    (missing : kernel.memory.getPageTable (kernel.directory env) va = none) :
    Confined env kernel (kernel.createPageTable env va) := by
  have entries := createPageTable_pageEntry orderly missing
  refine of_entries (fun _ _ => rfl) (createPageTable_leavesForeign orderly env va).fades rfl
    (fun page present => ?_) rfl ⟨rfl, fun _ => rfl⟩ ⟨Nat.le_refl _, fun _ _ => rfl⟩ rfl rfl
    ⟨rfl, rfl, rfl, rfl⟩
  rw [← pageEntry_present, entries, pageEntry_present] at present
  exact ⟨present, by rw [entries]⟩

/-- A byte of a page of the environment is written. -/
theorem of_writeByte (page : UserPage) (present : kernel.pagePresent env page = true) (index : Nat)
    (value : UInt8) :
    Confined env kernel (kernel.writeByte (kernel.pageEntry env page).frame index value) where
  others _ _ := rfl
  foreign := .of_tables env rfl (fun _ => rfl) fun _ => .inl rfl
  frames frame beyond := by
    refine ⟨beyond.congr rfl fun _ present => ⟨present, rfl⟩, ?_⟩
    exact Function.update_of_ne (beyond.unmapped page present).symm ..
  stored := .of_sameDisk env ⟨rfl, fun _ => rfl⟩
  elements := ⟨Nat.le_refl _, fun _ _ => rfl⟩
  algorithm := rfl
  active := rfl
  buffering := rfl
  guard := .inr ⟨rfl, rfl, rfl, rfl⟩

/-- A page is loaded into a free frame. -/
theorem of_loads (loads : Loads kernel env va perm slot frame memory)
    (represents : kernel.memory.freeFrameList.Represents free)
    (unmodified : Perm.has perm permModified = false) :
    Confined env kernel { kernel with memory := memory } := by
  obtain ⟨rest, entry, rfl, represents', directories, tables, present, holds⟩ :=
    loads.spec represents
  obtain ⟨-, bytes, -⟩ := loads.content unmodified
  obtain ⟨taken, fetch⟩ := loads.fetch
  exact {
    others := fun _ _ => rfl
    foreign := .of_entry fetch.located tables directories fun _ => rfl
    frames := by
      intro other beyond
      have outside := beyond.unlisted _ represents
      have different : other ≠ frame := fun same => outside (same ▸ List.mem_cons_self)
      refine ⟨⟨fun listed represents'' => ?_, fun page shown => ?_⟩, bytes other different⟩
      · rw [represents''.unique represents']
        exact fun inside => outside (List.mem_cons_of_mem _ inside)
      · obtain ⟨place, located⟩ := exists_slot shown
        have located' : kernel.memory.slot (kernel.directory env) page = some place := by
          rw [← Memory.slot_congr directories]
          exact located
        rw [← pageEntry_present, pageEntry_eq located] at shown
        rw [pageEntry_eq located]
        change (memory.tables place).present = true at shown
        change (memory.tables place).frame ≠ other
        rw [tables] at shown ⊢
        by_cases same : place = slot
        · rw [same, Function.update_self, holds]
          exact different.symm
        · rw [Function.update_of_ne same] at shown ⊢
          rw [← pageEntry_eq located']
          refine beyond.unmapped page ?_
          rwa [← pageEntry_present, pageEntry_eq located']
    stored := .of_sameDisk env ⟨rfl, fun _ => rfl⟩
    elements := ⟨Nat.le_refl _, fun _ _ => rfl⟩
    algorithm := rfl
    active := rfl
    buffering := rfl
    guard := .inr ⟨rfl, rfl, rfl, rfl⟩ }

/-- A victim is written back as its page, and the pages of other environments stay in the page
file. -/
theorem evict_keepsStored (ws : WorkingSet kernel env free)
    (member : victim ∈ (kernel.envs env).pageWsList)
    (returned : kernel.evict env victim = .ok after) :
    KeepsStored env kernel after := by
  intro managed diskFree map nonzero stores
  obtain ⟨written, wrote, last⟩ := bind_eq_ok.mp returned
  obtain rfl := Except.ok.inj last
  have same : SameDisk written { written with
      memory := written.memory.unmapFrame (written.directory env) (written.elementVa victim) } :=
    ⟨rfl, fun _ => rfl⟩
  unfold writeBack at wrote
  dsimp only at wrote
  split at wrote
  · have page := pfUpdateEnvPage_spec stores nonzero env
      ⟨kernel.elementVa victim, ws.user member⟩
    obtain ⟨free', stores'⟩ := page.of_ok wrote
    refine ⟨free', _, stores'.of_sameDisk same, fun key foreign => ?_⟩
    exact Function.update_of_ne (fun own => foreign (congrArg Prod.fst own)) ..
  · obtain rfl := Except.ok.inj wrote
    exact ⟨diskFree, map, stores.of_sameDisk same, fun _ _ => rfl⟩

/-- A page is evicted. -/
theorem of_evict (ws : WorkingSet kernel env free)
    (member : victim ∈ (kernel.envs env).pageWsList)
    (returned : kernel.evict env victim = .ok after) : Confined env kernel after := by
  have stored := evict_keepsStored ws member returned
  obtain ⟨slot, disk, directory, located, writes, rfl⟩ :=
    (ws.resident.evict_ends member).of_ok returned
  have present := ws.pagePresent member
  have holds : (kernel.memory.tables slot).holdsFrame = true :=
    PageTableEntry.holdsFrame_of_present (by rwa [← pagePresent_eq located])
  have tables : (kernel.memory.unmapFrame (kernel.directory env) (kernel.elementVa victim)).tables =
      Function.update kernel.memory.tables slot (kernel.memory.tables slot).unmapped := by
    rw [Memory.unmapFrame_tables located, if_pos holds]
  obtain ⟨free', mapped, freed⟩ := ws.mapped.unmap (WorkingSet.page_mem member)
    (show ({ kernel.withDisk env disk directory with
      memory := kernel.memory.unmapFrame (kernel.directory env) (kernel.elementVa victim) } :
        Kernel).memory = _ from rfl) (withDisk_directory ..) (ws.mapped.nodup.erase _)
    (fun other => (ws.mapped.nodup.mem_erase_iff).trans and_comm)
  exact {
    others := fun other different => setEnv_of_ne _ _ _ different
    foreign := .of_entry located tables (Memory.unmapFrame_directories ..)
      fun _ => withDisk_directory ..
    frames := by
      intro other beyond
      refine ⟨⟨fun listed represents => ?_, fun page shown => ?_⟩, ?_⟩
      · have unlisted := beyond.unlisted free ws.mapped.represents
        have victim' := beyond.unmapped ⟨_, ws.user member⟩ present
        rw [represents.unique mapped.represents]
        rcases freed with rfl | rfl
        · rw [List.mem_cons, not_or]
          exact ⟨fun same => victim' same.symm, unlisted⟩
        · exact unlisted
      · have entries := ws.mapped.unmap_pageEntry (WorkingSet.page_mem member)
          (show ({ kernel.withDisk env disk directory with
            memory := kernel.memory.unmapFrame (kernel.directory env) (kernel.elementVa victim) } :
              Kernel).memory = _ from rfl) (withDisk_directory ..) page.2.2
        rw [← pageEntry_present, entries] at shown
        rw [entries]
        split at shown
        · rw [PageTableEntry.unmapped_not_present] at shown
          cases shown
        · rename_i kept
          rw [if_neg kept]
          rw [pageEntry_present] at shown
          exact beyond.unmapped page shown
      · exact congrFun (Memory.unmapFrame_bytes ..) other
    stored := stored
    elements := ⟨Nat.le_refl _, fun _ _ => rfl⟩
    algorithm := rfl
    active := rfl
    buffering := rfl
    guard := .inr ⟨rfl, rfl, rfl, rfl⟩ }

/-- A page is loaded and its element appended, after an eviction if the working set is full. -/
theorem of_pageFaultHandler (ws : WorkingSet kernel env free)
    (replaces : kernel.pageRepAlgoType.Replaces) (active : kernel.pageActiveWsList = [])
    (hand : kernel.pageRepAlgoType ≠ .lruTimeApprox →
      (kernel.envs env).pageWsList.length = (kernel.envs env).pageWsMaxSize →
        kernel.HandListed env)
    (user : va < userTop) (absent : kernel.pagePresent env va = false)
    (returned : kernel.pageFaultHandler env va fuel = .ok after) : Confined env kernel after := by
  have returned := pageFaultHandler_add kernel after env va fuel 2 returned
  by_cases room : (kernel.envs env).pageWsList.length < (kernel.envs env).pageWsMaxSize
  · rw [pageFaultHandler_of_room (fuel + 1) replaces room] at returned
    obtain ⟨slot, frame, memory, loads, rfl⟩ := (placement_returns user absent).of_ok returned
    exact (of_loads loads ws.mapped.represents (by decide)).trans (of_placed _ env va)
  · have full := Nat.le_antisymm ws.fits (Nat.le_of_not_lt room)
    obtain ⟨searched, victim, front, back, list, chosen, handled⟩ :=
      pageFaultHandler_of_full fuel replaces ws (not_skips_of_inactive active env va) full
        (hasVictim_of_returned full (fun lru => hand lru full) returned)
    rw [handled] at returned
    have ws' := ws.of_searched chosen.search
    have absent' := chosen.search.withdraws.absent absent
    obtain ⟨evicted, left, rest⟩ := bind_eq_ok.mp returned
    have gone := of_evict ws' chosen.mem left
    obtain ⟨slot, disk, directory, located, writes, rfl⟩ :=
      (ws'.resident.evict_ends chosen.mem).of_ok left
    have evicts : searched.Evicts env victim list
        (searched.evicted env (searched.elementVa victim) disk directory list) :=
      ⟨slot, disk, directory, located, writes, rfl⟩
    obtain ⟨free', ws'', -⟩ := ws'.of_evicted disk directory
      (chosen.search.pageWsList.trans chosen.split) chosen.perm
    obtain ⟨perm, slot', frame, memory, unmodified, loads, rfl⟩ :=
      (serve_returns user (evicts.absent absent')).of_ok rest
    have loaded := of_loads loads ws''.mapped.represents unmodified
    have listed : Confined env { searched.withDisk env disk directory with
        memory := searched.memory.unmapFrame (searched.directory env) (searched.elementVa victim) }
          (searched.evicted env (searched.elementVa victim) disk directory list) :=
      of_setEnv _ rfl rfl
    exact (((of_searched chosen.search).trans gone).trans listed).trans
      (loaded.trans (of_served _ env va))

/-- A handled page fault is confined to its environment. -/
theorem of_faultHandler (running : Running kernel env)
    (hand : kernel.pageRepAlgoType ≠ .lruTimeApprox →
      (kernel.envs env).pageWsList.length = (kernel.envs env).pageWsMaxSize →
        kernel.HandListed env)
    (handled : kernel.faultHandler env va fuel = .ok after) :
    Confined env kernel after ∧ SameGuard (kernel.notedFault env va) after := by
  obtain ⟨free, ws⟩ := running.workingSet
  have ws' : WorkingSet (kernel.notedFault env va) env free :=
    ws.congr rfl rfl rfl rfl rfl rfl rfl fun _ => ⟨rfl, rfl⟩
  have orderly : (kernel.notedFault env va).Orderly := notedFault_orderly running.orderly
  have noted := of_notedFault kernel env va
  have ends : Ends (kernel.faultHandler env va fuel)
      (fun after => Confined env kernel after ∧ SameGuard (kernel.notedFault env va) after)
      fun _ => True := by
    refine faultHandler_ends kernel env va fuel trivial trivial (fun missing => ?_)
      fun below located absent => .of_returns fun served returned => ?_
    · exact ⟨noted.trans (of_createPageTable orderly missing), rfl, rfl, rfl, rfl⟩
    · have user : va < userTop := by
        unfold uStackTop at below
        omega
      refine ⟨noted.trans ?_, ?_⟩
      · exact of_pageFaultHandler ws' running.replaces running.active hand user absent returned
      · exact (ws'.pageFaultHandler_served running.replaces running.active hand user absent
          returned).guard
  exact ends.of_ok handled

end Confined

end Kernel

end FosKernel
