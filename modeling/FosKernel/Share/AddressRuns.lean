import FosKernel.Share.UserAddresses

/-!
# System calls on addresses, in runs from boot

The address spaces are in order after boot, and stay so as long as the calls stay below
`USER_TOP` and keep the reference counts right. The next call is then confined exactly
if it stays below `USER_TOP`, which `create_shared_object`, `get_shared_object` and
`SYS_get_virtual_time` do not check.
-/

namespace FosKernel

namespace SharedMemory

variable {β : Type} {D : DynAllocator β} {managed : Finset Nat} {shared after : SharedMemory β}
  {caller : Caller} {stores : UserStores β} {directory va index count : Nat} {code : Int}

/-- The reference counts stay right: `get_shared_object` maps frames in use, and a page is not
allocated with the mark of a buffered one. -/
def KeepsCounts (D : DynAllocator β) (shared : SharedMemory β) (caller : Caller) :
    AddressCall → Prop
  | .allocatePage _ perm => Perm.has (perm.setWidth 12) permBuffered = false
  | .getSharedObject overrun ownerId shareName va =>
      shared.InUse D (.getSharedObject overrun caller.directory ownerId shareName va.toNat)
  | _ => True

/-- A call that returns, stays below `USER_TOP` and keeps the reference counts right. -/
def OrderlyCall (D : DynAllocator β) (shared after : SharedMemory β) : Prop :=
  ∃ caller call code stored, shared.BelowUserTop D caller call ∧
    shared.KeepsCounts D caller call ∧
    shared.syscall D caller call = .ok (code, ⟨after, stored⟩)

theorem Kept.setBytes (kept : shared.Kept managed ∅) (bytes : Nat → Nat → UInt8) :
    (shared.setMemory { shared.heap.memory with bytes := bytes }).Kept managed ∅ :=
  kept.setMemory (kept.counted.congr rfl rfl rfl rfl)

theorem placeFrames_length {pageAddress : Nat} {framesStorage framesStorage' : List Nat}
    (placed : shared.placeFrames D directory pageAddress framesStorage index count =
      .ok (framesStorage', after)) : framesStorage'.length = framesStorage.length := by
  induction count generalizing shared pageAddress framesStorage index with
  | zero => exact congrArg List.length (Prod.mk.inj (Except.ok.inj placed)).1.symm
  | succ count ih =>
      rw [placeFrames] at placed
      split at placed
      · cases placed
      · obtain ⟨middle, -, rest⟩ := bind_eq_ok.mp placed
        exact (ih rest).trans List.length_set

/-- A new share has room for one frame a page. -/
theorem allocShare_length {heap heap' : KHeap β} {contents : List UInt8} {ownerId : BitVec 32}
    {shareName : List UInt8} {size : Nat} {isWritable : UInt8} {share : Share}
    (allocated : allocShare D heap contents ownerId shareName size isWritable =
      .ok (some share, heap')) : share.framesStorage.length = pagesOf size := by
  obtain ⟨⟨va, first⟩, -, rest⟩ := bind_eq_ok.mp allocated
  dsimp only at rest
  split at rest
  · cases rest
  · obtain ⟨⟨storage, second⟩, stored, last⟩ := bind_eq_ok.mp rest
    cases storage with
    | none =>
        obtain ⟨third, -, returned⟩ := bind_eq_ok.mp last
        cases returned
    | some framesStorage =>
        obtain ⟨same, -⟩ := Prod.mk.inj (Except.ok.inj last)
        obtain rfl := Option.some.inj same
        unfold allocFramesStorage at stored
        split at stored
        · cases stored
        · obtain ⟨⟨va', third⟩, -, rest'⟩ := bind_eq_ok.mp stored
          dsimp only at rest'
          split at rest'
          · cases rest'
          · obtain ⟨same', -⟩ := Prod.mk.inj (Except.ok.inj rest')
            obtain rfl := Option.some.inj same'
            exact List.length_replicate

theorem modify_framesStorage {shares : List Share} {index : Nat} {share : Share}
    (listed : share ∈ shares.modify index fun share =>
      { share with references := add32 share.references 1 }) :
    ∃ old ∈ shares, share.framesStorage = old.framesStorage := by
  obtain ⟨place, inside, rfl⟩ := List.getElem_of_mem listed
  rw [List.length_modify] at inside
  refine ⟨shares[place], List.getElem_mem inside, ?_⟩
  rw [List.getElem_modify]
  split <;> rfl

section Calls

variable {overrun : Nat → List UInt8} {contents shareName : List UInt8}
  {ownerId size address perm : BitVec 32} {isWritable : UInt8} {call : AddressCall}

theorem Kept.sysAllocatePage (kept : shared.Kept managed ∅) (accessing : D.Accessing)
    (regular : Perm.has (perm.setWidth 12) permBuffered = false)
    (returned : shared.sysAllocatePage D directory address perm = .ok (code, stores)) :
    stores.shared.Kept managed ∅ := by
  obtain rfl | ⟨frame, memory, mapped, bytes, -, took, first, same, -⟩ :=
    sysAllocatePage_cases returned
  · exact kept
  · have taken := kept.setMemory (kept.counted.allocateFrame took)
    have placed := taken.mapFrame accessing regular
      (fun ready table => mayMap_of_pending (taken.ensurePageTable accessing table)
        (Finset.mem_insert_self ..)) first
    rw [Finset.erase_insert (Finset.notMem_empty frame)] at placed
    rw [same]
    exact placed.setBytes bytes

/-- Every call that returns keeps the reference counts right. -/
theorem Kept.syscall (kept : shared.Kept managed ∅) (accessing : D.Accessing)
    (counts : shared.KeepsCounts D caller call)
    (returned : shared.syscall D caller call = .ok (code, stores)) :
    stores.shared.Kept managed ∅ := by
  cases call with
  | allocatePage va perm => exact kept.sysAllocatePage accessing counts returned
  | unmapFrame va =>
      obtain ⟨-, rfl⟩ := Prod.mk.inj (Except.ok.inj returned)
      exact kept.sysUnmapFrame (Prod.mk.eta.symm :)
  | createSharedObject overrun contents shareName size isWritable va =>
      obtain ⟨result, called, rfl⟩ := withoutStores_of_map returned
      exact kept.createSharedObject accessing called
  | getSharedObject overrun ownerId shareName va =>
      obtain ⟨result, called, rfl⟩ := withoutStores_of_map returned
      exact kept.getSharedObject accessing counts called
  | getVirtualTime low hi time =>
      obtain ⟨⟨bytes, same⟩, -⟩ := sysGetVirtualTime_spec returned
      rw [same]
      exact kept.setBytes bytes

/-- A call below `USER_TOP` keeps the page tables apart and the pages of others. -/
theorem Layout.syscall (accessing : D.Accessing) (layout : shared.Layout)
    (recorded : ∀ share ∈ shared.sharesList, share.framesStorage.length ≤ 2 ^ 20)
    (below : shared.BelowUserTop D caller call)
    (returned : shared.syscall D caller call = .ok (code, stores)) :
    stores.shared.Layout ∧ KeepsOthers caller.directory shared stores.shared := by
  cases call with
  | allocatePage va perm => exact layout.sysAllocatePage accessing returned
  | unmapFrame va =>
      obtain ⟨-, rfl⟩ := Prod.mk.inj (Except.ok.inj returned)
      exact layout.sysUnmapFrame caller.directory va
  | createSharedObject overrun contents shareName size isWritable va =>
      obtain ⟨result, called, rfl⟩ := withoutStores_of_map returned
      exact layout.createSharedObject accessing below called
  | getSharedObject overrun ownerId shareName va =>
      obtain ⟨result, called, rfl⟩ := withoutStores_of_map returned
      exact layout.getSharedObject accessing recorded below called
  | getVirtualTime low hi time => exact layout.sysGetVirtualTime returned

/-- A share is added with one frame a page at most, and its frames are never dropped. -/
theorem recorded_syscall
    (recorded : ∀ share ∈ shared.sharesList, share.framesStorage.length ≤ 2 ^ 20)
    (returned : shared.syscall D caller call = .ok (code, stores)) :
    ∀ share ∈ stores.shared.sharesList, share.framesStorage.length ≤ 2 ^ 20 := by
  cases call with
  | allocatePage va perm =>
      obtain rfl | ⟨_, _, mapped, _, -, -, first, same, -⟩ := sysAllocatePage_cases returned
      · exact recorded
      · rw [same]
        exact (mapFrame_sharesList first :).symm ▸ recorded
  | unmapFrame va =>
      obtain ⟨-, rfl⟩ := Prod.mk.inj (Except.ok.inj returned)
      unfold sysUnmapFrame
      split <;> exact recorded
  | createSharedObject overrun contents shareName size isWritable va =>
      obtain ⟨result, called, rfl⟩ := withoutStores_of_map returned
      obtain ⟨-, rfl | ⟨_, rfl, -⟩⟩ | ⟨share, _, framesStorage, _, -, allocated,
          stored, rfl⟩ :=
        createSharedObject_maps called
      · exact recorded
      · exact recorded
      · have length := (placeFrames_length stored).trans (allocShare_length allocated)
        have same := placeFrames_sharesList stored
        intro other listed
        rcases List.mem_append.mp listed with old | new
        · exact recorded other (same ▸ old)
        · obtain rfl := List.mem_singleton.mp new
          rw [length]
          exact pagesOf_le _
  | getSharedObject overrun ownerId shareName va =>
      obtain ⟨result, called, rfl⟩ := withoutStores_of_map returned
      obtain ⟨rfl, -⟩ | ⟨index, _, mapped, -, -, maps, rfl⟩ := getSharedObject_maps called
      · exact recorded
      · intro share listed
        obtain ⟨old, before, same⟩ := modify_framesStorage listed
        rw [same]
        exact recorded old (mapStorage_sharesList maps ▸ before)
  | getVirtualTime low hi time =>
      obtain ⟨⟨bytes, same⟩, -⟩ := sysGetVirtualTime_spec returned
      rw [same]
      exact recorded

/-- An orderly call keeps the address spaces in order. -/
theorem AddressSpaces.syscall (spaces : shared.AddressSpaces managed) (accessing : D.Accessing)
    (below : shared.BelowUserTop D caller call) (counts : shared.KeepsCounts D caller call)
    (returned : shared.syscall D caller call = .ok (code, stores)) :
    stores.shared.AddressSpaces managed := by
  obtain ⟨layout, kept⟩ := spaces.layout.syscall accessing spaces.recorded below returned
  refine ⟨spaces.kept.syscall accessing counts returned, layout.apart, ?_,
    recorded_syscall spaces.recorded returned⟩
  intro directory va word kernel entry here present user
  rcases kept.entries directory va word (.inr kernel) with same | ⟨-, hidden⟩
  · exact spaces.guarded directory va word kernel entry (same.symm.trans here) present user
  · rw [hidden entry here] at user
    cases user

end Calls

section Runs

variable {memory : Memory} {kernelEnd numberOfFrames nextTable : Nat}

/-- The address spaces after boot: no environment has page tables of user pages, and the kernel
part is the same in all directories. -/
theorem AddressSpaces.boot (accessing : D.Accessing) (extended : physExtendedMemFrame ≤ kernelEnd)
    (clean : ∀ slot, memory.tables slot = .zero)
    (unlinked : ∀ table, nextTable ≤ table →
      ∀ directory va, memory.getPageTable directory va ≠ some table)
    (separate : ∀ directory other va va' table, memory.getPageTable directory va = some table →
      memory.getPageTable other va' = some table →
        pdx va = pdx va' ∧ (pdx va < pdx userTop → directory = other)) :
    (SharedMemory.boot D memory kernelEnd numberOfFrames nextTable).AddressSpaces
      (managedFrames kernelEnd numberOfFrames) := by
  obtain ⟨-, -, same, directories, -⟩ := memory.initializePaging_spec numberOfFrames extended
  obtain ⟨directories', written⟩ := (accessing.initial
    (memory.initializePaging kernelEnd numberOfFrames)).pageMoves.others
  have tables : ∀ directory va,
      (SharedMemory.boot D memory kernelEnd numberOfFrames nextTable).heap.memory.getPageTable
        directory va = memory.getPageTable directory va :=
    Memory.getPageTable_congr (directories'.trans directories)
  refine ⟨.of_run accessing extended clean unlinked .refl, fun linked linked' => ?_,
    fun directory va _ _ entry here present user => ?_, nofun⟩
  · rw [tables] at linked linked'
    exact separate _ _ _ _ _ linked linked'
  · obtain ⟨slot, -, rfl⟩ := Option.map_eq_some_iff.mp here
    rcases written slot with old | ⟨-, hidden⟩
    · have zero := old.trans ((congrFun same slot).trans (clean slot))
      rw [show (SharedMemory.boot D memory kernelEnd numberOfFrames nextTable).heap.memory.tables
        slot = .zero from zero] at present
      cases present
    · cases hidden.symm.trans user

/-- In every run from boot whose calls stay below `USER_TOP` and keep the reference counts right,
the address spaces stay in order. -/
theorem addressSpaces_of_run (accessing : D.Accessing)
    (extended : physExtendedMemFrame ≤ kernelEnd) (clean : ∀ slot, memory.tables slot = .zero)
    (unlinked : ∀ table, nextTable ≤ table →
      ∀ directory va, memory.getPageTable directory va ≠ some table)
    (separate : ∀ directory other va va' table, memory.getPageTable directory va = some table →
      memory.getPageTable other va' = some table →
        pdx va = pdx va' ∧ (pdx va < pdx userTop → directory = other))
    (run : Relation.ReflTransGen (OrderlyCall D)
      (SharedMemory.boot D memory kernelEnd numberOfFrames nextTable) shared) :
    shared.AddressSpaces (managedFrames kernelEnd numberOfFrames) := by
  induction run with
  | refl => exact .boot accessing extended clean unlinked separate
  | tail _ step ih =>
      obtain ⟨caller, call, code, stored, below, counts, returned⟩ := step
      exact ih.syscall accessing below counts returned

end Runs

/-- A system call on user-supplied addresses that returns is confined to user pages of the caller
and memory below `USER_TOP` exactly if the addresses that its code does not check lie below
`USER_TOP`. -/
theorem confined_iff_belowUserTop (accessing : D.Accessing)
    (spaces : shared.AddressSpaces managed) {call : AddressCall}
    (returned : shared.syscall D caller call = .ok (code, stores)) :
    shared.Confined D caller call stores ↔ shared.BelowUserTop D caller call := by
  cases call with
  | allocatePage va perm =>
      exact iff_of_true (confined_allocatePage accessing spaces.layout returned) trivial
  | unmapFrame va =>
      obtain ⟨-, rfl⟩ := Prod.mk.inj (Except.ok.inj returned)
      exact iff_of_true (confined_unmapFrame spaces.layout va) trivial
  | createSharedObject overrun contents shareName size isWritable va =>
      obtain ⟨result, called, same⟩ := withoutStores_of_map returned
      rw [same]
      exact confined_create_iff accessing spaces called
  | getSharedObject overrun ownerId shareName va =>
      obtain ⟨result, called, same⟩ := withoutStores_of_map returned
      rw [same]
      exact confined_get_iff accessing spaces called
  | getVirtualTime low hi time => exact confined_getVirtualTime_iff spaces.layout returned

section SpacedMemory

/-- Page tables of the kernel part that all directories share, and none for user pages. -/
def spacedMemory : Memory :=
  { Memory.blank with
    directories := fun _ index => if pdx userTop ≤ index then some index else none }

/-- The state after boot with these page tables. -/
def spacedShared : SharedMemory (List Nat) :=
  boot PageBlocks.allocator spacedMemory physExtendedMemFrame 257 1024

/-- The first environment. -/
def firstCaller : Caller := ⟨1, 2048⟩

/-- The creation of an object of one page. -/
def createAt (va : BitVec 32) : AddressCall :=
  .createSharedObject (fun _ => []) (List.replicate shareNameLength 0) [97] 4096 1 va

theorem spacedMemory_table {directory va table : Nat}
    (linked : spacedMemory.getPageTable directory va = some table) :
    pdx userTop ≤ pdx va ∧ pdx va = table := by
  unfold Memory.getPageTable spacedMemory at linked
  dsimp only at linked
  split at linked
  · rename_i kernel
    exact ⟨kernel, Option.some.inj linked⟩
  · cases linked

theorem spacedMemory_unlinked {table : Nat} (above : 1024 ≤ table) (directory va : Nat) :
    spacedMemory.getPageTable directory va ≠ some table := by
  intro linked
  obtain ⟨-, same⟩ := spacedMemory_table linked
  simp only [pdx] at same
  omega

theorem spacedMemory_separate {directory other va va' table : Nat}
    (linked : spacedMemory.getPageTable directory va = some table)
    (linked' : spacedMemory.getPageTable other va' = some table) :
    pdx va = pdx va' ∧ (pdx va < pdx userTop → directory = other) := by
  obtain ⟨kernel, same⟩ := spacedMemory_table linked
  obtain ⟨-, same'⟩ := spacedMemory_table linked'
  exact ⟨same.trans same'.symm, fun user => absurd kernel (Nat.not_le.mpr user)⟩

theorem spacedShared_addressSpaces :
    spacedShared.AddressSpaces (managedFrames physExtendedMemFrame 257) :=
  .boot PageBlocks.accessing (Nat.le_refl _) (fun _ => rfl)
    (fun _ above => spacedMemory_unlinked above) fun _ _ _ _ _ => spacedMemory_separate

/-- The creation of an object at the start of the user heap is confined. -/
theorem confined_iff_belowUserTop_create : ∃ stores code,
    spacedShared.syscall PageBlocks.allocator firstCaller (createAt 0x80000000) =
      .ok (code, stores) ∧
    spacedShared.Confined PageBlocks.allocator firstCaller (createAt 0x80000000) stores := by
  have completes : Returns (spacedShared.syscall PageBlocks.allocator firstCaller
      (createAt 0x80000000)) fun _ => true := by
    decide +kernel
  obtain ⟨⟨code, stores⟩, returned, -⟩ := Returns.exists completes
  refine ⟨stores, code, returned, ?_⟩
  apply (confined_iff_belowUserTop PageBlocks.accessing spacedShared_addressSpaces returned).mpr
  intro _ index inside
  obtain rfl : index = 0 := Nat.lt_one_iff.mp inside
  decide

/-- The creation of an object at `KERNEL_BASE` maps its frame into the kernel, for the user to
write and in the directory of every other environment as well. -/
theorem not_confined_createAt_kernelBase : ∃ stores code,
    spacedShared.syscall PageBlocks.allocator firstCaller (createAt 0xF0000000) =
      .ok (code, stores) ∧
    stores.shared.heap.memory.entry 2 0xF0000000 = some ⟨158, 7⟩ ∧
    ¬ spacedShared.Confined PageBlocks.allocator firstCaller (createAt 0xF0000000) stores := by
  have completes : Returns (spacedShared.syscall PageBlocks.allocator firstCaller
      (createAt 0xF0000000)) fun result =>
        result.2.shared.heap.memory.entry 2 0xF0000000 == some ⟨158, 7⟩ := by
    decide +kernel
  obtain ⟨⟨code, stores⟩, returned, mapped⟩ := Returns.exists completes
  rw [beq_iff_eq] at mapped
  refine ⟨stores, code, returned, mapped, fun confined => ?_⟩
  rcases confined.others.entries 2 0xF0000000 (by decide) (.inr (by decide)) with
    same | ⟨heap, -⟩
  · have before : spacedShared.heap.memory.entry 2 0xF0000000 = some .zero := by
      decide +kernel
    rw [mapped, before] at same
    exact absurd same (by decide)
  · exact absurd heap.1 (by decide)

end SpacedMemory

end SharedMemory

end FosKernel
