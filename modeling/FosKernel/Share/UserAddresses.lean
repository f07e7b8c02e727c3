import FosKernel.Share.Confinement

/-!
# Addresses that the kernel checks and addresses that it does not

Each system call on user-supplied addresses, from every state whose address spaces are
in order: what the call changes is confined to user pages of the calling environment
and memory below `USER_TOP` exactly if the addresses that its code does not check lie
below `USER_TOP`.
-/

namespace FosKernel

namespace UserStores

variable {β : Type} {stores after : UserStores β} {directory va : Nat} {value : UInt8}
  {values : List UInt8}

/-- A store changes the contents of frames only and is recorded. -/
theorem storeByte_spec (stored : stores.storeByte directory va value = .ok after) :
    (∃ bytes, after.shared =
      stores.shared.setMemory { stores.shared.heap.memory with bytes := bytes }) ∧
      after.stored = stores.stored ++ [va] := by
  unfold storeByte at stored
  dsimp only at stored
  split at stored
  · cases stored
  · split at stored
    · obtain rfl := Except.ok.inj stored
      refine ⟨⟨(stores.shared.heap.memory.writeByte directory va value).bytes, ?_⟩, rfl⟩
      refine congrArg stores.shared.setMemory ?_
      unfold Memory.writeByte
      split <;> rfl
    · cases stored

/-- The addresses of consecutive stores are recorded, and they change contents only. -/
theorem storeBytes_spec (word : va < 2 ^ 32)
    (stored : stores.storeBytes directory va values = .ok after) :
    (∃ bytes, after.shared =
      stores.shared.setMemory { stores.shared.heap.memory with bytes := bytes }) ∧
      ∀ address, address ∈ after.stored ↔
        address ∈ stores.stored ∨ ∃ index < values.length, address = add32 va index := by
  induction values generalizing stores va with
  | nil =>
      obtain rfl := Except.ok.inj stored
      refine ⟨⟨stores.shared.heap.memory.bytes, rfl⟩, fun address => ?_⟩
      simp
  | cons value values ih =>
      obtain ⟨middle, first, rest⟩ := bind_eq_ok.mp stored
      obtain ⟨⟨bytes, same⟩, here⟩ := storeByte_spec first
      have bound : add32 va 1 < 2 ^ 32 := Nat.mod_lt _ (by decide)
      obtain ⟨⟨bytes', same'⟩, there⟩ := ih bound rest
      refine ⟨⟨bytes', by rw [same', same]; rfl⟩, fun address => ?_⟩
      have zero : add32 va 0 = va := Nat.mod_eq_of_lt word
      have next : ∀ index, add32 (add32 va 1) index = add32 va (index + 1) := by
        unfold add32
        omega
      rw [there, here, List.mem_append, List.mem_singleton, or_assoc, List.length_cons,
        Nat.exists_lt_succ_left, zero]
      simp only [next]

end UserStores

namespace SharedMemory

variable {β : Type} {D : DynAllocator β} {managed : Finset Nat} {shared after : SharedMemory β}
  {caller : Caller} {stores : UserStores β} {directory : Nat} {code : Int}
  {overrun : Nat → List UInt8} {contents shareName : List UInt8}
    {ownerId size va perm : BitVec 32}
  {isWritable : UInt8} {low hi : BitVec 32} {time : BitVec 64}

/-- The name is not taken and the record of the object is allocated. -/
def Creates (D : DynAllocator β) (shared : SharedMemory β) (overrun : Nat → List UInt8)
    (contents : List UInt8) (ownerId : BitVec 32) (shareName : List UInt8) (size : Nat)
    (isWritable : UInt8) : Prop :=
  shared.findShare overrun ownerId shareName = none ∧ ∃ share heap,
    allocShare D shared.heap contents ownerId shareName size isWritable = .ok (some share, heap)

/-- The share that `find_share` finds. -/
def Finds (shared : SharedMemory β) (overrun : Nat → List UInt8) (ownerId : BitVec 32)
    (shareName : List UInt8) (share : Share) : Prop :=
  ∃ index, shared.findShare overrun ownerId shareName = some index ∧
    shared.sharesList[index]? = some share

/-- The pages that a call is to map or unmap. -/
def Maps (D : DynAllocator β) (shared : SharedMemory β) (caller : Caller) :
    AddressCall → Nat → Prop
  | .allocatePage va _, page | .unmapFrame va, page => page = va.toNat
  | .createSharedObject overrun contents shareName size isWritable va, page =>
      shared.Creates D overrun contents caller.envId shareName size.toNat isWritable ∧
        ∃ index < pagesOf size.toNat, page = sharePage va.toNat index
  | .getSharedObject overrun ownerId shareName va, page => ∃ share,
      shared.Finds overrun ownerId shareName share ∧
        ∃ index < numframe share.size, page = sharePage va.toNat index
  | .getVirtualTime _ _ _, _ => False

/-- A call changed only user pages of the calling environment, besides page tables and the pages of
the kernel heap, and stored only below `USER_TOP`. -/
structure Confined (D : DynAllocator β) (shared : SharedMemory β) (caller : Caller)
    (call : AddressCall) (stores : UserStores β) : Prop where
  others : KeepsOthers caller.directory shared stores.shared
  pages : ∀ page, shared.Maps D caller call page → userTop ≤ page →
    stores.shared.heap.memory.entry caller.directory page =
      shared.heap.memory.entry caller.directory page
  stored : ∀ va ∈ stores.stored, va < userTop

/-- The addresses that the code does not check lie below `USER_TOP`, or a page of a shared object
that is to be mapped already maps its frame. -/
def BelowUserTop (D : DynAllocator β) (shared : SharedMemory β) (caller : Caller) :
    AddressCall → Prop
  | .allocatePage _ _ | .unmapFrame _ => True
  | .createSharedObject overrun contents shareName size isWritable va =>
      shared.Creates D overrun contents caller.envId shareName size.toNat isWritable →
        ∀ index < pagesOf size.toNat, sharePage va.toNat index < userTop
  | .getSharedObject overrun ownerId shareName va => ∀ share,
      shared.Finds overrun ownerId shareName share → ∀ index < numframe share.size, ∀ frame,
        share.framesStorage[index]? = some frame → sharePage va.toNat index < userTop ∨
          shared.heap.memory.Maps caller.directory (sharePage va.toNat index) frame
  | .getVirtualTime low hi _ => ∀ index < 4,
      add32 low.toNat index < userTop ∧ add32 hi.toNat index < userTop

/-- The address spaces are in order: the references count the mappings, page tables of user pages
belong to one directory, the user cannot write pages from `USER_TOP` on, and a share records no more
frames than there are pages. -/
structure AddressSpaces (managed : Finset Nat) (shared : SharedMemory β) : Prop where
  kept : shared.Kept managed ∅
  apart : ∀ {directory other va va' table},
    shared.heap.memory.getPageTable directory va = some table →
      shared.heap.memory.getPageTable other va' = some table →
        pdx va = pdx va' ∧ (pdx va < pdx userTop → directory = other)
  guarded : ∀ directory, ∀ va < 2 ^ 32, userTop ≤ va → ∀ entry,
    shared.heap.memory.entry directory va = some entry → entry.present = true →
      Perm.has entry.perm permUser = true → Perm.has entry.perm permWriteable = false
  recorded : ∀ share ∈ shared.sharesList, share.framesStorage.length ≤ 2 ^ 20

theorem AddressSpaces.layout (spaces : shared.AddressSpaces managed) : shared.Layout :=
  ⟨spaces.kept.pagesOnly, spaces.apart, spaces.kept.counted.fresh⟩

theorem pagesOf_le (size : Nat) : pagesOf size ≤ 2 ^ 20 := by
  unfold pagesOf roundUp roundDown add32 pageSize
  omega

theorem Layout.allocShare (accessing : D.Accessing) (layout : shared.Layout)
    {contents : List UInt8} {ownerId : BitVec 32} {shareName : List UInt8} {size : Nat}
    {isWritable : UInt8} {share : Option Share} {heap : KHeap β}
    (allocated : SharedMemory.allocShare D shared.heap contents ownerId shareName size isWritable =
      .ok (share, heap)) (directory : Nat) :
    ({ shared with heap := heap } : SharedMemory β).Layout ∧
      KeepsOthers directory shared { shared with heap := heap } := by
  obtain ⟨⟨block, first⟩, call, rest⟩ := bind_eq_ok.mp allocated
  obtain ⟨layout₁, kept₁⟩ := layout.kmalloc accessing call directory
  dsimp only at rest
  split at rest
  · obtain ⟨-, rfl⟩ := Prod.mk.inj (Except.ok.inj rest)
    exact ⟨layout₁, kept₁⟩
  · obtain ⟨⟨storage, second⟩, stored, last⟩ := bind_eq_ok.mp rest
    have ⟨layout₂, kept₂⟩ : ({ shared with heap := second } : SharedMemory β).Layout ∧
        KeepsOthers directory shared { shared with heap := second } := by
      unfold allocFramesStorage at stored
      split at stored
      · obtain ⟨-, rfl⟩ := Prod.mk.inj (Except.ok.inj stored)
        exact ⟨layout₁, kept₁⟩
      · obtain ⟨⟨block', third⟩, call', rest'⟩ := bind_eq_ok.mp stored
        obtain ⟨layout', kept'⟩ := layout₁.kmalloc accessing call' directory
        dsimp only at rest'
        split at rest' <;> obtain ⟨-, rfl⟩ := Prod.mk.inj (Except.ok.inj rest') <;>
          exact ⟨layout', kept₁.trans kept'⟩
    cases storage with
    | none =>
        obtain ⟨freed, free, returned⟩ := bind_eq_ok.mp last
        obtain ⟨-, rfl⟩ := Prod.mk.inj (Except.ok.inj returned)
        obtain ⟨layout₃, kept₃⟩ := layout₂.kfree accessing free directory
        exact ⟨layout₃, kept₂.trans kept₃⟩
    | some framesStorage =>
        obtain ⟨-, rfl⟩ := Prod.mk.inj (Except.ok.inj last)
        exact ⟨layout₂, kept₂⟩

/-- What changes contents of frames only keeps all pages. -/
theorem Layout.setBytes (layout : shared.Layout) (bytes : Nat → Nat → UInt8) (directory : Nat) :
    (shared.setMemory { shared.heap.memory with bytes := bytes }).Layout ∧
      KeepsOthers directory shared
        (shared.setMemory { shared.heap.memory with bytes := bytes }) := by
  obtain ⟨layout', kept⟩ := @Layout.setMemory _ shared directory 0
    { shared.heap.memory with bytes := bytes } layout rfl fun _ _ => rfl
  exact ⟨layout', kept (by decide)⟩

section Calls

/-- `SYS_allocate_page` changes nothing, or maps a new frame below `USER_TOP` and clears it. -/
theorem sysAllocatePage_cases
    (returned : shared.sysAllocatePage D directory va perm = .ok (code, stores)) :
    stores = ⟨shared, []⟩ ∨ ∃ frame memory mapped bytes, va.toNat < userTop ∧
      shared.heap.memory.allocateFrame = some (frame, memory) ∧
      (shared.setMemory memory).mapFrame D directory frame va.toNat (perm.setWidth 12) =
        .ok mapped ∧
      stores.shared = mapped.setMemory { mapped.heap.memory with bytes := bytes } ∧
      ∀ address ∈ stores.stored, address < userTop := by
  unfold sysAllocatePage at returned
  split at returned
  · exact .inl (Prod.mk.inj (Except.ok.inj returned)).2.symm
  rename_i checked
  split at returned
  · exact .inl (Prod.mk.inj (Except.ok.inj returned)).2.symm
  obtain ⟨result, allocated, rest⟩ := bind_eq_ok.mp returned
  obtain ⟨-, rfl⟩ := Prod.mk.inj (Except.ok.inj rest)
  unfold allocPage at allocated
  split at allocated
  · exact .inl (Except.ok.inj allocated).symm
  split at allocated
  · cases allocated
  rename_i frame memory took
  obtain ⟨mapped, first, stored⟩ := bind_eq_ok.mp allocated
  obtain ⟨user, aligned⟩ : va.toNat < userTop ∧ va.toNat % pageSize = 0 := by omega
  obtain ⟨⟨bytes, same⟩, addresses⟩ := UserStores.storeBytes_spec va.isLt stored
  refine .inr ⟨frame, memory, mapped, bytes, user, took, first, same,
    fun address recorded => ?_⟩
  obtain ⟨index, inside, rfl⟩ := ((addresses address).mp recorded).resolve_left nofun
  rw [List.length_replicate] at inside
  unfold add32
  unfold userTop pageSize at *
  omega

/-- `create_shared_object` creates no object, or maps the pages of one. -/
theorem createSharedObject_maps
    (returned : shared.createSharedObject D overrun contents directory ownerId shareName size.toNat
      isWritable va.toNat = .ok (code, after)) :
    (¬ shared.Creates D overrun contents ownerId shareName size.toNat isWritable ∧
      (after = shared ∨ ∃ heap, after = { shared with heap := heap } ∧
        allocShare D shared.heap contents ownerId shareName size.toNat isWritable =
          .ok (none, heap))) ∨
    ∃ share heap framesStorage placed,
      shared.findShare overrun ownerId shareName = none ∧
      allocShare D shared.heap contents ownerId shareName size.toNat isWritable =
        .ok (some share, heap) ∧
      placeFrames D { shared with heap := heap } directory (sharePage va.toNat 0)
        share.framesStorage 0 (pagesOf size.toNat) = .ok (framesStorage, placed) ∧
      after = { placed with
        sharesList := placed.sharesList ++ [{ share with framesStorage := framesStorage }] } := by
  unfold createSharedObject at returned
  split at returned
  · rename_i taken
    obtain ⟨-, same⟩ := Prod.mk.inj (Except.ok.inj returned)
    refine .inl ⟨fun creates => ?_, .inl same.symm⟩
    rw [creates.1] at taken
    cases taken
  rename_i untaken
  obtain ⟨⟨made, heap⟩, allocated, rest⟩ := bind_eq_ok.mp returned
  cases made with
  | none =>
      obtain ⟨-, same⟩ := Prod.mk.inj (Except.ok.inj rest)
      refine .inl ⟨fun ⟨_, share, heap', made⟩ => ?_, .inr ⟨heap, same.symm, allocated⟩⟩
      rw [allocated] at made
      cases made
  | some share =>
      obtain ⟨⟨framesStorage, placed⟩, stored, last⟩ := bind_eq_ok.mp rest
      obtain ⟨-, same⟩ := Prod.mk.inj (Except.ok.inj last)
      rw [← sharePage_zero va.isLt] at stored
      exact .inr ⟨share, heap, framesStorage, placed, by simpa using untaken, allocated, stored,
        same.symm⟩

/-- `get_shared_object` finds no object, or maps the recorded frames of one. -/
theorem getSharedObject_maps
    (returned : shared.getSharedObject D overrun directory ownerId shareName va.toNat =
      .ok (code, after)) :
    (after = shared ∧ ∀ share, ¬ shared.Finds overrun ownerId shareName share) ∨
    ∃ index share mapped, shared.findShare overrun ownerId shareName = some index ∧
      shared.sharesList[index]? = some share ∧
      shared.mapStorage D directory va.toNat
        (if share.isWritable ≠ 0 then permUser ||| permWriteable else permUser)
        share.framesStorage 0 (numframe share.size) = .ok mapped ∧
      after = { mapped with
        sharesList := mapped.sharesList.modify index fun share =>
          { share with references := add32 share.references 1 } } := by
  unfold getSharedObject at returned
  cases found : shared.findShare overrun ownerId shareName with
  | none =>
      rw [found] at returned
      obtain ⟨-, same⟩ := Prod.mk.inj (Except.ok.inj returned)
      refine .inl ⟨same.symm, fun share ⟨index, found', _⟩ => ?_⟩
      rw [found] at found'
      cases found'
  | some index =>
      simp only [found] at returned
      cases listed : shared.sharesList[index]? with
      | none =>
          rw [listed] at returned
          obtain ⟨-, same⟩ := Prod.mk.inj (Except.ok.inj returned)
          refine .inl ⟨same.symm, fun share ⟨index', found', listed'⟩ => ?_⟩
          obtain rfl := Option.some.inj (found.symm.trans found')
          rw [listed] at listed'
          cases listed'
      | some share =>
          rw [listed] at returned
          obtain ⟨mapped, maps, rest⟩ := bind_eq_ok.mp returned
          obtain ⟨-, same⟩ := Prod.mk.inj (Except.ok.inj rest)
          exact .inr ⟨index, share, mapped, rfl, listed, maps, same.symm⟩

/-- `SYS_get_virtual_time` stores four bytes through each pointer. -/
theorem sysGetVirtualTime_spec
    (returned : shared.sysGetVirtualTime directory low hi time = .ok (code, stores)) :
    (∃ bytes, stores.shared = shared.setMemory { shared.heap.memory with bytes := bytes }) ∧
      ∀ address, address ∈ stores.stored ↔
        ∃ index < 4, address = add32 low.toNat index ∨ address = add32 hi.toNat index := by
  obtain ⟨first, storedLow, rest⟩ := bind_eq_ok.mp returned
  obtain ⟨second, storedHi, last⟩ := bind_eq_ok.mp rest
  obtain ⟨-, rfl⟩ := Prod.mk.inj (Except.ok.inj last)
  obtain ⟨⟨bytes, same⟩, lows⟩ := UserStores.storeBytes_spec low.isLt storedLow
  obtain ⟨⟨bytes', same'⟩, all⟩ := UserStores.storeBytes_spec hi.isLt storedHi
  have length : ∀ word, (wordBytes word).length = 4 := fun word => by simp [wordBytes]
  refine ⟨⟨bytes', by rw [same', same]; rfl⟩, fun address => ?_⟩
  rw [all, lows, length, length]
  constructor
  · rintro ((none | ⟨index, inside, here⟩) | ⟨index, inside, here⟩)
    · cases none
    · exact ⟨index, inside, .inl here⟩
    · exact ⟨index, inside, .inr here⟩
  · rintro ⟨index, inside, here | here⟩
    · exact .inl (.inr ⟨index, inside, here⟩)
    · exact .inr ⟨index, inside, here⟩

theorem withoutStores_of_map {call : Except Halt (Int × SharedMemory β)}
    (returned : call.map withoutStores = .ok (code, stores)) :
    ∃ result, call = .ok (code, result) ∧ stores = ⟨result, []⟩ := by
  cases call with
  | error halt => cases returned
  | ok result =>
      obtain ⟨rfl, rfl⟩ := Prod.mk.inj (Except.ok.inj returned)
      exact ⟨result.2, rfl, rfl⟩

end Calls

namespace Layout

theorem sysAllocatePage (accessing : D.Accessing) (layout : shared.Layout)
    (returned : shared.sysAllocatePage D directory va perm = .ok (code, stores)) :
    stores.shared.Layout ∧ KeepsOthers directory shared stores.shared := by
  obtain rfl | ⟨frame, memory, mapped, bytes, user, took, first, same, -⟩ :=
    sysAllocatePage_cases returned
  · exact ⟨layout, .refl ..⟩
  · obtain ⟨taken, kept⟩ := layout.allocateFrame took directory
    obtain ⟨layout', kept'⟩ := taken.mapFrame accessing first
    obtain ⟨layout'', kept''⟩ := layout'.setBytes bytes directory
    rw [same]
    exact ⟨layout'', (kept.trans (kept' user)).trans kept''⟩

theorem sysUnmapFrame (layout : shared.Layout) (directory : Nat) (va : BitVec 32) :
    (shared.sysUnmapFrame directory va.toNat).2.Layout ∧
      KeepsOthers directory shared (shared.sysUnmapFrame directory va.toNat).2 := by
  unfold SharedMemory.sysUnmapFrame
  split
  · exact ⟨layout, .refl ..⟩
  · rename_i checked
    have user : va.toNat < userTop := by omega
    obtain ⟨layout', kept⟩ := @Layout.setMemory _ shared directory va.toNat _ layout
      (shared.heap.memory.unmapFrame_directories directory va.toNat) fun slot different => by
        cases located : shared.heap.memory.slot directory va.toNat with
        | none => rw [Memory.unmapFrame_of_not_located located]
        | some place =>
            rw [Memory.unmapFrame_tables located]
            exact Function.update_of_ne (fun same : slot = place => different (same ▸ located)) ..
    exact ⟨layout', kept user⟩

theorem createSharedObject (accessing : D.Accessing) (layout : shared.Layout)
    (below : shared.Creates D overrun contents ownerId shareName size.toNat isWritable →
      ∀ index < pagesOf size.toNat, sharePage va.toNat index < userTop)
    (returned : shared.createSharedObject D overrun contents directory ownerId shareName size.toNat
      isWritable va.toNat = .ok (code, after)) :
    after.Layout ∧ KeepsOthers directory shared after := by
  obtain ⟨-, rfl | ⟨heap, rfl, allocated⟩⟩ | ⟨share, heap, framesStorage, placed, untaken,
    allocated, stored, rfl⟩ := createSharedObject_maps returned
  · exact ⟨layout, .refl ..⟩
  · exact layout.allocShare accessing allocated directory
  · obtain ⟨layout', kept⟩ := layout.allocShare accessing allocated directory
    obtain ⟨⟨pagesOnly, apart, fresh⟩, kept'⟩ := layout'.placeFrames accessing stored
    have total := kept.trans (kept' fun page _ upper =>
      below ⟨untaken, share, heap, allocated⟩ page (by omega))
    exact ⟨⟨pagesOnly, apart, fresh⟩, ⟨total.tables, total.linked, total.entries⟩⟩

theorem getSharedObject (accessing : D.Accessing) (layout : shared.Layout)
    (recorded : ∀ share ∈ shared.sharesList, share.framesStorage.length ≤ 2 ^ 20)
    (below : ∀ share, shared.Finds overrun ownerId shareName share →
      ∀ index < numframe share.size, ∀ frame, share.framesStorage[index]? = some frame →
        sharePage va.toNat index < userTop ∨
          shared.heap.memory.Maps directory (sharePage va.toNat index) frame)
    (returned : shared.getSharedObject D overrun directory ownerId shareName va.toNat =
      .ok (code, after)) :
    after.Layout ∧ KeepsOthers directory shared after := by
  obtain ⟨rfl, -⟩ | ⟨index, share, mapped, found, listed, maps, rfl⟩ :=
    getSharedObject_maps returned
  · exact ⟨layout, .refl ..⟩
  · have bound := recorded share (List.mem_of_getElem? listed)
    have count := mapStorage_count maps
    obtain ⟨⟨pagesOnly, apart, fresh⟩, kept⟩ := layout.mapStorage accessing (by omega)
      (fun page _ upper => below share ⟨index, found, listed⟩ page (by omega)) maps
    exact ⟨⟨pagesOnly, apart, fresh⟩, ⟨kept.tables, kept.linked, kept.entries⟩⟩

theorem sysGetVirtualTime (layout : shared.Layout)
    (returned : shared.sysGetVirtualTime directory low hi time = .ok (code, stores)) :
    stores.shared.Layout ∧ KeepsOthers directory shared stores.shared := by
  obtain ⟨⟨bytes, same⟩, -⟩ := sysGetVirtualTime_spec returned
  rw [same]
  exact layout.setBytes bytes directory

end Layout

/-- `SYS_allocate_page` checks its address. -/
theorem confined_allocatePage (accessing : D.Accessing) (layout : shared.Layout)
    (returned : shared.sysAllocatePage D caller.directory va perm = .ok (code, stores)) :
    shared.Confined D caller (.allocatePage va perm) stores := by
  obtain ⟨-, kept⟩ := layout.sysAllocatePage accessing returned
  obtain rfl | ⟨_, _, _, _, user, -, -, -, below⟩ := sysAllocatePage_cases returned
  · exact ⟨kept, fun _ _ _ => rfl, nofun⟩
  · refine ⟨kept, fun page here kernel => ?_, below⟩
    obtain rfl : page = va.toNat := here
    omega

/-- `SYS_unmap_frame` checks its address. -/
theorem confined_unmapFrame (layout : shared.Layout) (va : BitVec 32) :
    shared.Confined D caller (.unmapFrame va)
      (withoutStores (shared.sysUnmapFrame caller.directory va.toNat)).2 := by
  refine ⟨(layout.sysUnmapFrame caller.directory va).2, fun page here kernel => ?_, nofun⟩
  obtain rfl : page = va.toNat := here
  unfold sysUnmapFrame
  rw [if_pos (.inl kernel)]
  rfl

/-- `create_shared_object` maps the pages of a new object wherever they lie. -/
theorem confined_create_iff (accessing : D.Accessing) (spaces : shared.AddressSpaces managed)
    (returned : shared.createSharedObject D overrun contents caller.directory caller.envId shareName
      size.toNat isWritable va.toNat = .ok (code, after)) :
    shared.Confined D caller (.createSharedObject overrun contents shareName size isWritable va)
        ⟨after, []⟩ ↔
      shared.BelowUserTop D caller
        (.createSharedObject overrun contents shareName size isWritable va) := by
  constructor
  · intro confined creates index inside
    obtain ⟨refused, -⟩ | ⟨share, heap, framesStorage, placed, -, allocated, stored, rfl⟩ :=
      createSharedObject_maps returned
    · exact absurd creates refused
    by_contra kernel
    have fits : 0 + pagesOf size.toNat ≤ 2 ^ 20 := by
      rw [Nat.zero_add]
      exact pagesOf_le _
    obtain ⟨layout, -⟩ := spaces.layout.allocShare accessing allocated caller.directory
    obtain ⟨entry, here, present, user, writeable⟩ := placeFrames_installs accessing layout
      (spaces.kept.allocShare accessing allocated) fits stored (Nat.zero_le index)
      (by rwa [Nat.zero_add])
    have same := confined.pages _ ⟨creates, index, inside, rfl⟩ (Nat.not_lt.mp kernel)
    have guard := spaces.guarded _ _ (sharePage_lt ..) (Nat.not_lt.mp kernel) entry
      (same.symm.trans here) present user
    rw [writeable] at guard
    cases guard
  · intro below
    obtain ⟨-, kept⟩ := spaces.layout.createSharedObject accessing below returned
    refine ⟨kept, ?_, nofun⟩
    rintro page ⟨creates, index, inside, rfl⟩ kernel
    exact absurd (below creates index inside) (Nat.not_lt.mpr kernel)

/-- `get_shared_object` maps the pages of an object wherever they lie. -/
theorem confined_get_iff (accessing : D.Accessing) (spaces : shared.AddressSpaces managed)
    (returned : shared.getSharedObject D overrun caller.directory ownerId shareName va.toNat =
      .ok (code, after)) :
    shared.Confined D caller (.getSharedObject overrun ownerId shareName va) ⟨after, []⟩ ↔
      shared.BelowUserTop D caller (.getSharedObject overrun ownerId shareName va) := by
  have layout := spaces.layout
  obtain ⟨rfl, none⟩ | ⟨index, share, mapped, found, listed, maps, rfl⟩ :=
    getSharedObject_maps returned
  · exact ⟨fun _ share finds => absurd finds (none share),
      fun _ => ⟨.refl .., fun page ⟨share, finds, _⟩ => absurd finds (none share), nofun⟩⟩
  have only : ∀ share', shared.Finds overrun ownerId shareName share' → share' = share := by
    rintro share' ⟨index', found', listed'⟩
    obtain rfl := Option.some.inj (found.symm.trans found')
    exact Option.some.inj (listed'.symm.trans listed)
  have recorded := spaces.recorded share (List.mem_of_getElem? listed)
  have count := mapStorage_count maps
  constructor
  · intro confined share' finds page inside frame stored
    obtain rfl := only share' finds
    by_cases user : sharePage va.toNat page < userTop
    · exact .inl user
    · refine .inr ?_
      obtain ⟨entry, here, present, maps⟩ := mapStorage_maps accessing layout (by omega) maps
        (Nat.zero_le page) (by omega) stored
      have same := confined.pages _ ⟨share', finds, page, inside, rfl⟩ (Nat.not_lt.mp user)
      exact ⟨entry, same.symm.trans here, present, maps⟩
  · intro below
    obtain ⟨-, kept⟩ := layout.getSharedObject accessing spaces.recorded below returned
    refine ⟨kept, ?_, nofun⟩
    rintro page ⟨share', finds, index', inside, rfl⟩ kernel
    obtain rfl := only share' finds
    have length : index' < share'.framesStorage.length := by omega
    obtain user | ⟨entry, here, present, frame⟩ := below share' finds index' inside _
      (List.getElem?_eq_getElem length)
    · exact absurd user (Nat.not_lt.mpr kernel)
    · refine (layout.mapStorage_entry accessing maps here present ?_).trans here.symm
      intro other _ upper table place
      obtain rfl := sharePage_inj (by omega) (by omega) table place
      rw [List.getElem?_eq_getElem length, frame]

/-- `SYS_get_virtual_time` stores through its pointers wherever they point. -/
theorem confined_getVirtualTime_iff (layout : shared.Layout)
    (returned : shared.sysGetVirtualTime caller.directory low hi time = .ok (code, stores)) :
    shared.Confined D caller (.getVirtualTime low hi time) stores ↔
      shared.BelowUserTop D caller (.getVirtualTime low hi time) := by
  obtain ⟨-, recorded⟩ := sysGetVirtualTime_spec returned
  constructor
  · intro confined index inside
    exact ⟨confined.stored _ ((recorded _).mpr ⟨index, inside, .inl rfl⟩),
      confined.stored _ ((recorded _).mpr ⟨index, inside, .inr rfl⟩)⟩
  · intro below
    refine ⟨(layout.sysGetVirtualTime returned).2, fun page maps => maps.elim,
      fun address stored => ?_⟩
    obtain ⟨index, inside, rfl | rfl⟩ := (recorded address).mp stored
    · exact (below index inside).1
    · exact (below index inside).2

end SharedMemory

end FosKernel
