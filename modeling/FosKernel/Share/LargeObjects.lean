import FosKernel.Share.ObjectSizes

/-!
# An object of more than 2 GiB

On a machine with enough memory, `create_shared_object` creates an object whose size
is too large for an `int` once it is rounded to pages. The object cannot be got, at
whatever free range.
-/

namespace FosKernel

namespace PageBlocks

variable {heap : KHeap (List Nat)} {top size : Nat} {free : List Nat}

/-- The first block takes the last page of the dynamic allocator, and one frame. -/
theorem allocBlock_completes (size : Nat) (wellFormed : heap.WellFormed top)
    (unused : heap.blocks = [])
    (empty : heapEntry heap.memory (blockPages - 1) = .zero)
    (represents : heap.memory.freeFrameList.Represents free) (enough : 0 < free.length) :
    ∃ next, heap.allocBlock allocator size = .ok (heapVa (blockPages - 1), next) ∧
      next.WellFormed top ∧
      ∃ rest, next.memory.freeFrameList.Represents rest ∧ free.length = 1 + rest.length := by
  have upper : blockPages - 1 < kheapPagesCount := by decide
  have clean : (heapEntry heap.memory (blockPages - 1)).Clean := by
    rw [empty]
    exact ⟨by decide, fun _ => rfl⟩
  have absent : (heapEntry heap.memory (blockPages - 1)).present = false := by
    rw [empty]
    decide
  obtain ⟨memory, mapped⟩ :=
    getPage_completes wellFormed.pages.tables upper clean absent represents enough
  obtain ⟨rest, rfl, represents', -⟩ :=
    getPage_takes wellFormed.pages.tables upper clean absent represents mapped
  have page : freePage [] blockPages = some (blockPages - 1) := by
    rw [show blockPages = blockPages - 1 + 1 by decide, freePage, if_neg List.not_mem_nil]
    rfl
  have allocated : heap.allocBlock allocator size = .ok (heapVa (blockPages - 1),
      { heap with memory := memory, blocks := [blockPages - 1] }) := by
    simp only [KHeap.allocBlock, allocator, unused, page, mapped]
    rfl
  exact ⟨_, allocated, wellFormed.allocBlock confined allocated, rest, represents',
    Nat.add_comm ..⟩

end PageBlocks

/-- `map_frame` at a free address frees no frame. -/
theorem Memory.Unmapped.mapFrame_freeFrameList {memory next : Memory} {directory frame va : Nat}
    {perm : Perm} (unmapped : memory.Unmapped directory va)
    (mapped : memory.mapFrame directory frame va perm = some next) :
    next.freeFrameList = memory.freeFrameList := by
  obtain ⟨slot, located, ⟨present, -⟩ | ⟨present, -⟩ | ⟨-, rfl⟩⟩ :=
    mapFrame_cases mapped
  · rw [unmapped.absent (entry_eq located)] at present
    cases present
  · rw [unmapped.absent (entry_eq located)] at present
    cases present
  · rfl

namespace SharedMemory

variable {β : Type} {D : DynAllocator β} {shared : SharedMemory β}
  {directory va index count : Nat} {framesStorage free : List Nat}

/-- The loop of `create_shared_object` ends if the page tables exist and there is a frame for every
page. -/
theorem Layout.placeFrames_completes (framesStorage : List Nat) (accessing : D.Accessing)
    (layout : shared.Layout)
    (fits : index + count ≤ 2 ^ 20) (pages : shared.FreePages directory va index count)
    (linked : ∀ page, index ≤ page → page < index + count →
      (shared.heap.memory.getPageTable directory (sharePage va page)).isSome)
    (represents : shared.heap.memory.freeFrameList.Represents free)
    (enough : count ≤ free.length) :
    ∃ result, shared.placeFrames D directory (sharePage va index) framesStorage index count =
      .ok result := by
  induction count generalizing shared index framesStorage free with
  | zero => exact ⟨_, rfl⟩
  | succ count ih =>
      obtain ⟨frame, memory, allocated⟩ :=
        Memory.allocateFrame_completes represents (Nat.lt_of_lt_of_le (Nat.succ_pos _) enough)
      obtain ⟨rest, rfl, represents', -⟩ := Memory.allocateFrame_cases represents allocated
      obtain ⟨-, directories, -⟩ := Memory.allocateFrame_spec allocated
      have tables := Memory.getPageTable_congr directories
      obtain ⟨taken, -⟩ := layout.allocateFrame allocated directory
      have pages' := pages.allocateFrame allocated
      have linked' : ((shared.setMemory memory).heap.memory.getPageTable directory
          (sharePage va index)).isSome := by
        rw [show (shared.setMemory memory).heap.memory.getPageTable _ _ = _ from tables ..]
        exact linked index (Nat.le_refl _) (by omega)
      have table := ensurePageTable_of_linked (D := D) linked'
      obtain ⟨after, mapped⟩ := taken.mapFrame_completes frame
        (permUser ||| permPresent ||| permWriteable) accessing table
      obtain ⟨ready, table', installed⟩ := mapFrame_eq_ok mapped
      obtain rfl := Except.ok.inj (table.symm.trans table')
      obtain ⟨layout', -⟩ := taken.mapFrame accessing mapped
      obtain ⟨same, -⟩ := Memory.mapFrame_others installed
      obtain ⟨-, unmapped⟩ := pages' index (Nat.le_refl _) (by omega)
      have list := unmapped.mapFrame_freeFrameList installed
      have linked'' : ∀ page, index + 1 ≤ page → page < index + 1 + count →
          (after.heap.memory.getPageTable directory (sharePage va page)).isSome := by
        intro page lower upper
        rw [Memory.getPageTable_congr (same.trans directories)]
        exact linked page (by omega) (by omega)
      obtain ⟨result, placed⟩ := ih (framesStorage.set index frame) layout'
        (by omega) (pages'.mapFrame accessing taken fits mapped) linked'' (list ▸ represents')
        (Nat.le_of_succ_le_succ enough)
      refine ⟨result, ?_⟩
      rw [SharedMemory.placeFrames, allocated]
      rw [← sharePage_succ] at placed
      exact bind_eq_ok.mpr ⟨after, mapped, placed⟩

/-- `alloc_share` on a heap without allocations, for a size that needs a run of pages for the
frames. -/
theorem allocShare_completes {heap : KHeap (List Nat)} {size : Nat}
    (contents shareName : List UInt8) (ownerId : BitVec 32) (isWritable : UInt8)
    (wellFormed : heap.WellFormed firstPage) (unused : heap.blocks = [])
    (empty : heapEntry heap.memory (blockPages - 1) = .zero)
    (represents : heap.memory.freeFrameList.Represents free)
    (storage : pagesOf size = 524288) (enough : 513 ≤ free.length) :
    ∃ share next,
      allocShare PageBlocks.allocator heap contents ownerId shareName size isWritable =
        .ok (some share, next) ∧
      ∃ rest, next.memory.freeFrameList.Represents rest ∧ free.length = 513 + rest.length := by
  have room : ∀ {other : KHeap (List Nat)}, other.WellFormed firstPage → ∀ bytes,
      pagesOf bytes ≤ 512 → other.FitsAbove bytes := by
    intro other wellFormed bytes few
    have above : firstPage + 512 ≤ kheapPagesCount := by decide
    rw [wellFormed.fitsAbove_iff, wellFormed.sub32_break]
    refine Nat.not_lt.mpr (Nat.mul_le_mul_right _ ?_)
    omega
  obtain ⟨first, block, kept, rest, represents', length⟩ :=
    PageBlocks.allocBlock_completes sizeofShare wellFormed unused empty represents
      (by omega)
  have call : heap.kmalloc PageBlocks.allocator sizeofShare =
      .ok (heapVa (blockPages - 1), first) :=
    (wellFormed.kmalloc_of_block (room wellFormed _ (by decide)) (by decide) (by decide)).trans
      block
  have bytes : pagesOf (524288 * 4) = 512 := by decide
  have gapless : ¬ first.HasGap (pagesOf (524288 * 4)) := by
    rintro ⟨index, lower, upper, -⟩
    rw [kept.break_eq, heapVa_le_iff, bytes] at upper
    omega
  obtain ⟨second, call', -, -, -, last, represents'', length'⟩ :=
    kept.kmalloc_extends (D := PageBlocks.allocator) (room kept _ (by decide)) (by decide)
      (by decide) gapless represents' (by omega)
  have stored : allocFramesStorage PageBlocks.allocator first (pagesOf size) =
      .ok (some (List.replicate 524288 0), second) := by
    rw [storage, allocFramesStorage, if_neg (by decide)]
    exact bind_eq_ok.mpr ⟨_, call', if_neg (heapVa_ne_zero firstPage)⟩
  refine ⟨⟨heapVa (blockPages - 1) % 2 ^ 28, ownerId,
    strncpy contents shareName (shareNameLength - 1), size, 1, isWritable,
    List.replicate 524288 0⟩, second, ?_, last, represents'', by omega⟩
  refine bind_eq_ok.mpr ⟨_, call, (if_neg (heapVa_ne_zero _)).trans ?_⟩
  exact bind_eq_ok.mpr ⟨_, stored, rfl⟩

/-- `create_shared_object` returns the id of the share whose frames it placed. -/
theorem createSharedObject_completes {shared placed : SharedMemory β}
    (overrun : Nat → List UInt8) {contents shareName : List UInt8} {ownerId : BitVec 32}
    {size : Nat} {isWritable : UInt8}
    {share : Share} {heap : KHeap β}
    (untaken : shared.findShare overrun ownerId shareName = none)
    (allocated : allocShare D shared.heap contents ownerId shareName size isWritable =
      .ok (some share, heap))
    (stored : placeFrames D { shared with heap := heap } directory va share.framesStorage 0
      (pagesOf size) = .ok (framesStorage, placed)) :
    ∃ after, shared.createSharedObject D overrun contents directory ownerId shareName size
      isWritable va = .ok (share.id, after) := by
  refine ⟨{ placed with
    sharesList := placed.sharesList ++ [{ share with framesStorage := framesStorage }] }, ?_⟩
  unfold createSharedObject
  rw [untaken, if_neg (by decide)]
  exact bind_eq_ok.mpr ⟨_, allocated, bind_eq_ok.mpr ⟨_, stored, rfl⟩⟩

/-- Page tables of the kernel part that all directories share, and of all user pages for two
environments. -/
def tabledMemory : Memory :=
  { Memory.blank with
    directories := fun directory index =>
      if pdx userTop ≤ index then some index
      else if directory = 1 ∨ directory = 2 then some (1024 * directory + index) else none }

/-- The memory of a machine with these page tables and 600000 frames. -/
def wideMemory : Memory := tabledMemory.initializePaging physExtendedMemFrame 600000

/-- The state after boot on this machine. -/
def wideShared : SharedMemory (List Nat) :=
  boot PageBlocks.allocator tabledMemory physExtendedMemFrame 600000 3072

theorem wideShared_heap : wideShared.heap = KHeap.kheapInit PageBlocks.allocator wideMemory := rfl

theorem wideShared_memory : wideShared.heap.memory = wideMemory := by
  rw [wideShared_heap, KHeap.kheapInit_memory]

theorem tabledMemory_table {directory va table : Nat}
    (linked : tabledMemory.getPageTable directory va = some table) :
    (pdx userTop ≤ pdx va ∧ table = pdx va) ∨
      pdx va < pdx userTop ∧ (directory = 1 ∨ directory = 2) ∧
        table = 1024 * directory + pdx va := by
  unfold Memory.getPageTable tabledMemory at linked
  dsimp only at linked
  split at linked
  · rename_i kernel
    exact .inl ⟨kernel, (Option.some.inj linked).symm⟩
  · rename_i user
    split at linked
    · rename_i known
      exact .inr ⟨Nat.not_le.mp user, known, (Option.some.inj linked).symm⟩
    · cases linked

theorem pdx_lt (va : Nat) : pdx va < 1024 := Nat.mod_lt _ (by decide)

theorem tabledMemory_unlinked {table : Nat} (above : 3072 ≤ table) (directory va : Nat) :
    tabledMemory.getPageTable directory va ≠ some table := by
  intro linked
  have bound := pdx_lt va
  obtain ⟨-, rfl⟩ | ⟨-, rfl | rfl, rfl⟩ := tabledMemory_table linked <;> omega

theorem tabledMemory_separate {directory other va va' table : Nat}
    (linked : tabledMemory.getPageTable directory va = some table)
    (linked' : tabledMemory.getPageTable other va' = some table) :
    pdx va = pdx va' ∧ (pdx va < pdx userTop → directory = other) := by
  have bound := pdx_lt va
  have bound' := pdx_lt va'
  obtain ⟨kernel, rfl⟩ | ⟨user, known, rfl⟩ := tabledMemory_table linked <;>
    obtain ⟨kernel', same⟩ | ⟨user', known', same⟩ := tabledMemory_table linked' <;>
    refine ⟨?_, fun _ => ?_⟩ <;> omega

theorem tabledMemory_linked {directory va : Nat} (known : directory = 1 ∨ directory = 2) :
    (tabledMemory.getPageTable directory va).isSome := by
  unfold Memory.getPageTable tabledMemory
  dsimp only
  rw [if_pos known]
  split <;> rfl

theorem wideShared_addressSpaces :
    wideShared.AddressSpaces (managedFrames physExtendedMemFrame 600000) :=
  .boot PageBlocks.accessing (Nat.le_refl _) (fun _ => rfl)
    (fun _ above => tabledMemory_unlinked above) fun _ _ _ _ _ => tabledMemory_separate

/-- No page is mapped, and the page tables are those from before boot. -/
theorem wideMemory_spec : wideMemory.directories = tabledMemory.directories ∧
    (∀ slot, wideMemory.tables slot = .zero) ∧
    ∃ free, wideMemory.freeFrameList.Represents free ∧ 599000 ≤ free.length := by
  obtain ⟨free, represents, tables, directories, listed, -⟩ :=
    tabledMemory.initializePaging_spec 600000 (Nat.le_refl physExtendedMemFrame)
  have clean : ∀ slot, wideMemory.tables slot = .zero := by
    intro slot
    rw [wideMemory, tables]
    rfl
  refine ⟨directories, clean, free, represents, ?_⟩
  have subset : Finset.Ico physExtendedMemFrame 600000 ⊆ free.toFinset := by
    intro frame member
    rw [List.mem_toFinset, listed]
    exact Finset.mem_union_right _ member
  have card := (Finset.card_le_card subset).trans free.toFinset_card_le
  rw [Nat.card_Ico] at card
  exact Nat.le_trans (by decide) card

theorem wideMemory_unmapped (directory va : Nat) : wideMemory.Unmapped directory va := by
  cases here : wideMemory.entry directory va with
  | none =>
      rw [Memory.Unmapped, Memory.pagePerm_of_missing here]
      decide
  | some entry =>
      obtain ⟨slot, -, rfl⟩ := Option.map_eq_some_iff.mp here
      rw [Memory.Unmapped, Memory.pagePerm_of_entry here, wideMemory_spec.2.1]
      decide

theorem wideMemory_linked {directory : Nat} (known : directory = 1 ∨ directory = 2) (va : Nat) :
    (wideMemory.getPageTable directory va).isSome := by
  rw [Memory.getPageTable_congr wideMemory_spec.1]
  exact tabledMemory_linked known

theorem wideMemory_heapEntry (index : Nat) : heapEntry wideMemory index = .zero := by
  rw [heapEntry, wideMemory_spec.2.1]

theorem wideMemory_kernelTables : KernelTables wideMemory := by
  have limit : kheapPagesCount = 40959 := by decide
  have slot : ∀ index < kheapPagesCount, wideMemory.slot kernelDirectory (heapVa index) =
      some (pdx (heapVa index), ptx (heapVa index)) := by
    intro index inside
    have kernel : pdx userTop ≤ pdx (heapVa index) := by
      unfold pdx userTop heapVa kernelHeapStart pageSize
      omega
    rw [Memory.slot_congr wideMemory_spec.1]
    unfold Memory.slot Memory.getPageTable tabledMemory
    dsimp only
    rw [if_pos kernel, Option.map_some]
  refine ⟨fun index inside => ⟨_, slot index inside⟩, ?_⟩
  intro first inside second inside' same
  rw [slot first inside, slot second inside', Option.some.injEq, Prod.mk.injEq] at same
  simp only [pdx, ptx, heapVa, kernelHeapStart, pageSize] at same
  omega

theorem wideShared_unmapped (directory va : Nat) :
    wideShared.heap.memory.Unmapped directory va := by
  rw [wideShared_memory]
  exact wideMemory_unmapped directory va

theorem wideShared_linked {directory : Nat} (known : directory = 1 ∨ directory = 2) (va : Nat) :
    ∃ table, wideShared.heap.memory.getPageTable directory va = some table := by
  rw [wideShared_memory]
  exact Option.isSome_iff_exists.mp (wideMemory_linked known va)

theorem wideShared_wellFormed : wideShared.heap.WellFormed firstPage := by
  rw [wideShared_heap]
  exact .initial PageBlocks.confined wideMemory_kernelTables fun index _ _ =>
    wideMemory_heapEntry index

/-- The size of the object, and the user address of its creator. -/
def largeSize : BitVec 32 := 0x7FFFF001
def largeVa : BitVec 32 := 0x00800000

theorem pagesOf_largeSize : pagesOf largeSize.toNat = 524288 := by decide

theorem freeRange_of_unmapped {shared : SharedMemory β} {directory : Nat}
    (unmapped : ∀ va, va < userTop → shared.heap.memory.Unmapped directory va) :
    shared.FreeRange directory largeVa largeSize := by
  have size : largeSize.toNat = 0x7FFFF001 := rfl
  have va : largeVa.toNat = 0x00800000 := rfl
  refine ⟨by decide, by decide, fun page inside => unmapped _ ?_⟩
  unfold userTop
  omega

/-- The call that creates the object. -/
def createLarge : Except Halt (Int × SharedMemory (List Nat)) :=
  wideShared.createSharedObject PageBlocks.allocator (fun _ => []) (List.replicate 64 0) 1 2048 [97]
    largeSize.toNat 1 largeVa.toNat

/-- There is enough memory to create the object. -/
theorem createLarge_completes : ∃ id after, 0 ≤ id ∧ createLarge = .ok (id, after) := by
  obtain ⟨-, -, free, represents, enough⟩ := wideMemory_spec
  have layout := wideShared_addressSpaces.layout
  obtain ⟨share, next, allocated, rest, represents', length⟩ :=
    allocShare_completes (List.replicate 64 0) [97] 2048 1 wideShared_wellFormed rfl
      (by rw [wideShared_memory]; exact wideMemory_heapEntry _)
      (by rwa [wideShared_memory]) pagesOf_largeSize (by omega)
  obtain ⟨layout', kept⟩ := layout.allocShare PageBlocks.accessing allocated 1
  have range : FreeRange { wideShared with heap := next } 1 largeVa largeSize := by
    have before : wideShared.FreeRange 1 largeVa largeSize :=
      freeRange_of_unmapped fun va _ => wideShared_unmapped 1 va
    exact before.of_entry fun directory va user =>
      layout.allocShare_entry PageBlocks.accessing allocated directory user
  have fits : 0 + pagesOf largeSize.toNat ≤ 2 ^ 20 := by
    rw [pagesOf_largeSize]
    decide
  have linked : ∀ page, 0 ≤ page → page < 0 + pagesOf largeSize.toNat →
      (next.memory.getPageTable 1 (sharePage largeVa.toNat page)).isSome := by
    intro page _ _
    obtain ⟨table, before⟩ := wideShared_linked (.inl rfl) (sharePage largeVa.toNat page)
    exact Option.isSome_iff_exists.mpr ⟨table, kept.linked _ _ before⟩
  obtain ⟨⟨framesStorage, placed⟩, stored⟩ :=
    layout'.placeFrames_completes share.framesStorage PageBlocks.accessing fits
      range.freePages linked represents' (by rw [pagesOf_largeSize]; omega)
  rw [sharePage_zero largeVa.isLt] at stored
  obtain ⟨after, created⟩ := createSharedObject_completes (fun _ => []) rfl allocated stored
  exact ⟨share.id, after, Int.natCast_nonneg _, created⟩

end SharedMemory

namespace SharingLog

open SharedMemory

/-- The creation of the object. -/
def largeObject (id : Int) : SharedObject where
  creation :=
    { ownerId := 2048
      name := [97]
      contents := List.replicate 64 0
      terminated := pageName_terminated
      sized := pageName_sized }
  size := largeSize
  isWritable := 1
  directory := 1
  va := largeVa
  id := id

/-- An object of `0x7FFFF001` bytes that was created is not got, at a free range and with all page
tables there. -/
theorem not_getReturns_large : ∃ log : SharingLog (List Nat), ∃ id,
    Relation.ReflTransGen (Step PageBlocks.allocator) ⟨wideShared, [], []⟩ log ∧
      (largeObject id).size = 0x7FFFF001 ∧
      log.Gets PageBlocks.allocator (largeObject id) 2 largeVa ∧
      ∀ overrun, ¬ log.GetReturns PageBlocks.allocator overrun (largeObject id) 2 largeVa := by
  obtain ⟨id, after, succeeded, created⟩ := createLarge_completes
  have free : wideShared.FreeRange 1 largeVa largeSize :=
    freeRange_of_unmapped fun va _ => wideShared_unmapped 1 va
  have short : (largeObject id).creation.name.length < shareNameLength - 1 := by
    change 1 < 63
    decide
  have step := @Step.create _ PageBlocks.allocator ⟨wideShared, [], []⟩ (fun _ => [])
    (largeObject id) after short free created
  rw [if_pos (show 0 ≤ (largeObject id).id from succeeded)] at step
  have run := Relation.ReflTransGen.single step
  have sharing := Sharing.of_run PageBlocks.accessing wideShared_addressSpaces rfl run
  have below : ∀ index < pagesOf largeSize.toNat,
      sharePage largeVa.toNat index < userTop := by
    intro index inside
    obtain ⟨same, user⟩ := free.page inside
    rwa [same]
  obtain ⟨-, kept⟩ := wideShared_addressSpaces.layout.createSharedObject PageBlocks.accessing
    (fun _ => below) created
  have other : ∀ va, va < userTop → after.heap.memory.Unmapped 2 va := by
    intro va user
    refine Memory.SamePage.unmapped (.of_entry ?_) (wideShared_unmapped 2 va)
    refine (kept.entries 2 va (Nat.lt_trans user (by decide)) (.inl (by decide))).resolve_right ?_
    rintro ⟨⟨lower, -⟩, -⟩
    have kernel : userTop ≤ kernelHeapStart := by decide
    omega
  have range := freeRange_of_unmapped other
  have gets : Gets PageBlocks.allocator ⟨after, [] ++ [largeObject id], []⟩ (largeObject id) 2
      largeVa := by
    refine ⟨List.mem_cons_self, range, fun index share _ _ page inside middle mapped => ?_⟩
    have fits : 0 + page ≤ 2 ^ 20 := by
      have bound := pagesOf_le (largeObject id).size.toNat
      omega
    obtain ⟨-, kept'⟩ := sharing.layout.mapStorage PageBlocks.accessing fits
      (fun earlier _ upper frame _ => .inl (below earlier (by
        change page < pagesOf largeSize.toNat at inside
        omega))) mapped
    obtain ⟨table, before⟩ := wideShared_linked (.inr rfl) (sharePage largeVa.toNat page)
    have during := (kept.tables 2 _ (sharePage_lt ..) (.inl (by decide))).trans before
    exact ⟨middle, ensurePageTable_of_linked
      (Option.isSome_iff_exists.mpr ⟨table, kept'.linked _ _ during⟩)⟩
  refine ⟨_, id, run, rfl, gets, fun overrun returns => ?_⟩
  have small := (sharing.getReturns_iff PageBlocks.accessing gets).mp returns
  change largeSize.toNat ≤ 0x7FFFF000 at small
  exact absurd small (by decide)

end SharingLog

end FosKernel
