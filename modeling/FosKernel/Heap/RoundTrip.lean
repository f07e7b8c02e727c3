import FosKernel.Heap.HeapFrames

/-!
# Virtual and physical addresses of the kernel heap

`kheap_physical_address` and `kheap_virtual_address` over runs that interleave
the calls of the kernel heap with mapping and unmapping user pages. The reverse
map is a field of the frame descriptors, so it is the inverse of the page tables
as long as no frame is handed to the heap while something maps it.
-/

namespace FosKernel

namespace Memory

/-- `kheap_virtual_address`. -/
def kheapVirtualAddress (memory : Memory) (physicalAddress : Nat) : Nat :=
  let frame := memory.frames (physicalAddress / pageSize)
  if frame.kheapMappedVa = 0 then 0
  else add32 frame.kheapMappedVa (physicalAddress % pageSize)

/-- `kheap_physical_address`. -/
def kheapPhysicalAddress (memory : Memory) (virtualAddress : Nat) : Nat :=
  match memory.getFrameInfo kernelDirectory virtualAddress with
  | none => 0
  | some frame => add32 (frame * pageSize) (virtualAddress % pageSize)

/-- Virtual and physical addresses of the page allocator determine each other. -/
structure RoundTrip (memory : Memory) : Prop where
  mapped : ∀ va, kheapPageAllocStart ≤ va → va < kernelHeapMax →
    (memory.translate kernelDirectory va).isSome = true →
      memory.kheapPhysicalAddress va ≠ 0 ∧
        memory.kheapPhysicalAddress va % pageSize = va % pageSize ∧
        memory.kheapVirtualAddress (memory.kheapPhysicalAddress va) = va
  distinct : ∀ va va', kheapPageAllocStart ≤ va → va < kernelHeapMax →
    kheapPageAllocStart ≤ va' → va' < kernelHeapMax →
    (memory.translate kernelDirectory va).isSome = true →
    (memory.translate kernelDirectory va').isSome = true →
      memory.kheapPhysicalAddress va = memory.kheapPhysicalAddress va' → va = va'
  unmapped : ∀ va, kheapPageAllocStart ≤ va → va < kernelHeapMax →
    memory.translate kernelDirectory va = none → memory.kheapPhysicalAddress va = 0

end Memory

/-- The kernel heap, and the frames that are handed out for user pages and not mapped yet. -/
structure HeapManager (β : Type) where
  heap : KHeap β
  pending : Finset Nat

/-- A call of the kernel heap, a call of the memory manager for a user page, or the last part of
`create_page_table`. -/
inductive HeapManagerCall where
  | heap (call : HeapCall)
  | user (call : FrameCall)
  | pageTable (directory va table : Nat)

namespace HeapManager

variable {β : Type}

/-- The memory manager behind the kernel heap. -/
def frames (manager : HeapManager β) : FrameManager := ⟨manager.heap.memory, manager.pending⟩

/-- Replace the memory manager behind the kernel heap. -/
def setFrames (manager : HeapManager β) (frames : FrameManager) : HeapManager β where
  heap := { manager.heap with memory := frames.memory }
  pending := frames.pending

/-- Execute a call; `none` is a kernel panic or a fault. -/
def exec (D : DynAllocator β) (manager : HeapManager β) : HeapManagerCall →
    Option (HeapManager β)
  | .heap call =>
      match manager.heap.exec D call with
      | .error _ => none
      | .ok (_, heap) => some { manager with heap := heap }
  | .user call => (manager.frames.exec call).map manager.setFrames
  | .pageTable directory va table =>
      some (manager.setFrames
        ⟨manager.heap.memory.linkTable directory va table, manager.pending⟩)

/-- The page of a call is a user page, and `map_frame` gets a frame that the heap does not hold. -/
def OfUser (manager : HeapManager β) : FrameCall → Prop
  | .allocateFrame => True
  | .mapFrame directory frame va _ =>
      manager.heap.memory.UserPage directory va ∧ ¬ manager.heap.memory.HeapMaps frame
  | .unmapFrame directory va => manager.heap.memory.UserPage directory va
  | .allocPage _ directory va _ _ => manager.heap.memory.UserPage directory va

/-- The calls that the kernel makes: the heap gets live pointers, user calls are for user pages and
frames outside the heap, and a fresh table is stored where there is none. -/
def Admits (manager : HeapManager β) : HeapManagerCall → Prop
  | .heap call => manager.heap.WordLegal call
  | .user call => manager.OfUser call
  | .pageTable directory va table =>
      manager.heap.memory.getPageTable directory va = none ∧
        manager.heap.memory.FreshTable table

/-- One call that the kernel makes and that returns. -/
def Step (D : DynAllocator β) (manager next : HeapManager β) : Prop :=
  ∃ call, manager.Admits call ∧ manager.exec D call = some next

/-- Mapping a user page needs a frame in use with a reference to spare, and an absent user page is
not unmapped while it is marked buffered. -/
def Counts (manager : HeapManager β) : HeapManagerCall → Prop
  | .user (.mapFrame directory frame va _) =>
      manager.heap.memory.MayMap manager.pending directory frame va
  | .user (.unmapFrame directory va) => manager.frames.Unbuffered (.unmapFrame directory va)
  | _ => True

/-- One call that the kernel makes, that returns and that keeps count of the references. -/
def CountedStep (D : DynAllocator β) (manager next : HeapManager β) : Prop :=
  ∃ call, manager.Admits call ∧ manager.Counts call ∧ manager.exec D call = some next

/-- The size table records runs of pages, the references count the mappings, and the frames of
heap pages are their own. -/
structure Kept (Place : Nat → Prop) (managed : Finset Nat) (manager : HeapManager β) : Prop where
  pagesOnly : ∃ top, manager.heap.PagesOnly top
  addresses : AddressMap Place managed manager.heap.memory manager.pending

/-- A call maps user pages only at addresses with a property. -/
def MapsAt (Place : Nat → Prop) : HeapManagerCall → Prop
  | .user (.mapFrame _ _ va _) => Place va
  | .user (.allocPage _ _ va _ _) => Place va
  | _ => True

variable {D : DynAllocator β} {Place : Nat → Prop} {managed : Finset Nat}
  {manager next : HeapManager β} {call : HeapManagerCall}

/-- Every call that keeps count of the references keeps the frames of heap pages their own. -/
theorem Kept.exec (accessing : D.Accessing) (kept : manager.Kept Place managed)
    (admits : manager.Admits call) (counts : manager.Counts call) (place : MapsAt Place call)
    (executed : manager.exec D call = some next) : next.Kept Place managed := by
  obtain ⟨⟨top, pagesOnly⟩, addresses⟩ := kept
  cases call with
  | heap call =>
      simp only [HeapManager.exec] at executed
      split at executed
      · cases executed
      · rename_i va heap returned
        obtain rfl := Option.some.inj executed
        obtain ⟨top', pagesOnly', moves⟩ := pagesOnly.step ⟨call, va, admits, returned⟩
        exact ⟨⟨top', pagesOnly'⟩, addresses.pageMoves (moves.pageMoves accessing)⟩
  | user call =>
      obtain ⟨frames, returned, rfl⟩ := Option.map_eq_some_iff.mp executed
      refine ⟨⟨top, pagesOnly.congr rfl rfl⟩, ?_⟩
      cases call with
      | allocateFrame =>
          obtain ⟨⟨frame, memory⟩, allocated, rfl⟩ := Option.map_eq_some_iff.mp returned
          exact addresses.allocateFrame allocated
      | mapFrame directory frame va perm =>
          obtain ⟨memory, mapped, rfl⟩ := Option.map_eq_some_iff.mp returned
          exact addresses.mapFrame admits.1 place admits.2 counts mapped
      | unmapFrame directory va =>
          obtain rfl := Option.some.inj returned
          exact addresses.unmapFrame admits counts
      | allocPage cr3 directory va perms setToZero =>
          obtain ⟨⟨memory, code⟩, allocated, rfl⟩ := Option.map_eq_some_iff.mp returned
          exact addresses.allocPage admits place allocated
  | pageTable directory va table =>
      obtain rfl := Option.some.inj executed
      exact ⟨⟨top, pagesOnly.congr rfl rfl⟩, addresses.linkTable admits.1 admits.2⟩

/-- The state after boot: `kheap_init` over the frames of `initialize_paging`. -/
def boot (D : DynAllocator β) (memory : Memory) (kernelEnd numberOfFrames : Nat) :
    HeapManager β :=
  ⟨KHeap.kheapInit D (memory.initializePaging kernelEnd numberOfFrames), ∅⟩

/-- After boot no frame is mapped but those of the dynamic allocator. -/
theorem Kept.initial (accessing : D.Accessing) {memory : Memory} {kernelEnd : Nat}
    (numberOfFrames : Nat) (extended : physExtendedMemFrame ≤ kernelEnd)
    (tables : KernelTables memory) (clean : ∀ slot, memory.tables slot = .zero) :
    (boot D memory kernelEnd numberOfFrames).Kept Place
      (managedFrames kernelEnd numberOfFrames) := by
  obtain ⟨-, -, same, directories, -, reset⟩ :=
    memory.initializePaging_spec numberOfFrames extended
  have absent : ∀ slot, ((memory.initializePaging kernelEnd numberOfFrames).tables slot) =
      .zero := by
    intro slot
    rw [same, clean]
  have frames : HeapFrames Place (managedFrames kernelEnd numberOfFrames)
      (memory.initializePaging kernelEnd numberOfFrames) := by
    refine ⟨tables.congr directories, ?_, ?_, ?_, ?_, ?_⟩
    · intro index _
      rw [heapEntry, absent]
      exact ⟨by decide, fun _ => rfl⟩
    · intro index _ present
      rw [heapEntry, absent] at present
      cases present
    · intro index _ present
      rw [heapEntry, absent] at present
      cases present
    · intro frame member _
      rw [reset frame member]
    · intro frame slot mapper
      have present := mapper.1
      rw [absent] at present
      cases present
  have addresses : AddressMap Place (managedFrames kernelEnd numberOfFrames)
      (memory.initializePaging kernelEnd numberOfFrames) ∅ := by
    refine ⟨FrameInvariant.initial numberOfFrames extended fun slot => ?_, frames⟩
    rw [clean]
    exact ⟨rfl, rfl⟩
  exact ⟨⟨_, KHeap.PagesOnly.initial D _⟩,
    addresses.pageMoves (accessing.initial _).pageMoves⟩

end HeapManager

namespace AddressMap

variable {Place : Nat → Prop} {managed pending : Finset Nat} {kernelEnd numberOfFrames : Nat}
  {memory : Memory} {va index : Nat}

/-- The frame of a present heap page is a managed frame of physical memory. -/
theorem frame_bounds
    (kept : AddressMap Place (managedFrames kernelEnd numberOfFrames) memory pending)
    (extended : physExtendedMemFrame ≤ kernelEnd) (physical : numberOfFrames ≤ 2 ^ 20)
    (present : (heapEntry memory index).present = true) :
    3 ≤ (heapEntry memory index).frame ∧ (heapEntry memory index).frame < 2 ^ 20 := by
  obtain ⟨free, invariant⟩ := kept.counted
  have member := invariant.mapped _ present
  simp only [managedFrames, Finset.mem_union, Finset.mem_Ico] at member
  rw [heapEntry]
  simp only [physIOMemFrame, physExtendedMemFrame, pageSize] at member extended
  omega

/-- The physical address of a heap address by the entry of its page. -/
theorem kheapPhysicalAddress_eq
    (kept : AddressMap Place (managedFrames kernelEnd numberOfFrames) memory pending)
    (extended : physExtendedMemFrame ≤ kernelEnd) (physical : numberOfFrames ≤ 2 ^ 20)
    (lies : roundDown va pageSize = heapVa index) (inside : index < kheapPagesCount) :
    memory.kheapPhysicalAddress va =
      if (heapEntry memory index).present then
        (heapEntry memory index).frame * pageSize + va % pageSize
      else 0 := by
  have located := kept.frames.tables.slot_of_page lies inside
  have held := Memory.getFrameInfo_eq located
  rw [← heapEntry, (kept.frames.clean index inside).holdsFrame] at held
  rw [Memory.kheapPhysicalAddress, held]
  cases present : (heapEntry memory index).present with
  | false => rfl
  | true =>
      have bounds := kept.frame_bounds extended physical present
      simp only [↓reduceIte, add32, pageSize] at *
      omega

/-- A heap address is found again from the frame of its page. -/
theorem kheapVirtualAddress_eq (kept : AddressMap Place managed memory pending)
    (lies : roundDown va pageSize = heapVa index) (inside : index < kheapPagesCount)
    (present : (heapEntry memory index).present = true) :
    memory.kheapVirtualAddress ((heapEntry memory index).frame * pageSize + va % pageSize) =
      va := by
  have recorded := kept.frames.recorded index inside present
  have page : ((heapEntry memory index).frame * pageSize + va % pageSize) / pageSize =
      (heapEntry memory index).frame := by
    simp only [pageSize]
    omega
  have limit : kheapPagesCount = 40959 := by decide
  simp only [Memory.kheapVirtualAddress, page, recorded, if_neg (heapVa_ne_zero index)]
  simp only [add32, roundDown, heapVa, kernelHeapStart, pageSize] at *
  omega

/-- Where the heap pages have frames of their own, virtual and physical addresses determine each
other. -/
theorem roundTrip
    (kept : AddressMap Place (managedFrames kernelEnd numberOfFrames) memory pending)
    (extended : physExtendedMemFrame ≤ kernelEnd) (physical : numberOfFrames ≤ 2 ^ 20) :
    memory.RoundTrip := by
  have start : kernelHeapStart ≤ kheapPageAllocStart := by decide
  have tables := kept.frames.tables
  refine ⟨?_, ?_, ?_⟩
  · intro va lower upper mapped
    obtain ⟨lies, inside⟩ := roundDown_eq_heapVa (Nat.le_trans start lower) upper
    have present := (tables.translate_isSome lies inside).mp mapped
    have bounds := kept.frame_bounds extended physical present
    rw [kept.kheapPhysicalAddress_eq extended physical lies inside, if_pos present]
    refine ⟨?_, ?_, kept.kheapVirtualAddress_eq lies inside present⟩
    · simp only [pageSize]
      omega
    · simp only [pageSize]
      omega
  · intro va va' lower upper lower' upper' mapped mapped' same
    obtain ⟨lies, inside⟩ := roundDown_eq_heapVa (Nat.le_trans start lower) upper
    obtain ⟨lies', inside'⟩ := roundDown_eq_heapVa (Nat.le_trans start lower') upper'
    have present := (tables.translate_isSome lies inside).mp mapped
    have present' := (tables.translate_isSome lies' inside').mp mapped'
    rw [kept.kheapPhysicalAddress_eq extended physical lies inside, if_pos present,
      kept.kheapPhysicalAddress_eq extended physical lies' inside', if_pos present'] at same
    calc va = memory.kheapVirtualAddress _ := (kept.kheapVirtualAddress_eq lies inside present).symm
      _ = memory.kheapVirtualAddress _ := congrArg _ same
      _ = va' := kept.kheapVirtualAddress_eq lies' inside' present'
  · intro va lower upper unmapped
    obtain ⟨lies, inside⟩ := roundDown_eq_heapVa (Nat.le_trans start lower) upper
    rw [kept.kheapPhysicalAddress_eq extended physical lies inside]
    rw [tables.translate_eq lies inside] at unmapped
    split at unmapped
    · cases unmapped
    · rename_i absent
      rw [if_neg absent]

end AddressMap

namespace HeapManager

variable {β : Type}

/-- In every run from boot that keeps count of the references, the virtual and the physical
addresses of the page allocator determine each other in every state. Frame numbers have 20
bits, since physical addresses have 32. -/
theorem roundTrip_of_run (D : DynAllocator β) (accessing : D.Accessing) (memory : Memory)
    (kernelEnd numberOfFrames : Nat) (extended : physExtendedMemFrame ≤ kernelEnd)
    (physical : numberOfFrames ≤ 2 ^ 20) (tables : KernelTables memory)
    (clean : ∀ slot, memory.tables slot = .zero) (manager : HeapManager β)
    (run : Relation.ReflTransGen (CountedStep D) (boot D memory kernelEnd numberOfFrames)
      manager) : manager.heap.memory.RoundTrip := by
  have kept : manager.Kept (fun _ => True) (managedFrames kernelEnd numberOfFrames) := by
    induction run with
    | refl => exact .initial accessing numberOfFrames extended tables clean
    | tail _ step ih =>
        obtain ⟨call, admits, counts, executed⟩ := step
        refine ih.exec accessing admits counts ?_ executed
        cases call with
        | user call => cases call <;> trivial
        | heap call => trivial
        | pageTable directory va table => trivial
  exact kept.addresses.roundTrip extended physical

/-- Only the entry of one user page may be present. -/
structure SinglePage (manager : HeapManager β) (directory va : Nat) (slot : Slot) : Prop where
  lower : va < userTop
  located : manager.heap.memory.slot directory va = some slot
  outside : ∀ index < kheapPagesCount, pageSlot manager.heap.memory index ≠ slot
  single : manager.frames.OnlySlot slot

/-- Calls for this page are calls that the kernel makes. -/
theorem SinglePage.userCalls {D : DynAllocator β} {directory va : Nat} {slot : Slot}
    (calls : List FrameCall) (page : ∀ call ∈ calls, FrameManager.ForPage directory va call) :
    ∀ {manager : HeapManager β} {final : FrameManager}, manager.SinglePage directory va slot →
      calls.foldlM FrameManager.exec manager.frames = some final →
        Relation.ReflTransGen (Step D) manager (manager.setFrames final) := by
  induction calls with
  | nil =>
      intro manager final _ executed
      obtain rfl := Option.some.inj executed
      exact .refl
  | cons call calls ih =>
      intro manager final single executed
      obtain ⟨lower, located, outside, only⟩ := single
      rw [List.foldlM_cons] at executed
      obtain ⟨middle, first, rest⟩ := Option.bind_eq_some_iff.mp executed
      have here := page call List.mem_cons_self
      obtain ⟨directories, elsewhere⟩ := FrameManager.exec_elsewhere here located first
      have single' : (manager.setFrames middle).SinglePage directory va slot := by
        refine ⟨lower, (Memory.slot_congr directories ..).trans located, ?_, ?_⟩
        · intro index inside
          exact (pageSlot_congr directories index).symm ▸ outside index inside
        · intro other different
          exact (congrArg _ (elsewhere other different)).trans (only other different)
      have user : manager.heap.memory.UserPage directory va := ⟨lower, slot, located, outside⟩
      have admits : manager.Admits (.user call) := by
        cases call with
        | allocateFrame => trivial
        | mapFrame directory' frame va' perm =>
            obtain ⟨rfl, rfl⟩ := here
            refine ⟨user, fun ⟨index, inside, present, _⟩ => ?_⟩
            have absent := only _ (outside index inside)
            rw [heapEntry] at present
            exact Bool.false_ne_true (absent.symm.trans present)
        | unmapFrame directory' va' =>
            obtain ⟨rfl, rfl⟩ := here
            exact user
        | allocPage cr3 directory' va' perms setToZero =>
            obtain ⟨rfl, rfl⟩ := here
            exact user
      have run := ih (fun call member => page call (List.mem_cons_of_mem _ member)) single' rest
      refine .head ⟨.user call, admits, ?_⟩ run
      rw [HeapManager.exec, first, Option.map_some]

/-- The blank machine after boot. -/
def blank : HeapManager (List Nat) :=
  boot PageBlocks.allocator Memory.blank physExtendedMemFrame 257

theorem blank_singlePage :
    blank.SinglePage 1 userHeapStart (pdx userHeapStart, ptx userHeapStart) where
  lower := by decide
  located := blankBoot_slot_eq ..
  outside := fun index inside => blankBoot_pageSlot_ne index inside (by decide)
  single := FrameManager.blankBoot_onlySlot _

/-- After `kmalloc` of two pages virtual and physical addresses determine each other. -/
theorem roundTrip_of_run_kmalloc : ∃ manager : HeapManager (List Nat),
    blank.exec PageBlocks.allocator (.heap (.kmalloc 8192)) = some manager ∧
      manager.heap.memory.RoundTrip := by
  have completes : (blank.exec PageBlocks.allocator (.heap (.kmalloc 8192))).isSome = true := by
    decide +kernel
  obtain ⟨manager, executed⟩ := Option.isSome_iff_exists.mp completes
  obtain ⟨-, -, -, directories, -⟩ := Memory.initializePaging_spec Memory.blank 257
    (Nat.le_refl physExtendedMemFrame)
  refine ⟨manager, executed, ?_⟩
  apply roundTrip_of_run PageBlocks.allocator PageBlocks.accessing Memory.blank
    physExtendedMemFrame 257 (Nat.le_refl _) (by decide)
    (blankBoot_kernelTables.1.congr directories.symm) (fun _ => rfl) manager
  have legal : blank.Admits (.heap (.kmalloc 8192)) := show 8192 < 2 ^ 32 by decide
  exact .single ⟨_, legal, trivial, executed⟩

/-- The calls that map a frame, unmap it, and do so again although it is free by then. -/
def reuseCalls : List FrameCall :=
  [.allocateFrame, .mapFrame 1 256 userHeapStart permUser, .unmapFrame 1 userHeapStart,
    .mapFrame 1 256 userHeapStart permUser, .unmapFrame 1 userHeapStart]

/-- A frame that is mapped while it is free comes onto the free frame list twice, so `kmalloc`
maps two pages to it. -/
theorem not_roundTrip_after_reuse : ∃ manager : HeapManager (List Nat),
    Relation.ReflTransGen (Step PageBlocks.allocator) blank manager ∧
      ¬ manager.heap.memory.RoundTrip := by
  have observed : ((reuseCalls.foldlM FrameManager.exec blank.frames).bind fun frames =>
      (blank.setFrames frames).exec PageBlocks.allocator (.heap (.kmalloc 8192))).map
        (fun manager =>
          (manager.heap.memory.kheapPhysicalAddress kheapPageAllocStart ==
              manager.heap.memory.kheapPhysicalAddress (kheapPageAllocStart + pageSize),
            (manager.heap.memory.translate kernelDirectory kheapPageAllocStart).isSome,
            (manager.heap.memory.translate kernelDirectory
              (kheapPageAllocStart + pageSize)).isSome)) = some (true, true, true) := by
    decide +kernel
  obtain ⟨manager, completes, observed⟩ := Option.map_eq_some_iff.mp observed
  obtain ⟨frames, mapped, allocated⟩ := Option.bind_eq_some_iff.mp completes
  obtain ⟨same, observed⟩ := Prod.mk.inj observed
  obtain ⟨first, second⟩ := Prod.mk.inj observed
  refine ⟨manager, ?_, fun roundTrip => ?_⟩
  · have calls : ∀ call ∈ reuseCalls, FrameManager.ForPage 1 userHeapStart call := by
      simp [reuseCalls, FrameManager.ForPage]
    have legal : (blank.setFrames frames).Admits (.heap (.kmalloc 8192)) :=
      show 8192 < 2 ^ 32 by decide
    exact (blank_singlePage.userCalls reuseCalls calls mapped).tail ⟨_, legal, allocated⟩
  · have equal := roundTrip.distinct _ _ (Nat.le_refl _) (by decide) (by decide) (by decide)
      first second (beq_iff_eq.mp same)
    exact absurd equal (by decide)

end HeapManager

end FosKernel
