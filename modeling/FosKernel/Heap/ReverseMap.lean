import FosKernel.Heap.RoundTrip

/-!
# The reverse map and user pages

`map_frame` records the virtual address of every mapping in the frame's
descriptor, also when the page is a user page. So `kheap_virtual_address` answers
for frames that the kernel heap does not map, and it is right for a frame exactly
when no user page maps this frame.
-/

namespace FosKernel

/-- What `kheap_virtual_address` should give for the addresses of a frame. -/
structure Memory.ReverseSound (memory : Memory) (frame : Nat) : Prop where
  inside : ∀ pa, pa / pageSize = frame → memory.kheapVirtualAddress pa ≠ 0 →
    kernelHeapStart ≤ memory.kheapVirtualAddress pa ∧
      memory.kheapVirtualAddress pa < kernelHeapMax ∧
      memory.kheapPhysicalAddress (memory.kheapVirtualAddress pa) = pa
  unmapped : ¬ memory.HeapMaps frame → ∀ pa, pa / pageSize = frame →
    memory.kheapVirtualAddress pa = 0

/-- A user page maps a frame: an entry that is no heap page's. -/
def Memory.UserMaps (memory : Memory) (frame : Nat) : Prop :=
  ∃ slot ∈ mappers memory.tables frame, ∀ index < kheapPagesCount,
    pageSlot memory index ≠ slot

/-- An address at which a user page may be mapped, other than 0. -/
def UserAddress (va : Nat) : Prop := 0 < va ∧ va < userTop

namespace AddressMap

variable {managed pending : Finset Nat} {kernelEnd numberOfFrames : Nat} {memory : Memory}
  {frame : Nat}

/-- A frame without recorded address gives no virtual address. -/
theorem kheapVirtualAddress_eq_zero (address : (memory.frames frame).kheapMappedVa = 0)
    {pa : Nat} (lies : pa / pageSize = frame) : memory.kheapVirtualAddress pa = 0 := by
  simp only [Memory.kheapVirtualAddress, lies, address, ↓reduceIte]

/-- A frame that no user page maps is held by one heap page, or records no address. -/
theorem reverseSound_of_not_userMaps
    (kept : AddressMap UserAddress (managedFrames kernelEnd numberOfFrames) memory pending)
    (extended : physExtendedMemFrame ≤ kernelEnd) (physical : numberOfFrames ≤ 2 ^ 20)
    (member : frame ∈ managedFrames kernelEnd numberOfFrames)
    (unmapped : ¬ memory.UserMaps frame) : memory.ReverseSound frame := by
  by_cases held : memory.HeapMaps frame
  · refine ⟨?_, fun free => absurd held free⟩
    intro pa lies _
    obtain ⟨index, below, present, rfl⟩ := held
    have recorded := kept.frames.recorded index below present
    have limit : kheapPagesCount = 40959 := by decide
    have answer : memory.kheapVirtualAddress pa = heapVa index + pa % pageSize := by
      simp only [Memory.kheapVirtualAddress, lies, recorded, if_neg (heapVa_ne_zero index)]
      simp only [add32, heapVa, kernelHeapStart, pageSize]
      omega
    have page : roundDown (heapVa index + pa % pageSize) pageSize = heapVa index := by
      simp only [roundDown, heapVa, kernelHeapStart, pageSize]
      omega
    have offset : (heapVa index + pa % pageSize) % pageSize = pa % pageSize := by
      simp only [heapVa, kernelHeapStart, pageSize]
      omega
    rw [answer, kept.kheapPhysicalAddress_eq extended physical page below, if_pos present, offset,
      ← lies]
    refine ⟨?_, ?_, Nat.div_add_mod' pa pageSize⟩
    · exact Nat.le_trans (kernelHeapStart_le_heapVa index) (Nat.le_add_right _ _)
    · rw [← heapVa_kheapPagesCount]
      simp only [heapVa, pageSize]
      omega
  · have empty : mappers memory.tables frame = ∅ := by
      rw [Set.eq_empty_iff_forall_notMem]
      intro slot mapper
      apply unmapped
      refine ⟨slot, mapper, fun index below same => held ⟨index, below, ?_⟩⟩
      rw [heapEntry, same]
      exact mapper
    have address := kept.frames.unmapped frame member empty
    have null : ∀ pa, pa / pageSize = frame → memory.kheapVirtualAddress pa = 0 :=
      fun pa lies => kheapVirtualAddress_eq_zero address lies
    exact ⟨fun pa lies nonzero => absurd (null pa lies) nonzero, fun _ => null⟩

/-- A frame that a user page maps records an address below the kernel heap. -/
theorem not_reverseSound_of_userMaps (kept : AddressMap UserAddress managed memory pending)
    (mapped : memory.UserMaps frame) : ¬ memory.ReverseSound frame := by
  intro sound
  obtain ⟨slot, mapper, outside⟩ := mapped
  obtain ⟨positive, lower⟩ := kept.frames.user frame slot mapper outside
  have lies : frame * pageSize / pageSize = frame := Nat.mul_div_cancel frame (by decide)
  have first : frame * pageSize % pageSize = 0 := Nat.mul_mod_left frame pageSize
  have answer : memory.kheapVirtualAddress (frame * pageSize) =
      (memory.frames frame).kheapMappedVa := by
    simp only [Memory.kheapVirtualAddress, lies, first, if_neg (Nat.ne_of_gt positive)]
    simp only [add32, userTop] at *
    omega
  have heap := (sound.inside _ lies (answer ▸ Nat.ne_of_gt positive)).1
  rw [answer] at heap
  simp only [kernelHeapStart, userTop] at *
  omega

end AddressMap

namespace HeapManager

variable {β : Type}

/-- One call that the kernel makes, that returns, that keeps count of the references and that maps
no user page at address 0. -/
def NonzeroStep (D : DynAllocator β) (manager next : HeapManager β) : Prop :=
  ∃ call, manager.Admits call ∧ manager.Counts call ∧ MapsAt (0 < ·) call ∧
    manager.exec D call = some next

/-- In every run from boot that keeps count of the references and maps no user page at address
0, `kheap_virtual_address` is right for a frame exactly when no user page maps the frame. -/
theorem reverseSound_iff_of_run (D : DynAllocator β) (accessing : D.Accessing) (memory : Memory)
    (kernelEnd numberOfFrames : Nat) (extended : physExtendedMemFrame ≤ kernelEnd)
    (physical : numberOfFrames ≤ 2 ^ 20) (tables : KernelTables memory)
    (clean : ∀ slot, memory.tables slot = .zero) (manager : HeapManager β)
    (run : Relation.ReflTransGen (NonzeroStep D) (boot D memory kernelEnd numberOfFrames) manager)
    (frame : Nat) (member : frame ∈ managedFrames kernelEnd numberOfFrames) :
    manager.heap.memory.ReverseSound frame ↔ ¬ manager.heap.memory.UserMaps frame := by
  have kept : manager.Kept UserAddress (managedFrames kernelEnd numberOfFrames) := by
    induction run with
    | refl => exact .initial accessing numberOfFrames extended tables clean
    | tail _ step ih =>
        obtain ⟨call, admits, counts, nonzero, executed⟩ := step
        refine ih.exec accessing admits counts ?_ executed
        cases call with
        | heap call => trivial
        | pageTable directory va table => trivial
        | user call =>
            cases call with
            | allocateFrame => trivial
            | mapFrame directory frame va perm => exact ⟨nonzero, admits.1.1⟩
            | unmapFrame directory va => trivial
            | allocPage cr3 directory va perms setToZero => exact ⟨nonzero, admits.1⟩
  constructor
  · exact fun sound mapped => kept.addresses.not_reverseSound_of_userMaps mapped sound
  · exact kept.addresses.reverseSound_of_not_userMaps extended physical member

/-- The frames of a page of the kernel heap and of none are answered for. -/
theorem reverseSound_iff_of_run_kmalloc : ∃ manager : HeapManager (List Nat),
    blank.exec PageBlocks.allocator (.heap (.kmalloc 8192)) = some manager ∧
      ∀ frame ∈ managedFrames physExtendedMemFrame 257,
        (manager.heap.memory.ReverseSound frame ↔ ¬ manager.heap.memory.UserMaps frame) := by
  have completes : (blank.exec PageBlocks.allocator (.heap (.kmalloc 8192))).isSome = true := by
    decide +kernel
  obtain ⟨manager, executed⟩ := Option.isSome_iff_exists.mp completes
  obtain ⟨-, -, -, directories, -⟩ := Memory.initializePaging_spec Memory.blank 257
    (Nat.le_refl physExtendedMemFrame)
  refine ⟨manager, executed, ?_⟩
  apply reverseSound_iff_of_run PageBlocks.allocator PageBlocks.accessing Memory.blank
    physExtendedMemFrame 257 (Nat.le_refl _) (by decide)
    (blankBoot_kernelTables.1.congr directories.symm) (fun _ => rfl) manager
  have legal : blank.Admits (.heap (.kmalloc 8192)) := show 8192 < 2 ^ 32 by decide
  exact .single ⟨_, legal, trivial, trivial, executed⟩

/-- The calls by which `page_fault_handler` places a page of user mode. -/
def placeCalls : List FrameCall :=
  [.allocateFrame, .mapFrame 1 256 userHeapStart (permUser ||| permPresent ||| permWriteable)]

/-- For the frame of a user page `kheap_virtual_address` gives the user address. -/
theorem not_reverseSound_of_user_page : ∃ manager : HeapManager (List Nat),
    Relation.ReflTransGen (Step PageBlocks.allocator) blank manager ∧
      256 ∈ managedFrames physExtendedMemFrame 257 ∧
      manager.heap.memory.kheapVirtualAddress (256 * pageSize) = userHeapStart ∧
      ¬ manager.heap.memory.ReverseSound 256 := by
  have observed : (placeCalls.foldlM FrameManager.exec blank.frames).map (fun frames =>
      frames.memory.kheapVirtualAddress (256 * pageSize)) = some userHeapStart := by
    decide +kernel
  obtain ⟨frames, completes, answer⟩ := Option.map_eq_some_iff.mp observed
  have calls : ∀ call ∈ placeCalls, FrameManager.ForPage 1 userHeapStart call := by
    simp [placeCalls, FrameManager.ForPage]
  refine ⟨blank.setFrames frames, blank_singlePage.userCalls placeCalls calls completes,
    Finset.mem_union_right _ (Finset.mem_Ico.mpr ⟨by decide, by decide⟩), answer,
    fun sound => ?_⟩
  have lies : 256 * pageSize / pageSize = 256 := by decide
  have nonzero : frames.memory.kheapVirtualAddress (256 * pageSize) ≠ 0 := by
    rw [answer]
    decide
  have heap : kernelHeapStart ≤ frames.memory.kheapVirtualAddress (256 * pageSize) :=
    (sound.inside _ lies nonzero).1
  rw [answer] at heap
  exact absurd heap (by decide)

end HeapManager

end FosKernel
