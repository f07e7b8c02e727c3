import FosKernel.Heap.Consistency

/-!
# Freeing a page allocation

`kfree` of what `kmalloc` has just returned restores the heap: the size table, the
break, the present pages and the set of free frames. The frames that `get_page`
takes from the free list have one reference each, and `return_page` puts every
one of them back.
-/

namespace FosKernel

section Frames

variable {memory next : Memory} {index count : Nat} {free : List Nat}

/-- The frames of consecutive heap pages. -/
def pageFrames (memory : Memory) (index count : Nat) : List Nat :=
  (List.range' index count).map fun page => (heapEntry memory page).frame

theorem pageFrames_succ (memory : Memory) (index count : Nat) :
    pageFrames memory index (count + 1) =
      (heapEntry memory index).frame :: pageFrames memory (index + 1) count := rfl

/-- Frames of pages whose entries are the same. -/
theorem pageFrames_congr (same : ∀ page, index ≤ page → page < index + count →
    heapEntry next page = heapEntry memory page) :
    pageFrames next index count = pageFrames memory index count := by
  apply List.map_congr_left
  intro page member
  obtain ⟨above, below⟩ := List.mem_range'_1.mp member
  rw [same page above below]

/-- `get_page` for an absent page takes the first free frame, with one reference. -/
theorem getPage_takes (tables : KernelTables memory) (upper : index < kheapPagesCount)
    (clean : (heapEntry memory index).Clean) (absent : (heapEntry memory index).present = false)
    (represents : memory.freeFrameList.Represents free)
    (mapped : getPage memory (heapVa index) = .ok next) :
    ∃ rest, free = (heapEntry next index).frame :: rest ∧ next.freeFrameList.Represents rest ∧
      (next.frames (heapEntry next index).frame).references = 1 ∧
      ∀ frame, frame ≠ (heapEntry next index).frame →
        (next.frames frame).references = (memory.frames frame).references := by
  obtain ⟨present, -⟩ | ⟨-, frame, taken, took, rfl⟩ :=
    getPage_cases tables upper clean mapped
  · rw [absent] at present
    cases present
  · obtain ⟨rest, rfl, represents', frames⟩ := Memory.allocateFrame_cases represents took
    obtain ⟨-, directories, -⟩ := Memory.allocateFrame_spec took
    have entry : (heapEntry (taken.installFrame (pageSlot memory index) frame (heapVa index)
        permWriteable) index).frame = frame := by
      have same : (taken.installFrame (pageSlot memory index) frame (heapVa index)
          permWriteable).directories = memory.directories := directories
      rw [heapEntry, pageSlot_congr same, Memory.installFrame_tables, Function.update_self]
    rw [entry]
    refine ⟨rest, rfl, represents', ?_, fun other different => ?_⟩
    · rw [Memory.installFrame_references, if_pos rfl, frames, Function.update_self]
      rfl
    · rw [Memory.installFrame_references, if_neg different, frames,
        Function.update_of_ne different]

/-- `get_page` for consecutive absent pages takes the first free frames, with one reference
each. -/
theorem getPages_takes (pages : HeapPages memory) (lower : firstPage ≤ index)
    (upper : index + count ≤ kheapPagesCount)
    (absent : ∀ page, index ≤ page → page < index + count →
      (heapEntry memory page).present = false)
    (represents : memory.freeFrameList.Represents free)
    (mapped : getPages memory (heapVa index) count = .ok next) :
    ∃ rest, free = pageFrames next index count ++ rest ∧ next.freeFrameList.Represents rest ∧
      (∀ frame ∈ pageFrames next index count, (next.frames frame).references = 1) ∧
      ∀ frame, frame ∉ pageFrames next index count →
        (next.frames frame).references = (memory.frames frame).references := by
  induction count generalizing memory index free with
  | zero =>
      obtain rfl := Except.ok.inj mapped
      exact ⟨free, rfl, represents, fun frame member => absurd member List.not_mem_nil,
        fun _ _ => rfl⟩
  | succ count ih =>
      obtain ⟨middle, first, others⟩ := bind_eq_ok.mp mapped
      rw [add32_heapVa_one (by omega)] at others
      obtain ⟨pages₁, -, -, same₁⟩ := getPage_pages pages lower (by omega) first
      obtain ⟨rest₁, rfl, represents₁, single, kept₁⟩ :=
        getPage_takes pages.tables (by omega) (pages.clean index lower (by omega))
          (absent index (Nat.le_refl _) (by omega)) represents first
      have absent₁ : ∀ page, index + 1 ≤ page → page < index + 1 + count →
          (heapEntry middle page).present = false := by
        intro page above below
        rw [same₁ page (by omega) (by omega)]
        exact absent page (by omega) (by omega)
      obtain ⟨rest, rfl, represents', singles, kept⟩ :=
        ih pages₁ (by omega) (by omega) absent₁ represents₁ others
      have same : heapEntry next index = heapEntry middle index :=
        (getPages_pages pages₁ (by omega) (by omega) others).2.2.2 index (by omega) (by omega)
      have outside : (heapEntry middle index).frame ∉ pageFrames next (index + 1) count := by
        intro member
        exact (List.nodup_cons.mp represents.nodup).1 (List.mem_append_left rest member)
      rw [pageFrames_succ, same]
      refine ⟨rest, rfl, represents', ?_, ?_⟩
      · intro frame member
        rcases List.mem_cons.mp member with rfl | member
        · rw [kept _ outside, single]
        · exact singles frame member
      · intro frame unlisted
        obtain ⟨different, unlisted⟩ := List.ne_and_not_mem_of_not_mem_cons unlisted
        rw [kept frame unlisted, kept₁ frame different]

/-- `allocate_frame` completes while a frame is free. -/
theorem Memory.allocateFrame_completes (represents : memory.freeFrameList.Represents free)
    (enough : 0 < free.length) : ∃ frame next, memory.allocateFrame = some (frame, next) := by
  have first := represents.first_eq
  rw [List.head?_eq_some_head (List.ne_nil_of_length_pos enough)] at first
  rw [Memory.allocateFrame, first]
  exact ⟨_, _, rfl⟩

/-- `get_page` for an absent page completes while a frame is free. -/
theorem getPage_completes (tables : KernelTables memory) (upper : index < kheapPagesCount)
    (clean : (heapEntry memory index).Clean) (absent : (heapEntry memory index).present = false)
    (represents : memory.freeFrameList.Represents free) (enough : 0 < free.length) :
    ∃ next, getPage memory (heapVa index) = .ok next := by
  have located := tables.slot_eq upper
  have empty : (memory.tables (pageSlot memory index)).holdsFrame = false := by
    rw [← heapEntry, clean.holdsFrame, absent]
  have unheld : memory.getFrameInfo kernelDirectory (heapVa index) = none := by
    rw [Memory.getFrameInfo_eq located, empty, if_neg Bool.false_ne_true]
  obtain ⟨frame, taken, took⟩ := Memory.allocateFrame_completes represents enough
  obtain ⟨tables, directories, -⟩ := Memory.allocateFrame_spec took
  have located' : taken.slot kernelDirectory (heapVa index) = some (pageSlot memory index) := by
    rw [Memory.slot_congr directories, located]
  have absent' : (taken.tables (pageSlot memory index)).present = false := by
    rw [tables]
    exact absent
  refine ⟨taken.installFrame (pageSlot memory index) frame (heapVa index) permWriteable, ?_⟩
  simp only [getPage, roundDown_heapVa, Memory.allocPage, unheld, took,
    Memory.mapFrame_of_not_present located' absent', Bool.false_eq_true, ↓reduceIte]

/-- `get_page` for consecutive absent pages completes while there are frames for them. -/
theorem getPages_completes (pages : HeapPages memory) (lower : firstPage ≤ index)
    (upper : index + count ≤ kheapPagesCount)
    (absent : ∀ page, index ≤ page → page < index + count →
      (heapEntry memory page).present = false)
    (represents : memory.freeFrameList.Represents free) (enough : count ≤ free.length) :
    ∃ next, getPages memory (heapVa index) count = .ok next := by
  induction count generalizing memory index free with
  | zero => exact ⟨memory, rfl⟩
  | succ count ih =>
      have here := absent index (Nat.le_refl _) (by omega)
      have clean := pages.clean index lower (by omega)
      obtain ⟨middle, first⟩ :=
        getPage_completes pages.tables (by omega) clean here represents (by omega)
      obtain ⟨pages₁, -, -, same₁⟩ := getPage_pages pages lower (by omega) first
      obtain ⟨rest, rfl, represents₁, -⟩ :=
        getPage_takes pages.tables (by omega) clean here represents first
      have absent₁ : ∀ page, index + 1 ≤ page → page < index + 1 + count →
          (heapEntry middle page).present = false := by
        intro page above below
        rw [same₁ page (by omega) (by omega)]
        exact absent page (by omega) (by omega)
      obtain ⟨next, others⟩ := ih pages₁ (by omega) (by omega) absent₁ represents₁
        (Nat.le_of_succ_le_succ enough)
      refine ⟨next, ?_⟩
      rw [getPages, first, add32_heapVa_one (by omega)]
      exact others

/-- `return_page` puts the frame of a present page with one reference in front of the free
ones. -/
theorem returnPage_gives (pages : HeapPages memory) (lower : firstPage ≤ index)
    (upper : index < kheapPagesCount) (present : (heapEntry memory index).present = true)
    (represents : memory.freeFrameList.Represents free)
    (outside : (heapEntry memory index).frame ∉ free)
    (single : (memory.frames (heapEntry memory index).frame).references = 1) :
    (returnPage memory (heapVa index)).freeFrameList.Represents
        ((heapEntry memory index).frame :: free) ∧
      ∀ frame, frame ≠ (heapEntry memory index).frame →
        (returnPage memory (heapVa index)).frames frame = memory.frames frame := by
  have holds : (memory.tables (pageSlot memory index)).holdsFrame = true := by
    rw [← heapEntry, (pages.clean index lower upper).holdsFrame, present]
  rw [returnPage, roundDown_heapVa,
    Memory.unmapFrame_of_holdsFrame (pages.tables.slot_eq upper) holds, ← heapEntry,
    Memory.decrementReferences_of_one single]
  refine ⟨Memory.freeFrame_represents represents outside, fun frame different => ?_⟩
  exact Function.update_of_ne different ..

/-- `return_page` for consecutive present pages puts all their frames on the free list. -/
theorem returnPages_gives (pages : HeapPages memory) (lower : firstPage ≤ index)
    (upper : index + count ≤ kheapPagesCount)
    (present : ∀ page, index ≤ page → page < index + count →
      (heapEntry memory page).present = true)
    (represents : memory.freeFrameList.Represents free)
    (distinct : (pageFrames memory index count ++ free).Nodup)
    (singles : ∀ frame ∈ pageFrames memory index count, (memory.frames frame).references = 1) :
    ∃ free', (returnPages memory (heapVa index) count).freeFrameList.Represents free' ∧
      free'.Perm (pageFrames memory index count ++ free) := by
  induction count generalizing memory index free with
  | zero => exact ⟨free, represents, .refl _⟩
  | succ count ih =>
      rw [returnPages, add32_heapVa_one (by omega)]
      rw [pageFrames_succ] at distinct singles ⊢
      have unlisted := (List.nodup_cons.mp distinct).1
      obtain ⟨pages₁, -, -, same₁⟩ := returnPage_pages pages lower (by omega)
      obtain ⟨represents₁, kept⟩ := returnPage_gives pages lower (by omega)
        (present index (Nat.le_refl _) (by omega)) represents
        (fun member => unlisted (List.mem_append_right _ member))
          (singles _ (List.mem_cons_self ..))
      have frames : pageFrames (returnPage memory (heapVa index)) (index + 1) count =
          pageFrames memory (index + 1) count :=
        pageFrames_congr fun page above below => same₁ page (by omega) (by omega)
      have present₁ : ∀ page, index + 1 ≤ page → page < index + 1 + count →
          (heapEntry (returnPage memory (heapVa index)) page).present = true := by
        intro page above below
        rw [same₁ page (by omega) (by omega)]
        exact present page (by omega) (by omega)
      have singles₁ : ∀ frame ∈ pageFrames (returnPage memory (heapVa index))
        (index + 1) count,
          ((returnPage memory (heapVa index)).frames frame).references = 1 := by
        intro frame member
        rw [frames] at member
        rw [kept frame fun same => unlisted (List.mem_append_left _ (same ▸ member))]
        exact singles frame (List.mem_cons_of_mem _ member)
      have distinct₁ : (pageFrames (returnPage memory (heapVa index)) (index + 1) count ++
          (heapEntry memory index).frame :: free).Nodup := by
        rw [frames]
        exact List.perm_middle.nodup_iff.mpr distinct
      obtain ⟨free', represents', perm⟩ :=
        ih pages₁ (by omega) (by omega) present₁ represents₁
        distinct₁ singles₁
      rw [frames] at perm
      exact ⟨free', represents', perm.trans List.perm_middle⟩

end Frames

namespace KHeap

variable {β : Type} {D : DynAllocator β} {heap next : KHeap β} {top top' : Nat}

/-- The break of a well-formed heap is where its last run ends. -/
theorem WellFormed.break_unique (wellFormed : heap.WellFormed top) (kept : next.WellFormed top')
    (sizes : next.kallocationSizes = heap.kallocationSizes) :
    next.kheapPageAllocBreak = heap.kheapPageAllocBreak := by
  have lengths : next.runLength = heap.runLength := by
    funext index
    rw [runLength, runLength, sizes]
  have lower := wellFormed.firstPage_le
  have lower' := kept.firstPage_le
  have same : top' = top := by
    rcases Nat.lt_trichotomy top' top with less | same | greater
    · have covered := wellFormed.tight.resolve_left (by omega)
      rw [← lengths] at covered
      have below := (kept.packed.bounds covered).2
      omega
    · exact same
    · have covered := kept.tight.resolve_left (by omega)
      rw [lengths] at covered
      have below := (wellFormed.packed.bounds covered).2
      omega
  rw [wellFormed.break_eq, kept.break_eq, same]

/-- What `kfree` restores: the size table, the break, the mapped heap pages and the set of free
frames. -/
structure Restored (heap freed : KHeap β) : Prop where
  sizes : freed.kallocationSizes = heap.kallocationSizes
  brk : freed.kheapPageAllocBreak = heap.kheapPageAllocBreak
  blocks : freed.blocks = heap.blocks
  mapped : ∀ va, kernelHeapStart ≤ va → va < kernelHeapMax →
    ((freed.memory.translate kernelDirectory va).isSome = true ↔
      (heap.memory.translate kernelDirectory va).isSome = true)
  frames : ∀ free, heap.memory.freeFrameList.Represents free →
    ∃ free', freed.memory.freeFrameList.Represents free' ∧ ∀ frame,
      frame ∈ free' ↔ frame ∈ free

/-- A page allocation takes free frames and leaves the directories alone. -/
theorem WellFormed.kmalloc_takes (wellFormed : heap.WellFormed top) {size va : Nat}
    (large : dynAllocMaxBlockSize < size) (small : size ≤ 2 ^ 32 - pageSize) {free : List Nat}
    (represents : heap.memory.freeFrameList.Represents free)
    (returned : heap.kmalloc D size = .ok (va, next)) :
    next.memory.directories = heap.memory.directories ∧
      ∃ free', next.memory.freeFrameList.Represents free' := by
  obtain ⟨-, rfl⟩ | ⟨-, block, -⟩ | ⟨-, index, top', space, raised, top_le,
      tight, allocated⟩ :=
    wellFormed.kmalloc_cases returned
  · exact ⟨rfl, free, represents⟩
  · exact absurd block (Nat.not_le.mpr large)
  · obtain ⟨-, -, -, -, mapped⟩ :=
      wellFormed.allocatePages space raised top_le large small tight allocated
    have upper := Nat.le_trans space.upper top_le
    obtain ⟨rest, -, represents', -⟩ := getPages_takes wellFormed.pages space.lower upper
      (wellFormed.absent_of_space space upper) represents mapped
    exact ⟨getPages_directories mapped, rest, represents'⟩

/-- **`kfree` undoes a page allocation of `kmalloc`, and a second `kfree` does nothing.** -/
theorem kfree_undoes_kmalloc (D : DynAllocator β) (heap next : KHeap β) (top size va : Nat)
    (wellFormed : heap.WellFormed top) (large : dynAllocMaxBlockSize < size)
    (small : size ≤ kernelHeapMax - kernelHeapStart)
    (returned : heap.kmalloc D size = .ok (va, next)) (nonnull : va ≠ 0) :
    ∃ freed, next.kfree D va = .ok freed ∧ heap.Restored freed ∧
      freed.kfree D va = .ok freed := by
  have bound : kernelHeapMax - kernelHeapStart ≤ 2 ^ 32 - pageSize := by decide
  have small' := Nat.le_trans small bound
  obtain ⟨null, -⟩ | ⟨-, block, -⟩ | ⟨-, index, top', space, raised, top_le,
      tight, allocated⟩ :=
    wellFormed.kmalloc_cases returned
  · exact absurd null nonnull
  · exact absurd block (Nat.not_le.mpr large)
  obtain ⟨rfl, kept, sizes, blocks, mapped⟩ :=
    wellFormed.allocatePages space raised top_le large small' tight allocated
  have lower := space.lower
  have upper := Nat.le_trans space.upper top_le
  have unrecorded : heap.kallocationSizes index = 0 := by
    by_contra recorded
    have positive := pagesOf_pos (Nat.lt_of_le_of_lt (Nat.zero_le _) large) small'
    have covered : Runs.Covered heap.runLength index :=
      ⟨index, Nat.le_refl _, Nat.lt_add_of_pos_right (wellFormed.runLength_pos recorded)⟩
    exact space.free index (Nat.le_refl _) (Nat.lt_add_of_pos_right positive) covered
  have recorded : next.kallocationSizes index ≠ 0 := by
    rw [sizes, Function.update_self]
    omega
  have length : next.runLength index = pagesOf size := by
    rw [runLength, sizes, Function.update_self]
  obtain ⟨freed, top'', released, kept', sizes', memory, blocks'⟩ :=
    kept.kfree_recorded D recorded
  rw [length] at memory
  have restored : freed.kallocationSizes = heap.kallocationSizes := by
    rw [sizes', sizes, Function.update_idem, Function.update_eq_self_iff, unrecorded]
  obtain ⟨pages₁, -, present₁, same₁⟩ :=
    getPages_pages wellFormed.pages lower upper mapped
  obtain ⟨pages₂, -, absent₂, same₂⟩ := returnPages_pages pages₁ lower upper
  rw [← memory] at pages₂ absent₂ same₂
  have absent := wellFormed.absent_of_space space upper
  refine ⟨freed, released, ⟨restored, wellFormed.break_unique kept' restored,
    blocks'.trans blocks, ?_, ?_⟩, ?_⟩
  · intro address above below
    obtain ⟨lies, inside⟩ := roundDown_eq_heapVa above below
    rw [pages₂.tables.translate_isSome lies inside,
      wellFormed.pages.tables.translate_isSome lies inside]
    by_cases here : index ≤ kvaToIndex address ∧ kvaToIndex address < index + pagesOf size
    · rw [absent₂ _ here.1 here.2, absent _ here.1 here.2]
    · rw [same₂ _ inside here, same₁ _ inside here]
  · intro free represents
    obtain ⟨rest, rfl, represents', singles, -⟩ :=
      getPages_takes wellFormed.pages lower upper absent represents mapped
    obtain ⟨free', represents'', perm⟩ :=
      returnPages_gives pages₁ lower upper present₁ represents'
      represents.nodup singles
    rw [← memory] at represents''
    exact ⟨free', represents'', fun frame => perm.mem_iff⟩
  · have heapAddress : ¬ (heapVa index < kernelHeapStart ∨ kernelHeapMax ≤ heapVa index) := by
      have inside : index < kheapPagesCount := by
        have positive := pagesOf_pos (Nat.lt_of_le_of_lt (Nat.zero_le _) large) small'
        omega
      rw [← heapVa_kheapPagesCount, heapVa_le_iff]
      simp only [heapVa]
      omega
    have free : freed.kallocationSizes (kvaToIndex (heapVa index)) = 0 := by
      rw [kvaToIndex_heapVa (by omega), restored, unrecorded]
    simp only [KHeap.kfree, if_neg (heapVa_ne_zero index), if_neg heapAddress, free, if_true]

/-- On a blank machine, `kfree` undoes a `kmalloc` of 5000 bytes. -/
theorem kfree_undoes_kmalloc_blank : ∃ (next freed : KHeap (List Nat)),
    PageBlocks.blankHeap.kmalloc PageBlocks.allocator 5000 = .ok (heapVa firstPage, next) ∧
      next.kfree PageBlocks.allocator (heapVa firstPage) = .ok freed ∧
      PageBlocks.blankHeap.Restored freed := by
  have completes : (PageBlocks.blankHeap.kmalloc PageBlocks.allocator 5000).map Prod.fst =
      .ok (heapVa firstPage) := by decide +kernel
  cases returned : PageBlocks.blankHeap.kmalloc PageBlocks.allocator 5000 with
  | error halt =>
      rw [returned] at completes
      cases completes
  | ok result =>
      obtain ⟨va, next⟩ := result
      rw [returned] at completes
      obtain rfl : va = heapVa firstPage := Except.ok.inj completes
      obtain ⟨freed, released, restored, -⟩ := kfree_undoes_kmalloc PageBlocks.allocator _ next
        firstPage 5000 _ PageBlocks.blankHeap_wellFormed (by decide) (by decide) returned
        (heapVa_ne_zero _)
      exact ⟨next, freed, rfl, released, restored⟩

end KHeap

end FosKernel
