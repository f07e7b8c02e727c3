import FosKernel.Heap.AllocateFree
import FosKernel.Proc.UserKernStack

/-!
# The release of a kernel stack

`delete_user_kern_stack`. For each page of the stack it calls `unmap_frame`, which
frees the frame with its last reference, and then `free_frame` for the same frame,
which links the first free frame to itself.
-/

namespace FosKernel

namespace Memory

/-- One round of the loop of `delete_user_kern_stack`. -/
def deleteStackPage (memory : Memory) (directory va : Nat) : Memory :=
  match memory.getFrameInfo directory va with
  | none => memory
  | some frame => (memory.unmapFrame directory va).freeFrame frame

/-- The loop of `delete_user_kern_stack`. -/
def deleteStackPages (memory : Memory) (directory vaStart : Nat) : Nat → Memory
  | 0 => memory
  | count + 1 =>
      (memory.deleteStackPage directory vaStart).deleteStackPages directory
        (add32 vaStart pageSize) count

/-- The frames that the pages of a kernel stack hold. -/
def stackFrames (memory : Memory) (directory kstack : Nat) : List Nat :=
  (List.range (kernelStackSize / pageSize)).filterMap fun page =>
    memory.getFrameInfo directory (kstack + page * pageSize)

end Memory

namespace KHeap

variable {β : Type}

/-- `delete_user_kern_stack`, with the new value of `kstack`. -/
def deleteUserKernStack (D : DynAllocator β) (heap : KHeap β) (directory kstack : Nat) :
    Except Halt (Nat × KHeap β) :=
  if kstack = 0 then .ok (0, heap)
  else do
    let vaEnd := add32 kstack kernelStackSize
    let memory := heap.memory.deleteStackPages directory kstack ((vaEnd - kstack) / pageSize)
    let heap ← ({ heap with memory := memory } : KHeap β).kfree D kstack
    return (0, heap)

/-- A block of the kernel heap serves as kernel stack: its guard page is not present and holds a
frame still, the other pages are present, and every page has a frame of its own with one
reference. -/
structure LiveStack (heap : KHeap β) (directory index : Nat) : Prop where
  recorded : heap.kallocationSizes index = kernelStackSize
  inside : index + kernelStackSize / pageSize ≤ kheapPagesCount
  guard : ∃ entry ∈ heap.memory.entry directory (heapVa index),
    entry.present = false ∧ entry.frame ≠ 0
  pages : ∀ page < kernelStackSize / pageSize, page ≠ 0 →
    ∃ entry ∈ heap.memory.entry directory (heapVa (index + page)), entry.present = true
  single : ∀ page < kernelStackSize / pageSize,
    ∀ entry ∈ heap.memory.entry directory (heapVa (index + page)),
      Perm.has entry.perm permBuffered = false ∧ (heap.memory.frames entry.frame).references = 1
  own : ∀ page < kernelStackSize / pageSize, ∀ page' < kernelStackSize / pageSize,
    ∀ entry ∈ heap.memory.entry directory (heapVa (index + page)),
      ∀ entry' ∈ heap.memory.entry directory (heapVa (index + page')),
        entry.frame = entry'.frame → page = page'

instance (heap : KHeap β) (directory index : Nat) : Decidable (heap.LiveStack directory index) :=
  decidable_of_iff (_ ∧ _ ∧ _ ∧ _ ∧ _ ∧ _)
    ⟨fun both => ⟨both.1, both.2.1, both.2.2.1, both.2.2.2.1, both.2.2.2.2.1, both.2.2.2.2.2⟩,
      fun live => ⟨live.recorded, live.inside, live.guard, live.pages, live.single, live.own⟩⟩

/-- The kernel stack is deleted: its frames are free, each once, its block is recorded no more, no
other page changed, and `kstack` is `NULL`. -/
structure StackDeleted (heap next : KHeap β) (directory index kstack : Nat) : Prop where
  frames : ∀ free, heap.memory.freeFrameList.Represents free →
    ∃ free', next.memory.freeFrameList.Represents free' ∧
      free'.Perm (heap.memory.stackFrames directory (heapVa index) ++ free)
  block : next.kallocationSizes = Function.update heap.kallocationSizes index 0
  others : ∀ other va, va < 2 ^ 32 →
    ¬ (heapVa index ≤ va ∧ va < heapVa index + kernelStackSize) →
      next.memory.entry other va = heap.memory.entry other va
  null : kstack = 0

end KHeap

namespace Memory

variable {memory : Memory} {directory va frame index count page : Nat} {slot : Slot}

@[simp] theorem deleteStackPage_directories (memory : Memory) (directory va : Nat) :
    (memory.deleteStackPage directory va).directories = memory.directories := by
  unfold deleteStackPage
  split
  · rfl
  · rw [freeFrame_directories, unmapFrame_directories]

@[simp] theorem deleteStackPages_directories (memory : Memory) (directory va count : Nat) :
    (memory.deleteStackPages directory va count).directories = memory.directories := by
  induction count generalizing memory va with
  | zero => rfl
  | succ count ih => rw [deleteStackPages, ih, deleteStackPage_directories]

/-- A round unmaps its page. -/
theorem deleteStackPage_tables (located : memory.slot directory va = some slot) :
    (memory.deleteStackPage directory va).tables = Function.update memory.tables slot
      (if (memory.tables slot).holdsFrame then (memory.tables slot).unmapped
        else memory.tables slot) := by
  rw [← unmapFrame_tables located, deleteStackPage, getFrameInfo_eq located]
  cases holds : (memory.tables slot).holdsFrame with
  | true => rfl
  | false =>
      rw [unmapFrame_of_not_holdsFrame located holds]
      rfl

/-- A round counts no references of other frames. -/
theorem deleteStackPage_frames (located : memory.slot directory va = some slot)
    (different : frame ≠ (memory.tables slot).frame) :
    (memory.deleteStackPage directory va).frames frame = memory.frames frame := by
  rw [deleteStackPage, getFrameInfo_eq located]
  cases holds : (memory.tables slot).holdsFrame with
  | false => rfl
  | true =>
      simp only [if_true, unmapFrame_of_holdsFrame located holds, freeFrame, initializeFrameInfo,
        setEntry, decrementReferences, setReferences, Function.update_of_ne different]
      split
      · simp only [Function.update_of_ne different]
      · simp only [Function.update_of_ne different]

/-- The first free frame is its own successor. -/
def Looped (memory : Memory) : Prop :=
  ∃ frame, memory.freeFrameList.first = some frame ∧
    memory.freeFrameList.next frame = some frame

/-- A round on a page whose frame has one reference frees the frame twice. -/
theorem deleteStackPage_looped (located : memory.slot directory va = some slot)
    (holds : (memory.tables slot).holdsFrame = true)
    (single : (memory.frames (memory.tables slot).frame).references = 1) :
    (memory.deleteStackPage directory va).Looped := by
  rw [deleteStackPage, getFrameInfo_eq located, holds]
  refine ⟨_, freeFrame_first .., freeFrame_of_first _ ?_⟩
  rw [unmapFrame_of_holdsFrame located holds, decrementReferences_of_one single]
  exact freeFrame_first ..

end Memory

namespace KHeap

section Stack

variable {memory : Memory} {directory index count page : Nat}
  (shares : SharesHeap memory directory) (tables : KernelTables memory)
include shares tables

/-- The directory has the kernel's entry for a heap page. -/
theorem SharesHeap.slot_eq (inside : page < kheapPagesCount) :
    memory.slot directory (heapVa page) = some (pageSlot memory page) := by
  rw [← tables.slot_eq inside, Memory.slot, Memory.slot, shares.shared page inside]

/-- A round changes the entry of its page only. -/
theorem deleteStackPage_entry (inside : index < kheapPagesCount)
    (inside' : page < kheapPagesCount) :
    heapEntry (memory.deleteStackPage directory (heapVa index)) page =
      if page = index then
        if (heapEntry memory index).holdsFrame then (heapEntry memory index).unmapped
        else heapEntry memory index
      else heapEntry memory page :=
  tables.heapEntry_update inside inside' (Memory.deleteStackPage_directories ..)
    (Memory.deleteStackPage_tables (shares.slot_eq tables inside))

/-- The loop changes no entry outside its pages. -/
theorem deleteStackPages_outside (upper : index + count ≤ kheapPagesCount)
    (inside : page < kheapPagesCount) (outside : page < index ∨ index + count ≤ page) :
    heapEntry (memory.deleteStackPages directory (heapVa index) count) page =
      heapEntry memory page := by
  induction count generalizing memory index with
  | zero => rfl
  | succ count ih =>
      have within : index < kheapPagesCount := by omega
      rw [Memory.deleteStackPages, add32_heapVa_one within,
        ih (shares.congr (Memory.deleteStackPage_directories ..))
          (tables.congr (Memory.deleteStackPage_directories ..))
          (by omega) (by omega),
        deleteStackPage_entry shares tables within inside, if_neg (by omega)]

/-- The loop frees the frame of its last page twice. -/
theorem deleteStackPages_looped (upper : index + (count + 1) ≤ kheapPagesCount)
    (holds : (heapEntry memory (index + count)).holdsFrame = true)
    (single : (memory.frames (heapEntry memory (index + count)).frame).references = 1)
    (own : ∀ page, index ≤ page → page < index + count →
      (heapEntry memory page).frame ≠ (heapEntry memory (index + count)).frame) :
    (memory.deleteStackPages directory (heapVa index) (count + 1)).Looped := by
  induction count generalizing memory index with
  | zero => exact Memory.deleteStackPage_looped (shares.slot_eq tables (by omega)) holds single
  | succ count ih =>
      have within : index < kheapPagesCount := by omega
      have located := shares.slot_eq tables within
      have kept : ∀ page, index + 1 ≤ page → page < kheapPagesCount →
          heapEntry (memory.deleteStackPage directory (heapVa index)) page =
            heapEntry memory page := by
        intro page above inside
        rw [deleteStackPage_entry shares tables within inside, if_neg (by omega)]
      have last : index + 1 + count = index + (count + 1) := by omega
      rw [Memory.deleteStackPages, add32_heapVa_one within]
      apply ih (shares.congr (Memory.deleteStackPage_directories ..))
          (tables.congr (Memory.deleteStackPage_directories ..))
        (by omega)
      · rw [kept _ (by omega) (by omega), last]
        exact holds
      · rw [kept _ (by omega) (by omega), last]
        rw [Memory.deleteStackPage_frames located fun same =>
          own index (Nat.le_refl _) (by omega) same.symm]
        exact single
      · intro page above below
        rw [kept _ (by omega) (by omega), kept _ (by omega) (by omega), last]
        exact own page (by omega) (by omega)

/-- After the loop no page of it holds a frame. -/
theorem deleteStackPages_unmaps (upper : index + count ≤ kheapPagesCount)
    (unbuffered : ∀ page, index ≤ page → page < index + count →
      Perm.has (heapEntry memory page).perm permBuffered = false)
    (lower : index ≤ page) (below : page < index + count) :
    (heapEntry (memory.deleteStackPages directory (heapVa index) count) page).holdsFrame =
      false := by
  induction count generalizing memory index with
  | zero => omega
  | succ count ih =>
      have within : index < kheapPagesCount := by omega
      have directories := Memory.deleteStackPage_directories memory directory (heapVa index)
      have shares' := shares.congr directories
      have tables' := tables.congr directories
      rw [Memory.deleteStackPages, add32_heapVa_one within]
      by_cases first : page = index
      · subst first
        rw [deleteStackPages_outside shares' tables' (by omega) within (by omega),
          deleteStackPage_entry shares tables within within, if_pos rfl]
        cases holds : (heapEntry memory page).holdsFrame with
        | false => exact holds
        | true =>
            have regular := unbuffered page (Nat.le_refl _) below
            rw [if_pos rfl, PageTableEntry.holdsFrame, PageTableEntry.unmapped, Perm.has_and,
              show permAvailable &&& (permPresent ||| permBuffered) =
                permBuffered by decide, regular]
            rfl
      · refine ih shares' tables' (by omega) (fun other above under => ?_) (by omega) (by omega)
        rw [deleteStackPage_entry shares tables within (by omega), if_neg (by omega)]
        exact unbuffered other (by omega) (by omega)

end Stack

variable {D : DynAllocator β} {heap next : KHeap β} {memory : Memory}
  {directory index count kstack : Nat}

/-- `return_page` does nothing for pages that hold no frame. -/
theorem returnPages_eq_self (tables : KernelTables memory)
    (upper : index + count ≤ kheapPagesCount)
    (empty : ∀ page, index ≤ page → page < index + count →
      (heapEntry memory page).holdsFrame = false) :
    returnPages memory (heapVa index) count = memory := by
  induction count generalizing index with
  | zero => rfl
  | succ count ih =>
      have within : index < kheapPagesCount := by omega
      have first : returnPage memory (heapVa index) = memory := by
        rw [returnPage, roundDown_heapVa]
        exact Memory.unmapFrame_of_not_holdsFrame (tables.slot_eq within)
          (empty index (Nat.le_refl _) (by omega))
      rw [returnPages, first, add32_heapVa_one within]
      exact ih (by omega) fun page above below => empty page (by omega) (by omega)

/-- `kfree` of a block of unmapped pages changes no memory. -/
theorem kfree_unmapped (tables : KernelTables heap.memory)
    (recorded : heap.kallocationSizes index = kernelStackSize)
    (inside : index + kernelStackSize / pageSize ≤ kheapPagesCount)
    (empty : ∀ page, index ≤ page → page < index + kernelStackSize / pageSize →
      (heapEntry heap.memory page).holdsFrame = false)
    (freed : heap.kfree D (heapVa index) = .ok next) : next.memory = heap.memory := by
  have pages : pagesOf kernelStackSize = kernelStackSize / pageSize := by decide
  have positive : 0 < kernelStackSize / pageSize := by decide
  have within : index < kheapPagesCount := by omega
  have heapAddress : ¬ (heapVa index < kernelHeapStart ∨ kernelHeapMax ≤ heapVa index) := by
    rw [← heapVa_kheapPagesCount, heapVa_le_iff]
    simp only [heapVa]
    omega
  rw [kfree, if_neg (heapVa_ne_zero index), if_neg heapAddress,
    kvaToIndex_heapVa (Nat.le_of_lt within), recorded, if_neg (by decide), if_neg (by decide),
    freePages] at freed
  obtain ⟨brk, -, rest⟩ := bind_eq_ok.mp freed
  obtain rfl := Except.ok.inj rest
  change returnPages heap.memory (heapVa index) (pagesOf kernelStackSize) = heap.memory
  rw [pages]
  exact returnPages_eq_self tables inside empty

/-- **`delete_user_kern_stack` never deletes a live kernel stack: it leaves the free frame list with
a frame that is its own successor.** -/
theorem not_stackDeleted (D : DynAllocator β) (heap next : KHeap β) (directory index kstack : Nat)
    (shares : SharesHeap heap.memory directory) (tables : KernelTables heap.memory)
    (live : heap.LiveStack directory index)
    (listed : ∃ free, heap.memory.freeFrameList.Represents free)
    (returned : heap.deleteUserKernStack D directory (heapVa index) = .ok (kstack, next)) :
    ¬ heap.StackDeleted next directory index kstack := by
  have eight : kernelStackSize / pageSize = 7 + 1 := by decide
  have upper := live.inside
  rw [eight] at upper
  have rounds : (add32 (heapVa index) kernelStackSize - heapVa index) / pageSize = 7 + 1 := by
    rw [← eight, show kernelStackSize = kernelStackSize / pageSize * pageSize by decide,
      add32_heapVa live.inside, heapVa, heapVa]
    rw [eight]
    unfold pageSize
    omega
  have entries : ∀ page < 8, heap.memory.entry directory (heapVa (index + page)) =
      some (heapEntry heap.memory (index + page)) := fun page below =>
    Memory.entry_eq (shares.slot_eq tables (by omega))
  have holds : (heapEntry heap.memory (index + 7)).holdsFrame = true := by
    obtain ⟨entry, here, present⟩ := live.pages 7 (by decide) (by decide)
    obtain rfl := Option.some.inj ((entries 7 (by decide)).symm.trans here)
    exact PageTableEntry.holdsFrame_of_present present
  have looped := deleteStackPages_looped shares tables upper holds
    (live.single 7 (by decide) _ (entries 7 (by decide))).2 (by
      intro page above below same
      obtain ⟨offset, rfl⟩ := Nat.exists_eq_add_of_le above
      have equal := live.own offset (by omega) 7 (by decide) _ (entries offset (by omega)) _
        (entries 7 (by decide)) same
      omega)
  have empty : ∀ page, index ≤ page → page < index + kernelStackSize / pageSize →
      (heapEntry (heap.memory.deleteStackPages directory (heapVa index) (7 + 1)) page).holdsFrame =
        false := by
    intro page above below
    refine deleteStackPages_unmaps shares tables upper (fun other above below => ?_) above below
    obtain ⟨offset, rfl⟩ := Nat.exists_eq_add_of_le above
    exact (live.single offset (by omega) _ (entries offset (by omega))).1
  rw [deleteUserKernStack, if_neg (heapVa_ne_zero index)] at returned
  obtain ⟨freed, released, rest⟩ := bind_eq_ok.mp returned
  obtain ⟨-, rfl⟩ := Prod.mk.inj (Except.ok.inj rest)
  rw [rounds] at released
  have same : freed.memory =
      heap.memory.deleteStackPages directory (heapVa index) (7 + 1) := by
    refine kfree_unmapped ?_ ?_ live.inside ?_ released
    · exact tables.congr (Memory.deleteStackPages_directories ..)
    · exact live.recorded
    · exact empty
  intro deleted
  obtain ⟨free, represents⟩ := listed
  obtain ⟨free', represents', -⟩ := deleted.frames free represents
  obtain ⟨frame, first, loop⟩ := looped
  rw [same] at represents'
  exact IntrusiveList.not_represents_of_loop first loop free' represents'

/-- On a blank machine, a block with its bottom page guarded is a live kernel stack. -/
theorem exists_liveStack (test : KHeap (List Nat) → Bool)
    (passes : Returns (PageBlocks.blankHeap.kmalloc PageBlocks.allocator kernelStackSize)
      (fun result => match result.2.memory.ptSetPagePermissions 1 result.1 0 permPresent with
        | none => false
        | some memory =>
            decide (({ result.2 with memory := memory } : KHeap _).LiveStack 1 firstPage) &&
              test { result.2 with memory := memory }) = true) :
    ∃ heap : KHeap (List Nat), SharesHeap heap.memory 1 ∧ KernelTables heap.memory ∧
      heap.LiveStack 1 firstPage ∧ (∃ free, heap.memory.freeFrameList.Represents free) ∧
      test heap = true := by
  obtain ⟨⟨va, next⟩, served, passed⟩ := Returns.exists passes
  obtain ⟨free, represents, -⟩ := blankHeap_freeApart
  obtain ⟨directories, free', represents'⟩ :=
    PageBlocks.blankHeap_wellFormed.kmalloc_takes (by decide) (by decide) represents served
  dsimp only at passed
  cases guarded : next.memory.ptSetPagePermissions 1 va 0 permPresent with
  | none =>
      rw [guarded] at passed
      cases passed
  | some memory =>
      rw [guarded, Bool.and_eq_true, decide_eq_true_eq] at passed
      rw [Memory.ptSetPagePermissions] at guarded
      split at guarded
      · cases guarded
      · rename_i slot _
        obtain rfl := Option.some.inj guarded
        exact ⟨{ next with
            memory := next.memory.setEntry slot
              ((next.memory.tables slot).setPerms 0 permPresent) },
          (blankHeap_sharesHeap 1).congr directories,
          PageBlocks.blankHeap_wellFormed.pages.tables.congr directories, passed.1,
          ⟨free', represents'⟩, passed.2⟩

/-- The call on that stack returns. -/
theorem not_stackDeleted_blank : ∃ (heap next : KHeap (List Nat)) (kstack : Nat),
    heap.LiveStack 1 firstPage ∧
      heap.deleteUserKernStack PageBlocks.allocator 1 (heapVa firstPage) = .ok (kstack, next) ∧
      ¬ heap.StackDeleted next 1 firstPage kstack := by
  obtain ⟨heap, shares, tables, live, listed, passed⟩ := exists_liveStack
    (fun heap => Returns (heap.deleteUserKernStack PageBlocks.allocator 1 (heapVa firstPage))
      fun _ => true) (by decide +kernel)
  obtain ⟨⟨kstack, next⟩, returned, -⟩ := Returns.exists passed
  exact ⟨heap, next, kstack, live, returned,
    not_stackDeleted PageBlocks.allocator heap next 1 firstPage kstack shares tables live listed
      returned⟩

/-- Deleting that stack leaves the first free frame as its own successor. -/
theorem deleteUserKernStack_loops : ∃ (heap next : KHeap (List Nat)) (kstack frame : Nat),
    heap.LiveStack 1 firstPage ∧
      heap.deleteUserKernStack PageBlocks.allocator 1 (heapVa firstPage) = .ok (kstack, next) ∧
      next.memory.freeFrameList.next frame = some frame ∧
      ¬ heap.StackDeleted next 1 firstPage kstack := by
  obtain ⟨heap, -, -, live, ⟨free, represents⟩, passed⟩ := exists_liveStack
    (fun heap => Returns (heap.deleteUserKernStack PageBlocks.allocator 1 (heapVa firstPage))
      fun result => match result.2.memory.freeFrameList.first with
        | none => false
        | some frame => result.2.memory.freeFrameList.next frame == some frame) (by decide +kernel)
  obtain ⟨⟨kstack, next⟩, returned, loops⟩ := Returns.exists passed
  dsimp only at loops
  split at loops
  · cases loops
  · rename_i frame first
    rw [beq_iff_eq] at loops
    refine ⟨heap, next, kstack, frame, live, returned, loops, fun deleted => ?_⟩
    obtain ⟨free', represents', -⟩ := deleted.frames free represents
    exact IntrusiveList.not_represents_of_loop first loops free' represents'

end KHeap

end FosKernel
