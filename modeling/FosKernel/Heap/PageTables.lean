import FosKernel.Heap.Completeness
import FosKernel.Heap.HeapFrames

/-!
# Deleting a page table

`del_page_table` of `paging_helpers.c`. It takes a page directory, but looks the
table up in the kernel's own directory, whose global variable has nearly the
parameter's name, and removes it there.
-/

namespace FosKernel

/-- Remove the page table of an address from a page directory. -/
def Memory.unlinkTable (memory : Memory) (directory va : Nat) : Memory :=
  { memory with
    directories := Function.update memory.directories directory
      (Function.update (memory.directories directory) (pdx va) none) }

namespace KHeap

variable {β : Type}

/-- How `del_page_table` releases a page table: with `kfree` of its address, or, where there is no
kernel heap, with `free_frame` of its frame. -/
def releaseTable (useKheap : Bool) (D : DynAllocator β) (tableVa tableFrame : Nat → Nat)
    (heap : KHeap β) (table : Nat) : Except Halt (KHeap β) :=
  if useKheap then heap.kfree D (tableVa table)
  else
    .ok { heap with
      memory := (heap.memory.setReferences (tableFrame table) 0).freeFrame (tableFrame table) }

/-- `del_page_table`. The source reads `ptr_page_directory` where it means `page_dir`. -/
def delPageTable (useKheap : Bool) (D : DynAllocator β) (tableVa tableFrame : Nat → Nat)
    (heap : KHeap β) (_pageDir va : Nat) : Except Halt (KHeap β) :=
  match heap.memory.getPageTable kernelDirectory va with
  | none => .ok heap
  | some table => do
      let heap ← heap.releaseTable useKheap D tableVa tableFrame table
      return { heap with memory := heap.memory.unlinkTable kernelDirectory va }

/-- A page table is released: its block is recorded and mapped no more, or its frame is the first
free one. -/
def TableReleased (useKheap : Bool) (tableVa tableFrame : Nat → Nat) (heap next : KHeap β)
    (table : Nat) : Prop :=
  if useKheap then
    next.kallocationSizes (kvaToIndex (tableVa table)) = 0 ∧
      next.memory.translate kernelDirectory (tableVa table) = none
  else
    ∀ free, heap.memory.freeFrameList.Represents free →
      next.memory.freeFrameList.Represents (tableFrame table :: free)

/-- The page table of an address in a directory is deleted, and no other entry of a directory
changes. -/
structure TableDeleted (useKheap : Bool) (tableVa tableFrame : Nat → Nat) (heap next : KHeap β)
    (pageDir va : Nat) : Prop where
  released : ∀ table, heap.memory.getPageTable pageDir va = some table →
    heap.TableReleased useKheap tableVa tableFrame next table
  directories : next.memory.directories = (heap.memory.unlinkTable pageDir va).directories
  unchanged : heap.memory.getPageTable pageDir va = none → next = heap

/-- The page tables of user pages are pages of the kernel heap, or frames that are not free. -/
structure TablesLive (useKheap : Bool) (tableVa tableFrame : Nat → Nat) (heap : KHeap β) :
    Prop where
  wellFormed : useKheap = true → ∃ top, heap.WellFormed top
  blocks : useKheap = true → ∀ directory va table, va < userTop →
    heap.memory.getPageTable directory va = some table →
      ∃ index, tableVa table = heapVa index ∧ heap.kallocationSizes index = pageSize
  frames : useKheap = false → ∀ directory va table, va < userTop →
    heap.memory.getPageTable directory va = some table →
      ∀ free, heap.memory.freeFrameList.Represents free → tableFrame table ∉ free

variable {D : DynAllocator β} {heap next : KHeap β} {useKheap : Bool}
  {tableVa tableFrame : Nat → Nat} {pageDir va table top : Nat} {memory : Memory}

/-- Removing a page table translates no more addresses. -/
theorem unlinkTable_translate {va' : Nat} (absent : memory.translate kernelDirectory va' = none) :
    (memory.unlinkTable pageDir va).translate kernelDirectory va' = none := by
  have kept : (memory.unlinkTable pageDir va).entry kernelDirectory va' = none ∨
      (memory.unlinkTable pageDir va).entry kernelDirectory va' =
        memory.entry kernelDirectory va' := by
    unfold Memory.entry Memory.slot Memory.getPageTable Memory.unlinkTable
    dsimp only
    by_cases same : kernelDirectory = pageDir
    · rw [same, Function.update_self]
      by_cases here : pdx va' = pdx va
      · rw [here, Function.update_self]
        exact .inl rfl
      · rw [Function.update_of_ne here]
        exact .inr rfl
    · rw [Function.update_of_ne same]
      exact .inr rfl
  unfold Memory.translate at absent ⊢
  rcases kept with gone | same
  · rw [gone]
  · rwa [same]

/-- A page table of the kernel heap is released by `kfree`. -/
theorem WellFormed.kfree_table (wellFormed : heap.WellFormed top) (D : DynAllocator β)
    {index : Nat} (recorded : heap.kallocationSizes index = pageSize) :
    ∃ next, heap.kfree D (heapVa index) = .ok next ∧
      next.memory.directories = heap.memory.directories ∧
      next.kallocationSizes (kvaToIndex (heapVa index)) = 0 ∧
      next.memory.translate kernelDirectory (heapVa index) = none := by
  have nonzero : heap.kallocationSizes index ≠ 0 := by
    rw [recorded]
    decide
  obtain ⟨positive, lower, upper⟩ := wellFormed.run_bounds nonzero
  have inside : index < kheapPagesCount := by omega
  obtain ⟨next, top', freed, kept, sizes, memory, -⟩ := wellFormed.kfree_recorded D nonzero
  obtain ⟨pages, -, absent, -⟩ := returnPages_pages wellFormed.pages lower upper
  refine ⟨next, freed, ?_, ?_, ?_⟩
  · rw [memory, returnPages_directories]
  · rw [kvaToIndex_heapVa (Nat.le_of_lt inside), sizes, Function.update_self]
  · have gone := absent index (Nat.le_refl _) (Nat.lt_add_of_pos_right positive)
    rw [heapEntry] at gone
    rw [memory, Memory.translate, Memory.entry_eq (pages.tables.slot_eq inside)]
    simp only [gone, Bool.false_eq_true, ↓reduceIte]

/-- The release of a live page table completes and changes no directory. -/
theorem TablesLive.releaseTable (live : heap.TablesLive useKheap tableVa tableFrame)
    (D : DynAllocator β) (user : va < userTop)
    (held : heap.memory.getPageTable pageDir va = some table) :
    ∃ next, heap.releaseTable useKheap D tableVa tableFrame table = .ok next ∧
      next.memory.directories = heap.memory.directories ∧
      ∀ directory va', heap.TableReleased useKheap tableVa tableFrame
        { next with memory := next.memory.unlinkTable directory va' } table := by
  unfold KHeap.releaseTable TableReleased
  cases useKheap with
  | true =>
      obtain ⟨top, wellFormed⟩ := live.wellFormed rfl
      obtain ⟨index, place, recorded⟩ := live.blocks rfl pageDir va table user held
      obtain ⟨next, freed, directories, sizes, gone⟩ := wellFormed.kfree_table D recorded
      rw [place]
      exact ⟨next, freed, directories, fun _ _ => ⟨sizes, unlinkTable_translate gone⟩⟩
  | false =>
      refine ⟨_, rfl, rfl, fun directory va' free represents => ?_⟩
      exact @Memory.freeFrame_represents (heap.memory.setReferences (tableFrame table) 0) _ _
        represents (live.frames rfl pageDir va table user held free represents)

/-- **`del_page_table` deletes the page table of its directory exactly when this is the kernel's
directory, or neither directory has one.** -/
theorem delPageTable_iff (D : DynAllocator β) (heap : KHeap β) (useKheap : Bool)
    (tableVa tableFrame : Nat → Nat) (pageDir va : Nat)
    (live : heap.TablesLive useKheap tableVa tableFrame) (user : va < userTop) :
    (∃ next, heap.delPageTable useKheap D tableVa tableFrame pageDir va = .ok next ∧
        heap.TableDeleted useKheap tableVa tableFrame next pageDir va) ↔
      pageDir = kernelDirectory ∨
        heap.memory.getPageTable pageDir va = none ∧
          heap.memory.getPageTable kernelDirectory va = none := by
  unfold delPageTable
  cases kernel : heap.memory.getPageTable kernelDirectory va with
  | none =>
      constructor
      · rintro ⟨next, ended, deleted⟩
        obtain rfl := Except.ok.inj ended
        refine .inr ⟨?_, rfl⟩
        have entry := congrFun (congrFun deleted.directories pageDir) (pdx va)
        simp only [Memory.unlinkTable, Function.update_self] at entry
        exact entry
      · intro either
        have missing : heap.memory.getPageTable pageDir va = none := by
          rcases either with rfl | both
          · exact kernel
          · exact both.1
        refine ⟨heap, rfl, fun table held => ?_, ?_, fun _ => rfl⟩
        · rw [missing] at held
          cases held
        · unfold Memory.unlinkTable
          dsimp only
          rw [show none = heap.memory.directories pageDir (pdx va) from missing.symm,
            Function.update_eq_self, Function.update_eq_self]
  | some table =>
      obtain ⟨next, released, directories, gone⟩ := live.releaseTable D user kernel
      dsimp only
      rw [released]
      constructor
      · rintro ⟨after, ended, deleted⟩
        obtain rfl := Except.ok.inj ended
        by_contra other
        have different : kernelDirectory ≠ pageDir := fun same => other (.inl same.symm)
        have entry := congrFun (congrFun deleted.directories kernelDirectory) (pdx va)
        simp only [Memory.unlinkTable, Function.update_self,
          Function.update_of_ne different] at entry
        rw [Memory.getPageTable, ← entry] at kernel
        cases kernel
      · rintro (rfl | both)
        · refine ⟨_, rfl, fun other held => ?_, ?_, fun missing => ?_⟩
          · obtain rfl := Option.some.inj (kernel.symm.trans held)
            exact gone kernelDirectory va
          · simp only [Memory.unlinkTable, directories]
          · rw [kernel] at missing
            cases missing
        · cases both.2

/-- The page tables of kernel addresses, in every directory, and one for the start of the user heap,
in one directory. -/
def oneUserTable (owner directory index : Nat) : Option Nat :=
  if pdx userTop ≤ index then some index
  else if directory = owner ∧ index = pdx userHeapStart then some index else none

theorem oneUserTable_heap (owner : Nat) {index : Nat} (inside : index < kheapPagesCount) :
    oneUserTable owner kernelDirectory (pdx (heapVa index)) = some (pdx (heapVa index)) := by
  have limit : kheapPagesCount = 40959 := by decide
  refine if_pos ?_
  unfold pdx heapVa userTop kernelHeapStart pageSize
  omega

/-- The first page of the kernel heap can be the page table of one user address. -/
theorem exists_tablesLive (D : DynAllocator (List Nat)) (owner : Nat) :
    ∃ heap : KHeap (List Nat), heap.TablesLive true (fun _ => heapVa firstPage) id ∧
      heap.memory.directories = oneUserTable owner := by
  obtain ⟨free, represents, enough⟩ := wideHeap_free
  have room : wideHeap.FitsAbove pageSize := by
    unfold FitsAbove wideHeap
    decide
  have gapless : ¬ wideHeap.HasGap (pagesOf pageSize) := by
    rintro ⟨index, lower, upper, -⟩
    have one : pagesOf pageSize = 1 := by decide
    rw [wideHeap_wellFormed.break_eq, heapVa_le_iff] at upper
    omega
  obtain ⟨heap, -, kept, sizes, mapped, -⟩ :=
    wideHeap_wellFormed.kmalloc_extends (D := D) room (by decide) (by decide) gapless represents
      (Nat.le_trans (by decide) enough)
  have located : ∀ va, heap.memory.slot kernelDirectory va = some (pdx va, ptx va) := by
    intro va
    rw [Memory.slot_congr (getPages_directories mapped), wideHeap_memory, blank_slot_eq]
  let next : KHeap (List Nat) :=
    { heap with memory := { heap.memory with directories := oneUserTable owner } }
  have slots : ∀ index < kheapPagesCount, next.memory.slot kernelDirectory (heapVa index) =
      heap.memory.slot kernelDirectory (heapVa index) := by
    intro index inside
    rw [located, Memory.slot, Memory.getPageTable]
    change (oneUserTable owner kernelDirectory (pdx (heapVa index))).map _ = _
    rw [oneUserTable_heap owner inside, Option.map_some]
  have entries : ∀ index < kheapPagesCount,
      heapEntry next.memory index = heapEntry heap.memory index := by
    intro index inside
    rw [heapEntry, pageSlot, slots index inside]
    rfl
  have pages := kept.pages
  have pages' : HeapPages next.memory := by
    refine ⟨⟨fun index inside => ?_, fun first inside second inside' same => ?_⟩,
      fun index lower inside => ?_⟩
    · rw [slots index inside]
      exact pages.tables.located index inside
    · rw [slots first inside, slots second inside'] at same
      exact pages.tables.injective first inside second inside' same
    · rw [entries index inside]
      exact pages.clean index lower inside
  refine ⟨next, ⟨fun _ => ⟨_, kept.congr pages' rfl rfl fun page _ inside =>
    entries page inside⟩,
    fun _ _ _ _ _ _ => ⟨firstPage, rfl, ?_⟩, fun off => by cases off⟩, rfl⟩
  change heap.kallocationSizes firstPage = pageSize
  rw [sizes, Function.update_self]

/-- A page table of the kernel's directory is deleted. -/
theorem delPageTable_iff_kernel : ∃ heap : KHeap (List Nat),
    (heap.memory.getPageTable kernelDirectory userHeapStart).isSome ∧
      ∃ next, heap.delPageTable true PageBlocks.allocator (fun _ => heapVa firstPage) id
          kernelDirectory userHeapStart = .ok next ∧
        heap.TableDeleted true (fun _ => heapVa firstPage) id next kernelDirectory
          userHeapStart := by
  obtain ⟨heap, live, directories⟩ := exists_tablesLive PageBlocks.allocator kernelDirectory
  refine ⟨heap, ?_, (delPageTable_iff PageBlocks.allocator heap true _ id kernelDirectory
    userHeapStart live (by decide)).mpr (.inl rfl)⟩
  rw [Memory.getPageTable, directories]
  decide

/-- The page table of directory 1 stays. -/
theorem not_tableDeleted_user : ∃ heap : KHeap (List Nat),
    heap.TablesLive true (fun _ => heapVa firstPage) id ∧
      ¬ ∃ next, heap.delPageTable true PageBlocks.allocator (fun _ => heapVa firstPage) id 1
          userHeapStart = .ok next ∧
        heap.TableDeleted true (fun _ => heapVa firstPage) id next 1 userHeapStart := by
  obtain ⟨heap, live, directories⟩ := exists_tablesLive PageBlocks.allocator 1
  refine ⟨heap, live, ?_⟩
  rintro ⟨next, ended, deleted⟩
  have kernel : heap.memory.getPageTable kernelDirectory userHeapStart = none := by
    rw [Memory.getPageTable, directories]
    decide
  rw [delPageTable, kernel] at ended
  obtain rfl := Except.ok.inj ended
  have entry := congrFun (congrFun deleted.directories 1) (pdx userHeapStart)
  simp only [Memory.unlinkTable, Function.update_self, directories] at entry
  revert entry
  decide

end KHeap

end FosKernel
