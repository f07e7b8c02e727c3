import FosKernel.Heap.Ownership
import FosKernel.Heap.Sizes

/-!
# Contents of allocations

What `krealloc` does to the bytes of the allocation that it resizes and of all
others. A page allocation that shrinks to a block is copied with its old size,
which is more than the block holds; on every other path the contents are kept.
-/

namespace FosKernel

section Bytes

variable {memory next : Memory} {index count va page : Nat}

theorem mem_pages_iff (lies : roundDown va pageSize = heapVa page) :
    heapVa index ≤ va ∧ va < heapVa (index + count) ↔
        index ≤ page ∧ page < index + count := by
  simp only [roundDown, heapVa, pageSize] at *
  omega

/-- Bytes outside some pages stay when the entries of all other pages and the frames do. -/
theorem SameOutside.of_entries (tables : KernelTables memory) (tables' : KernelTables next)
    (same : ∀ page < kheapPagesCount, ¬ (index ≤ page ∧ page < index + count) →
      heapEntry next page = heapEntry memory page) (bytes : next.bytes = memory.bytes) :
    SameOutside memory next index count := by
  intro va lower upper outside
  obtain ⟨lies, inside⟩ := roundDown_eq_heapVa lower upper
  rw [mem_pages_iff lies] at outside
  exact .of_entry tables tables' lies inside (same _ inside outside) bytes

/-- `get_page` for consecutive pages leaves the bytes of all others alone. -/
theorem getPages_sameOutside (pages : HeapPages memory) (lower : firstPage ≤ index)
    (upper : index + count ≤ kheapPagesCount)
    (mapped : getPages memory (heapVa index) count = .ok next) :
    SameOutside memory next index count := by
  obtain ⟨pages', bytes, -, same⟩ := getPages_pages pages lower upper mapped
  exact .of_entries pages.tables pages'.tables same bytes

/-- `return_page` for consecutive pages leaves the bytes of all others alone. -/
theorem returnPages_sameOutside (pages : HeapPages memory) (lower : firstPage ≤ index)
    (upper : index + count ≤ kheapPagesCount) :
    SameOutside memory (returnPages memory (heapVa index) count) index count := by
  obtain ⟨pages', bytes, -, same⟩ := returnPages_pages pages lower upper
  exact .of_entries pages.tables pages'.tables same bytes

/-- A store changes the byte at its own address only. -/
theorem OwnFrames.writeByte (frames : OwnFrames memory) (lower : kernelHeapStart ≤ va)
    (upper : va < kernelHeapMax) (value : UInt8) :
    OwnFrames (memory.writeByte kernelDirectory va value) ∧
      ∀ va', kernelHeapStart ≤ va' → va' < kernelHeapMax → va' ≠ va →
        SameByte memory (memory.writeByte kernelDirectory va value) va' := by
  refine ⟨frames.congr ?_ ?_ ?_, ?_⟩
  · exact Memory.writeByte_directories ..
  · exact Memory.writeByte_tables ..
  · exact Memory.writeByte_freeFrameList ..
  · intro va' lower' upper' different
    rw [SameByte, Memory.writeByte]
    cases place : memory.translate kernelDirectory va with
    | none => rfl
    | some place =>
        exact (frames.readByte_store lower upper lower' upper' place value).trans
          (if_neg different)

/-- Accesses of the dynamic allocator leave the bytes above its part alone. -/
theorem OwnFrames.blockAccess (frames : OwnFrames memory) (access : BlockAccess memory next) :
    OwnFrames next ∧ ∀ va, kheapPageAllocStart ≤ va → va < kernelHeapMax →
      SameByte memory next va := by
  have limit : blockPages < firstPage := by decide
  have within : firstPage ≤ kheapPagesCount := by decide
  have start : kernelHeapStart ≤ kheapPageAllocStart := by decide
  cases access with
  | getPage block mapped =>
      rename_i index
      have inside : index < kheapPagesCount := by omega
      obtain ⟨directories, bytes, -, -, same⟩ :=
        getPage_spec frames.tables inside (frames.clean index inside) mapped
      refine ⟨frames.getPage inside mapped, ?_⟩
      intro va lower upper
      obtain ⟨lies, below⟩ := roundDown_eq_heapVa (Nat.le_trans start lower) upper
      rw [← heapVa_firstPage] at lower
      have above := le_page_of_heapVa_le lies lower
      exact .of_entry frames.tables (frames.tables.congr directories) lies below
        (same _ below (by omega)) bytes
  | returnPage block =>
      rename_i index
      have inside : index < kheapPagesCount := by omega
      obtain ⟨directories, bytes, -, -, same⟩ :=
        returnPage_spec frames.tables inside (frames.clean index inside)
      refine ⟨frames.returnPage inside, ?_⟩
      intro va lower upper
      obtain ⟨lies, below⟩ := roundDown_eq_heapVa (Nat.le_trans start lower) upper
      rw [← heapVa_firstPage] at lower
      have above := le_page_of_heapVa_le lies lower
      exact .of_entry frames.tables (frames.tables.congr directories) lies below
        (same _ below (by omega)) bytes
  | write value lower upper =>
      have apart : dynAllocEnd < kheapPageAllocStart := by decide
      have ends : dynAllocEnd < kernelHeapMax := by decide
      obtain ⟨kept, same⟩ := frames.writeByte lower (Nat.lt_trans upper ends) value
      refine ⟨kept, ?_⟩
      intro va' lower' upper'
      exact same va' (Nat.le_trans start lower') upper' (by omega)

theorem OwnFrames.blockAccesses (frames : OwnFrames memory) (accesses : BlockAccesses memory next) :
    OwnFrames next ∧ ∀ va, kheapPageAllocStart ≤ va → va < kernelHeapMax →
      SameByte memory next va := by
  induction accesses with
  | refl => exact ⟨frames, fun _ _ _ => rfl⟩
  | tail _ access ih =>
      obtain ⟨kept, same⟩ := ih
      obtain ⟨kept', same'⟩ := kept.blockAccess access
      exact ⟨kept', fun va lower upper => (same' va lower upper).trans (same va lower upper)⟩

end Bytes

namespace KHeap

variable {β : Type} {D : DynAllocator β} {block : β → Nat → Option Nat}
  {Valid : β → Memory → Prop} {heap next : KHeap β} {top index va size : Nat}

/-- The live allocations with their sizes: the recorded page allocations and the blocks. -/
def Live (block : β → Nat → Option Nat) (heap : KHeap β) (va size : Nat) : Prop :=
  (∃ index, va = heapVa index ∧ heap.kallocationSizes index = size ∧ size ≠ 0) ∨
    block heap.blocks va = some size

/-- A heap whose page allocations, block allocator and frames are in order. -/
structure Sound (Valid : β → Memory → Prop) (heap : KHeap β) (top : Nat) : Prop where
  wellFormed : heap.WellFormed top
  frames : OwnFrames heap.memory
  valid : Valid heap.blocks heap.memory

/-- What a caller may expect of the contents after `krealloc`: with `NULL`, the allocation is
still live and no byte has changed; else the bytes up to the smaller size are at the new
address, and those of other allocations are unchanged. -/
def KeepsContents (block : β → Nat → Option Nat) (heap next : KHeap β)
    (va oldSize newSize va' : Nat) : Prop :=
  if va' = 0 then
    Live block next va oldSize ∧ ∀ address, SameByte heap.memory next.memory address
  else
    (∀ offset < min oldSize newSize, next.memory.readByte kernelDirectory (va' + offset) =
      heap.memory.readByte kernelDirectory (va + offset)) ∧
    ∀ other size, other ≠ va → Live block heap other size →
      SameBlock heap.memory next.memory other size

theorem keepsContents_null {oldSize newSize : Nat} (live : Live block heap va oldSize) :
    KeepsContents block heap heap va oldSize newSize 0 := by
  rw [KeepsContents, if_pos rfl]
  exact ⟨live, fun _ => rfl⟩

theorem keepsContents_refl {oldSize newSize : Nat} (live : Live block heap va oldSize) :
    KeepsContents block heap heap va oldSize newSize va := by
  rw [KeepsContents]
  split
  · exact ⟨live, fun _ => rfl⟩
  · exact ⟨fun _ _ => rfl, fun _ _ _ _ _ _ => rfl⟩

/-- A block lies below the pages of the page allocator. -/
theorem Sound.block_below (sound : Sound Valid heap top) (correct : D.Correct block Valid)
    (live : block heap.blocks va = some size) {offset : Nat} (less : offset < size) :
    kernelHeapStart ≤ va + offset ∧ va + offset < dynAllocEnd := by
  obtain ⟨lower, upper⟩ := correct.inside sound.valid live
  omega

/-- The bytes of a live allocation lie outside pages that its run does not cover. -/
theorem Sound.outside (sound : Sound Valid heap top) (correct : D.Correct block Valid)
    {other count : Nat} (live : Live block heap other size) (lower : firstPage ≤ index)
    (uncovered : ∀ page, index ≤ page → page < index + count → ∀ start,
      other = heapVa start →
      ¬ (start ≤ page ∧ page < start + heap.runLength start)) {offset : Nat}
    (less : offset < size) :
    kernelHeapStart ≤ other + offset ∧ other + offset < kernelHeapMax ∧
      ¬ (heapVa index ≤ other + offset ∧ other + offset < heapVa (index + count)) := by
  rcases live with ⟨start, rfl, recorded, nonzero⟩ | live
  · have recorded' : heap.kallocationSizes start ≠ 0 := recorded ▸ nonzero
    obtain ⟨length, lowerRun, upperRun⟩ := sound.wellFormed.run_bounds recorded'
    have bytes : size ≤ heap.runLength start * pageSize := by
      rw [runLength, recorded]
      exact le_pagesOf_mul (recorded ▸ (sound.wellFormed.sizes start recorded').2)
    have upper := Nat.lt_of_lt_of_le (Nat.add_lt_add_left less (heapVa start))
      (heapVa_add_le bytes)
    have above : kernelHeapStart ≤ heapVa start + offset :=
      Nat.le_trans (kernelHeapStart_le_heapVa _) (Nat.le_add_right _ _)
    have below : heapVa start + offset < kernelHeapMax := by
      rw [← heapVa_kheapPagesCount]
      exact Nat.lt_of_lt_of_le upper (heapVa_le_iff.mpr upperRun)
    refine ⟨above, below, fun range => ?_⟩
    obtain ⟨lies, -⟩ := roundDown_eq_heapVa above below
    obtain ⟨first, last⟩ := (mem_pages_iff lies).mp range
    exact uncovered _ first last start rfl
      ((mem_pages_iff lies).mp ⟨Nat.le_add_right _ _, upper⟩)
  · obtain ⟨above, below⟩ := sound.block_below correct live less
    have ends : dynAllocEnd < kernelHeapMax := by decide
    have apart : dynAllocEnd < heapVa firstPage := by decide
    have start := heapVa_le_iff.mpr lower
    exact ⟨above, Nat.lt_trans below ends, fun range => by omega⟩

/-- An allocation keeps its bytes when only pages change that its run does not cover. -/
theorem Sound.sameBlock (sound : Sound Valid heap top) (correct : D.Correct block Valid)
    {other count : Nat} (live : Live block heap other size) (lower : firstPage ≤ index)
    (uncovered : ∀ page, index ≤ page → page < index + count → ∀ start,
      other = heapVa start →
      ¬ (start ≤ page ∧ page < start + heap.runLength start))
    (same : SameOutside heap.memory next.memory index count) :
    SameBlock heap.memory next.memory other size := by
  intro offset less
  obtain ⟨above, below, outside⟩ := sound.outside correct live lower uncovered less
  exact same _ above below outside

/-- The pages of a recorded run belong to no other run. -/
theorem WellFormed.run_uncovered (wellFormed : heap.WellFormed top) {other : Nat}
    (different : other ≠ heapVa index) :
    ∀ page, index ≤ page → page < index + heap.runLength index → ∀ start,
      other = heapVa start →
      ¬ (start ≤ page ∧ page < start + heap.runLength start) := by
  rintro page lower upper start rfl inside
  exact different (congrArg heapVa (wellFormed.packed.start_unique inside ⟨lower, upper⟩))

/-- Free space belongs to no run. -/
theorem FreeSpace.uncovered {count : Nat} (space : heap.FreeSpace top index count) {other : Nat} :
    ∀ page, index ≤ page → page < index + count → ∀ start, other = heapVa start →
      ¬ (start ≤ page ∧ page < start + heap.runLength start) :=
  fun page lower upper start _ inside => space.free page lower upper ⟨start, inside⟩

section Operations

variable (correct : D.Correct block Valid) (sound : heap.Sound Valid top)
include correct sound

/-- `kmalloc` of more than a block returns `NULL` and does nothing, or maps free pages. -/
theorem Sound.kmalloc_pages (large : dynAllocMaxBlockSize < size)
    (small : size ≤ 2 ^ 32 - pageSize)
    (returned : heap.kmalloc D size = .ok (va, next)) :
    va = 0 ∧ next = heap ∨
      ∃ index top', va = heapVa index ∧ heap.FreeSpace top' index (pagesOf size) ∧
        top' ≤ kheapPagesCount ∧ next.Sound Valid top' ∧
        next.kallocationSizes = Function.update heap.kallocationSizes index size ∧
        next.blocks = heap.blocks ∧
        SameOutside heap.memory next.memory index (pagesOf size) := by
  have valid := sound.wellFormed.kmalloc_valid correct sound.valid small returned
  rcases sound.wellFormed.kmalloc_cases returned with null | ⟨-, le, -⟩ | pages
  · exact .inl null
  · exact absurd large (Nat.not_lt.mpr le)
  · obtain ⟨-, index, top', space, raised, top_le, tight, allocated⟩ := pages
    obtain ⟨start, kept, sizes, blocks, mapped⟩ :=
      sound.wellFormed.allocatePages space raised top_le large small tight allocated
    have inside := Nat.le_trans space.upper top_le
    exact .inr ⟨index, top', start, space, top_le,
      ⟨kept, sound.frames.getPages inside mapped, valid⟩,
      sizes, blocks, getPages_sameOutside sound.wellFormed.pages space.lower inside mapped⟩

/-- Releasing the pages of a recorded run leaves the heap in order. -/
theorem Sound.kfree_recorded (recorded : heap.kallocationSizes index ≠ 0) :
    ∃ next top', heap.kfree D (heapVa index) = .ok next ∧ next.Sound Valid top' ∧
      next.blocks = heap.blocks ∧
      SameOutside heap.memory next.memory index (heap.runLength index) := by
  obtain ⟨next, top', freed, kept, -, memory, blocks⟩ :=
    sound.wellFormed.kfree_recorded D recorded
  obtain ⟨-, lower, upper⟩ := sound.wellFormed.run_bounds recorded
  have limit : blockPages < firstPage := by decide
  obtain ⟨pages, bytes, -, same⟩ := returnPages_pages sound.wellFormed.pages lower upper
  refine ⟨next, top', freed, ⟨kept, ?_, ?_⟩, blocks, ?_⟩
  · rw [memory]
    exact sound.frames.returnPages upper
  · rw [blocks, memory]
    exact correct.of_entries sound.valid sound.frames.tables pages.tables
      (fun page below => same page (by omega) (by omega)) bytes
  · rw [memory]
    exact returnPages_sameOutside sound.wellFormed.pages lower upper

/-- `memcpy` to pages of the page allocator leaves the heap in order. -/
theorem Sound.memcpy {dst src count : Nat} (lowerDst : kheapPageAllocStart ≤ dst)
    (upperDst : dst + count ≤ kernelHeapMax) (lowerSrc : kernelHeapStart ≤ src)
    (upperSrc : src + count ≤ kernelHeapMax) (apart : dst + count ≤ src ∨ src + count ≤ dst)
    (copied : heap.memcpy dst src count = .ok next) :
    next.Sound Valid top ∧ next.kallocationSizes = heap.kallocationSizes ∧
      next.blocks = heap.blocks ∧
      ∀ address, kernelHeapStart ≤ address → address < kernelHeapMax →
        next.memory.readByte kernelDirectory address =
          if dst ≤ address ∧ address < dst + count then
            heap.memory.readByte kernelDirectory (src + (address - dst))
          else heap.memory.readByte kernelDirectory address := by
  have kept := sound.wellFormed.memcpy copied
  rw [KHeap.memcpy] at copied
  split at copied
  · cases copied
  · rename_i memory stored
    obtain rfl := Except.ok.inj copied
    have start : kernelHeapStart ≤ kheapPageAllocStart := by decide
    have contents : ∀ address, kernelHeapStart ≤ address → address < kernelHeapMax → _ :=
      fun address lower upper => sound.frames.memcpy_contents (Nat.le_trans start lowerDst) upperDst
        lowerSrc upperSrc apart stored lower upper
    obtain ⟨bytes, rfl⟩ := Memory.memcpy_spec stored
    refine ⟨⟨kept, sound.frames.congr rfl rfl rfl, ?_⟩, rfl, rfl, contents⟩
    apply correct.stable sound.valid kept.pages.tables fun _ _ => rfl
    intro address lower upper _
    have ends : dynAllocEnd < kernelHeapMax := by decide
    have apart : dynAllocEnd < kheapPageAllocStart := by decide
    rw [SameByte, contents address lower (Nat.lt_trans upper ends), if_neg (by omega)]

/-- `krealloc` of a page allocation that moves keeps the contents. -/
theorem Sound.movePages {newSize : Nat} (recorded : heap.kallocationSizes index ≠ 0)
    (large : dynAllocMaxBlockSize < newSize) (small : newSize ≤ 2 ^ 32 - pageSize)
    (room : heap.runLength index ≤ pagesOf newSize)
    (returned : heap.movePages D (heapVa index) (heap.kallocationSizes index) newSize =
      .ok (va, next)) :
    (∃ top', next.Sound Valid top') ∧
      KeepsContents block heap next (heapVa index) (heap.kallocationSizes index) newSize va := by
  obtain ⟨⟨newVa, allocated⟩, call, rest⟩ := bind_eq_ok.mp returned
  rcases sound.kmalloc_pages correct large small call with
    ⟨rfl, rfl⟩ | ⟨index', top₁, rfl, space, top_le, sound₁, sizes₁, -, same₁⟩
  · obtain ⟨rfl, rfl⟩ := Prod.mk.inj (Except.ok.inj rest)
    exact ⟨⟨top, sound⟩, keepsContents_null (.inl ⟨index, rfl, rfl, recorded⟩)⟩
  obtain ⟨copied, copy, rest⟩ :=
    bind_eq_ok.mp ((if_neg (heapVa_ne_zero index')).symm.trans rest)
  obtain ⟨freed, free, rest⟩ := bind_eq_ok.mp rest
  obtain ⟨rfl, rfl⟩ := Prod.mk.inj (Except.ok.inj rest)
  obtain ⟨length, lower, upper⟩ := sound.wellFormed.run_bounds recorded
  have bytes : heap.kallocationSizes index ≤ heap.runLength index * pageSize :=
    le_pagesOf_mul (sound.wellFormed.sizes index recorded).2
  have lower' := space.lower
  have upper' := Nat.le_trans space.upper top_le
  have apart : index' + pagesOf newSize ≤ index ∨ index + heap.runLength index ≤ index' := by
    by_contra overlap
    exact space.free (max index index') (le_max_right ..) (by omega)
      ⟨index, le_max_left .., by omega⟩
  -- source and destination in terms of their pages
  have source : heapVa index + heap.kallocationSizes index ≤
      heapVa (index + heap.runLength index) := heapVa_add_le bytes
  have target : heapVa index' + heap.kallocationSizes index ≤
      heapVa (index' + pagesOf newSize) :=
    heapVa_add_le (Nat.le_trans bytes (Nat.mul_le_mul_right _ room))
  have apart' := apart.imp heapVa_le_iff.mpr heapVa_le_iff.mpr
  have sourceEnd := heapVa_le_max upper
  have targetEnd := heapVa_le_max upper'
  have sourceStart := kernelHeapStart_le_heapVa index
  have targetStart : kheapPageAllocStart ≤ heapVa index' :=
    start_le_heapVa lower'
  obtain ⟨sound₂, sizes₂, -, contents⟩ := sound₁.memcpy correct targetStart
    (Nat.le_trans target targetEnd) sourceStart (Nat.le_trans source sourceEnd) (by omega) copy
  have kept : copied.kallocationSizes index = heap.kallocationSizes index := by
    have different : index ≠ index' := by omega
    rw [sizes₂, sizes₁, Function.update_of_ne different]
  obtain ⟨freed', top₃, free', sound₃, -, same₃⟩ :=
    sound₂.kfree_recorded correct (kept ▸ recorded)
  obtain rfl := Except.ok.inj (free.symm.trans free')
  rw [runLength, kept, ← runLength] at same₃
  refine ⟨⟨top₃, sound₃⟩, ?_⟩
  rw [KeepsContents, if_neg (heapVa_ne_zero index')]
  constructor
  · intro offset less
    have less' := Nat.lt_of_lt_of_le less (Nat.min_le_left _ _)
    have within : heapVa index' ≤ heapVa index' + offset ∧
        heapVa index' + offset < heapVa index' + heap.kallocationSizes index := by omega
    have start := Nat.le_trans (kernelHeapStart_le_heapVa index') (Nat.le_add_right _ offset)
    rw [same₃ _ start (by omega) (by omega), contents _ start (by omega), if_pos within,
      Nat.add_sub_cancel_left]
    exact same₁ _ (by omega) (by omega) (by omega)
  · intro other size different live offset less
    obtain ⟨above, below, outside⟩ :=
      sound.outside correct live lower (sound.wellFormed.run_uncovered different) less
    obtain ⟨-, -, outside'⟩ := sound.outside correct live lower' space.uncovered less
    rw [SameByte, same₃ _ above below outside, contents _ above below,
      if_neg fun range => outside' ⟨range.1, by omega⟩]
    exact same₁ _ above below outside'

/-- `krealloc` of a block to pages keeps the contents. -/
theorem Sound.blockToPages {newSize newVa : Nat} (live : block heap.blocks va = some size)
    (large : dynAllocMaxBlockSize < newSize) (small : newSize ≤ 2 ^ 32 - pageSize)
    (returned : heap.blockToPages D va size newSize = .ok (newVa, next)) :
    (∃ top', next.Sound Valid top') ∧ KeepsContents block heap next va size newSize newVa := by
  obtain ⟨⟨newVa', allocated⟩, call, rest⟩ := bind_eq_ok.mp returned
  rcases sound.kmalloc_pages correct large small call with
    ⟨rfl, rfl⟩ | ⟨index, top₁, rfl, space, top_le, sound₁, -, blocks₁, same₁⟩
  · obtain ⟨rfl, rfl⟩ := Prod.mk.inj (Except.ok.inj rest)
    exact ⟨⟨top, sound⟩, keepsContents_null (.inr live)⟩
  obtain ⟨copied, copy, rest⟩ := bind_eq_ok.mp ((if_neg (heapVa_ne_zero index)).symm.trans rest)
  obtain ⟨freed, free, rest⟩ := bind_eq_ok.mp rest
  obtain ⟨rfl, rfl⟩ := Prod.mk.inj (Except.ok.inj rest)
  obtain ⟨blockStart, blockEnd⟩ := correct.inside sound.valid live
  have bounded := correct.bounded sound.valid live
  have bytes := le_pagesOf_mul small
  have upper := Nat.le_trans space.upper top_le
  have target : heapVa index + size ≤ heapVa (index + pagesOf newSize) :=
    heapVa_add_le (by omega)
  have targetEnd := heapVa_le_max upper
  have targetStart : kheapPageAllocStart ≤ heapVa index :=
    start_le_heapVa space.lower
  have below : dynAllocEnd < kheapPageAllocStart := by decide
  have blocksEnd : dynAllocEnd < kernelHeapMax := by decide
  have heapStart : kernelHeapStart ≤ kheapPageAllocStart := by decide
  obtain ⟨sound₂, -, blocks₂, contents⟩ := sound₁.memcpy correct targetStart
    (Nat.le_trans target targetEnd) blockStart (by omega) (by omega) copy
  have live₂ : block copied.blocks va = some size := by rw [blocks₂, blocks₁, live]
  have kept₃ := sound₂.wellFormed.freeBlock correct.confined free
  obtain ⟨⟨blocks₃, memory₃⟩, released, rest⟩ := bind_eq_ok.mp free
  obtain rfl := Except.ok.inj rest
  obtain ⟨accesses, valid₃, -, others⟩ := correct.free sound₂.valid live₂ released
  obtain ⟨frames₃, same₃⟩ := sound₂.frames.blockAccesses accesses
  refine ⟨⟨top₁, kept₃, frames₃, valid₃⟩, ?_⟩
  rw [KeepsContents, if_neg (heapVa_ne_zero index)]
  constructor
  · intro offset less
    have less' := Nat.lt_of_lt_of_le less (Nat.min_le_left _ _)
    have within : heapVa index ≤ heapVa index + offset ∧
        heapVa index + offset < heapVa index + size := by omega
    refine (same₃ _ (by omega) (by omega)).trans ?_
    rw [contents _ (by omega) (by omega), if_pos within, Nat.add_sub_cancel_left]
    exact same₁ _ (by omega) (by omega) (by omega)
  · intro other size' different live' offset less
    obtain ⟨above, limit, outside⟩ :=
      sound.outside correct live' space.lower space.uncovered less
    have copyEq : copied.memory.readByte kernelDirectory (other + offset) =
        heap.memory.readByte kernelDirectory (other + offset) := by
      rw [contents _ above limit, if_neg fun range => outside ⟨range.1, by omega⟩]
      exact same₁ _ above limit outside
    refine Eq.trans ?_ copyEq
    rcases live' with ⟨start, rfl, recorded, nonzero⟩ | live'
    · have lower := (sound.wellFormed.run_bounds (recorded ▸ nonzero)).2.1
      have start' : kheapPageAllocStart ≤ heapVa start :=
        start_le_heapVa lower
      exact same₃ _ (by omega) limit
    · have live'' : block copied.blocks other = some size' := by rw [blocks₂, blocks₁, live']
      exact others other size' different live'' offset less

/-- `krealloc` of a block to a block keeps the contents. -/
theorem Sound.reallocBlock {newSize newVa : Nat} (live : block heap.blocks va = some size)
    (positive : 0 < newSize) (le : newSize ≤ dynAllocMaxBlockSize)
    (returned : heap.reallocBlock D va newSize = .ok (newVa, next)) :
    (∃ top', next.Sound Valid top') ∧ KeepsContents block heap next va size newSize newVa := by
  have kept := sound.wellFormed.reallocBlock correct.confined returned
  obtain ⟨⟨newVa', blocks, memory⟩, moved, rest⟩ := bind_eq_ok.mp returned
  obtain ⟨rfl, rfl⟩ := Prod.mk.inj (Except.ok.inj rest)
  rcases correct.realloc sound.valid live positive le moved with
    ⟨rfl, rfl, rfl⟩ | ⟨nonnull, accesses, valid, -, -, contents, others⟩
  · exact ⟨⟨top, sound⟩, keepsContents_null (.inr live)⟩
  · obtain ⟨frames, same⟩ := sound.frames.blockAccesses accesses
    refine ⟨⟨top, kept, frames, valid⟩, ?_⟩
    rw [KeepsContents, if_neg nonnull]
    refine ⟨contents, ?_⟩
    intro other size' different live'
    rcases live' with ⟨start, rfl, recorded, nonzero⟩ | live'
    · have lower := (sound.wellFormed.run_bounds (recorded ▸ nonzero)).2.1
      have start' : kheapPageAllocStart ≤ heapVa start :=
        start_le_heapVa lower
      intro offset less
      obtain ⟨-, limit, -⟩ := sound.outside correct (.inl ⟨start, rfl, recorded, nonzero⟩)
        (Nat.le_refl firstPage) (fun page above (below : page < firstPage + 0) =>
          absurd below (Nat.not_lt.mpr above)) less
      exact same _ (by omega) limit
    · exact others other size' different live'

/-- `krealloc` of a page allocation that shrinks in place keeps the contents. -/
theorem Sound.shrinkPages {newSize : Nat} (recorded : heap.kallocationSizes index ≠ 0)
    (large : dynAllocMaxBlockSize < newSize) (small : newSize ≤ 2 ^ 32 - pageSize)
    (fewer : pagesOf newSize < heap.runLength index) :
    (∃ top', (heap.shrinkPages (heapVa index) (heap.runLength index) (pagesOf newSize)
        newSize).Sound Valid top') ∧
      KeepsContents block heap (heap.shrinkPages (heapVa index) (heap.runLength index)
          (pagesOf newSize) newSize) (heapVa index) (heap.kallocationSizes index) newSize
        (heapVa index) := by
  obtain ⟨top', kept⟩ := sound.wellFormed.shrinkPages recorded large small fewer
  obtain ⟨length, lower, upper⟩ := sound.wellFormed.run_bounds recorded
  have limit : blockPages < firstPage := by decide
  have start : add32 (heapVa index) (pagesOf newSize * pageSize) =
      heapVa (index + pagesOf newSize) := add32_heapVa (by omega)
  have lower' : firstPage ≤ index + pagesOf newSize := Nat.le_trans lower (Nat.le_add_right _ _)
  have tail : index + pagesOf newSize + (heap.runLength index - pagesOf newSize) =
      index + heap.runLength index := by omega
  have upper' : index + pagesOf newSize + (heap.runLength index - pagesOf newSize) ≤
      kheapPagesCount := by
    rw [tail]
    exact upper
  have memory : (heap.shrinkPages (heapVa index) (heap.runLength index) (pagesOf newSize)
      newSize).memory = returnPages heap.memory (heapVa (index + pagesOf newSize))
        (heap.runLength index - pagesOf newSize) := by rw [KHeap.shrinkPages, start]
  obtain ⟨pages, bytes, -, same⟩ := returnPages_pages sound.wellFormed.pages lower' upper'
  have outside := returnPages_sameOutside sound.wellFormed.pages lower' upper'
  rw [← memory] at pages bytes same outside
  refine ⟨⟨top', kept, ?_, ?_⟩, ?_⟩
  · rw [memory]
    exact sound.frames.returnPages upper'
  · exact correct.of_entries sound.valid sound.frames.tables pages.tables
      (fun page below => same page (by omega) (by omega)) bytes
  rw [KeepsContents, if_neg (heapVa_ne_zero index)]
  have held := le_pagesOf_mul small
  have pagesEnd := heapVa_le_max upper
  constructor
  · intro offset less
    have less' := Nat.lt_of_lt_of_le less (Nat.min_le_right _ _)
    have inside := Nat.lt_of_lt_of_le (Nat.add_lt_add_left less' (heapVa index))
      (heapVa_add_le held)
    have ends : heapVa (index + pagesOf newSize) ≤ heapVa (index + heap.runLength index) :=
      heapVa_le_iff.mpr (by omega)
    have above : kernelHeapStart ≤ heapVa index + offset :=
      Nat.le_trans (kernelHeapStart_le_heapVa _) (Nat.le_add_right _ _)
    exact outside _ above (by omega) fun range => Nat.not_lt.mpr range.1 inside
  · intro other size different live
    apply sound.sameBlock correct live lower' _ outside
    intro page above below
    exact sound.wellFormed.run_uncovered different page (by omega) (by omega)

/-- `krealloc` of a page allocation that grows in place keeps the contents. -/
theorem Sound.growPages {newSize : Nat} (recorded : heap.kallocationSizes index ≠ 0)
    (large : dynAllocMaxBlockSize < newSize) (small : newSize ≤ 2 ^ 32 - pageSize)
    (more : heap.runLength index < pagesOf newSize)
    (extends_ : heap.canExtend (add32 (heapVa index) (heap.runLength index * pageSize))
      (pagesOf newSize - heap.runLength index) = true)
    (grown : heap.growPages (heapVa index) (heap.runLength index) (pagesOf newSize) newSize =
      .ok next) :
    next.Sound Valid top ∧
      KeepsContents block heap next (heapVa index) (heap.kallocationSizes index) newSize
        (heapVa index) := by
  obtain ⟨kept, -, blocks, mapped⟩ :=
    sound.wellFormed.growPages recorded large small more extends_ grown
  have space := sound.wellFormed.extension_space recorded extends_
  have limit : blockPages < firstPage := by decide
  have lower := space.lower
  have upper := Nat.le_trans space.upper sound.wellFormed.top_le
  obtain ⟨pages, bytes, -, same⟩ := getPages_pages sound.wellFormed.pages lower upper mapped
  have outside := getPages_sameOutside sound.wellFormed.pages lower upper mapped
  refine ⟨⟨kept, sound.frames.getPages upper mapped, ?_⟩, ?_⟩
  · rw [blocks]
    exact correct.of_entries sound.valid sound.frames.tables pages.tables
      (fun page below => same page (by omega) (by omega)) bytes
  rw [KeepsContents, if_neg (heapVa_ne_zero index)]
  have held : heap.kallocationSizes index ≤ heap.runLength index * pageSize :=
    le_pagesOf_mul (sound.wellFormed.sizes index recorded).2
  obtain ⟨-, -, runEnd⟩ := sound.wellFormed.run_bounds recorded
  have pagesEnd := heapVa_le_max runEnd
  constructor
  · intro offset less
    have less' := Nat.lt_of_lt_of_le less (Nat.min_le_left _ _)
    have inside := Nat.lt_of_lt_of_le (Nat.add_lt_add_left less' (heapVa index))
      (heapVa_add_le held)
    have above : kernelHeapStart ≤ heapVa index + offset :=
      Nat.le_trans (kernelHeapStart_le_heapVa _) (Nat.le_add_right _ _)
    exact outside _ above (by omega) fun range => Nat.not_lt.mpr range.1 inside
  · intro other size different live
    exact sound.sameBlock correct live lower space.uncovered outside

/-- `krealloc` of a page allocation to more than a block keeps the contents. -/
theorem Sound.reallocPages {newSize : Nat} (recorded : heap.kallocationSizes index ≠ 0)
    (large : dynAllocMaxBlockSize < newSize) (small : newSize ≤ 2 ^ 32 - pageSize)
    (returned : heap.reallocPages D (heapVa index) (heap.kallocationSizes index) newSize =
      .ok (va, next)) :
    (∃ top', next.Sound Valid top') ∧
      KeepsContents block heap next (heapVa index) (heap.kallocationSizes index) newSize va := by
  simp only [KHeap.reallocPages] at returned
  rw [← runLength] at returned
  split at returned
  · rename_i fewer
    obtain ⟨rfl, rfl⟩ := Prod.mk.inj (Except.ok.inj returned)
    exact sound.shrinkPages correct recorded large small fewer
  · rename_i enough
    split at returned
    · rename_i more
      obtain ⟨grown, growth, rest⟩ := bind_eq_ok.mp returned
      obtain ⟨rfl, rfl⟩ := Prod.mk.inj (Except.ok.inj rest)
      obtain ⟨kept, contents⟩ :=
        sound.growPages correct recorded large small more.1 more.2 growth
      exact ⟨⟨top, kept⟩, contents⟩
    · exact sound.movePages correct recorded large small (Nat.not_lt.mp enough) returned

end Operations

/-- `krealloc` of a page allocation to a block that the dynamic allocator grants. -/
def Truncates (D : DynAllocator β) (heap : KHeap β) (va newSize : Nat) : Prop :=
  (∃ index, va = heapVa index ∧ heap.kallocationSizes index ≠ 0) ∧
    newSize ≤ dynAllocMaxBlockSize ∧
    ∃ newVa next, heap.allocBlock D newSize = .ok (newVa, next) ∧ newVa ≠ 0

section Operations

variable (correct : D.Correct block Valid) (sound : heap.Sound Valid top)
include correct sound

/-- `alloc_block` leaves the heap in order, and as it was when it returns `NULL`. -/
theorem Sound.allocBlock (positive : 0 < size) (le : size ≤ dynAllocMaxBlockSize)
    (returned : heap.allocBlock D size = .ok (va, next)) :
    next.Sound Valid top ∧ (va = 0 → next = heap) := by
  have kept := sound.wellFormed.allocBlock correct.confined returned
  obtain ⟨⟨va', blocks, memory⟩, call, rest⟩ := bind_eq_ok.mp returned
  obtain ⟨rfl, rfl⟩ := Prod.mk.inj (Except.ok.inj rest)
  rcases correct.alloc sound.valid positive le call with
    ⟨-, rfl, rfl⟩ | ⟨nonnull, accesses, valid, -⟩
  · exact ⟨sound, fun _ => rfl⟩
  · exact ⟨⟨kept, (sound.frames.blockAccesses accesses).1, valid⟩,
      fun null => absurd null nonnull⟩

/-- Unless it truncates to a block, `krealloc` of a live allocation keeps the contents. -/
theorem Sound.krealloc {oldSize newSize newVa : Nat} (live : Live block heap va oldSize)
    (positive : 0 < newSize) (small : newSize ≤ 2 ^ 32 - pageSize)
    (untruncated : ¬ heap.Truncates D va newSize)
    (returned : heap.krealloc D va newSize = .ok (newVa, next)) :
    (∃ top', next.Sound Valid top') ∧
        KeepsContents block heap next va oldSize newSize newVa := by
  rcases live with ⟨index, rfl, rfl, recorded⟩ | live
  · rw [sound.wellFormed.krealloc_pages D recorded positive] at returned
    split at returned
    · obtain ⟨rfl, rfl⟩ := Prod.mk.inj (Except.ok.inj returned)
      exact ⟨⟨top, sound⟩, keepsContents_refl (.inl ⟨index, rfl, rfl, recorded⟩)⟩
    · split at returned
      · rename_i le
        obtain ⟨⟨newVa', allocated⟩, call, rest⟩ := bind_eq_ok.mp returned
        have null : newVa' = 0 := by
          by_contra nonnull
          exact untruncated ⟨⟨index, rfl, recorded⟩, le, newVa', allocated, call, nonnull⟩
        obtain ⟨rfl, rfl⟩ := Prod.mk.inj (Except.ok.inj ((if_pos null).symm.trans rest))
        obtain rfl := (sound.allocBlock correct positive le call).2 null
        exact ⟨⟨top, sound⟩, keepsContents_null (.inl ⟨index, rfl, rfl, recorded⟩)⟩
      · rename_i large
        exact sound.reallocPages correct recorded (Nat.not_le.mp large) small returned
  · obtain ⟨lower, upper⟩ := correct.inside sound.valid live
    have apart : dynAllocEnd < kheapPageAllocStart := by decide
    have nonnull : va ≠ 0 := by
      have start : 0 < kernelHeapStart := by decide
      omega
    have notPages : ¬ (kheapPageAllocStart ≤ va ∧ va < heap.kheapPageAllocBreak) := by omega
    rw [KHeap.krealloc, if_neg nonnull, if_neg (Nat.ne_of_gt positive), if_neg notPages,
      correct.getBlockSize sound.valid live] at returned
    split at returned
    · dsimp only at returned
      split at returned
      · obtain ⟨rfl, rfl⟩ := Prod.mk.inj (Except.ok.inj returned)
        exact ⟨⟨top, sound⟩, keepsContents_null (.inr live)⟩
      · split at returned
        · obtain ⟨rfl, rfl⟩ := Prod.mk.inj (Except.ok.inj returned)
          exact ⟨⟨top, sound⟩, keepsContents_refl (.inr live)⟩
        · split at returned
          · rename_i le
            exact sound.reallocBlock correct live positive le returned
          · rename_i large
            exact sound.blockToPages correct live (Nat.not_le.mp large) small returned
    · obtain ⟨rfl, rfl⟩ := Prod.mk.inj (Except.ok.inj returned)
      exact ⟨⟨top, sound⟩, keepsContents_null (.inr live)⟩

/-- `kmalloc` leaves the heap in order. -/
theorem Sound.kmalloc (small : size ≤ 2 ^ 32 - pageSize)
    (returned : heap.kmalloc D size = .ok (va, next)) : ∃ top', next.Sound Valid top' := by
  rcases sound.wellFormed.kmalloc_cases returned with
    ⟨-, rfl⟩ | ⟨positive, le, call⟩ | ⟨large, -⟩
  · exact ⟨top, sound⟩
  · exact ⟨top, (sound.allocBlock correct positive le call).1⟩
  · rcases sound.kmalloc_pages correct large small returned with
      ⟨-, rfl⟩ | ⟨-, top', -, -, -, kept, -⟩
    · exact ⟨top, sound⟩
    · exact ⟨top', kept⟩

/-- `kfree` of any address leaves the heap in order. -/
theorem Sound.kfree (freed : heap.kfree D va = .ok next) : ∃ top', next.Sound Valid top' := by
  rcases sound.wellFormed.kfree_cases D va with same | ⟨index, inside, page, recorded, released⟩
  · obtain rfl := Except.ok.inj (freed.symm.trans same)
    exact ⟨top, sound⟩
  · obtain ⟨next', top', completed, kept, -, memory, blocks⟩ :=
      sound.wellFormed.freePages page inside recorded
    obtain rfl := Except.ok.inj (freed.symm.trans (released.trans completed))
    obtain ⟨-, lower, upper⟩ := sound.wellFormed.run_bounds recorded
    have limit : blockPages < firstPage := by decide
    obtain ⟨pages, bytes, -, same⟩ := returnPages_pages sound.wellFormed.pages lower upper
    refine ⟨top', kept, ?_, ?_⟩
    · rw [memory]
      exact sound.frames.returnPages upper
    · rw [blocks, memory]
      exact correct.of_entries sound.valid sound.frames.tables pages.tables
        (fun page below => same page (by omega) (by omega)) bytes

end Operations

end KHeap

end FosKernel
