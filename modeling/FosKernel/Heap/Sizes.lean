import FosKernel.Heap.Allocator
import FosKernel.Heap.Consistency

/-!
# Sizes that wrap

For which sizes the pointers of `kmalloc` and `krealloc` are good for all their
bytes. The number of pages is computed with a `ROUNDUP` on `uint32`, which wraps
to 0 from `2 ^ 32 - 4095` bytes on; exactly these sizes get a pointer without
pages behind it.
-/

namespace FosKernel

namespace KHeap

variable {β : Type} {D : DynAllocator β} {block : β → Nat → Option Nat}
  {Valid : β → Memory → Prop} {heap next : KHeap β} {top index va size : Nat}

/-- What a caller may expect of a returned pointer: `NULL` with the size table, the break and
the mappings unchanged, or an address whose bytes are mapped heap memory outside every
other allocation. -/
def Served (block : β → Nat → Option Nat) (heap next : KHeap β) (va size : Nat) : Prop :=
  va = 0 ∧ next.kallocationSizes = heap.kallocationSizes ∧
      next.kheapPageAllocBreak = heap.kheapPageAllocBreak ∧
      next.memory.directories = heap.memory.directories ∧
      next.memory.tables = heap.memory.tables ∨
    va ≠ 0 ∧ ∀ address, va ≤ address → address < va + size →
      kernelHeapStart ≤ address ∧ address < kernelHeapMax ∧
        (next.memory.translate kernelDirectory address).isSome = true ∧
        (∀ other, heapVa other ≠ va → next.kallocationSizes other ≠ 0 →
          address ∉ next.runOf other) ∧
        ∀ start size', start ≠ va → block next.blocks start = some size' →
          ¬ (start ≤ address ∧ address < start + size')

/-- A call stops only for lack of frames, or returns a pointer as a caller may expect it. -/
def Serves (block : β → Nat → Option Nat) (heap : KHeap β) (size : Nat) :
    Except Halt (Nat × KHeap β) → Prop
  | .ok (va, next) => Served block heap next va size
  | .error halt => halt = .panic

theorem served_refl_null (block : β → Nat → Option Nat) (heap : KHeap β) (size : Nat) :
    Served block heap heap 0 size :=
  .inl ⟨rfl, rfl, rfl, rfl, rfl⟩

/-- No pointer can be good for more bytes than lie below `KERNEL_HEAP_MAX`. -/
theorem not_served_of_wrapped (nonnull : va ≠ 0) (large : 2 ^ 32 - pageSize < size) :
    ¬ Served block heap next va size := by
  intro served
  obtain null | ⟨-, good⟩ := served
  · exact nonnull null.1
  · have limit : kernelHeapMax = 2 ^ 32 - pageSize := by decide
    have inside := good (max va kernelHeapMax) (le_max_left _ _) (by omega)
    omega

/-- A recorded allocation of pages is good for its bytes. -/
theorem WellFormed.served_pages (wellFormed : next.WellFormed top)
    (recorded : next.kallocationSizes index = size) (nonzero : size ≠ 0)
    (apart : ∀ start size', block next.blocks start = some size' →
      start + size' ≤ dynAllocEnd) :
    Served block heap next (heapVa index) size := by
  have recorded' : next.kallocationSizes index ≠ 0 := recorded ▸ nonzero
  have length := wellFormed.runLength_pos recorded'
  have lower := wellFormed.packed.low_le index length
  have upper := wellFormed.packed.le_high index length
  have top_le := wellFormed.top_le
  have bytes : size ≤ next.runLength index * pageSize := by
    rw [runLength, recorded]
    exact le_pagesOf_mul (recorded ▸ (wellFormed.sizes index recorded').2)
  refine .inr ⟨heapVa_ne_zero index, fun address above below => ?_⟩
  have inRun : address ∈ next.runOf index := by
    rw [runOf_eq, Set.mem_Ico]
    simp only [heapVa, pageSize] at *
    omega
  have inside := wellFormed.consistent.inside index recorded' inRun
  have start : kheapPageAllocStart ≤ address := inside.1
  have limit : address < kernelHeapMax :=
    Nat.lt_of_lt_of_le inside.2 wellFormed.consistent.break_le
  have bottom : kernelHeapStart ≤ kheapPageAllocStart := by decide
  have blocks : dynAllocEnd ≤ kheapPageAllocStart := by decide
  refine ⟨Nat.le_trans bottom start, limit, ?_, ?_, ?_⟩
  · rw [wellFormed.consistent.mapped_iff address start limit]
    exact ⟨index, recorded', inRun⟩
  · intro other different live inOther
    have distinct : other ≠ index := fun same => different (same ▸ rfl)
    exact Set.disjoint_left.mp (wellFormed.consistent.disjoint other index distinct live recorded')
      inOther inRun
  · intro start' size' _ live within
    have ends := apart start' size' live
    omega

/-- A live block is good for its bytes. -/
theorem WellFormed.served_block (wellFormed : next.WellFormed top)
    (correct : D.Correct block Valid) {memory : Memory} {size' : Nat}
    (tables : KernelTables memory) (valid : Valid next.blocks memory)
    (live : block next.blocks va = some size') (le : size ≤ size') (nonnull : va ≠ 0)
    (same : ∀ page < blockPages, heapEntry next.memory page = heapEntry memory page) :
    Served block heap next va size := by
  refine .inr ⟨nonnull, fun address above below => ?_⟩
  obtain ⟨lower, upper⟩ := correct.inside valid live
  have limit : dynAllocEnd < kernelHeapMax := by decide
  have start : kernelHeapStart ≤ address := Nat.le_trans lower above
  have ends : address < dynAllocEnd := by omega
  obtain ⟨lies, inside⟩ := roundDown_eq_heapVa start (Nat.lt_trans ends limit)
  have page : kvaToIndex address < blockPages := lt_page_of_lt_heapVa lies ends
  refine ⟨start, Nat.lt_trans ends limit, ?_, ?_, ?_⟩
  · rw [wellFormed.pages.tables.translate_isSome lies inside, same _ page,
      ← tables.translate_isSome lies inside]
    have mapped := correct.mapped valid live (address - va) (by omega)
    rwa [Nat.add_sub_cancel' above] at mapped
  · intro other _ recorded inRun
    have within := (wellFormed.consistent.inside other recorded inRun).1
    have apart : dynAllocEnd ≤ kheapPageAllocStart := by decide
    omega
  · intro other size'' different live' within
    have apart := correct.apart valid different live' live
    omega

/-- A size of more than `2 ^ 32 - 4096` bytes needs no pages, so `kmalloc` returns a pointer. -/
theorem WellFormed.kmalloc_wrapped (wellFormed : heap.WellFormed top) (D : DynAllocator β)
    (large : 2 ^ 32 - pageSize < size) (word : size < 2 ^ 32) :
    ∃ va next, heap.kmalloc D size = .ok (va, next) ∧ va ≠ 0 := by
  have noPages := pagesOf_eq_zero large word
  have nonzero : ¬ (size = 0 ∨ sub32 kernelHeapMax heap.kheapPageAllocBreak < 0 * pageSize) := by
    omega
  have notBlock : ¬ size ≤ dynAllocMaxBlockSize := by
    have limit : dynAllocMaxBlockSize < 2 ^ 32 - pageSize := by decide
    omega
  have below : ¬ kernelHeapMax < add32 heap.kheapPageAllocBreak (0 * pageSize) := by
    have top_le := wellFormed.top_le
    rw [wellFormed.break_eq, add32_heapVa (by omega), Nat.add_zero, ← heapVa_kheapPagesCount,
      heapVa_lt_iff]
    omega
  obtain ⟨fit, found, -⟩ := wellFormed.findCustomfit_spec 0
  simp only [KHeap.kmalloc, noPages, if_neg nonzero, if_neg notBlock, found]
  have allocated : ∀ allocVa brk, ∃ next,
      heap.allocatePages allocVa brk 0 size = .ok (allocVa, next) := fun _ _ => ⟨_, rfl⟩
  by_cases null : fit = 0
  · obtain ⟨next, returned⟩ := allocated heap.kheapPageAllocBreak
      (add32 heap.kheapPageAllocBreak (0 * pageSize))
    refine ⟨heap.kheapPageAllocBreak, next, ?_, ?_⟩
    · rw [← returned]
      change (if fit = 0 then _ else _) = _
      rw [if_pos null, if_neg below]
    · rw [wellFormed.break_eq]
      exact heapVa_ne_zero top
  · obtain ⟨next, returned⟩ := allocated fit heap.kheapPageAllocBreak
    refine ⟨fit, next, ?_, null⟩
    rw [← returned]
    change (if fit = 0 then _ else _) = _
    rw [if_neg null]

/-- `kmalloc` stops only for lack of frames. -/
theorem WellFormed.kmalloc_halt (wellFormed : heap.WellFormed top)
    (correct : D.Correct block Valid) {halt : Halt}
    (stopped : heap.kmalloc D size = .error halt) : halt = .panic := by
  obtain ⟨fit, found, -⟩ := wellFormed.findCustomfit_spec (pagesOf size)
  have pages : ∀ {allocVa brk numPages}, heap.allocatePages allocVa brk numPages size =
      .error halt → halt = .panic := by
    intro allocVa brk numPages stopped
    obtain mapped | ⟨memory, -, rest⟩ := bind_eq_error.mp stopped
    · exact getPages_halt mapped
    · cases rest
  simp only [KHeap.kmalloc, found] at stopped
  split at stopped
  · cases stopped
  · split at stopped
    · obtain call | ⟨result, -, rest⟩ := bind_eq_error.mp stopped
      · exact correct.alloc_halt call
      · cases rest
    · change (if fit = 0 then _ else _) = _ at stopped
      split at stopped
      · split at stopped
        · cases stopped
        · exact pages stopped
      · exact pages stopped

/-- `kmalloc` serves a `uint32` size exactly when rounding it up does not wrap. -/
theorem WellFormed.kmalloc_serves_iff (wellFormed : heap.WellFormed top)
    (correct : D.Correct block Valid) (valid : Valid heap.blocks heap.memory)
    (word : size < 2 ^ 32) :
    Serves block heap size (heap.kmalloc D size) ↔ size ≤ 2 ^ 32 - pageSize := by
  constructor
  · intro served
    by_contra large
    obtain ⟨va, next, returned, nonnull⟩ :=
      wellFormed.kmalloc_wrapped D (Nat.not_le.mp large) word
    rw [returned] at served
    exact not_served_of_wrapped nonnull (Nat.not_le.mp large) served
  · intro small
    cases returned : heap.kmalloc D size with
    | error halt => exact wellFormed.kmalloc_halt correct returned
    | ok result =>
        obtain ⟨va, next⟩ := result
        obtain null | ⟨positive, le, allocated⟩ | pages := wellFormed.kmalloc_cases returned
        · obtain ⟨rfl, rfl⟩ := null
          exact served_refl_null block next size
        · have kept := wellFormed.allocBlock correct.confined allocated
          obtain ⟨⟨va', blocks, memory⟩, call, rest⟩ := bind_eq_ok.mp allocated
          obtain ⟨rfl, rfl⟩ := Prod.mk.inj (Except.ok.inj rest)
          obtain ⟨rfl, rfl, rfl⟩ | ⟨nonnull, -, valid', -, ⟨size', le', live⟩, -⟩ :=
            correct.alloc valid positive le call
          · exact served_refl_null block heap size
          · apply kept.served_block correct kept.pages.tables valid' _ le' nonnull fun _ _ => rfl
            rw [live, Function.update_self]
        · obtain ⟨large, index, top', space, raised, top_le, tight, allocated⟩ := pages
          obtain ⟨rfl, kept, sizes, blocks, -⟩ :=
            wellFormed.allocatePages space raised top_le large small tight allocated
          apply kept.served_pages
          · rw [sizes, Function.update_self]
          · omega
          · intro start size' live
            rw [blocks] at live
            exact (correct.inside valid live).2

/-- `krealloc` of a recorded run of pages to a size other than 0. -/
theorem WellFormed.krealloc_pages (wellFormed : heap.WellFormed top) (D : DynAllocator β)
    (recorded : heap.kallocationSizes index ≠ 0) (positive : 0 < size) :
    heap.krealloc D (heapVa index) size =
      if heap.kallocationSizes index = size then .ok (heapVa index, heap)
      else if size ≤ dynAllocMaxBlockSize then
        heap.pagesToBlock D (heapVa index) (heap.kallocationSizes index) size
      else heap.reallocPages D (heapVa index) (heap.kallocationSizes index) size := by
  have length := wellFormed.runLength_pos recorded
  have lower := wellFormed.packed.low_le index length
  have upper := wellFormed.packed.le_high index length
  have top_le := wellFormed.top_le
  have page : kheapPageAllocStart ≤ heapVa index ∧ heapVa index < heap.kheapPageAllocBreak := by
    rw [wellFormed.break_eq, ← heapVa_firstPage, heapVa_le_iff, heapVa_lt_iff]
    omega
  simp only [KHeap.krealloc, if_neg (heapVa_ne_zero index), if_neg (Nat.ne_of_gt positive),
    if_pos page, kvaToIndex_heapVa (show index ≤ kheapPagesCount by omega), if_neg recorded]

/-- The bytes of a recorded run are mapped. -/
theorem WellFormed.run_mapped (wellFormed : heap.WellFormed top) {count : Nat}
    (recorded : heap.kallocationSizes index ≠ 0)
    (le : count ≤ heap.runLength index * pageSize) :
    ∀ offset < count,
      (heap.memory.translate kernelDirectory (add32 (heapVa index) offset)).isSome = true := by
  intro offset less
  have inRun : heapVa index + offset ∈ heap.runOf index := by
    rw [runOf_eq, Set.mem_Ico]
    simp only [heapVa, pageSize] at *
    omega
  have within := wellFormed.consistent.inside index recorded inRun
  have upper := Nat.lt_of_lt_of_le within.2 wellFormed.consistent.break_le
  have word : kernelHeapMax < 2 ^ 32 := by decide
  rw [add32, Nat.mod_eq_of_lt (Nat.lt_trans upper word),
    wellFormed.consistent.mapped_iff _ within.1 upper]
  exact ⟨index, recorded, inRun⟩

/-- Copying within two recorded runs completes. -/
theorem WellFormed.memcpy_pages (wellFormed : heap.WellFormed top) {dst src count : Nat}
    (recordedDst : heap.kallocationSizes dst ≠ 0) (recordedSrc : heap.kallocationSizes src ≠ 0)
    (leDst : count ≤ heap.runLength dst * pageSize)
    (leSrc : count ≤ heap.runLength src * pageSize) :
    ∃ bytes, heap.memcpy (heapVa dst) (heapVa src) count =
      .ok { heap with memory := { heap.memory with bytes := bytes } } := by
  obtain ⟨next, copied⟩ := Memory.memcpy_isSome (wellFormed.run_mapped recordedDst leDst)
    (wellFormed.run_mapped recordedSrc leSrc)
  obtain ⟨bytes, rfl⟩ := Memory.memcpy_spec copied
  exact ⟨bytes, by rw [KHeap.memcpy, copied]⟩

/-- Moving a page allocation serves a size of no fewer pages. -/
theorem WellFormed.movePages_serves (wellFormed : heap.WellFormed top)
    (correct : D.Correct block Valid) (valid : Valid heap.blocks heap.memory)
    (recorded : heap.kallocationSizes index ≠ 0) (large : dynAllocMaxBlockSize < size)
    (small : size ≤ 2 ^ 32 - pageSize) (room : heap.runLength index ≤ pagesOf size) :
    Serves block heap size
      (heap.movePages D (heapVa index) (heap.kallocationSizes index) size) := by
  rw [KHeap.movePages]
  cases returned : heap.kmalloc D size with
  | error halt => exact wellFormed.kmalloc_halt correct returned
  | ok result =>
      obtain ⟨va, allocated⟩ := result
      obtain null | ⟨-, le, -⟩ | pages := wellFormed.kmalloc_cases returned
      · obtain ⟨rfl, rfl⟩ := null
        exact served_refl_null block allocated size
      · omega
      · obtain ⟨-, index', top', space, raised, top_le, tight, call⟩ := pages
        obtain ⟨rfl, kept, sizes, blocks, -⟩ :=
          wellFormed.allocatePages space raised top_le large small tight call
        have nonzero : size ≠ 0 := by omega
        have different : index ≠ index' := by
          intro same
          subst same
          have length := wellFormed.runLength_pos recorded
          have pages := pagesOf_pos (Nat.pos_of_ne_zero nonzero) small
          exact space.free index (Nat.le_refl _) (by omega) ⟨index, Nat.le_refl _, by omega⟩
        have recordedNew : allocated.kallocationSizes index' = size := by
          rw [sizes, Function.update_self]
        have recordedOld : allocated.kallocationSizes index = heap.kallocationSizes index := by
          rw [sizes, Function.update_of_ne different]
        have bytes : heap.kallocationSizes index ≤ heap.runLength index * pageSize :=
          le_pagesOf_mul (wellFormed.sizes index recorded).2
        have lengthNew : allocated.runLength index' = pagesOf size := by
          rw [runLength, recordedNew]
        have lengthOld : allocated.runLength index = heap.runLength index := by
          rw [runLength, recordedOld, runLength]
        have recordedDst : allocated.kallocationSizes index' ≠ 0 := recordedNew ▸ nonzero
        have recordedSrc : allocated.kallocationSizes index ≠ 0 := recordedOld ▸ recorded
        have leDst : heap.kallocationSizes index ≤ allocated.runLength index' * pageSize := by
          rw [lengthNew]
          exact Nat.le_trans bytes (Nat.mul_le_mul_right _ room)
        have leSrc : heap.kallocationSizes index ≤ allocated.runLength index * pageSize := by
          rw [lengthOld]
          exact bytes
        obtain ⟨contents, copied⟩ := kept.memcpy_pages recordedDst recordedSrc leDst leSrc
        have kept₂ := kept.memcpy copied
        obtain ⟨freed, top₃, released, kept₃, sizes₃, -, blocks₃⟩ :=
          kept₂.kfree_recorded D (recordedOld ▸ recorded)
        have result : (do
            let heap ← allocated.memcpy (heapVa index') (heapVa index)
              (heap.kallocationSizes index)
            let heap ← heap.kfree D (heapVa index)
            return (heapVa index', heap) : Except Halt (Nat × KHeap β)) =
              .ok (heapVa index', freed) := by
          rw [copied]
          exact (congrArg (· >>= fun heap => pure (heapVa index', heap)) released).trans rfl
        change Serves block heap size (if heapVa index' = 0 then _ else _)
        rw [if_neg (heapVa_ne_zero index'), result]
        apply kept₃.served_pages
        · rw [sizes₃, Function.update_of_ne (Ne.symm different)]
          exact recordedNew
        · exact nonzero
        · intro start size' live
          rw [blocks₃] at live
          exact (correct.inside valid (blocks ▸ live)).2

/-- `krealloc` copies the old size of a page allocation to a block; that copy meets an
unmapped page. -/
def CopyOverruns (D : DynAllocator β) (heap : KHeap β) (index size : Nat) : Prop :=
  size ≤ dynAllocMaxBlockSize ∧ ∃ va next,
    heap.allocBlock D size = .ok (va, next) ∧ va ≠ 0 ∧
    ∃ offset < heap.kallocationSizes index,
      (next.memory.translate kernelDirectory (add32 va offset)).isSome = false

/-- `krealloc` of pages to a block serves the size exactly when its copy meets no unmapped
page. -/
theorem WellFormed.pagesToBlock_serves_iff (wellFormed : heap.WellFormed top)
    (correct : D.Correct block Valid) (valid : Valid heap.blocks heap.memory)
    (recorded : heap.kallocationSizes index ≠ 0) (positive : 0 < size)
    (le : size ≤ dynAllocMaxBlockSize) :
    Serves block heap size
        (heap.pagesToBlock D (heapVa index) (heap.kallocationSizes index) size) ↔
      ¬ heap.CopyOverruns D index size := by
  rw [KHeap.pagesToBlock]
  cases returned : heap.allocBlock D size with
  | error halt =>
      apply iff_of_true
      · obtain call | ⟨result, -, rest⟩ := bind_eq_error.mp returned
        · exact correct.alloc_halt call
        · cases rest
      · rintro ⟨_, va, next, allocated, _⟩
        rw [returned] at allocated
        cases allocated
  | ok result =>
      obtain ⟨va, allocated⟩ := result
      have kept := wellFormed.allocBlock correct.confined returned
      obtain ⟨⟨va', blocks, memory⟩, call, rest⟩ := bind_eq_ok.mp returned
      obtain ⟨rfl, rfl⟩ := Prod.mk.inj (Except.ok.inj rest)
      obtain ⟨rfl, rfl, rfl⟩ | ⟨nonnull, -, valid', -, ⟨size', le', live⟩, -⟩ :=
        correct.alloc valid positive le call
      · apply iff_of_true (served_refl_null block heap size)
        rintro ⟨_, va, next, allocated, nonnull, _⟩
        rw [returned] at allocated
        obtain ⟨rfl, -⟩ := Prod.mk.inj (Except.ok.inj allocated)
        exact nonnull rfl
      · change Serves block heap size (if va' = 0 then _ else _) ↔ _
        rw [if_neg nonnull]
        generalize moved : ({ heap with memory := memory, blocks := blocks } : KHeap β) =
          allocated at *
        have sizes : allocated.kallocationSizes = heap.kallocationSizes := by rw [← moved]
        have recorded' : allocated.kallocationSizes index ≠ 0 := sizes ▸ recorded
        have source := kept.run_mapped recorded' (le_pagesOf_mul (kept.sizes index recorded').2)
        rw [sizes] at source
        by_cases overruns : ∃ offset < heap.kallocationSizes index,
            (allocated.memory.translate kernelDirectory (add32 va' offset)).isSome = false
        · apply iff_of_false
          · have faults : allocated.memcpy va' (heapVa index) (heap.kallocationSizes index) =
                .error .pageFault := by
              rw [KHeap.memcpy]
              split
              · rfl
              · rename_i copied
                obtain ⟨offset, less, unmapped⟩ := overruns
                rw [Memory.mapped_of_memcpy copied offset less] at unmapped
                cases unmapped
            rw [faults]
            intro served
            cases served
          · exact not_not.mpr ⟨le, va', allocated, returned, nonnull, overruns⟩
        · apply iff_of_true
          · have target : ∀ offset < heap.kallocationSizes index,
                (allocated.memory.translate kernelDirectory (add32 va' offset)).isSome = true := by
              intro offset less
              by_contra unmapped
              exact overruns ⟨offset, less, Bool.eq_false_iff.mpr unmapped⟩
            obtain ⟨copied, copies⟩ := Memory.memcpy_isSome target source
            have copy : allocated.memcpy va' (heapVa index) (heap.kallocationSizes index) =
                .ok { allocated with memory := copied } := by
              rw [KHeap.memcpy, copies]
            have kept₂ := kept.memcpy copy
            obtain ⟨length, lower, upper⟩ := kept₂.run_bounds recorded'
            obtain ⟨freed, top₃, released, kept₃, -, memory₃, blocks₃⟩ :=
              kept₂.kfree_recorded D recorded'
            obtain ⟨-, -, -, same⟩ := returnPages_pages kept₂.pages lower upper
            have result : (do
                let heap ← allocated.memcpy va' (heapVa index) (heap.kallocationSizes index)
                let heap ← heap.kfree D (heapVa index)
                return (va', heap) : Except Halt (Nat × KHeap β)) = .ok (va', freed) := by
              rw [copy]
              exact (congrArg (· >>= fun heap => pure (va', heap)) released).trans rfl
            rw [result]
            obtain ⟨bytes, rfl⟩ := Memory.memcpy_spec copies
            have blocksEq : freed.blocks = blocks := by
              rw [blocks₃, ← moved]
            have tables : KernelTables memory := by
              rw [← moved] at kept
              exact kept.pages.tables
            have live' : block freed.blocks va' = some size' := by
              rw [blocksEq, live, Function.update_self]
            apply kept₃.served_block correct tables _ live' le' nonnull
            · intro page below
              have limit : blockPages < firstPage := by decide
              rw [memory₃, same page (by omega) (by omega), ← moved]
              rfl
            · rw [blocksEq]
              exact valid'
          · rintro ⟨_, va, next, allocation, _, unmapped⟩
            rw [returned] at allocation
            obtain ⟨rfl, rfl⟩ := Prod.mk.inj (Except.ok.inj allocation)
            exact overruns unmapped

/-- `krealloc` between sizes of more than a block serves every size that does not wrap. -/
theorem WellFormed.reallocPages_serves (wellFormed : heap.WellFormed top)
    (correct : D.Correct block Valid) (valid : Valid heap.blocks heap.memory)
    (recorded : heap.kallocationSizes index ≠ 0) (large : dynAllocMaxBlockSize < size)
    (small : size ≤ 2 ^ 32 - pageSize) :
    Serves block heap size
      (heap.reallocPages D (heapVa index) (heap.kallocationSizes index) size) := by
  obtain ⟨length, lower, upper⟩ := wellFormed.run_bounds recorded
  have apart : ∀ start size', block heap.blocks start = some size' →
      start + size' ≤ dynAllocEnd := fun start size' live => (correct.inside valid live).2
  simp only [KHeap.reallocPages]
  rw [← runLength]
  split
  · rename_i fewer
    obtain ⟨top', kept⟩ := wellFormed.shrinkPages recorded large small fewer
    apply kept.served_pages _ (by omega) apart
    simp only [KHeap.shrinkPages, kvaToIndex_heapVa (show index ≤ kheapPagesCount by omega),
      Function.update_self]
  · rename_i fewer
    split
    · rename_i more
      cases grown : heap.growPages (heapVa index) (heap.runLength index) (pagesOf size) size with
      | error halt =>
          obtain mapped | ⟨memory, -, rest⟩ := bind_eq_error.mp grown
          · exact getPages_halt mapped
          · cases rest
      | ok next =>
          obtain ⟨kept, sizes, blocks, -⟩ :=
            wellFormed.growPages recorded large small more.1 more.2 grown
          apply kept.served_pages _ (by omega)
          · intro start size' live
            exact apart start size' (blocks ▸ live)
          · rw [sizes, Function.update_self]
    · exact wellFormed.movePages_serves correct valid recorded large small
        (Nat.not_lt.mp fewer)

/-- `krealloc` of a page allocation serves a `uint32` size exactly when rounding it up does not
wrap and the copy to a block meets no unmapped page. -/
theorem WellFormed.krealloc_serves_iff (wellFormed : heap.WellFormed top)
    (correct : D.Correct block Valid) (valid : Valid heap.blocks heap.memory)
    (recorded : heap.kallocationSizes index ≠ 0) (positive : 0 < size) (word : size < 2 ^ 32) :
    Serves block heap size (heap.krealloc D (heapVa index) size) ↔
      size ≤ 2 ^ 32 - pageSize ∧ ¬ heap.CopyOverruns D index size := by
  have sized := wellFormed.sizes index recorded
  have limit : dynAllocMaxBlockSize < 2 ^ 32 - pageSize := by decide
  rw [wellFormed.krealloc_pages D recorded positive]
  by_cases same : heap.kallocationSizes index = size
  · rw [if_pos same]
    apply iff_of_true
    · exact wellFormed.served_pages same (Nat.ne_of_gt positive)
        fun start size' live => (correct.inside valid live).2
    · exact ⟨same ▸ sized.2, fun overruns => by have le := overruns.1; omega⟩
  · rw [if_neg same]
    by_cases le : size ≤ dynAllocMaxBlockSize
    · rw [if_pos le, wellFormed.pagesToBlock_serves_iff correct valid recorded positive le]
      exact ⟨fun fits => ⟨by omega, fits⟩, fun both => both.2⟩
    · rw [if_neg le]
      by_cases small : size ≤ 2 ^ 32 - pageSize
      · apply iff_of_true
        · exact wellFormed.reallocPages_serves correct valid recorded (Nat.not_le.mp le) small
        · exact ⟨small, fun overruns => le overruns.1⟩
      · apply iff_of_false _ fun both => small both.1
        have noPages := pagesOf_eq_zero (Nat.not_le.mp small) word
        have fewer : pagesOf size < pagesOf (heap.kallocationSizes index) := by
          rw [noPages]
          exact wellFormed.runLength_pos recorded
        simp only [KHeap.reallocPages, if_pos fewer]
        exact not_served_of_wrapped (heapVa_ne_zero index) (Nat.not_le.mp small)

/-- For `uint32` sizes, `kmalloc` and `krealloc` of page allocations return `NULL` or a pointer
good for all its bytes exactly when rounding the size up does not wrap and the copy to a block
meets no unmapped page. -/
theorem serves_iff (D : DynAllocator β) (correct : D.Correct block Valid) (heap : KHeap β)
    (top : Nat) (wellFormed : heap.WellFormed top) (valid : Valid heap.blocks heap.memory)
    (size : Nat) (word : size < 2 ^ 32) :
    (Serves block heap size (heap.kmalloc D size) ↔ size ≤ 2 ^ 32 - pageSize) ∧
      ∀ index, heap.kallocationSizes index ≠ 0 → 0 < size →
        (Serves block heap size (heap.krealloc D (heapVa index) size) ↔
          size ≤ 2 ^ 32 - pageSize ∧ ¬ heap.CopyOverruns D index size) :=
  ⟨wellFormed.kmalloc_serves_iff correct valid word, fun _ recorded positive =>
    wellFormed.krealloc_serves_iff correct valid recorded positive word⟩

/-- A page allocation of a blank machine can be served a larger size. -/
theorem serves_iff_larger : ∃ next : KHeap (List Nat),
    PageBlocks.blankHeap.kmalloc PageBlocks.allocator 5000 = .ok (heapVa firstPage, next) ∧
      Serves PageBlocks.block next 9000 (next.krealloc PageBlocks.allocator (heapVa firstPage) 9000)
    := by
  have completes : (PageBlocks.blankHeap.kmalloc PageBlocks.allocator 5000).map
      (fun result => (result.1, result.2.blocks, result.2.kallocationSizes firstPage)) =
        .ok (heapVa firstPage, [], 5000) := by decide +kernel
  cases returned : PageBlocks.blankHeap.kmalloc PageBlocks.allocator 5000 with
  | error halt =>
      rw [returned] at completes
      cases completes
  | ok result =>
      obtain ⟨va, next⟩ := result
      rw [returned] at completes
      obtain ⟨start, rest⟩ := Prod.mk.inj (Except.ok.inj completes)
      obtain ⟨blocks, recorded⟩ := Prod.mk.inj rest
      obtain rfl : va = heapVa firstPage := start
      refine ⟨next, rfl, ?_⟩
      obtain ⟨top, wellFormed⟩ := PageBlocks.blankHeap_wellFormed.kmalloc PageBlocks.confined
        (by decide) returned
      have valid := PageBlocks.blankHeap_wellFormed.kmalloc_valid PageBlocks.correct
        PageBlocks.blankHeap_valid (by decide) returned
      have served := (serves_iff PageBlocks.allocator PageBlocks.correct next top wellFormed valid
        9000 (by decide)).2 firstPage (by rw [recorded]; decide) (by decide)
      exact served.mpr ⟨by decide, fun overruns => absurd overruns.1 (by decide)⟩

/-- On the heap of a blank machine, `kmalloc` of `2 ^ 32 - 1` bytes returns a pointer without
pages behind it. -/
theorem not_serves_kmalloc_max :
    PageBlocks.allocator.Correct PageBlocks.block PageBlocks.Valid ∧
      PageBlocks.blankHeap.WellFormed firstPage ∧
      PageBlocks.Valid PageBlocks.blankHeap.blocks PageBlocks.blankHeap.memory ∧
      (PageBlocks.blankHeap.kmalloc PageBlocks.allocator (2 ^ 32 - 1)).map Prod.fst =
        .ok kheapPageAllocStart ∧
      ¬ Serves PageBlocks.block PageBlocks.blankHeap (2 ^ 32 - 1)
        (PageBlocks.blankHeap.kmalloc PageBlocks.allocator (2 ^ 32 - 1)) := by
  refine ⟨PageBlocks.correct, PageBlocks.blankHeap_wellFormed, PageBlocks.blankHeap_valid,
    by decide +kernel, fun served => ?_⟩
  have small := (PageBlocks.blankHeap_wellFormed.kmalloc_serves_iff PageBlocks.correct
    PageBlocks.blankHeap_valid (by decide)).mp served
  exact absurd small (by decide)

end KHeap

end FosKernel
