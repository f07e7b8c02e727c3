import FosKernel.Heap.AllocateFree

/-!
# When `kmalloc` gives up

`kmalloc` tests first whether the request fits above the break. A request that
does not is refused, whatever gaps there are below the break and whatever blocks
the dynamic allocator could give. It is refused for good only if there are none.
-/

namespace FosKernel

namespace KHeap

variable {β : Type} {D : DynAllocator β} {heap next : KHeap β} {top index size : Nat}

/-- Some consecutive pages below the break belong to no allocation. -/
def HasGap (heap : KHeap β) (count : Nat) : Prop :=
  ∃ index, firstPage ≤ index ∧ heapVa (index + count) ≤ heap.kheapPageAllocBreak ∧
    ∀ page, index ≤ page → page < index + count → ¬ Runs.Covered heap.runLength page

/-- A request can be served: pages in a gap or above the break, or a block. -/
def Servable (D : DynAllocator β) (heap : KHeap β) (size : Nat) : Prop :=
  if size ≤ dynAllocMaxBlockSize then
    ∃ va next, va ≠ 0 ∧ heap.allocBlock D size = .ok (va, next)
  else
    heap.HasGap (pagesOf size) ∨
      heap.kheapPageAllocBreak + pagesOf size * pageSize ≤ kernelHeapMax

/-- The request, rounded to pages, fits between the break and the heap's end. -/
def FitsAbove (heap : KHeap β) (size : Nat) : Prop :=
  pagesOf size * pageSize ≤ kernelHeapMax - heap.kheapPageAllocBreak

/-- The subtraction in the first test of `kmalloc` does not wrap. -/
theorem WellFormed.fitsAbove_iff (wellFormed : heap.WellFormed top) :
    heap.FitsAbove size ↔
      ¬ sub32 kernelHeapMax heap.kheapPageAllocBreak < pagesOf size * pageSize := by
  have same : kernelHeapMax - heap.kheapPageAllocBreak =
      sub32 kernelHeapMax heap.kheapPageAllocBreak := by
    have limit : kheapPagesCount = 40959 := by decide
    have top_le := wellFormed.top_le
    rw [wellFormed.sub32_break, wellFormed.break_eq]
    simp only [heapVa, kernelHeapStart, kernelHeapMax, pageSize]
    omega
  rw [FitsAbove, same, Nat.not_lt]

/-- A request that does not fit above the break is refused. -/
theorem WellFormed.kmalloc_of_not_fits (wellFormed : heap.WellFormed top)
    (short : ¬ heap.FitsAbove size) : heap.kmalloc D size = .ok (0, heap) := by
  rw [wellFormed.fitsAbove_iff, not_not] at short
  exact if_pos (.inr short)

/-- A block is asked for once the request fits above the break. -/
theorem WellFormed.kmalloc_of_block (wellFormed : heap.WellFormed top) (fits : heap.FitsAbove size)
    (positive : 0 < size) (block : size ≤ dynAllocMaxBlockSize) :
    heap.kmalloc D size = heap.allocBlock D size := by
  rw [wellFormed.fitsAbove_iff] at fits
  have admitted : ¬ (size = 0 ∨ sub32 kernelHeapMax heap.kheapPageAllocBreak <
      pagesOf size * pageSize) := not_or.mpr ⟨Nat.ne_of_gt positive, fits⟩
  exact (if_neg admitted).trans (if_pos block)

/-- The allocations of pages that fit above the break do not fail. -/
theorem WellFormed.kmalloc_of_fits (wellFormed : heap.WellFormed top) (fits : heap.FitsAbove size)
    (large : dynAllocMaxBlockSize < size) :
    ∃ index top', heap.kmalloc D size =
      heap.allocatePages (heapVa index) (heapVa top') (pagesOf size) size ∧
      (heap.HasGap (pagesOf size) ∨ index = top ∧ top' = top + pagesOf size) := by
  have room := fits
  rw [wellFormed.fitsAbove_iff] at fits
  have admitted : ¬ (size = 0 ∨ sub32 kernelHeapMax heap.kheapPageAllocBreak <
      pagesOf size * pageSize) := not_or.mpr ⟨by omega, fits⟩
  obtain ⟨va, found, space⟩ := wellFormed.findCustomfit_spec (pagesOf size)
  have top_le := wellFormed.top_le
  have limit : kheapPagesCount = 40959 := by decide
  have inside : top + pagesOf size ≤ kheapPagesCount := by
    rw [Nat.not_lt, wellFormed.sub32_break] at fits
    have := Nat.le_of_mul_le_mul_right fits (by decide)
    omega
  have call : heap.kmalloc D size =
      if va = 0 then
        if kernelHeapMax < add32 heap.kheapPageAllocBreak (pagesOf size * pageSize) then
          .ok (0, heap)
        else heap.allocatePages heap.kheapPageAllocBreak
          (add32 heap.kheapPageAllocBreak (pagesOf size * pageSize)) (pagesOf size) size
      else heap.allocatePages va heap.kheapPageAllocBreak (pagesOf size) size := by
    rw [KHeap.kmalloc]
    dsimp only
    rw [if_neg admitted, if_neg (Nat.not_le.mpr large), found]
    rfl
  rw [call]
  by_cases null : va = 0
  · have below : ¬ kernelHeapMax < heapVa (top + pagesOf size) := by
      rw [← heapVa_kheapPagesCount, heapVa_lt_iff]
      omega
    refine ⟨top, top + pagesOf size, ?_, .inr ⟨rfl, rfl⟩⟩
    rw [if_pos null, wellFormed.break_eq, add32_heapVa inside, if_neg below]
  · obtain ⟨index, rfl, gap⟩ := space.resolve_left null
    refine ⟨index, top, ?_, .inl ⟨index, gap.lower, ?_, gap.free⟩⟩
    · rw [if_neg null, wellFormed.break_eq]
    · rw [wellFormed.break_eq, heapVa_le_iff]
      exact gap.upper

/-- **`kmalloc` returns `NULL` only for requests that cannot be served exactly if the request
fits above the break, or else there is neither a gap nor a block for it.** -/
theorem kmalloc_complete_iff (D : DynAllocator β) (heap : KHeap β) (top size : Nat)
    (wellFormed : heap.WellFormed top) (positive : 1 ≤ size) :
    (∀ next, heap.kmalloc D size = .ok (0, next) → ¬ heap.Servable D size) ↔
      heap.FitsAbove size ∨
        (dynAllocMaxBlockSize < size ∧ ¬ heap.HasGap (pagesOf size)) ∨
        (size ≤ dynAllocMaxBlockSize ∧
          ∀ va next, heap.allocBlock D size = .ok (va, next) → va = 0) := by
  unfold Servable
  by_cases fits : heap.FitsAbove size
  · refine iff_of_true (fun next null => ?_) (.inl fits)
    by_cases block : size ≤ dynAllocMaxBlockSize
    · rw [if_pos block]
      rw [wellFormed.kmalloc_of_block fits positive block] at null
      rintro ⟨va, next', nonnull, granted⟩
      exact nonnull (Prod.mk.inj (Except.ok.inj (granted.symm.trans null))).1
    · obtain ⟨index, top', call, -⟩ :=
        wellFormed.kmalloc_of_fits (D := D) fits (Nat.not_le.mp block)
      obtain ⟨memory, -, rest⟩ := bind_eq_ok.mp (call.symm.trans null)
      exact absurd (Prod.mk.inj (Except.ok.inj rest)).1 (heapVa_ne_zero index)
  · have refused := wellFormed.kmalloc_of_not_fits (D := D) fits
    have full : ¬ heap.kheapPageAllocBreak + pagesOf size * pageSize ≤ kernelHeapMax := by
      unfold FitsAbove at fits
      have limit := wellFormed.consistent.break_le
      omega
    by_cases block : size ≤ dynAllocMaxBlockSize
    · rw [if_pos block]
      constructor
      · intro complete
        refine .inr (.inr ⟨block, fun va next granted => ?_⟩)
        by_contra nonnull
        exact complete heap refused ⟨va, next, nonnull, granted⟩
      · rintro (above | pages | blocks) next -
        · exact absurd above fits
        · exact absurd block (Nat.not_le.mpr pages.1)
        · rintro ⟨va, next', nonnull, granted⟩
          exact nonnull (blocks.2 va next' granted)
    · rw [if_neg block]
      constructor
      · intro complete
        exact .inr (.inl ⟨Nat.not_le.mp block, fun gap => complete heap refused (.inl gap)⟩)
      · rintro (above | pages | blocks) next -
        · exact absurd above fits
        · exact not_or.mpr ⟨pages.2, full⟩
        · exact absurd blocks.1 block

/-- On a blank machine every request for 5000 bytes that is refused cannot be served. -/
theorem kmalloc_complete_iff_blank : PageBlocks.blankHeap.FitsAbove 5000 ∧
    ∀ next, PageBlocks.blankHeap.kmalloc PageBlocks.allocator 5000 = .ok (0, next) →
      ¬ PageBlocks.blankHeap.Servable PageBlocks.allocator 5000 := by
  have fits : PageBlocks.blankHeap.FitsAbove 5000 := by
    unfold FitsAbove PageBlocks.blankHeap
    decide
  exact ⟨fits, (kmalloc_complete_iff PageBlocks.allocator PageBlocks.blankHeap firstPage 5000
    PageBlocks.blankHeap_wellFormed (by decide)).mpr (.inl fits)⟩

/-- With enough free frames and no gap, `kmalloc` extends the break. -/
theorem WellFormed.kmalloc_extends (wellFormed : heap.WellFormed top) (fits : heap.FitsAbove size)
    (large : dynAllocMaxBlockSize < size) (small : size ≤ 2 ^ 32 - pageSize)
    (noGap : ¬ heap.HasGap (pagesOf size)) {free : List Nat}
    (represents : heap.memory.freeFrameList.Represents free)
    (enough : pagesOf size ≤ free.length) :
    ∃ next, heap.kmalloc D size = .ok (heapVa top, next) ∧
      next.WellFormed (top + pagesOf size) ∧
      next.kallocationSizes = Function.update heap.kallocationSizes top size ∧
      getPages heap.memory (heapVa top) (pagesOf size) = .ok next.memory ∧
      ∃ rest, next.memory.freeFrameList.Represents rest ∧
        free.length = pagesOf size + rest.length := by
  obtain ⟨index, top', call, gap | ⟨rfl, rfl⟩⟩ :=
    wellFormed.kmalloc_of_fits (D := D) fits large
  · exact absurd gap noGap
  have firstPage_le := wellFormed.firstPage_le
  have top_le := wellFormed.top_le
  have limit : kheapPagesCount = 40959 := by decide
  have inside : index + pagesOf size ≤ kheapPagesCount := by
    rw [wellFormed.fitsAbove_iff, Nat.not_lt, wellFormed.sub32_break] at fits
    have := Nat.le_of_mul_le_mul_right fits (by decide)
    omega
  have uncovered : ∀ page, index ≤ page → page < index + pagesOf size →
      ¬ Runs.Covered heap.runLength page := by
    intro page above below covered
    exact absurd (wellFormed.packed.bounds covered).2 (Nat.not_lt.mpr above)
  have absent := wellFormed.absent_of_space
    ⟨firstPage_le, Nat.le_refl (index + pagesOf size), uncovered⟩ inside
  obtain ⟨memory, mapped⟩ :=
    getPages_completes wellFormed.pages firstPage_le inside absent represents enough
  obtain ⟨rest, rfl, represents', -⟩ :=
    getPages_takes wellFormed.pages firstPage_le inside absent represents mapped
  have completes : ∃ next, heap.allocatePages (heapVa index) (heapVa (index + pagesOf size))
      (pagesOf size) size = .ok (heapVa index, next) := by
    rw [KHeap.allocatePages, mapped]
    exact ⟨_, rfl⟩
  obtain ⟨next, allocated⟩ := completes
  obtain ⟨-, kept, sizes, -, mapped'⟩ := wellFormed.allocatePages
    ⟨firstPage_le, Nat.le_refl _, uncovered⟩ (Nat.le_add_right ..) inside large small (.inr rfl)
    allocated
  obtain rfl := Except.ok.inj (mapped.symm.trans mapped')
  refine ⟨next, call.trans allocated, kept, sizes, mapped, rest, represents', ?_⟩
  rw [List.length_append, pageFrames, List.length_map, List.length_range']

/-- A blank machine with more frames than the heap has pages. -/
def wideHeap : KHeap (List Nat) :=
  kheapInit PageBlocks.allocator (Memory.blank.initializePaging physExtendedMemFrame 50000)

theorem kheapInit_memory (memory : Memory) :
    (kheapInit PageBlocks.allocator memory).memory = memory := rfl

theorem wideHeap_memory :
    wideHeap.memory = Memory.blank.initializePaging physExtendedMemFrame 50000 := by
  rw [wideHeap, kheapInit_memory]

theorem wideHeap_wellFormed : wideHeap.WellFormed firstPage := by
  obtain ⟨tables, unmapped⟩ := blank_kernelTables 50000
  exact .initial PageBlocks.confined tables fun index _ _ => unmapped index

theorem wideHeap_free : ∃ free, wideHeap.memory.freeFrameList.Represents free ∧
    kheapPagesCount ≤ free.length := by
  obtain ⟨free, represents, -, -, listed, -⟩ := Memory.initializePaging_spec Memory.blank 50000
    (Nat.le_refl physExtendedMemFrame)
  refine ⟨free, represents, ?_⟩
  have subset : Finset.Ico physExtendedMemFrame 50000 ⊆ free.toFinset := by
    intro frame member
    rw [List.mem_toFinset, listed]
    exact Finset.mem_union_right _ member
  have card := (Finset.card_le_card subset).trans free.toFinset_card_le
  rw [Nat.card_Ico] at card
  exact Nat.le_trans (by decide) card

/-- The size of an allocation of the whole page allocator but its first two pages. -/
def restSize : Nat := (kheapPagesCount - firstPage - 2) * pageSize

/-- After two pages, the rest of the heap and the release of the two pages, two pages are
refused although there is a gap for them. -/
theorem not_complete_full : ∃ heap : KHeap (List Nat),
    Relation.ReflTransGen (Step PageBlocks.allocator) wideHeap heap ∧
      heap.kmalloc PageBlocks.allocator 8192 = .ok (0, heap) ∧ heap.HasGap 2 ∧
      heap.Servable PageBlocks.allocator 8192 := by
  have two : pagesOf 8192 = 2 := by decide
  have others : pagesOf restSize = kheapPagesCount - firstPage - 2 := by decide
  obtain ⟨free, represents, enough⟩ := wideHeap_free
  have gapless : ¬ wideHeap.HasGap (pagesOf 8192) := by
    rintro ⟨index, lower, upper, -⟩
    rw [wideHeap_wellFormed.break_eq, heapVa_le_iff] at upper
    omega
  have room : wideHeap.FitsAbove 8192 := by
    unfold FitsAbove wideHeap
    decide
  obtain ⟨first, call₁, kept₁, sizes₁, -, free₁, represents₁, length₁⟩ :=
    wideHeap_wellFormed.kmalloc_extends (D := PageBlocks.allocator) room (by decide) (by decide)
      gapless represents (Nat.le_trans (by decide) enough)
  have brk₁ := kept₁.break_eq
  rw [two] at brk₁
  have room₁ : first.FitsAbove restSize := by
    unfold FitsAbove
    rw [brk₁]
    decide
  have gapless₁ : ¬ first.HasGap (pagesOf restSize) := by
    rintro ⟨index, lower, upper, -⟩
    rw [brk₁, heapVa_le_iff, others] at upper
    have large : 2 < kheapPagesCount - firstPage - 2 := by decide
    omega
  obtain ⟨second, call₂, kept₂, sizes₂, -⟩ :=
    kept₁.kmalloc_extends (D := PageBlocks.allocator) room₁ (by decide) (by decide) gapless₁
      represents₁ (by
        have enough₁ : pagesOf restSize + 2 ≤ kheapPagesCount := by decide
        omega)
  have recorded : second.kallocationSizes firstPage ≠ 0 := by
    have apart : firstPage ≠ firstPage + pagesOf 8192 := by omega
    rw [sizes₂, sizes₁, Function.update_of_ne apart, Function.update_self]
    decide
  obtain ⟨heap, top, released, kept, sizes, -⟩ :=
    kept₂.kfree_recorded PageBlocks.allocator recorded
  have lengths : ∀ start, start ≠ firstPage + 2 → heap.runLength start = 0 := by
    intro start different
    apply runLength_eq_zero
    rw [sizes]
    by_cases same : start = firstPage
    · rw [same, Function.update_self]
    · rw [Function.update_of_ne same, sizes₂, two, Function.update_of_ne different, sizes₁,
        Function.update_of_ne same]
      rfl
  have length : heap.runLength (firstPage + 2) = kheapPagesCount - firstPage - 2 := by
    have apart : firstPage + 2 ≠ firstPage := by omega
    rw [runLength, sizes, Function.update_of_ne apart, sizes₂, two, Function.update_self, others]
  have full : heap.kheapPageAllocBreak = kernelHeapMax := by
    have top_le := kept.top_le
    have covered : Runs.Covered heap.runLength (kheapPagesCount - 1) := by
      have limits : firstPage + 2 < kheapPagesCount := by decide
      refine ⟨firstPage + 2, by omega, ?_⟩
      rw [length]
      omega
    have bounds := kept.packed.bounds covered
    rw [kept.break_eq, ← heapVa_kheapPagesCount, heapVa_inj]
    omega
  have gap : heap.HasGap 2 := by
    refine ⟨firstPage, Nat.le_refl _, ?_, ?_⟩
    · rw [full]
      decide
    · rintro page above below ⟨start, starts, inside⟩
      rw [lengths start (by omega)] at inside
      omega
  have refused : ¬ heap.FitsAbove 8192 := by
    unfold FitsAbove
    rw [full]
    decide
  have servable : heap.Servable PageBlocks.allocator 8192 := by
    unfold Servable
    rw [if_neg (by decide), two]
    exact .inl gap
  refine ⟨heap, ?_, kept.kmalloc_of_not_fits refused, gap, servable⟩
  have freed : second.exec PageBlocks.allocator (.kfree (heapVa firstPage)) = .ok (0, heap) :=
    bind_eq_ok.mpr ⟨heap, released, rfl⟩
  have legal₁ : wideHeap.Legal (.kmalloc 8192) :=
    show 8192 ≤ kernelHeapMax - kernelHeapStart by decide
  have legal₂ : first.Legal (.kmalloc restSize) :=
    show restSize ≤ kernelHeapMax - kernelHeapStart by decide
  have legal₃ : second.Legal (.kfree (heapVa firstPage)) := trivial
  exact .tail (.tail (.single ⟨_, _, legal₁, call₁⟩) ⟨_, _, legal₂, call₂⟩)
    ⟨_, _, legal₃, freed⟩

end KHeap

end FosKernel
