import FosKernel.Heap.CustomFit

/-!
# The invariant of the kernel heap

Every call of `kmalloc`, `kfree` and `krealloc` that returns keeps the heap well
formed: the size table, the page mappings and the break agree. The dynamic
allocator is assumed to touch only the pages below `dynAllocEnd`.
-/

namespace FosKernel

/-- The number of pages of the dynamic allocator. -/
def blockPages : Nat := (dynAllocEnd - kernelHeapStart) / pageSize

/-- Only entries of the pages of the dynamic allocator differ. -/
structure OnlyBlockPages (before after : Memory) : Prop where
  directories : after.directories = before.directories
  tables : ∀ slot, (∀ index < blockPages, pageSlot before index ≠ slot) →
    after.tables slot = before.tables slot

/-- The dynamic allocator maps and unmaps only its own pages. -/
structure DynAllocator.Confined {β : Type} (D : DynAllocator β) : Prop where
  initial : ∀ memory, OnlyBlockPages memory (D.initializeDynamicAllocator memory).2
  alloc : ∀ size blocks memory va blocks' memory',
    D.allocBlock size (blocks, memory) = .ok (va, blocks', memory') →
      OnlyBlockPages memory memory'
  free : ∀ va blocks memory blocks' memory',
    D.freeBlock va (blocks, memory) = .ok (blocks', memory') → OnlyBlockPages memory memory'
  realloc : ∀ va size blocks memory va' blocks' memory',
    D.reallocBlock va size (blocks, memory) = .ok (va', blocks', memory') →
      OnlyBlockPages memory memory'

/-- The page allocator's entries outlive a change of block pages. -/
theorem OnlyBlockPages.pages {before after : Memory} (only : OnlyBlockPages before after)
    (pages : HeapPages before) :
    HeapPages after ∧ ∀ page, blockPages ≤ page → page < kheapPagesCount →
      heapEntry after page = heapEntry before page := by
  have same : ∀ page, blockPages ≤ page → page < kheapPagesCount →
      heapEntry after page = heapEntry before page := by
    intro page above below
    rw [heapEntry, heapEntry, pageSlot_congr only.directories]
    apply only.tables
    intro index block equal
    have index_eq := pages.tables.pageSlot_inj (Nat.lt_trans (Nat.lt_of_lt_of_le block above) below)
      below equal
    omega
  refine ⟨⟨pages.tables.congr only.directories, ?_⟩, same⟩
  intro page above below
  have blocks : blockPages ≤ page := Nat.le_trans (by decide) above
  rw [same page blocks below]
  exact pages.clean page above below

theorem OnlyBlockPages.refl (memory : Memory) : OnlyBlockPages memory memory where
  directories := rfl
  tables := fun _ _ => rfl

/-- `get_page` of a block page touches only its entry. -/
theorem OnlyBlockPages.getPage {memory next : Memory} {index : Nat} (block : index < blockPages)
    (mapped : getPage memory (heapVa index) = .ok next) : OnlyBlockPages memory next := by
  rw [FosKernel.getPage, roundDown_heapVa] at mapped
  cases located : memory.slot kernelDirectory (heapVa index) with
  | none =>
      rw [Memory.allocPage_of_not_located located] at mapped
      cases mapped
  | some slot =>
      split at mapped
      · cases mapped
      · rename_i allocated
        obtain rfl := Except.ok.inj mapped
        cases Memory.allocPage_cases located allocated with
        | inl already =>
            rw [already.2.2]
            exact OnlyBlockPages.refl memory
        | inr fresh =>
            obtain ⟨-, -, frame, taken, bytes, took, rfl, -⟩ := fresh
            obtain ⟨tables, directories, -⟩ := Memory.allocateFrame_spec took
            refine ⟨directories, ?_⟩
            intro other outside
            have different : other ≠ slot := by
              intro same
              apply outside index block
              rw [pageSlot, located, Option.getD_some, same]
            change Function.update taken.tables slot _ other = _
            rw [Function.update_of_ne different, tables]

/-- `return_page` of a block page touches only its entry. -/
theorem OnlyBlockPages.returnPage (memory : Memory) {index : Nat} (block : index < blockPages) :
    OnlyBlockPages memory (returnPage memory (heapVa index)) := by
  rw [FosKernel.returnPage, roundDown_heapVa]
  refine ⟨Memory.unmapFrame_directories .., ?_⟩
  intro other outside
  cases located : memory.slot kernelDirectory (heapVa index) with
  | none => rw [Memory.unmapFrame_of_not_located located]
  | some slot =>
      have different : other ≠ slot := by
        intro same
        apply outside index block
        rw [pageSlot, located, Option.getD_some, same]
      rw [Memory.unmapFrame_tables located, Function.update_of_ne different]

namespace KHeap

variable {β : Type} {heap next : KHeap β} {top : Nat}

/-- The states that a heap operation may leave: another size for one run, with the pages of
that run and the break adjusted. -/
theorem WellFormed.update (wellFormed : heap.WellFormed top) {index size top' : Nat}
    (pages : HeapPages next.memory)
    (sizes : next.kallocationSizes = Function.update heap.kallocationSizes index size)
    (break_eq : next.kheapPageAllocBreak = heapVa top')
    (firstPage_le : firstPage ≤ top') (top_le : top' ≤ kheapPagesCount)
    (sized : size ≠ 0 → dynAllocMaxBlockSize < size ∧ size ≤ 2 ^ 32 - pageSize)
    (lower : firstPage ≤ index) (upper : 0 < pagesOf size → index + pagesOf size ≤ top')
    (others : ∀ other, other ≠ index → 0 < heap.runLength other →
      other + heap.runLength other ≤ top')
    (free : ∀ page, index ≤ page → page < index + pagesOf size →
      ¬ (index ≤ page ∧ page < index + heap.runLength index) →
        ¬ Runs.Covered heap.runLength page)
    (present : ∀ page, firstPage ≤ page → page < kheapPagesCount →
      ((heapEntry next.memory page).present = true ↔
        index ≤ page ∧ page < index + pagesOf size ∨
          (heapEntry heap.memory page).present = true ∧
            ¬ (index ≤ page ∧ page < index + heap.runLength index)))
    (tight : top' = firstPage ∨ (heapEntry next.memory (top' - 1)).present = true) :
    next.WellFormed top' := by
  have lengths : next.runLength = Function.update heap.runLength index (pagesOf size) := by
    funext other
    rw [runLength, sizes]
    by_cases same : other = index
    · rw [same, Function.update_self, Function.update_self]
    · rw [Function.update_of_ne same, Function.update_of_ne same, runLength]
  have present_iff : ∀ page, firstPage ≤ page → page < kheapPagesCount →
      ((heapEntry next.memory page).present = true ↔ Runs.Covered next.runLength page) := by
    intro page above below
    rw [present page above below, wellFormed.present_iff page above below, lengths,
      wellFormed.packed.covered_update]
  refine ⟨pages, break_eq, firstPage_le, top_le, ?_, ?_, present_iff, ?_⟩
  · intro other recorded
    rw [sizes] at recorded ⊢
    by_cases same : other = index
    · subst same
      rw [Function.update_self] at recorded ⊢
      exact sized recorded
    · rw [Function.update_of_ne same] at recorded ⊢
      exact wellFormed.sizes other recorded
  · rw [lengths]
    exact wellFormed.packed.update lower upper others free
  · by_cases bottom : top' = firstPage
    · exact .inl bottom
    · right
      have last := tight.resolve_left bottom
      exact (present_iff (top' - 1) (by omega) (by omega)).mp last

/-- Another memory with the same pages keeps the heap well formed. -/
theorem WellFormed.congr (wellFormed : heap.WellFormed top) (pages : HeapPages next.memory)
    (sizes : next.kallocationSizes = heap.kallocationSizes)
    (break_eq : next.kheapPageAllocBreak = heap.kheapPageAllocBreak)
    (same : ∀ page, firstPage ≤ page → page < kheapPagesCount →
      heapEntry next.memory page = heapEntry heap.memory page) : next.WellFormed top := by
  have lengths : next.runLength = heap.runLength := by
    funext index
    rw [runLength, runLength, sizes]
  refine ⟨pages, break_eq.trans wellFormed.break_eq, wellFormed.firstPage_le, wellFormed.top_le,
    ?_, ?_, ?_, ?_⟩
  · rw [sizes]
    exact wellFormed.sizes
  · rw [lengths]
    exact wellFormed.packed
  · intro page above below
    rw [same page above below, lengths]
    exact wellFormed.present_iff page above below
  · rw [lengths]
    exact wellFormed.tight

/-- Mapping free pages and recording their size keeps the heap well formed. -/
theorem WellFormed.allocatePages (wellFormed : heap.WellFormed top) {index size top' va : Nat}
    (space : heap.FreeSpace top' index (pagesOf size)) (raised : top ≤ top')
    (top_le : top' ≤ kheapPagesCount) (large : dynAllocMaxBlockSize < size)
    (small : size ≤ 2 ^ 32 - pageSize)
    (tight : top' = top ∨ top' = index + pagesOf size)
    (allocated : heap.allocatePages (heapVa index) (heapVa top') (pagesOf size) size =
      .ok (va, next)) :
    va = heapVa index ∧ next.WellFormed top' ∧
      next.kallocationSizes = Function.update heap.kallocationSizes index size ∧
      next.blocks = heap.blocks ∧
      getPages heap.memory (heapVa index) (pagesOf size) = .ok next.memory := by
  obtain ⟨memory, mapped, returned⟩ := bind_eq_ok.mp allocated
  obtain ⟨rfl, rfl⟩ := Prod.mk.inj (Except.ok.inj returned)
  have above := space.lower
  have below := space.upper
  obtain ⟨pages, -, present, kept⟩ := getPages_pages wellFormed.pages above (by omega) mapped
  have positive := pagesOf_pos (Nat.lt_of_le_of_lt (Nat.zero_le _) large) small
  have unrecorded : heap.runLength index = 0 := by
    by_contra recorded
    exact space.free index (Nat.le_refl _) (by omega) ⟨index, Nat.le_refl _, by omega⟩
  have index_eq : kvaToIndex (heapVa index) = index := kvaToIndex_heapVa (by omega)
  rw [index_eq]
  refine ⟨rfl, ?_, rfl, rfl, mapped⟩
  have present_iff : ∀ page, firstPage ≤ page → page < kheapPagesCount →
      ((heapEntry memory page).present = true ↔
        index ≤ page ∧ page < index + pagesOf size ∨
          (heapEntry heap.memory page).present = true ∧
            ¬ (index ≤ page ∧ page < index + heap.runLength index)) := by
    intro page _ inside
    rw [unrecorded]
    by_cases here : index ≤ page ∧ page < index + pagesOf size
    · simp [here, present page here.1 here.2]
    · rw [kept page inside here]
      simp only [here, false_or, iff_self_and]
      intro _
      omega
  have least := Nat.le_trans wellFormed.firstPage_le raised
  have tight' : top' = firstPage ∨ (heapEntry memory (top' - 1)).present = true := by
    by_cases bottom : top' = firstPage
    · exact .inl bottom
    · right
      rw [present_iff (top' - 1) (by omega) (by omega), unrecorded]
      cases tight with
      | inl same =>
          subst same
          have last := wellFormed.tight.resolve_left bottom
          rw [wellFormed.present_iff (top' - 1) (by omega) (by omega)]
          exact .inr ⟨last, by omega⟩
      | inr same => exact .inl (by omega)
  apply wellFormed.update pages rfl rfl least top_le (fun _ => ⟨large, small⟩) above
    (fun _ => below)
    _ _ present_iff tight'
  · intro other _ positive
    exact Nat.le_trans (wellFormed.packed.le_high other positive) raised
  · intro page lower upper _
    exact space.free page lower upper

/-- Releasing a recorded run completes and keeps the heap well formed. -/
theorem WellFormed.freePages (wellFormed : heap.WellFormed top) {index va : Nat}
    (page : roundDown va pageSize = heapVa index) (inside : index < kheapPagesCount)
    (recorded : heap.kallocationSizes index ≠ 0) :
    ∃ next top', heap.freePages va (heap.kallocationSizes index) = .ok next ∧
      next.WellFormed top' ∧
      next.kallocationSizes = Function.update heap.kallocationSizes index 0 ∧
      next.memory = returnPages heap.memory (heapVa index) (heap.runLength index) ∧
      next.blocks = heap.blocks := by
  have positive := wellFormed.runLength_pos recorded
  have lower := wellFormed.packed.low_le index positive
  have upper := wellFormed.packed.le_high index positive
  have top_le := wellFormed.top_le
  have index_eq : kvaToIndex va = index := kvaToIndex_eq (Nat.le_of_lt inside) page
  obtain ⟨pages, -, absent, kept⟩ := returnPages_pages wellFormed.pages lower
    (Nat.le_trans upper top_le)
  obtain ⟨top', lowered, firstPage_le, top'_le, passed, stop⟩ := lowerBreak_spec
    pages.tables wellFormed.firstPage_le top_le
      (show top - firstPage < kheapPagesCount + 1 by omega)
  refine ⟨{ heap with
      memory := returnPages heap.memory (heapVa index) (heap.runLength index)
      kallocationSizes := Function.update heap.kallocationSizes index 0
      kheapPageAllocBreak := heapVa top' }, top', ?_, ?_, rfl, rfl, rfl⟩
  · rw [KHeap.freePages, index_eq, ← runLength,
      returnPages_of_page heap.memory page (Nat.le_trans upper top_le), wellFormed.break_eq,
      lowered]
    rfl
  · have none : pagesOf 0 = 0 := by decide
    have present_iff : ∀ page, firstPage ≤ page → page < kheapPagesCount →
        ((heapEntry (returnPages heap.memory (heapVa index) (heap.runLength index))
            page).present = true ↔
          index ≤ page ∧ page < index + pagesOf 0 ∨
            (heapEntry heap.memory page).present = true ∧
              ¬ (index ≤ page ∧ page < index + heap.runLength index)) := by
      intro page _ inside
      have vacuous : ¬ (index ≤ page ∧ page < index + pagesOf 0) := by
        rw [none]
        omega
      by_cases here : index ≤ page ∧ page < index + heap.runLength index
      · rw [absent page here.1 here.2]
        apply iff_of_false Bool.false_ne_true
        intro either
        cases either with
        | inl new => exact vacuous new
        | inr old => exact old.2 here
      · rw [kept page inside here]
        simp only [vacuous, here, not_false_eq_true, and_true, false_or]
    apply wellFormed.update pages rfl rfl firstPage_le (Nat.le_trans top'_le top_le)
      (fun nonzero => absurd rfl nonzero) lower _ _ _ present_iff stop
    · rw [none]
      exact fun nonempty => absurd nonempty (Nat.lt_irrefl 0)
    · intro other different length
      by_contra beyond
      have ends := wellFormed.packed.le_high other length
      have last : (heapEntry (returnPages heap.memory (heapVa index) (heap.runLength index))
          (other + heap.runLength other - 1)).present = true := by
        have above := wellFormed.packed.low_le other length
        rw [present_iff _ (by omega) (by omega), wellFormed.present_iff _ (by omega) (by omega)]
        refine .inr ⟨⟨other, by omega, by omega⟩, fun inside => ?_⟩
        exact different (wellFormed.packed.start_unique ⟨by omega, by omega⟩ inside)
      rw [passed _ (by omega) (by omega)] at last
      cases last
    · rw [none]
      intro page above below
      omega

/-- Shrinking a run in place keeps the heap well formed. -/
theorem WellFormed.shrinkPages (wellFormed : heap.WellFormed top) {index size : Nat}
    (recorded : heap.kallocationSizes index ≠ 0) (large : dynAllocMaxBlockSize < size)
    (small : size ≤ 2 ^ 32 - pageSize) (fewer : pagesOf size < heap.runLength index) :
    ∃ top', (heap.shrinkPages (heapVa index) (heap.runLength index) (pagesOf size)
      size).WellFormed top' := by
  have length := wellFormed.runLength_pos recorded
  have lower := wellFormed.packed.low_le index length
  have upper := wellFormed.packed.le_high index length
  have top_le := wellFormed.top_le
  have positive := pagesOf_pos (Nat.lt_of_le_of_lt (Nat.zero_le _) large) small
  have tail : index + pagesOf size + (heap.runLength index - pagesOf size) =
      index + heap.runLength index := by omega
  obtain ⟨pages, -, absent, kept⟩ := returnPages_pages wellFormed.pages
    (show firstPage ≤ index + pagesOf size by omega)
    (show index + pagesOf size + (heap.runLength index - pagesOf size) ≤ kheapPagesCount by omega)
  rw [tail] at absent kept
  have present_iff : ∀ page, firstPage ≤ page → page < kheapPagesCount →
      ((heapEntry (returnPages heap.memory (heapVa (index + pagesOf size))
          (heap.runLength index - pagesOf size)) page).present = true ↔
        index ≤ page ∧ page < index + pagesOf size ∨
          (heapEntry heap.memory page).present = true ∧
            ¬ (index ≤ page ∧ page < index + heap.runLength index)) := by
    intro page above inside
    by_cases freed : index + pagesOf size ≤ page ∧ page < index + heap.runLength index
    · rw [absent page freed.1 freed.2]
      apply iff_of_false Bool.false_ne_true
      intro either
      cases either with
      | inl new => omega
      | inr old => exact old.2 (by omega)
    · rw [kept page inside freed, wellFormed.present_iff page above inside]
      by_cases here : index ≤ page ∧ page < index + heap.runLength index
      · have covered : Runs.Covered heap.runLength page := ⟨index, here⟩
        exact iff_of_true covered (.inl (by omega))
      · have new : ¬ (index ≤ page ∧ page < index + pagesOf size) := by omega
        simp only [new, here, not_false_eq_true, and_true, false_or]
  have uncovered : ∀ page, index ≤ page → page < index + pagesOf size →
      ¬ (index ≤ page ∧ page < index + heap.runLength index) →
        ¬ Runs.Covered heap.runLength page := by
    intro page above below outside
    omega
  rw [KHeap.shrinkPages, add32_heapVa (by omega), add32_heapVa (by omega),
    kvaToIndex_heapVa (by omega), wellFormed.break_eq]
  simp only [heapVa_inj]
  by_cases last : index + heap.runLength index = top
  · rw [if_pos last]
    refine ⟨index + pagesOf size, ?_⟩
    apply wellFormed.update pages rfl rfl (by omega) (by omega) (fun _ => ⟨large, small⟩) lower
      (fun _ => Nat.le_refl _) _ uncovered present_iff
    · right
      rw [present_iff _ (by omega) (by omega)]
      exact .inl (by omega)
    · intro other different length'
      have ends := wellFormed.packed.le_high other length'
      obtain before | same | after := Nat.lt_trichotomy other index
      · have apart := wellFormed.packed.apart other index before length' length
        omega
      · exact absurd same different
      · have apart := wellFormed.packed.apart index other after length length'
        omega
  · rw [if_neg last]
    refine ⟨top, ?_⟩
    refine wellFormed.update pages rfl rfl wellFormed.firstPage_le top_le
      (fun _ => ⟨large, small⟩) lower (fun _ => by omega) ?_ uncovered present_iff ?_
    rotate_left
    · right
      have covered := wellFormed.tight.resolve_left (by omega)
      rw [present_iff _ (by omega) (by omega), wellFormed.present_iff _ (by omega) (by omega)]
      exact .inr ⟨covered, by omega⟩
    · intro other _ length'
      exact wellFormed.packed.le_high other length'

/-- A run that can extend is followed by unrecorded pages below the break. -/
theorem canExtend_spec (break_eq : heap.kheapPageAllocBreak = heapVa top)
    (top_le : top ≤ kheapPagesCount) {index extra : Nat} (le : index ≤ top)
    (extends_ : heap.canExtend (heapVa index) extra = true) :
    index + extra ≤ top ∧
      ∀ page, index ≤ page → page < index + extra → heap.kallocationSizes page = 0 := by
  induction extra generalizing index with
  | zero => exact ⟨le, fun page above below => by omega⟩
  | succ extra ih =>
      rw [canExtend] at extends_
      split at extends_
      · cases extends_
      · rename_i free
        simp only [not_or, Nat.not_le, not_not] at free
        obtain ⟨-, below, unrecorded⟩ := free
        rw [break_eq, heapVa_lt_iff] at below
        rw [kvaToIndex_heapVa (by omega)] at unrecorded
        rw [add32_heapVa_one (by omega)] at extends_
        obtain ⟨upper, empty⟩ := ih (by omega) extends_
        refine ⟨by omega, ?_⟩
        intro page above below'
        by_cases same : page = index
        · rw [same]
          exact unrecorded
        · exact empty page (by omega) (by omega)

/-- A run that can extend is followed by free space. -/
theorem WellFormed.extension_space (wellFormed : heap.WellFormed top) {index extra : Nat}
    (recorded : heap.kallocationSizes index ≠ 0)
    (extends_ : heap.canExtend (add32 (heapVa index) (heap.runLength index * pageSize)) extra =
      true) :
    heap.FreeSpace top (index + heap.runLength index) extra := by
  have length := wellFormed.runLength_pos recorded
  have lower := wellFormed.packed.low_le index length
  have upper := wellFormed.packed.le_high index length
  rw [add32_heapVa (Nat.le_trans upper wellFormed.top_le)] at extends_
  obtain ⟨fits, unrecorded⟩ := canExtend_spec wellFormed.break_eq
    wellFormed.top_le upper extends_
  refine ⟨Nat.le_trans lower (Nat.le_add_right _ _), fits, ?_⟩
  intro page above below
  have unstraddled := wellFormed.packed.unstraddled_end length
  refine unstraddled.not_covered ?_ above below
  intro other above' below'
  exact runLength_eq_zero (unrecorded other above' below')

/-- Growing a run in place keeps the heap well formed. -/
theorem WellFormed.growPages (wellFormed : heap.WellFormed top) {index size : Nat}
    (recorded : heap.kallocationSizes index ≠ 0) (large : dynAllocMaxBlockSize < size)
    (small : size ≤ 2 ^ 32 - pageSize) (more : heap.runLength index < pagesOf size)
    (extends_ : heap.canExtend (add32 (heapVa index) (heap.runLength index * pageSize))
      (pagesOf size - heap.runLength index) = true)
    (grown : heap.growPages (heapVa index) (heap.runLength index) (pagesOf size) size =
      .ok next) :
    next.WellFormed top ∧
      next.kallocationSizes = Function.update heap.kallocationSizes index size ∧
      next.blocks = heap.blocks ∧
      getPages heap.memory (heapVa (index + heap.runLength index))
        (pagesOf size - heap.runLength index) = .ok next.memory := by
  have length := wellFormed.runLength_pos recorded
  have lower := wellFormed.packed.low_le index length
  have upper := wellFormed.packed.le_high index length
  have top_le := wellFormed.top_le
  have tail : index + heap.runLength index + (pagesOf size - heap.runLength index) =
      index + pagesOf size := by omega
  have space := wellFormed.extension_space recorded extends_
  have fits := space.upper
  rw [tail] at fits
  have free : ∀ page, index ≤ page → page < index + pagesOf size →
      ¬ (index ≤ page ∧ page < index + heap.runLength index) →
        ¬ Runs.Covered heap.runLength page := by
    intro page above below outside
    rw [← tail] at below
    exact space.free page (Nat.not_lt.mp fun less => outside ⟨above, less⟩) below
  obtain ⟨memory, mapped, returned⟩ := bind_eq_ok.mp grown
  obtain rfl := Except.ok.inj returned
  rw [add32_heapVa (by omega)] at mapped
  rw [kvaToIndex_heapVa (by omega)]
  refine ⟨?_, rfl, rfl, mapped⟩
  obtain ⟨pages, -, present, kept⟩ :=
    getPages_pages wellFormed.pages (by omega) (by omega) mapped
  rw [tail] at present kept
  have present_iff : ∀ page, firstPage ≤ page → page < kheapPagesCount →
      ((heapEntry memory page).present = true ↔
        index ≤ page ∧ page < index + pagesOf size ∨
          (heapEntry heap.memory page).present = true ∧
            ¬ (index ≤ page ∧ page < index + heap.runLength index)) := by
    intro page above inside
    by_cases new : index + heap.runLength index ≤ page ∧ page < index + pagesOf size
    · exact iff_of_true (present page new.1 new.2) (.inl (by omega))
    · rw [kept page inside new, wellFormed.present_iff page above inside]
      by_cases here : index ≤ page ∧ page < index + heap.runLength index
      · have covered : Runs.Covered heap.runLength page := ⟨index, here⟩
        exact iff_of_true covered (.inl (by omega))
      · have outside : ¬ (index ≤ page ∧ page < index + pagesOf size) := by omega
        simp only [outside, here, not_false_eq_true, and_true, false_or]
  refine wellFormed.update pages rfl wellFormed.break_eq
    wellFormed.firstPage_le top_le (fun _ => ⟨large, small⟩) lower (fun _ => fits) ?_ free
    present_iff ?_
  rotate_left
  · right
    have covered := wellFormed.tight.resolve_left (by omega)
    rw [present_iff _ (by omega) (by omega), wellFormed.present_iff _ (by omega) (by omega)]
    by_cases inside : index ≤ top - 1 ∧ top - 1 < index + pagesOf size
    · exact .inl inside
    · exact .inr ⟨covered, by omega⟩
  · intro other _ length'
    exact wellFormed.packed.le_high other length'

variable {D : DynAllocator β}

/-- What `kmalloc` does: nothing, an allocation by the dynamic allocator, or one of pages in
free space or at the break. -/
theorem kmalloc_cases {size va : Nat} (returned : heap.kmalloc D size = .ok (va, next)) :
    (va = 0 ∧ next = heap) ∨
      (0 < size ∧ size ≤ dynAllocMaxBlockSize ∧ heap.allocBlock D size = .ok (va, next)) ∨
      (dynAllocMaxBlockSize < size ∧
        pagesOf size * pageSize ≤ sub32 kernelHeapMax heap.kheapPageAllocBreak ∧
        ∃ fit, heap.findCustomfit (pagesOf size) = .ok fit ∧
          (fit ≠ 0 ∧ heap.allocatePages fit heap.kheapPageAllocBreak (pagesOf size) size =
              .ok (va, next) ∨
            fit = 0 ∧
              add32 heap.kheapPageAllocBreak (pagesOf size * pageSize) ≤ kernelHeapMax ∧
              heap.allocatePages heap.kheapPageAllocBreak
                (add32 heap.kheapPageAllocBreak (pagesOf size * pageSize)) (pagesOf size) size =
                  .ok (va, next))) := by
  simp only [kmalloc] at returned
  split at returned
  · obtain ⟨rfl, rfl⟩ := Prod.mk.inj (Except.ok.inj returned)
    exact .inl ⟨rfl, rfl⟩
  · rename_i admitted
    obtain ⟨nonzero, fits⟩ := not_or.mp admitted
    split at returned
    · rename_i block
      exact .inr (.inl ⟨Nat.pos_of_ne_zero nonzero, block, returned⟩)
    · rename_i large
      obtain ⟨fit, found, rest⟩ := bind_eq_ok.mp returned
      split at rest
      · rename_i null
        split at rest
        · obtain ⟨rfl, rfl⟩ := Prod.mk.inj (Except.ok.inj rest)
          exact .inl ⟨rfl, rfl⟩
        · rename_i room
          exact .inr (.inr ⟨Nat.not_le.mp large, Nat.not_lt.mp fits, fit, found,
            .inr ⟨null, Nat.not_lt.mp room, rest⟩⟩)
      · rename_i hit
        exact .inr (.inr ⟨Nat.not_le.mp large, Nat.not_lt.mp fits, fit, found,
          .inl ⟨hit, rest⟩⟩)

/-- The difference of the heap's end and the break. -/
theorem WellFormed.sub32_break (wellFormed : heap.WellFormed top) :
    sub32 kernelHeapMax heap.kheapPageAllocBreak = (kheapPagesCount - top) * pageSize := by
  have limit : kheapPagesCount = 40959 := by decide
  have top_le := wellFormed.top_le
  simp only [wellFormed.break_eq, sub32, heapVa, kernelHeapStart, kernelHeapMax, pageSize]
  omega

/-- In a well-formed heap the pages that `kmalloc` hands out are free, and the break moves
only to their end. -/
theorem WellFormed.kmalloc_cases (wellFormed : heap.WellFormed top) {size va : Nat}
    (returned : heap.kmalloc D size = .ok (va, next)) :
    (va = 0 ∧ next = heap) ∨
      (0 < size ∧ size ≤ dynAllocMaxBlockSize ∧ heap.allocBlock D size = .ok (va, next)) ∨
      (dynAllocMaxBlockSize < size ∧ ∃ index top', heap.FreeSpace top' index (pagesOf size) ∧
        top ≤ top' ∧ top' ≤ kheapPagesCount ∧
          (top' = top ∨ top' = index + pagesOf size) ∧
        heap.allocatePages (heapVa index) (heapVa top') (pagesOf size) size =
          .ok (va, next)) := by
  obtain null | block | ⟨large, fits, fit, found, allocated⟩ := KHeap.kmalloc_cases returned
  · exact .inl null
  · exact .inr (.inl block)
  · refine .inr (.inr ⟨large, ?_⟩)
    have firstPage_le := wellFormed.firstPage_le
    have top_le := wellFormed.top_le
    rw [wellFormed.sub32_break] at fits
    have room : pagesOf size ≤ kheapPagesCount - top :=
      Nat.le_of_mul_le_mul_right fits (by decide)
    obtain ⟨va', found', space⟩ := wellFormed.findCustomfit_spec (pagesOf size)
    obtain rfl := Except.ok.inj (found.symm.trans found')
    rw [wellFormed.break_eq] at allocated
    cases allocated with
    | inl hit =>
        obtain ⟨index, rfl, free⟩ := space.resolve_left hit.1
        exact ⟨index, top, free, Nat.le_refl _, top_le, .inl rfl, hit.2⟩
    | inr extended =>
        obtain ⟨-, -, allocated⟩ := extended
        rw [add32_heapVa (by omega)] at allocated
        refine ⟨top, top + pagesOf size, ⟨firstPage_le, Nat.le_refl _, ?_⟩,
          Nat.le_add_right _ _,
          by omega, .inr rfl, allocated⟩
        intro page above below covered
        have inside := (wellFormed.packed.bounds covered).2
        omega

/-- `alloc_block` keeps the heap well formed. -/
theorem WellFormed.allocBlock (wellFormed : heap.WellFormed top) (confined : D.Confined)
    {size va : Nat} (returned : heap.allocBlock D size = .ok (va, next)) :
    next.WellFormed top := by
  obtain ⟨⟨va', blocks, memory⟩, allocated, rest⟩ := bind_eq_ok.mp returned
  obtain ⟨rfl, rfl⟩ := Prod.mk.inj (Except.ok.inj rest)
  obtain ⟨pages, same⟩ := (confined.alloc _ _ _ _ _ _ allocated).pages wellFormed.pages
  exact wellFormed.congr pages rfl rfl fun page above => same page (Nat.le_trans (by decide) above)

/-- `free_block` keeps the heap well formed. -/
theorem WellFormed.freeBlock (wellFormed : heap.WellFormed top) (confined : D.Confined)
    {va : Nat} (returned : heap.freeBlock D va = .ok next) : next.WellFormed top := by
  obtain ⟨⟨blocks, memory⟩, freed, rest⟩ := bind_eq_ok.mp returned
  obtain rfl := Except.ok.inj rest
  obtain ⟨pages, same⟩ := (confined.free _ _ _ _ _ freed).pages wellFormed.pages
  exact wellFormed.congr pages rfl rfl fun page above => same page (Nat.le_trans (by decide) above)

/-- `realloc_block` keeps the heap well formed. -/
theorem WellFormed.reallocBlock (wellFormed : heap.WellFormed top) (confined : D.Confined)
    {va size va' : Nat} (returned : heap.reallocBlock D va size = .ok (va', next)) :
    next.WellFormed top := by
  obtain ⟨⟨va'', blocks, memory⟩, moved, rest⟩ := bind_eq_ok.mp returned
  obtain ⟨rfl, rfl⟩ := Prod.mk.inj (Except.ok.inj rest)
  obtain ⟨pages, same⟩ := (confined.realloc _ _ _ _ _ _ _ moved).pages wellFormed.pages
  exact wellFormed.congr pages rfl rfl fun page above => same page (Nat.le_trans (by decide) above)

/-- `memcpy` keeps the heap well formed. -/
theorem WellFormed.memcpy (wellFormed : heap.WellFormed top) {dst src count : Nat}
    (copied : heap.memcpy dst src count = .ok next) : next.WellFormed top := by
  rw [KHeap.memcpy] at copied
  split at copied
  · cases copied
  · rename_i stored
    obtain rfl := Except.ok.inj copied
    obtain ⟨bytes, rfl⟩ := Memory.memcpy_spec stored
    exact wellFormed.congr ⟨wellFormed.pages.tables.congr rfl, wellFormed.pages.clean⟩ rfl rfl
      fun _ _ _ => rfl

/-- `kmalloc` keeps the heap well formed. -/
theorem WellFormed.kmalloc (wellFormed : heap.WellFormed top) (confined : D.Confined)
    {size va : Nat} (small : size ≤ 2 ^ 32 - pageSize)
    (returned : heap.kmalloc D size = .ok (va, next)) : ∃ top', next.WellFormed top' := by
  obtain null | block | pages := wellFormed.kmalloc_cases returned
  · obtain ⟨-, rfl⟩ := null
    exact ⟨top, wellFormed⟩
  · exact ⟨top, wellFormed.allocBlock confined block.2.2⟩
  · obtain ⟨large, index, top', space, raised, top_le, tight, allocated⟩ := pages
    exact ⟨top', (wellFormed.allocatePages space raised top_le large small tight allocated).2.1⟩

/-- What `kfree` does in a well-formed heap: nothing, or release the run that is recorded
for the page of the address. -/
theorem WellFormed.kfree_cases (wellFormed : heap.WellFormed top) (D : DynAllocator β)
    (va : Nat) :
    heap.kfree D va = .ok heap ∨
      ∃ index < kheapPagesCount, roundDown va pageSize = heapVa index ∧
        heap.kallocationSizes index ≠ 0 ∧
        heap.kfree D va = heap.freePages va (heap.kallocationSizes index) := by
  rw [KHeap.kfree]
  split
  · exact .inl rfl
  · split
    · exact .inl rfl
    · rename_i heapAddress
      simp only [not_or, Nat.not_lt, Nat.not_le] at heapAddress
      obtain ⟨page, inside⟩ := roundDown_eq_heapVa heapAddress.1 heapAddress.2
      by_cases free : heap.kallocationSizes (kvaToIndex va) = 0
      · simp only [free, ↓reduceIte]
        exact .inl trivial
      · have large := (wellFormed.sizes _ free).1
        refine .inr ⟨kvaToIndex va, inside, page, free, ?_⟩
        simp only [free, ↓reduceIte, Nat.not_le.mpr large]

/-- The pages of a recorded run lie in the heap. -/
theorem WellFormed.run_bounds (wellFormed : heap.WellFormed top) {index : Nat}
    (recorded : heap.kallocationSizes index ≠ 0) :
    0 < heap.runLength index ∧ firstPage ≤ index ∧
      index + heap.runLength index ≤ kheapPagesCount := by
  have length := wellFormed.runLength_pos recorded
  exact ⟨length, wellFormed.packed.low_le index length,
    Nat.le_trans (wellFormed.packed.le_high index length) wellFormed.top_le⟩

/-- `kfree` of the start of a recorded run releases its pages. -/
theorem WellFormed.kfree_recorded (wellFormed : heap.WellFormed top) (D : DynAllocator β)
    {index : Nat} (recorded : heap.kallocationSizes index ≠ 0) :
    ∃ next top', heap.kfree D (heapVa index) = .ok next ∧ next.WellFormed top' ∧
      next.kallocationSizes = Function.update heap.kallocationSizes index 0 ∧
      next.memory = returnPages heap.memory (heapVa index) (heap.runLength index) ∧
      next.blocks = heap.blocks := by
  obtain ⟨length, lower, upper⟩ := wellFormed.run_bounds recorded
  have inside : index < kheapPagesCount := by omega
  have heapAddress : ¬ (heapVa index < kernelHeapStart ∨ kernelHeapMax ≤ heapVa index) := by
    rw [← heapVa_kheapPagesCount, heapVa_le_iff]
    simp only [heapVa]
    omega
  have large := (wellFormed.sizes index recorded).1
  obtain ⟨next, top', freed, kept⟩ :=
    wellFormed.freePages (roundDown_heapVa index) inside recorded
  refine ⟨next, top', ?_, kept⟩
  rw [← freed]
  simp only [KHeap.kfree, if_neg (heapVa_ne_zero index), if_neg heapAddress,
    kvaToIndex_heapVa (Nat.le_of_lt inside), if_neg recorded, if_neg (Nat.not_le.mpr large)]

/-- `kfree` completes and keeps the heap well formed. -/
theorem WellFormed.kfree (wellFormed : heap.WellFormed top) (D : DynAllocator β) (va : Nat) :
    ∃ next top', heap.kfree D va = .ok next ∧ next.WellFormed top' := by
  obtain same | ⟨index, inside, page, recorded, freed⟩ := wellFormed.kfree_cases D va
  · exact ⟨heap, top, same, wellFormed⟩
  · obtain ⟨next, top', completed, kept, -⟩ := wellFormed.freePages page inside recorded
    exact ⟨next, top', freed.trans completed, kept⟩

/-- `krealloc` of a page allocation that moves keeps the heap well formed. -/
theorem WellFormed.movePages (wellFormed : heap.WellFormed top) (confined : D.Confined)
    {va oldSize newSize va' : Nat} (small : newSize ≤ 2 ^ 32 - pageSize)
    (returned : heap.movePages D va oldSize newSize = .ok (va', next)) :
    ∃ top', next.WellFormed top' := by
  obtain ⟨⟨newVa, allocated⟩, call, rest⟩ := bind_eq_ok.mp returned
  obtain ⟨top₁, kept₁⟩ := wellFormed.kmalloc confined small call
  dsimp only at rest
  split at rest
  · obtain ⟨rfl, rfl⟩ := Prod.mk.inj (Except.ok.inj rest)
    exact ⟨top₁, kept₁⟩
  · obtain ⟨copied, copy, rest⟩ := bind_eq_ok.mp rest
    obtain ⟨freed, free, rest⟩ := bind_eq_ok.mp rest
    obtain ⟨rfl, rfl⟩ := Prod.mk.inj (Except.ok.inj rest)
    obtain ⟨freed', top₂, free', kept₂⟩ := (kept₁.memcpy copy).kfree D va
    obtain rfl := Except.ok.inj (free.symm.trans free')
    exact ⟨top₂, kept₂⟩

/-- `krealloc` between sizes of more than a block keeps the heap well formed. -/
theorem WellFormed.reallocPages (wellFormed : heap.WellFormed top) (confined : D.Confined)
    {index newSize va : Nat} (recorded : heap.kallocationSizes index ≠ 0)
    (large : dynAllocMaxBlockSize < newSize) (small : newSize ≤ 2 ^ 32 - pageSize)
    (returned : heap.reallocPages D (heapVa index) (heap.kallocationSizes index) newSize =
      .ok (va, next)) : ∃ top', next.WellFormed top' := by
  simp only [KHeap.reallocPages] at returned
  rw [← runLength] at returned
  split at returned
  · rename_i fewer
    obtain ⟨rfl, rfl⟩ := Prod.mk.inj (Except.ok.inj returned)
    exact wellFormed.shrinkPages recorded large small fewer
  · split at returned
    · rename_i more
      obtain ⟨grown, growth, rest⟩ := bind_eq_ok.mp returned
      obtain ⟨rfl, rfl⟩ := Prod.mk.inj (Except.ok.inj rest)
      exact ⟨top, (wellFormed.growPages recorded large small more.1 more.2 growth).1⟩
    · exact wellFormed.movePages confined small returned

/-- `krealloc` of a block to pages keeps the heap well formed. -/
theorem WellFormed.blockToPages (wellFormed : heap.WellFormed top) (confined : D.Confined)
    {va oldSize newSize va' : Nat} (small : newSize ≤ 2 ^ 32 - pageSize)
    (returned : heap.blockToPages D va oldSize newSize = .ok (va', next)) :
    ∃ top', next.WellFormed top' := by
  obtain ⟨⟨newVa, allocated⟩, call, rest⟩ := bind_eq_ok.mp returned
  obtain ⟨top₁, kept₁⟩ := wellFormed.kmalloc confined small call
  dsimp only at rest
  split at rest
  · obtain ⟨rfl, rfl⟩ := Prod.mk.inj (Except.ok.inj rest)
    exact ⟨top₁, kept₁⟩
  · obtain ⟨copied, copy, rest⟩ := bind_eq_ok.mp rest
    obtain ⟨freed, free, rest⟩ := bind_eq_ok.mp rest
    obtain ⟨rfl, rfl⟩ := Prod.mk.inj (Except.ok.inj rest)
    exact ⟨top₁, (kept₁.memcpy copy).freeBlock confined free⟩

/-- `krealloc` of a page allocation to a block keeps the heap well formed. -/
theorem WellFormed.pagesToBlock (wellFormed : heap.WellFormed top) (confined : D.Confined)
    {va oldSize newSize va' : Nat}
    (returned : heap.pagesToBlock D va oldSize newSize = .ok (va', next)) :
    ∃ top', next.WellFormed top' := by
  obtain ⟨⟨newVa, allocated⟩, call, rest⟩ := bind_eq_ok.mp returned
  have kept₁ := wellFormed.allocBlock confined call
  dsimp only at rest
  split at rest
  · obtain ⟨rfl, rfl⟩ := Prod.mk.inj (Except.ok.inj rest)
    exact ⟨top, kept₁⟩
  · obtain ⟨copied, copy, rest⟩ := bind_eq_ok.mp rest
    obtain ⟨freed, free, rest⟩ := bind_eq_ok.mp rest
    obtain ⟨rfl, rfl⟩ := Prod.mk.inj (Except.ok.inj rest)
    obtain ⟨freed', top₂, free', kept₂⟩ := (kept₁.memcpy copy).kfree D va
    obtain rfl := Except.ok.inj (free.symm.trans free')
    exact ⟨top₂, kept₂⟩

/-- The pointers that `krealloc` is called with: `NULL`, an address of the dynamic allocator,
or the start of a recorded run of pages. -/
def LivePointer (heap : KHeap β) (va : Nat) : Prop :=
  va = 0 ∨ (kernelHeapStart ≤ va ∧ va < dynAllocEnd) ∨
    ∃ index, va = heapVa index ∧ heap.kallocationSizes index ≠ 0

/-- `krealloc` keeps the heap well formed. -/
theorem WellFormed.krealloc (wellFormed : heap.WellFormed top) (confined : D.Confined)
    {va newSize va' : Nat} (live : heap.LivePointer va) (small : newSize ≤ 2 ^ 32 - pageSize)
    (returned : heap.krealloc D va newSize = .ok (va', next)) : ∃ top', next.WellFormed top' := by
  rw [KHeap.krealloc] at returned
  split at returned
  · exact wellFormed.kmalloc confined small returned
  · rename_i nonnull
    split at returned
    · obtain ⟨freed, free, rest⟩ := bind_eq_ok.mp returned
      obtain ⟨rfl, rfl⟩ := Prod.mk.inj (Except.ok.inj rest)
      obtain ⟨freed', top', free', kept⟩ := wellFormed.kfree D va
      obtain rfl := Except.ok.inj (free.symm.trans free')
      exact ⟨top', kept⟩
    · split at returned
      · rename_i page
        dsimp only at returned
        split at returned
        · obtain ⟨rfl, rfl⟩ := Prod.mk.inj (Except.ok.inj returned)
          exact ⟨top, wellFormed⟩
        · rename_i recorded
          split at returned
          · obtain ⟨rfl, rfl⟩ := Prod.mk.inj (Except.ok.inj returned)
            exact ⟨top, wellFormed⟩
          · split at returned
            · exact wellFormed.pagesToBlock confined returned
            · rename_i large
              obtain null | block | ⟨index, rfl, live⟩ := live
              · exact absurd null nonnull
              · have apart : dynAllocEnd ≤ kheapPageAllocStart := by decide
                omega
              · have inside : index < kheapPagesCount := by
                  have positive := wellFormed.runLength_pos live
                  have ends := wellFormed.packed.le_high index positive
                  have top_le := wellFormed.top_le
                  omega
                rw [kvaToIndex_heapVa (Nat.le_of_lt inside)] at returned
                exact wellFormed.reallocPages confined live (Nat.not_le.mp large) small returned
      · split at returned
        · dsimp only at returned
          split at returned
          · obtain ⟨rfl, rfl⟩ := Prod.mk.inj (Except.ok.inj returned)
            exact ⟨top, wellFormed⟩
          · split at returned
            · obtain ⟨rfl, rfl⟩ := Prod.mk.inj (Except.ok.inj returned)
              exact ⟨top, wellFormed⟩
            · split at returned
              · exact ⟨top, wellFormed.reallocBlock confined returned⟩
              · exact wellFormed.blockToPages confined small returned
        · obtain ⟨rfl, rfl⟩ := Prod.mk.inj (Except.ok.inj returned)
          exact ⟨top, wellFormed⟩

end KHeap

end FosKernel
