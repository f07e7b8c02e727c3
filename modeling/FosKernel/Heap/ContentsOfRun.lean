import FosKernel.Heap.Contents

/-!
# Contents over runs

Clients that call the kernel heap and store to their allocations. In every state
that they reach without a size that wraps and without a page allocation that
shrinks to a block, `krealloc` keeps the contents. Shrinking to a block copies
the old size and overwrites what lies behind the block.
-/

namespace FosKernel

namespace KHeap

variable {β : Type} {D : DynAllocator β} {block : β → Nat → Option Nat}
  {Valid : β → Memory → Prop} {heap next : KHeap β} {top index va size : Nat}

/-- One step of a client that stays clear of wrapping sizes and of page allocations that shrink
to a block: a call that returns, or a store to a live allocation. -/
inductive ClientStep (D : DynAllocator β) (block : β → Nat → Option Nat) (heap : KHeap β) :
    KHeap β → Prop where
  | kmalloc {size va : Nat} {next : KHeap β} (small : size ≤ 2 ^ 32 - pageSize)
      (returned : heap.kmalloc D size = .ok (va, next)) : ClientStep D block heap next
  | kfree {va : Nat} {next : KHeap β} (returned : heap.kfree D va = .ok next) :
      ClientStep D block heap next
  | krealloc {va oldSize newSize newVa : Nat} {next : KHeap β}
      (live : va = 0 ∨ Live block heap va oldSize) (small : newSize ≤ 2 ^ 32 - pageSize)
      (untruncated : 0 < newSize → ¬ heap.Truncates D va newSize)
      (returned : heap.krealloc D va newSize = .ok (newVa, next)) : ClientStep D block heap next
  | store {va size offset : Nat} (value : UInt8) (live : Live block heap va size)
      (less : offset < size) :
      ClientStep D block heap
        { heap with memory := heap.memory.writeByte kernelDirectory (va + offset) value }

/-- A store to a live allocation leaves the heap in order. -/
theorem Sound.store (correct : D.Correct block Valid) (sound : heap.Sound Valid top)
    {offset : Nat} (live : Live block heap va size) (less : offset < size) (value : UInt8) :
    ({ heap with
      memory := heap.memory.writeByte kernelDirectory (va + offset) value } : KHeap β).Sound
        Valid top := by
  obtain ⟨lower, upper, outside⟩ := sound.outside correct live (Nat.le_refl firstPage)
    (fun page above (below : page < firstPage + 0) => absurd below (Nat.not_lt.mpr above)) less
  obtain ⟨frames, same⟩ := sound.frames.writeByte lower upper value
  have directories := Memory.writeByte_directories heap.memory kernelDirectory (va + offset) value
  have tables := Memory.writeByte_tables heap.memory kernelDirectory (va + offset) value
  have entries : ∀ page, heapEntry (heap.memory.writeByte kernelDirectory (va + offset) value)
      page = heapEntry heap.memory page := by
    intro page
    rw [heapEntry, heapEntry, pageSlot_congr directories, tables]
  refine ⟨sound.wellFormed.congr frames.pages rfl rfl fun page _ _ => entries page, frames, ?_⟩
  apply correct.stable sound.valid frames.tables fun page _ => entries page
  intro address above below free
  have ends : dynAllocEnd < kernelHeapMax := by decide
  apply same address above (Nat.lt_trans below ends)
  rintro rfl
  rcases live with ⟨start, rfl, recorded, nonzero⟩ | live
  · have firstLe := (sound.wellFormed.run_bounds (recorded ▸ nonzero)).2.1
    have apart : dynAllocEnd < kheapPageAllocStart := by decide
    have start' := start_le_heapVa firstLe
    omega
  · exact free va size live ⟨Nat.le_add_right _ _, Nat.add_lt_add_left less va⟩

/-- A step of a client leaves the heap in order. -/
theorem ClientStep.sound (step : heap.ClientStep D block next) (correct : D.Correct block Valid)
    (sound : heap.Sound Valid top) : ∃ top', next.Sound Valid top' := by
  cases step with
  | kmalloc small returned => exact sound.kmalloc correct small returned
  | kfree returned => exact sound.kfree correct returned
  | krealloc live small untruncated returned =>
      rename_i va oldSize newSize newVa
      rcases live with rfl | live
      · rw [KHeap.krealloc, if_pos rfl] at returned
        exact sound.kmalloc correct small returned
      · rcases Nat.eq_zero_or_pos newSize with rfl | positive
        · by_cases null : va = 0
          · rw [KHeap.krealloc, if_pos null] at returned
            exact sound.kmalloc correct small returned
          · rw [KHeap.krealloc, if_neg null, if_pos rfl] at returned
            obtain ⟨freed, free, rest⟩ := bind_eq_ok.mp returned
            obtain ⟨-, rfl⟩ := Prod.mk.inj (Except.ok.inj rest)
            exact sound.kfree correct free
        · exact (sound.krealloc correct live positive small (untruncated positive) returned).1
  | store value live less => exact ⟨top, sound.store correct live less value⟩

/-- `kheap_init` over existing page tables that map no heap page leaves the heap in order. -/
theorem Sound.initial (correct : D.Correct block Valid) {memory : Memory}
    (tables : KernelTables memory)
    (unmapped : ∀ index < kheapPagesCount, heapEntry memory index = .zero)
    (free : ∃ nodes, memory.freeFrameList.Represents nodes) :
    (kheapInit D memory).Sound Valid firstPage := by
  have clean : ∀ index < kheapPagesCount, (heapEntry memory index).Clean := by
    intro index inside
    rw [unmapped index inside]
    exact ⟨by decide, fun _ => rfl⟩
  have absent : ∀ index < kheapPagesCount, (heapEntry memory index).present ≠ true := by
    intro index inside
    rw [unmapped index inside]
    decide
  have limit : blockPages ≤ kheapPagesCount := by decide
  obtain ⟨accesses, valid, -⟩ :=
    correct.initial memory tables fun index below => clean index (Nat.lt_of_lt_of_le below limit)
  have frames : OwnFrames memory := by
    obtain ⟨nodes, represents⟩ := free
    exact ⟨tables, clean, fun first below _ _ present => absurd present (absent first below),
      nodes, represents, fun index below present => absurd present (absent index below)⟩
  exact ⟨.initial correct.confined tables fun index _ below => unmapped index below,
    (frames.blockAccesses accesses).1, valid⟩

/-- Clients leave the heap in order. -/
theorem Sound.of_run (correct : D.Correct block Valid) (sound : heap.Sound Valid top)
    (run : Relation.ReflTransGen (ClientStep D block) heap next) :
    ∃ top', next.Sound Valid top' := by
  induction run with
  | refl => exact ⟨top, sound⟩
  | tail _ step ih =>
      obtain ⟨top', kept⟩ := ih
      exact step.sound correct kept

/-- In every state that clients lead to, `krealloc` of a live allocation keeps the contents,
unless its size wraps or it shrinks pages to a block. -/
theorem keepsContents_of_run (D : DynAllocator β) (block : β → Nat → Option Nat)
    (Valid : β → Memory → Prop) (correct : D.Correct block Valid) (memory : Memory)
    (tables : KernelTables memory)
    (unmapped : ∀ index < kheapPagesCount, heapEntry memory index = .zero)
    (free : ∃ nodes, memory.freeFrameList.Represents nodes) (heap : KHeap β)
    (run : Relation.ReflTransGen (ClientStep D block) (kheapInit D memory) heap)
    (va oldSize newSize newVa : Nat) (next : KHeap β) (live : Live block heap va oldSize)
    (positive : 0 < newSize) (small : newSize ≤ 2 ^ 32 - pageSize)
    (untruncated : ¬ heap.Truncates D va newSize)
    (returned : heap.krealloc D va newSize = .ok (newVa, next)) :
    KeepsContents block heap next va oldSize newSize newVa := by
  obtain ⟨top, sound⟩ := (Sound.initial correct tables unmapped free).of_run correct run
  exact (sound.krealloc correct live positive small untruncated returned).2

theorem blankHeap_sound : PageBlocks.blankHeap.Sound PageBlocks.Valid firstPage := by
  obtain ⟨tables, unmapped⟩ := blankBoot_kernelTables
  obtain ⟨nodes, free, -⟩ := Memory.initializePaging_spec Memory.blank 257
    (Nat.le_refl physExtendedMemFrame)
  exact .initial PageBlocks.correct tables (fun index _ => unmapped index) ⟨nodes, free⟩

/-- On a blank machine, `krealloc` of 5000 bytes to 3000 keeps the contents. -/
theorem keepsContents_of_run_shrink : ∃ heap next : KHeap (List Nat),
    PageBlocks.blankHeap.kmalloc PageBlocks.allocator 5000 = .ok (heapVa firstPage, heap) ∧
      heap.krealloc PageBlocks.allocator (heapVa firstPage) 3000 = .ok (heapVa firstPage, next) ∧
      KeepsContents PageBlocks.block heap next (heapVa firstPage) 5000 3000 (heapVa firstPage) := by
  have completes : (do
      let allocated ← PageBlocks.blankHeap.kmalloc PageBlocks.allocator 5000
      let moved ← allocated.2.krealloc PageBlocks.allocator allocated.1 3000
      return (allocated.1, allocated.2.kallocationSizes firstPage, moved.1)) =
        Except.ok (heapVa firstPage, 5000, heapVa firstPage) := by decide +kernel
  obtain ⟨⟨va, heap⟩, first, rest⟩ := bind_eq_ok.mp completes
  obtain ⟨⟨newVa, next⟩, second, rest⟩ := bind_eq_ok.mp rest
  obtain ⟨rfl, facts⟩ := Prod.mk.inj (Except.ok.inj rest)
  obtain ⟨recorded, rfl⟩ := Prod.mk.inj facts
  obtain ⟨tables, unmapped⟩ := blankBoot_kernelTables
  obtain ⟨nodes, free, -⟩ := Memory.initializePaging_spec Memory.blank 257
    (Nat.le_refl physExtendedMemFrame)
  refine ⟨heap, next, first, second, ?_⟩
  exact keepsContents_of_run PageBlocks.allocator PageBlocks.block PageBlocks.Valid
    PageBlocks.correct FrameManager.blankBoot.memory tables (fun index _ => unmapped index)
    ⟨nodes, free⟩ heap (.single (.kmalloc (by decide) first)) (heapVa firstPage) 5000 3000
    (heapVa firstPage) next (.inl ⟨firstPage, rfl, recorded, by decide⟩) (by decide) (by decide)
    (fun truncates => absurd truncates.2.1 (by decide)) second

/-- `krealloc` of pages to a block writes the whole old size from the block on, whatever lies
there. -/
theorem Sound.pagesToBlock_overwrites (correct : D.Correct block Valid)
    (sound : heap.Sound Valid top) {newSize : Nat} {allocated : KHeap β}
    (recorded : heap.kallocationSizes index ≠ 0) (positive : 0 < newSize)
    (le : newSize ≤ dynAllocMaxBlockSize)
    (granted : heap.allocBlock D newSize = .ok (va, allocated)) (nonnull : va ≠ 0)
    (lower : kernelHeapStart ≤ va) (fits : va + heap.kallocationSizes index ≤ dynAllocEnd)
    (mapped : ∀ offset < heap.kallocationSizes index,
      (allocated.memory.translate kernelDirectory (add32 va offset)).isSome = true) :
    ∃ next, heap.krealloc D (heapVa index) newSize = .ok (va, next) ∧
      ∀ offset < heap.kallocationSizes index,
        next.memory.readByte kernelDirectory (va + offset) =
          heap.memory.readByte kernelDirectory (heapVa index + offset) := by
  have large := (sound.wellFormed.sizes index recorded).1
  obtain ⟨-, lowerRun, upperRun⟩ := sound.wellFormed.run_bounds recorded
  have source : heapVa index + heap.kallocationSizes index ≤
      heapVa (index + heap.runLength index) :=
    heapVa_add_le (le_pagesOf_mul (sound.wellFormed.sizes index recorded).2)
  have sourceEnd := heapVa_le_max upperRun
  have sourceStart := start_le_heapVa lowerRun
  have apart : dynAllocEnd < kheapPageAllocStart := by decide
  have ends : dynAllocEnd < kernelHeapMax := by decide
  have heapStart : kernelHeapStart ≤ kheapPageAllocStart := by decide
  obtain ⟨⟨va', blocks, memory⟩, call, rest⟩ := bind_eq_ok.mp granted
  obtain ⟨rfl, rfl⟩ := Prod.mk.inj (Except.ok.inj rest)
  obtain ⟨sound₁, -⟩ := sound.allocBlock correct positive le granted
  obtain ⟨-, accesses, -⟩ :=
    (correct.alloc sound.valid positive le call).resolve_left fun null => nonnull null.1
  obtain ⟨-, same⟩ := sound.frames.blockAccesses accesses
  obtain ⟨copied, copies⟩ := Memory.memcpy_isSome mapped
    (sound₁.wellFormed.run_mapped recorded
      (le_pagesOf_mul (sound.wellFormed.sizes index recorded).2))
  have contents := fun offset (less : offset < heap.kallocationSizes index) =>
    sound₁.frames.memcpy_contents lower (by omega) (Nat.le_trans heapStart sourceStart) (by omega)
      (.inl (by omega)) copies (show kernelHeapStart ≤ va' + offset by omega) (by omega)
  have copy : KHeap.memcpy { heap with memory := memory, blocks := blocks } va' (heapVa index)
      (heap.kallocationSizes index) =
        .ok { heap with memory := copied, blocks := blocks } := by
    simp only [KHeap.memcpy, copies]
  have kept₂ := sound₁.wellFormed.memcpy copy
  obtain ⟨freed, top₃, free, -, -, memory₃, -⟩ := kept₂.kfree_recorded D recorded
  have released := returnPages_sameOutside kept₂.pages lowerRun upperRun
  refine ⟨freed, ?_, ?_⟩
  · rw [sound.wellFormed.krealloc_pages D recorded positive, if_neg (by omega), if_pos le,
      KHeap.pagesToBlock, granted]
    change (if va' = 0 then _ else _) = _
    rw [if_neg nonnull, copy]
    change (KHeap.kfree D _ _ >>= _) = _
    rw [free]
    rfl
  · intro offset less
    have below : va' + offset < heapVa index := by omega
    rw [memory₃]
    refine (released _ (by omega) (by omega) fun range => Nat.not_lt.mpr range.1 below).trans ?_
    rw [contents offset less, if_pos ⟨Nat.le_add_right _ _, Nat.add_lt_add_left less va'⟩,
      Nat.add_sub_cancel_left]
    exact same _ (by omega) (by omega)

/-- On a blank machine, after `y = kmalloc(2048)`, `*y = 1` and `q = kmalloc(4097)`, the call
`krealloc(q, 2048)` overwrites `*y`. -/
theorem not_keepsContents_truncated : ∃ heap next : KHeap (List Nat), ∃ q y newVa : Nat,
    Relation.ReflTransGen (ClientStep PageBlocks.allocator PageBlocks.block)
        PageBlocks.blankHeap heap ∧
      Live PageBlocks.block heap q 4097 ∧ Live PageBlocks.block heap y 2048 ∧ y ≠ q ∧
      heap.krealloc PageBlocks.allocator q 2048 = .ok (newVa, next) ∧
      heap.memory.readByte kernelDirectory y = 1 ∧ next.memory.readByte kernelDirectory y = 0 ∧
      ¬ KeepsContents PageBlocks.block heap next q 4097 2048 newVa := by
  have completes : (do
      let first ← PageBlocks.blankHeap.kmalloc PageBlocks.allocator 2048
      let stored : KHeap (List Nat) :=
        { first.2 with memory := first.2.memory.writeByte kernelDirectory (first.1 + 0) 1 }
      let second ← stored.kmalloc PageBlocks.allocator 4097
      let granted ← second.2.allocBlock PageBlocks.allocator 2048
      return ([first.1, second.1, granted.1, second.2.kallocationSizes firstPage],
        [first.2.blocks, second.2.blocks],
        [(heapEntry granted.2.memory 8190).present, (heapEntry granted.2.memory 8191).present],
        [second.2.memory.readByte kernelDirectory first.1,
          second.2.memory.readByte kernelDirectory (second.1 + 4096)])) =
      Except.ok ([heapVa 8191, heapVa firstPage, heapVa 8190, 4097], [[8191], [8191]],
        [true, true], [1, 0]) := by decide +kernel
  obtain ⟨⟨y, heap₁⟩, first, rest⟩ := bind_eq_ok.mp completes
  obtain ⟨⟨q, heap⟩, second, rest⟩ := bind_eq_ok.mp rest
  obtain ⟨⟨newVa, allocated⟩, granted, rest⟩ := bind_eq_ok.mp rest
  have facts := Except.ok.inj rest
  simp only [Prod.mk.injEq, List.cons.injEq, and_true] at facts
  obtain ⟨⟨rfl, rfl, rfl, recorded⟩, ⟨blocks₁, blocks⟩, ⟨present, present'⟩,
    written, source⟩ := facts
  have live₁ : Live PageBlocks.block heap₁ (heapVa 8191) 2048 := by
    rw [Live, blocks₁]
    exact .inr (by decide)
  have live : Live PageBlocks.block heap (heapVa 8191) 2048 := by
    rw [Live, blocks]
    exact .inr (by decide)
  have run : Relation.ReflTransGen (ClientStep PageBlocks.allocator PageBlocks.block)
      PageBlocks.blankHeap heap :=
    .tail (.tail (.single (.kmalloc (by decide) first)) (.store 1 live₁ (by decide)))
      (.kmalloc (by decide) second)
  obtain ⟨top, sound⟩ := blankHeap_sound.of_run PageBlocks.correct run
  have tables := (sound.allocBlock PageBlocks.correct (by decide)
    (by decide) granted).1.frames.tables
  have recorded' : heap.kallocationSizes firstPage ≠ 0 := by
    rw [recorded]
    decide
  have mapped : ∀ offset < heap.kallocationSizes firstPage,
      (allocated.memory.translate kernelDirectory (add32 (heapVa 8190) offset)).isSome = true := by
    intro offset less
    rw [recorded] at less
    by_cases tail : offset = 4096
    · have lies : roundDown (add32 (heapVa 8190) offset) pageSize = heapVa 8191 := by
        rw [tail]
        decide
      exact (tables.translate_isSome lies (by decide)).mpr present'
    · have lies : roundDown (add32 (heapVa 8190) offset) pageSize = heapVa 8190 := by
        simp only [roundDown, add32, heapVa, kernelHeapStart, pageSize]
        omega
      exact (tables.translate_isSome lies (by decide)).mpr present
  obtain ⟨next, returned, overwritten⟩ :=
    sound.pagesToBlock_overwrites PageBlocks.correct recorded'
    (by decide) (by decide) granted (heapVa_ne_zero 8190) (kernelHeapStart_le_heapVa 8190)
    (by rw [recorded]; decide) mapped
  have overwritten := overwritten 4096 (by rw [recorded]; decide)
  rw [source, show heapVa 8190 + 4096 = heapVa 8191 by decide] at overwritten
  refine ⟨heap, next, heapVa firstPage, heapVa 8191, heapVa 8190, run,
    .inl ⟨firstPage, rfl, recorded, by decide⟩,
      live, by decide, returned, written, overwritten, ?_⟩
  intro keeps
  rw [KeepsContents, if_neg (heapVa_ne_zero 8190)] at keeps
  have same := keeps.2 (heapVa 8191) 2048 (by decide) live 0 (by decide)
  rw [SameByte, Nat.add_zero, overwritten, written] at same
  exact absurd same (by decide)

end KHeap

end FosKernel
