import FosKernel.Heap.Consistency

/-!
# The moves of the kernel heap in memory

Whatever the sizes of the calls, the size table records runs of pages of the page
allocator only, and memory changes by `get_page` and `return_page` of heap pages,
by stores and by calls of the dynamic allocator. The sizes range over all of
`uint32`.
-/

namespace FosKernel

/-- `get_page` or `return_page` of a heap page, or stores. -/
inductive PageMove (memory : Memory) : Memory → Prop where
  | getPage {index : Nat} {next : Memory} (inside : index < kheapPagesCount)
      (mapped : getPage memory (heapVa index) = .ok next) : PageMove memory next
  | returnPage {index : Nat} (inside : index < kheapPagesCount) :
      PageMove memory (returnPage memory (heapVa index))
  | store (bytes : Nat → Nat → UInt8) : PageMove memory { memory with bytes := bytes }

/-- A page move, or a call of the dynamic allocator that returns. -/
inductive HeapMove {β : Type} (D : DynAllocator β) (memory : Memory) : Memory → Prop where
  | page {next : Memory} (move : PageMove memory next) : HeapMove D memory next
  | allocBlock {size va : Nat} {blocks blocks' : β} {next : Memory}
      (allocated : D.allocBlock size (blocks, memory) = .ok (va, blocks', next)) :
      HeapMove D memory next
  | freeBlock {va : Nat} {blocks blocks' : β} {next : Memory}
      (freed : D.freeBlock va (blocks, memory) = .ok (blocks', next)) : HeapMove D memory next
  | reallocBlock {va size va' : Nat} {blocks blocks' : β} {next : Memory}
      (moved : D.reallocBlock va size (blocks, memory) = .ok (va', blocks', next)) :
      HeapMove D memory next

/-- Any number of page moves. -/
abbrev PageMoves : Memory → Memory → Prop := Relation.ReflTransGen PageMove

/-- Any number of moves of the kernel heap. -/
abbrev HeapMoves {β : Type} (D : DynAllocator β) : Memory → Memory → Prop :=
  Relation.ReflTransGen (HeapMove D)

/-- The dynamic allocator reaches memory by accesses to its own pages only. -/
structure DynAllocator.Accessing {β : Type} (D : DynAllocator β) : Prop where
  initial : ∀ memory, BlockAccesses memory (D.initializeDynamicAllocator memory).2
  alloc : ∀ {size blocks memory va blocks' memory'},
    D.allocBlock size (blocks, memory) = .ok (va, blocks', memory') → BlockAccesses memory memory'
  free : ∀ {va blocks memory blocks' memory'},
    D.freeBlock va (blocks, memory) = .ok (blocks', memory') → BlockAccesses memory memory'
  realloc : ∀ {va size blocks memory va' blocks' memory'},
    D.reallocBlock va size (blocks, memory) = .ok (va', blocks', memory') →
      BlockAccesses memory memory'

/-- The allocator with one block a page reaches memory by accesses to its own pages only. -/
theorem PageBlocks.accessing : allocator.Accessing where
  initial := fun _ => .refl
  alloc := by
    intro size live memory va live' memory' allocated
    obtain ⟨-, -, rfl⟩ | ⟨index, inside, -, -, -, page⟩ := allocBlock_cases allocated
    · exact .refl
    · exact .single (.getPage inside page)
  free := by
    intro va live memory live' memory' freed
    simp only [allocator] at freed
    split at freed
    · rename_i used
      obtain ⟨-, rfl⟩ := Prod.mk.inj (Except.ok.inj freed)
      exact .single (.returnPage used.1)
    · obtain ⟨-, rfl⟩ := Prod.mk.inj (Except.ok.inj freed)
      exact .refl
  realloc := by
    intro va size live memory va' live' memory' moved
    obtain ⟨-, rest⟩ := Prod.mk.inj (Except.ok.inj moved)
    obtain ⟨-, rfl⟩ := Prod.mk.inj rest
    exact .refl

section Moves

variable {β : Type} {D : DynAllocator β} {memory next : Memory} {index count : Nat}

/-- An access of the dynamic allocator is a page move. -/
theorem BlockAccess.pageMove (access : BlockAccess memory next) : PageMove memory next := by
  have limit : blockPages ≤ kheapPagesCount := by decide
  cases access with
  | getPage block mapped => exact .getPage (Nat.lt_of_lt_of_le block limit) mapped
  | returnPage block => exact .returnPage (Nat.lt_of_lt_of_le block limit)
  | @write va value _ _ =>
      have stored : memory.writeByte kernelDirectory va value =
          { memory with bytes := (memory.writeByte kernelDirectory va value).bytes } := by
        unfold Memory.writeByte
        split <;> rfl
      rw [stored]
      exact .store _

theorem BlockAccesses.pageMoves (accesses : BlockAccesses memory next) : PageMoves memory next :=
  Relation.ReflTransGen.mono (fun _ _ => BlockAccess.pageMove) _ _ accesses

/-- The moves of a heap whose dynamic allocator keeps to its pages are page moves. -/
theorem HeapMoves.pageMoves (accessing : D.Accessing) (moves : HeapMoves D memory next) :
    PageMoves memory next := by
  induction moves with
  | refl => exact .refl
  | tail _ move ih =>
      cases move with
      | page move => exact ih.tail move
      | allocBlock allocated => exact ih.trans (accessing.alloc allocated).pageMoves
      | freeBlock freed => exact ih.trans (accessing.free freed).pageMoves
      | reallocBlock moved => exact ih.trans (accessing.realloc moved).pageMoves

/-- What every page move keeps is kept by any number of them. -/
theorem PageMoves.keep {kept : Memory → Prop}
    (step : ∀ {before after}, kept before → PageMove before after → kept after)
    (moves : PageMoves memory next) (initially : kept memory) : kept next := by
  induction moves with
  | refl => exact initially
  | tail _ move ih => exact step ih move

theorem getPages_moves (upper : index + count ≤ kheapPagesCount)
    (mapped : getPages memory (heapVa index) count = .ok next) : HeapMoves D memory next := by
  induction count generalizing memory index with
  | zero =>
      obtain rfl := Except.ok.inj mapped
      exact .refl
  | succ count ih =>
      obtain ⟨middle, first, rest⟩ := bind_eq_ok.mp mapped
      rw [add32_heapVa_one (by omega)] at rest
      exact (ih (by omega) rest).head (.page (.getPage (by omega) first))

theorem returnPages_moves (D : DynAllocator β) (upper : index + count ≤ kheapPagesCount) :
    HeapMoves D memory (returnPages memory (heapVa index) count) := by
  induction count generalizing memory index with
  | zero => exact .refl
  | succ count ih =>
      rw [returnPages, add32_heapVa_one (by omega)]
      exact (ih (by omega)).head (.page (.returnPage (by omega)))

end Moves

namespace KHeap

variable {β : Type} {D : DynAllocator β} {heap next : KHeap β} {top index va : Nat}

/-- The sizes are `uint32`, and `krealloc` gets `NULL` or a live pointer. -/
def WordLegal (heap : KHeap β) : HeapCall → Prop
  | .kmalloc size => size < 2 ^ 32
  | .kfree _ => True
  | .krealloc va newSize => newSize < 2 ^ 32 ∧ heap.LivePointer va

/-- One call with `uint32` sizes that returns. -/
def WordStep (D : DynAllocator β) (heap next : KHeap β) : Prop :=
  ∃ call va, heap.WordLegal call ∧ heap.exec D call = .ok (va, next)

/-- The size table records only runs that start in the page allocator's part of the heap, where
the break lies, too. -/
structure PagesOnly (heap : KHeap β) (top : Nat) : Prop where
  break_eq : heap.kheapPageAllocBreak = heapVa top
  firstPage_le : firstPage ≤ top
  top_le : top ≤ kheapPagesCount
  unrecorded : ∀ index < firstPage, heap.kallocationSizes index = 0
  upper : ∀ index, heap.kallocationSizes index ≠ 0 →
    index + pagesOf (heap.kallocationSizes index) ≤ kheapPagesCount

/-- Consecutive pages between the first one and the break. -/
def Below (top index count : Nat) : Prop := firstPage ≤ index ∧ index + count ≤ top

namespace PagesOnly

/-- Recording a size in the page allocator's part. -/
theorem record (kept : heap.PagesOnly top) {size top' : Nat}
    (sizes : next.kallocationSizes = Function.update heap.kallocationSizes index size)
    (lower : size ≠ 0 → firstPage ≤ index ∧ index + pagesOf size ≤ kheapPagesCount)
    (break_eq : next.kheapPageAllocBreak = heapVa top') (firstPage_le : firstPage ≤ top')
    (top_le : top' ≤ kheapPagesCount) : next.PagesOnly top' := by
  refine ⟨break_eq, firstPage_le, top_le, ?_, ?_⟩
  · intro other below
    rw [sizes]
    by_cases same : other = index
    · subst same
      rw [Function.update_self]
      by_contra recorded
      exact Nat.not_lt.mpr (lower recorded).1 below
    · rw [Function.update_of_ne same]
      exact kept.unrecorded other below
  · intro other recorded
    rw [sizes] at recorded ⊢
    by_cases same : other = index
    · subst same
      rw [Function.update_self] at recorded ⊢
      exact (lower recorded).2
    · rw [Function.update_of_ne same] at recorded ⊢
      exact kept.upper other recorded

theorem congr (kept : heap.PagesOnly top) (sizes : next.kallocationSizes = heap.kallocationSizes)
    (break_eq : next.kheapPageAllocBreak = heap.kheapPageAllocBreak) : next.PagesOnly top where
  break_eq := break_eq.trans kept.break_eq
  firstPage_le := kept.firstPage_le
  top_le := kept.top_le
  unrecorded := sizes.symm ▸ kept.unrecorded
  upper := sizes.symm ▸ kept.upper

/-- The inner loop of `find_customfit` stops at the break. -/
theorem countFreeSpace_le (kept : heap.PagesOnly top) {fuel count : Nat} (le : index ≤ top)
    (counted : heap.countFreeSpace (heapVa index) index fuel = .ok count) :
    index + count ≤ top := by
  induction fuel generalizing index count with
  | zero => cases counted
  | succ fuel ih =>
      rw [countFreeSpace, kept.break_eq] at counted
      split at counted
      · rename_i open_
        obtain ⟨rest, first, returned⟩ := bind_eq_ok.mp counted
        obtain rfl := Except.ok.inj returned
        have below : index < top := heapVa_lt_iff.mp open_.1
        rw [add32_heapVa_one (Nat.le_trans below kept.top_le)] at first
        have upper := ih below first
        omega
      · obtain rfl := Except.ok.inj counted
        exact le

/-- What the outer loop of `find_customfit` remembers lies between the first page and the
break. -/
theorem scanFreeSpace_sound (kept : heap.PagesOnly top) {numPages fuel : Nat} {fit result : Fit}
    (lower : firstPage ≤ index) (upper : index ≤ kheapPagesCount)
    (sound : Fit.Sound (Below top) numPages fit)
    (scanned : heap.scanFreeSpace numPages (heapVa index) fit fuel = .ok result) :
    Fit.Sound (Below top) numPages result := by
  induction fuel generalizing index fit with
  | zero => cases scanned
  | succ fuel ih =>
      simp only [scanFreeSpace, kept.break_eq, heapVa_lt_iff, kvaToIndex_heapVa upper] at scanned
      split at scanned
      · rename_i below
        split at scanned
        · rename_i recorded
          have ends := kept.upper index recorded
          rw [add32_heapVa ends] at scanned
          exact ih (Nat.le_trans lower (Nat.le_add_right _ _)) ends sound scanned
        · obtain ⟨count, counted, rest⟩ := bind_eq_ok.mp scanned
          have ends := kept.countFreeSpace_le (Nat.le_of_lt below) counted
          have inside := Nat.le_trans ends kept.top_le
          rw [add32_heapVa inside] at rest
          refine ih (Nat.le_trans lower (Nat.le_add_right _ _)) inside (sound.update ?_) rest
          exact fun le => ⟨lower, Nat.le_trans (Nat.add_le_add_left le index) ends⟩
      · obtain rfl := Except.ok.inj scanned
        exact sound

/-- `find_customfit` returns 0 or a page between the first one and the break. -/
theorem findCustomfit_spec (kept : heap.PagesOnly top) {numPages : Nat}
    (found : heap.findCustomfit numPages = .ok va) :
    va = 0 ∨ ∃ index, va = heapVa index ∧ Below top index numPages := by
  have first : firstPage ≤ kheapPagesCount := by decide
  obtain ⟨fit, scanned, -⟩ := bind_eq_ok.mp found
  have scanned' := scanned
  rw [← heapVa_firstPage] at scanned'
  have sound := kept.scanFreeSpace_sound (Nat.le_refl _) first (Fit.sound_initial _ _) scanned'
  obtain ⟨va', found', space⟩ := findCustomfit_of_scan scanned sound
  obtain rfl := Except.ok.inj (found.symm.trans found')
  exact space

/-- `alloc_block` records nothing. -/
theorem allocBlock (kept : heap.PagesOnly top) {size : Nat}
    (allocated : heap.allocBlock D size = .ok (va, next)) :
    next.PagesOnly top ∧ HeapMoves D heap.memory next.memory := by
  obtain ⟨result, call, rest⟩ := bind_eq_ok.mp allocated
  obtain ⟨-, rfl⟩ := Prod.mk.inj (Except.ok.inj rest)
  exact ⟨kept.congr rfl rfl, .single (.allocBlock call)⟩

/-- `free_block` records nothing. -/
theorem freeBlock (kept : heap.PagesOnly top) (freed : heap.freeBlock D va = .ok next) :
    next.PagesOnly top ∧ HeapMoves D heap.memory next.memory := by
  obtain ⟨result, call, rest⟩ := bind_eq_ok.mp freed
  obtain rfl := Except.ok.inj rest
  exact ⟨kept.congr rfl rfl, .single (.freeBlock call)⟩

/-- `memcpy` records nothing. -/
theorem memcpy (kept : heap.PagesOnly top) {dst src count : Nat}
    (copied : heap.memcpy dst src count = .ok next) :
    next.PagesOnly top ∧ HeapMoves D heap.memory next.memory := by
  rw [KHeap.memcpy] at copied
  split at copied
  · cases copied
  · rename_i stored
    obtain rfl := Except.ok.inj copied
    obtain ⟨bytes, rfl⟩ := Memory.memcpy_spec stored
    exact ⟨kept.congr rfl rfl, .single (.page (.store bytes))⟩

/-- `kmalloc` records page allocations only. -/
theorem kmalloc (kept : heap.PagesOnly top) {size : Nat}
    (returned : heap.kmalloc D size = .ok (va, next)) :
    ∃ top', next.PagesOnly top' ∧ HeapMoves D heap.memory next.memory := by
  obtain ⟨-, rfl⟩ | ⟨-, -, allocated⟩ | pages := KHeap.kmalloc_cases returned
  · exact ⟨top, kept, .refl⟩
  · exact ⟨top, kept.allocBlock allocated⟩
  · obtain ⟨large, fits, fit, found, hit | extended⟩ := pages
    · obtain ⟨index, rfl, space⟩ := (kept.findCustomfit_spec found).resolve_left hit.1
      obtain ⟨memory, mapped, rest⟩ := bind_eq_ok.mp hit.2
      obtain ⟨-, rfl⟩ := Prod.mk.inj (Except.ok.inj rest)
      have ends := Nat.le_trans space.2 kept.top_le
      refine ⟨top, kept.record ?_ (fun _ => ⟨space.1, ends⟩) kept.break_eq kept.firstPage_le
        kept.top_le, getPages_moves ends mapped⟩
      exact congrArg (Function.update heap.kallocationSizes · size)
        (kvaToIndex_heapVa (Nat.le_trans (Nat.le_add_right _ _) ends))
    · obtain ⟨-, room, allocated⟩ := extended
      obtain ⟨memory, mapped, rest⟩ := bind_eq_ok.mp allocated
      obtain ⟨-, rfl⟩ := Prod.mk.inj (Except.ok.inj rest)
      have top_le := kept.top_le
      have ends : top + pagesOf size ≤ kheapPagesCount := by
        have limit : kheapPagesCount = 40959 := by decide
        simp only [kept.break_eq, sub32, heapVa, kernelHeapStart, kernelHeapMax, pageSize] at fits
        omega
      rw [kept.break_eq] at mapped
      refine ⟨top + pagesOf size, kept.record ?_ (fun _ => ⟨kept.firstPage_le, ends⟩) ?_
        (Nat.le_trans kept.firstPage_le (Nat.le_add_right _ _)) ends, getPages_moves ends mapped⟩
      · rw [kept.break_eq, kvaToIndex_heapVa top_le]
      · rw [kept.break_eq, add32_heapVa ends]

/-- The break loop of `kfree` ends at a page between the first one and the break. -/
theorem lowerBreak_le {memory : Memory} {fuel brk : Nat} (lower : firstPage ≤ index)
    (upper : index ≤ kheapPagesCount)
    (lowered : lowerBreak memory (heapVa index) fuel = .ok brk) :
    ∃ index', brk = heapVa index' ∧ firstPage ≤ index' ∧ index' ≤ index := by
  induction fuel generalizing index with
  | zero => cases lowered
  | succ fuel ih =>
      simp only [lowerBreak, ← heapVa_firstPage, heapVa_lt_iff] at lowered
      split at lowered
      · rename_i above
        obtain ⟨below, rfl⟩ := Nat.exists_eq_add_one_of_ne_zero
          (Nat.ne_of_gt (Nat.zero_lt_of_lt above))
        simp only [sub32_heapVa_one upper] at lowered
        split at lowered
        · cases lowered
        · split at lowered
          · obtain rfl := Except.ok.inj lowered
            exact ⟨below + 1, rfl, lower, Nat.le_refl _⟩
          · obtain ⟨index', rfl, lower', le⟩ :=
              ih (Nat.le_of_lt_succ above) (Nat.le_of_succ_le upper) lowered
            exact ⟨index', rfl, lower', Nat.le_succ_of_le le⟩
      · obtain rfl := Except.ok.inj lowered
        exact ⟨index, rfl, lower, Nat.le_refl _⟩

/-- `kfree` of an address in the dynamic allocator's part finds no size and returns at once. -/
theorem kfree_block (kept : heap.PagesOnly top) (D : DynAllocator β) (upper : va ≤ dynAllocEnd) :
    heap.kfree D va = .ok heap := by
  rw [KHeap.kfree]
  split
  · rfl
  · split
    · rfl
    · rename_i heapAddress
      obtain ⟨start, limit⟩ := not_or.mp heapAddress
      have page : kvaToIndex va < firstPage := by
        obtain ⟨lies, -⟩ := roundDown_eq_heapVa (Nat.not_lt.mp start) (Nat.not_le.mp limit)
        refine lt_page_of_lt_heapVa lies (Nat.lt_of_le_of_lt upper ?_)
        rw [heapVa_firstPage]
        decide
      exact if_pos (kept.unrecorded _ page)

/-- `kfree` records nothing. -/
theorem kfree (kept : heap.PagesOnly top) (freed : heap.kfree D va = .ok next) :
    ∃ top', next.PagesOnly top' ∧ HeapMoves D heap.memory next.memory := by
  simp only [KHeap.kfree] at freed
  split at freed
  · obtain rfl := Except.ok.inj freed
    exact ⟨top, kept, .refl⟩
  · split at freed
    · obtain rfl := Except.ok.inj freed
      exact ⟨top, kept, .refl⟩
    · rename_i heapAddress
      obtain ⟨start, limit⟩ := not_or.mp heapAddress
      split at freed
      · obtain rfl := Except.ok.inj freed
        exact ⟨top, kept, .refl⟩
      · rename_i recorded
        split at freed
        · exact ⟨top, kept.freeBlock freed⟩
        · obtain ⟨brk, lowered, rest⟩ := bind_eq_ok.mp freed
          obtain rfl := Except.ok.inj rest
          rw [kept.break_eq] at lowered
          obtain ⟨top', rfl, lower, le⟩ :=
            lowerBreak_le kept.firstPage_le kept.top_le lowered
          obtain ⟨lies, -⟩ := roundDown_eq_heapVa (Nat.not_lt.mp start) (Nat.not_le.mp limit)
          have ends := kept.upper _ recorded
          refine ⟨top', kept.record rfl (fun nonzero => absurd rfl nonzero) rfl lower
            (Nat.le_trans le kept.top_le), ?_⟩
          change HeapMoves D heap.memory (returnPages heap.memory va _)
          rw [returnPages_of_page heap.memory lies ends]
          exact returnPages_moves D ends

/-- `krealloc` that moves a run of pages records runs only. -/
theorem movePages (kept : heap.PagesOnly top) {va' oldSize newSize : Nat}
    (returned : heap.movePages D va oldSize newSize = .ok (va', next)) :
    ∃ top', next.PagesOnly top' ∧ HeapMoves D heap.memory next.memory := by
  obtain ⟨⟨newVa, allocated⟩, call, rest⟩ := bind_eq_ok.mp returned
  obtain ⟨top₁, kept₁, moves₁⟩ := kept.kmalloc call
  dsimp only at rest
  split at rest
  · obtain ⟨-, rfl⟩ := Prod.mk.inj (Except.ok.inj rest)
    exact ⟨top₁, kept₁, moves₁⟩
  · obtain ⟨copied, copy, rest⟩ := bind_eq_ok.mp rest
    obtain ⟨freed, free, rest⟩ := bind_eq_ok.mp rest
    obtain ⟨-, rfl⟩ := Prod.mk.inj (Except.ok.inj rest)
    obtain ⟨kept₂, moves₂⟩ := kept₁.memcpy (D := D) copy
    obtain ⟨top₃, kept₃, moves₃⟩ := kept₂.kfree free
    exact ⟨top₃, kept₃, (moves₁.trans moves₂).trans moves₃⟩

/-- `krealloc` of a recorded run of pages records runs only. -/
theorem reallocPages (kept : heap.PagesOnly top) {newSize : Nat}
    (recorded : heap.kallocationSizes index ≠ 0) (inside : firstPage ≤ index)
    (returned : heap.reallocPages D (heapVa index) (heap.kallocationSizes index) newSize =
      .ok (va, next)) : ∃ top', next.PagesOnly top' ∧ HeapMoves D heap.memory next.memory := by
  have ends := kept.upper index recorded
  have top_le := kept.top_le
  have start := kvaToIndex_heapVa (Nat.le_trans (Nat.le_add_right _ _) ends)
  simp only [KHeap.reallocPages, add32_heapVa ends] at returned
  split at returned
  · rename_i fewer
    obtain ⟨-, rfl⟩ := Prod.mk.inj (Except.ok.inj returned)
    have ends' : index + pagesOf newSize ≤ kheapPagesCount := by omega
    have sized : newSize ≠ 0 → firstPage ≤ index ∧
        index + pagesOf newSize ≤ kheapPagesCount :=
      fun _ => ⟨inside, ends'⟩
    have moves : HeapMoves D heap.memory (heap.shrinkPages (heapVa index)
        (pagesOf (heap.kallocationSizes index)) (pagesOf newSize) newSize).memory := by
      simp only [shrinkPages, add32_heapVa ends']
      exact returnPages_moves D (by omega)
    by_cases last : heapVa (index + pagesOf (heap.kallocationSizes index)) = heapVa top
    · refine ⟨index + pagesOf newSize, kept.record ?_ sized ?_
        (Nat.le_trans inside (Nat.le_add_right _ _)) ends', moves⟩
      · rw [shrinkPages, start]
      · simp only [shrinkPages, add32_heapVa ends, add32_heapVa ends', kept.break_eq, if_pos last]
    · refine ⟨top, kept.record ?_ sized ?_ kept.firstPage_le top_le, moves⟩
      · rw [shrinkPages, start]
      · simp only [shrinkPages, add32_heapVa ends, kept.break_eq, if_neg last]
  · rename_i enough
    split at returned
    · rename_i more
      obtain ⟨grown, growth, rest⟩ := bind_eq_ok.mp returned
      obtain ⟨-, rfl⟩ := Prod.mk.inj (Except.ok.inj rest)
      obtain ⟨memory, mapped, rest⟩ := bind_eq_ok.mp growth
      obtain rfl := Except.ok.inj rest
      have first : index + pagesOf (heap.kallocationSizes index) ≤ top := by
        by_contra above
        obtain ⟨extra, same⟩ := Nat.exists_eq_add_one_of_ne_zero
          (Nat.ne_of_gt (Nat.sub_pos_of_lt more.1))
        have beyond : heap.kheapPageAllocBreak ≤
            heapVa (index + pagesOf (heap.kallocationSizes index)) := by
          rw [kept.break_eq, heapVa_le_iff]
          exact Nat.le_of_not_le above
        have extends_ := more.2
        rw [same, canExtend, if_pos (.inr (.inl beyond))] at extends_
        cases extends_
      have ends' := (canExtend_spec kept.break_eq top_le first more.2).1
      have sizes : Function.update heap.kallocationSizes (kvaToIndex (heapVa index)) newSize =
          Function.update heap.kallocationSizes index newSize := by rw [start]
      rw [add32_heapVa ends] at mapped
      exact ⟨top, kept.record sizes (fun _ => ⟨inside, by omega⟩) kept.break_eq
        kept.firstPage_le
        top_le, getPages_moves (Nat.le_trans ends' top_le) mapped⟩
    · exact kept.movePages returned

theorem pagesToBlock (kept : heap.PagesOnly top) {va' oldSize newSize : Nat}
    (returned : heap.pagesToBlock D va oldSize newSize = .ok (va', next)) :
    ∃ top', next.PagesOnly top' ∧ HeapMoves D heap.memory next.memory := by
  obtain ⟨⟨newVa, allocated⟩, call, rest⟩ := bind_eq_ok.mp returned
  obtain ⟨kept₁, moves₁⟩ := kept.allocBlock call
  dsimp only at rest
  split at rest
  · obtain ⟨-, rfl⟩ := Prod.mk.inj (Except.ok.inj rest)
    exact ⟨top, kept₁, moves₁⟩
  · obtain ⟨copied, copy, rest⟩ := bind_eq_ok.mp rest
    obtain ⟨freed, free, rest⟩ := bind_eq_ok.mp rest
    obtain ⟨-, rfl⟩ := Prod.mk.inj (Except.ok.inj rest)
    obtain ⟨kept₂, moves₂⟩ := kept₁.memcpy (D := D) copy
    obtain ⟨top₃, kept₃, moves₃⟩ := kept₂.kfree free
    exact ⟨top₃, kept₃, (moves₁.trans moves₂).trans moves₃⟩

theorem blockToPages (kept : heap.PagesOnly top) {va' oldSize newSize : Nat}
    (returned : heap.blockToPages D va oldSize newSize = .ok (va', next)) :
    ∃ top', next.PagesOnly top' ∧ HeapMoves D heap.memory next.memory := by
  obtain ⟨⟨newVa, allocated⟩, call, rest⟩ := bind_eq_ok.mp returned
  obtain ⟨top₁, kept₁, moves₁⟩ := kept.kmalloc call
  dsimp only at rest
  split at rest
  · obtain ⟨-, rfl⟩ := Prod.mk.inj (Except.ok.inj rest)
    exact ⟨top₁, kept₁, moves₁⟩
  · obtain ⟨copied, copy, rest⟩ := bind_eq_ok.mp rest
    obtain ⟨freed, free, rest⟩ := bind_eq_ok.mp rest
    obtain ⟨-, rfl⟩ := Prod.mk.inj (Except.ok.inj rest)
    obtain ⟨kept₂, moves₂⟩ := kept₁.memcpy (D := D) copy
    obtain ⟨kept₃, moves₃⟩ := kept₂.freeBlock free
    exact ⟨top₁, kept₃, (moves₁.trans moves₂).trans moves₃⟩

/-- `krealloc` of `NULL` or a live pointer records runs of pages only. -/
theorem krealloc (kept : heap.PagesOnly top) {va' newSize : Nat} (live : heap.LivePointer va)
    (returned : heap.krealloc D va newSize = .ok (va', next)) :
    ∃ top', next.PagesOnly top' ∧ HeapMoves D heap.memory next.memory := by
  rw [KHeap.krealloc] at returned
  split at returned
  · exact kept.kmalloc returned
  · rename_i nonnull
    split at returned
    · obtain ⟨freed, free, rest⟩ := bind_eq_ok.mp returned
      obtain ⟨-, rfl⟩ := Prod.mk.inj (Except.ok.inj rest)
      exact kept.kfree free
    · split at returned
      · rename_i page
        obtain ⟨index, rfl, recorded⟩ : ∃ index, va = heapVa index ∧
            heap.kallocationSizes index ≠ 0 := by
          obtain null | block | run := live
          · exact absurd null nonnull
          · have apart : dynAllocEnd < kheapPageAllocStart := by decide
            exact absurd (Nat.lt_of_le_of_lt page.1 block.2) (Nat.not_lt.mpr (Nat.le_of_lt apart))
          · exact run
        have inside : firstPage ≤ index := by
          rw [← heapVa_le_iff, heapVa_firstPage]
          exact page.1
        have ends := Nat.le_trans (Nat.le_add_right _ _) (kept.upper index recorded)
        simp only [kvaToIndex_heapVa ends, if_neg recorded] at returned
        split at returned
        · obtain ⟨-, rfl⟩ := Prod.mk.inj (Except.ok.inj returned)
          exact ⟨top, kept, .refl⟩
        · split at returned
          · exact kept.pagesToBlock returned
          · exact kept.reallocPages recorded inside returned
      · split at returned
        · dsimp only at returned
          split at returned
          · obtain ⟨-, rfl⟩ := Prod.mk.inj (Except.ok.inj returned)
            exact ⟨top, kept, .refl⟩
          · split at returned
            · obtain ⟨-, rfl⟩ := Prod.mk.inj (Except.ok.inj returned)
              exact ⟨top, kept, .refl⟩
            · split at returned
              · obtain ⟨result, call, rest⟩ := bind_eq_ok.mp returned
                obtain ⟨-, rfl⟩ := Prod.mk.inj (Except.ok.inj rest)
                exact ⟨top, kept.congr rfl rfl, .single (.reallocBlock call)⟩
              · exact kept.blockToPages returned
        · obtain ⟨-, rfl⟩ := Prod.mk.inj (Except.ok.inj returned)
          exact ⟨top, kept, .refl⟩

theorem initial (D : DynAllocator β) (memory : Memory) :
    (kheapInit D memory).PagesOnly firstPage where
  break_eq := heapVa_firstPage.symm
  firstPage_le := Nat.le_refl _
  top_le := by decide
  unrecorded := fun _ _ => rfl
  upper := fun _ recorded => absurd rfl recorded

theorem step (kept : heap.PagesOnly top) (step : heap.WordStep D next) :
    ∃ top', next.PagesOnly top' ∧ HeapMoves D heap.memory next.memory := by
  obtain ⟨call, va, legal, returned⟩ := step
  cases call with
  | kmalloc size => exact kept.kmalloc returned
  | kfree address =>
      obtain ⟨freed, free, rest⟩ := bind_eq_ok.mp returned
      obtain ⟨-, rfl⟩ := Prod.mk.inj (Except.ok.inj rest)
      exact kept.kfree free
  | krealloc address newSize => exact kept.krealloc legal.2 returned

end PagesOnly

end KHeap

end FosKernel
