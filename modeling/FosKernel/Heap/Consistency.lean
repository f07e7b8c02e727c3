import Mathlib.Data.Set.Lattice
import Mathlib.Logic.Relation
import Mathlib.Order.Interval.Set.Disjoint
import FosKernel.Heap.PageBlocks
import Mathlib.Order.CompletePartialOrder

/-!
# Runs of the kernel heap

Calls of `kmalloc`, `kfree` and `krealloc` from `kheap_init` on, and what holds
in every state that they lead to: the recorded allocations are disjoint runs of
pages below the break, and exactly their pages are mapped.
-/

namespace FosKernel

/-- The calls of the kernel heap. -/
inductive HeapCall where
  | kmalloc (size : Nat)
  | kfree (va : Nat)
  | krealloc (va newSize : Nat)
  deriving DecidableEq, Repr

namespace KHeap

variable {β : Type} {D : DynAllocator β} {heap next : KHeap β} {top : Nat}

/-- Execute a call, with 0 as the result of `kfree`. -/
def exec (D : DynAllocator β) (heap : KHeap β) : HeapCall → Except Halt (Nat × KHeap β)
  | .kmalloc size => heap.kmalloc D size
  | .kfree va => do
      let heap ← heap.kfree D va
      return (0, heap)
  | .krealloc va newSize => heap.krealloc D va newSize

/-- The sizes are at most that of the heap, and `krealloc` gets `NULL` or a live pointer. -/
def Legal (heap : KHeap β) : HeapCall → Prop
  | .kmalloc size => size ≤ kernelHeapMax - kernelHeapStart
  | .kfree _ => True
  | .krealloc va newSize => newSize ≤ kernelHeapMax - kernelHeapStart ∧ heap.LivePointer va

/-- One legal call that returns. -/
def Step (D : DynAllocator β) (heap next : KHeap β) : Prop :=
  ∃ call va, heap.Legal call ∧ heap.exec D call = .ok (va, next)

/-- No size wraps when it is rounded to pages, and `krealloc` gets `NULL` or a live pointer. -/
def Unwrapped (heap : KHeap β) : HeapCall → Prop
  | .kmalloc size => size ≤ 2 ^ 32 - pageSize
  | .kfree _ => True
  | .krealloc va newSize => newSize ≤ 2 ^ 32 - pageSize ∧ heap.LivePointer va

/-- One call without a size that wraps that returns. -/
def UnwrappedStep (D : DynAllocator β) (heap next : KHeap β) : Prop :=
  ∃ call va, heap.Unwrapped call ∧ heap.exec D call = .ok (va, next)

/-- The addresses of the pages of the allocation that is recorded for a page. -/
def runOf (heap : KHeap β) (index : Nat) : Set Nat :=
  Set.Ico (heapVa index) (heapVa index + roundUp (heap.kallocationSizes index) pageSize)

/-- The size table, the break and the page mappings describe the same allocations. -/
structure Consistent (heap : KHeap β) : Prop where
  disjoint : ∀ first second, first ≠ second → heap.kallocationSizes first ≠ 0 →
    heap.kallocationSizes second ≠ 0 → Disjoint (heap.runOf first) (heap.runOf second)
  inside : ∀ index, heap.kallocationSizes index ≠ 0 →
    heap.runOf index ⊆ Set.Ico kheapPageAllocStart heap.kheapPageAllocBreak
  break_le : heap.kheapPageAllocBreak ≤ kernelHeapMax
  mapped_iff : ∀ va, kheapPageAllocStart ≤ va → va < kernelHeapMax →
    ((heap.memory.translate kernelDirectory va).isSome = true ↔
      ∃ index, heap.kallocationSizes index ≠ 0 ∧ va ∈ heap.runOf index)
  tight : heap.kheapPageAllocBreak = kheapPageAllocStart ∨
    (heap.memory.translate kernelDirectory (heap.kheapPageAllocBreak - pageSize)).isSome = true

/-- A run ends at the page after its last one. -/
theorem runOf_eq (heap : KHeap β) (index : Nat) :
    heap.runOf index = Set.Ico (heapVa index) (heapVa (index + heap.runLength index)) := by
  have whole : roundUp (heap.kallocationSizes index) pageSize =
      heap.runLength index * pageSize := by
    simp only [runLength, pagesOf, roundUp, roundDown, add32, pageSize]
    omega
  have ends : heapVa index + heap.runLength index * pageSize =
      heapVa (index + heap.runLength index) := by
    simp only [heapVa, pageSize]
    omega
  rw [runOf, whole, ends]

/-- An address lies in a run when its page is one of the run's pages. -/
theorem mem_runOf {index page va : Nat} (lies : roundDown va pageSize = heapVa page) :
    va ∈ heap.runOf index ↔ index ≤ page ∧ page < index + heap.runLength index := by
  rw [runOf_eq, Set.mem_Ico]
  simp only [roundDown, heapVa, pageSize] at *
  omega

/-- A well-formed heap is consistent. -/
theorem WellFormed.consistent (wellFormed : heap.WellFormed top) : heap.Consistent where
  disjoint := by
    intro first second different recordedFirst recordedSecond
    have lengthFirst := wellFormed.runLength_pos recordedFirst
    have lengthSecond := wellFormed.runLength_pos recordedSecond
    rw [runOf_eq, runOf_eq, Set.Ico_disjoint_Ico]
    cases Nat.lt_or_gt_of_ne different with
    | inl before =>
        have apart := wellFormed.packed.apart first second before lengthFirst lengthSecond
        exact min_le_of_left_le (le_max_of_le_right (heapVa_le_iff.mpr apart))
    | inr after =>
        have apart := wellFormed.packed.apart second first after lengthSecond lengthFirst
        exact min_le_of_right_le (le_max_of_le_left (heapVa_le_iff.mpr apart))
  inside := by
    intro index recorded
    have length := wellFormed.runLength_pos recorded
    rw [runOf_eq, wellFormed.break_eq, ← heapVa_firstPage]
    exact Set.Ico_subset_Ico (heapVa_le_iff.mpr (wellFormed.packed.low_le index length))
      (heapVa_le_iff.mpr (wellFormed.packed.le_high index length))
  break_le := by
    rw [wellFormed.break_eq, ← heapVa_kheapPagesCount, heapVa_le_iff]
    exact wellFormed.top_le
  mapped_iff := by
    intro va lower upper
    have start : kernelHeapStart ≤ va := Nat.le_trans (by decide) lower
    obtain ⟨lies, inside⟩ := roundDown_eq_heapVa start upper
    rw [← heapVa_firstPage] at lower
    have above := le_page_of_heapVa_le lies lower
    rw [wellFormed.pages.tables.translate_isSome lies inside, wellFormed.present_iff _ above inside]
    constructor
    · intro ⟨index, covers⟩
      exact ⟨index, wellFormed.recorded_iff.mpr (by omega), (mem_runOf lies).mpr covers⟩
    · intro ⟨index, _, member⟩
      exact ⟨index, (mem_runOf lies).mp member⟩
  tight := by
    have firstPage_le := wellFormed.firstPage_le
    have top_le := wellFormed.top_le
    by_cases bottom : top = firstPage
    · left
      rw [wellFormed.break_eq, bottom, heapVa_firstPage]
    · right
      have last : heapVa top - pageSize = heapVa (top - 1) := by
        simp only [heapVa, pageSize]
        omega
      rw [wellFormed.break_eq, last,
        wellFormed.pages.tables.translate_isSome (roundDown_heapVa (top - 1)) (by omega),
        wellFormed.present_iff _ (by omega) (by omega)]
      exact wellFormed.tight.resolve_left bottom

/-- After `kheap_init` over existing page tables that map no page of the page allocator, the
heap is well formed. -/
theorem WellFormed.initial (confined : D.Confined) {memory : Memory}
    (tables : KernelTables memory)
    (unmapped : ∀ index, firstPage ≤ index → index < kheapPagesCount →
      heapEntry memory index = .zero) : (kheapInit D memory).WellFormed firstPage := by
  have clean : ∀ index, firstPage ≤ index → index < kheapPagesCount →
      (heapEntry memory index).Clean := by
    intro index lower upper
    rw [unmapped index lower upper]
    exact ⟨by decide, fun _ => rfl⟩
  obtain ⟨pages, same⟩ := (confined.initial memory).pages ⟨tables, clean⟩
  have lengths : (kheapInit D memory).runLength = fun _ => 0 := by
    funext index
    exact runLength_eq_zero rfl
  refine ⟨pages, heapVa_firstPage.symm, Nat.le_refl _, by decide, ?_, ?_, ?_, .inl rfl⟩
  · intro index recorded
    exact absurd rfl recorded
  · rw [lengths]
    exact Runs.packed_zero _ _
  · intro index lower upper
    rw [lengths]
    have absent : (heapEntry (kheapInit D memory).memory index).present = false := by
      rw [kheapInit, same index (Nat.le_trans (by decide) lower) upper,
        unmapped index lower upper, PageTableEntry.zero_not_present]
    exact iff_of_false (by rw [absent]; exact Bool.false_ne_true)
      (Runs.not_covered_zero index)

/-- A call without a size that wraps keeps the heap well formed. -/
theorem UnwrappedStep.wellFormed (step : heap.UnwrappedStep D next) (confined : D.Confined)
    (wellFormed : heap.WellFormed top) : ∃ top', next.WellFormed top' := by
  obtain ⟨call, va, unwrapped, returned⟩ := step
  cases call with
  | kmalloc size => exact wellFormed.kmalloc confined unwrapped returned
  | kfree address =>
      obtain ⟨freed, free, rest⟩ := bind_eq_ok.mp returned
      obtain ⟨-, rfl⟩ := Prod.mk.inj (Except.ok.inj rest)
      obtain ⟨freed', top', free', kept⟩ := wellFormed.kfree D address
      obtain rfl := Except.ok.inj (free.symm.trans free')
      exact ⟨top', kept⟩
  | krealloc address newSize =>
      exact wellFormed.krealloc confined unwrapped.2 unwrapped.1 returned

/-- No size up to that of the heap wraps. -/
theorem Step.unwrapped (step : heap.Step D next) : heap.UnwrappedStep D next := by
  have bound : kernelHeapMax - kernelHeapStart ≤ 2 ^ 32 - pageSize := by decide
  obtain ⟨call, va, legal, returned⟩ := step
  refine ⟨call, va, ?_, returned⟩
  cases call with
  | kmalloc size => exact Nat.le_trans legal bound
  | kfree address => trivial
  | krealloc address newSize => exact ⟨Nat.le_trans legal.1 bound, legal.2⟩

/-- Calls without sizes that wrap lead from `kheap_init` to well-formed heaps. -/
theorem wellFormed_of_run (confined : D.Confined) {memory : Memory} (tables : KernelTables memory)
    (unmapped : ∀ index, firstPage ≤ index → index < kheapPagesCount →
      heapEntry memory index = .zero)
    (run : Relation.ReflTransGen (UnwrappedStep D) (kheapInit D memory) heap) :
    ∃ top, heap.WellFormed top := by
  induction run with
  | refl => exact ⟨firstPage, WellFormed.initial confined tables unmapped⟩
  | tail _ step ih =>
      obtain ⟨top, wellFormed⟩ := ih
      exact step.wellFormed confined wellFormed

/-- In every state that calls of `kmalloc`, `kfree` and `krealloc` lead to from `kheap_init`,
the size table, the break and the page mappings describe the same disjoint allocations. -/
theorem consistent_of_run (D : DynAllocator β) (confined : D.Confined) (memory : Memory)
    (tables : KernelTables memory)
    (unmapped : ∀ index, firstPage ≤ index → index < kheapPagesCount →
      heapEntry memory index = .zero)
    (heap : KHeap β) (run : Relation.ReflTransGen (Step D) (kheapInit D memory) heap) :
    heap.Consistent := by
  obtain ⟨top, wellFormed⟩ := wellFormed_of_run confined tables unmapped
    (Relation.ReflTransGen.mono (fun _ _ step => step.unwrapped) _ _ run)
  exact wellFormed.consistent

/-- The heap of a blank machine after one page allocation is consistent. -/
theorem consistent_of_run_kmalloc : ∃ next : KHeap (List Nat),
    PageBlocks.blankHeap.kmalloc PageBlocks.allocator 5000 = .ok (kheapPageAllocStart, next) ∧
      next.Consistent := by
  have completes : (PageBlocks.blankHeap.kmalloc PageBlocks.allocator 5000).map Prod.fst =
      .ok kheapPageAllocStart := by decide +kernel
  obtain ⟨tables, unmapped⟩ := blankBoot_kernelTables
  cases returned : PageBlocks.blankHeap.kmalloc PageBlocks.allocator 5000 with
  | error halt =>
      rw [returned] at completes
      cases completes
  | ok result =>
      obtain ⟨va, next⟩ := result
      rw [returned] at completes
      obtain rfl : va = kheapPageAllocStart := Except.ok.inj completes
      refine ⟨next, rfl, ?_⟩
      have legal : PageBlocks.blankHeap.Legal (.kmalloc 5000) :=
        show 5000 ≤ kernelHeapMax - kernelHeapStart by decide
      exact consistent_of_run PageBlocks.allocator PageBlocks.confined _ tables
        (fun index _ _ => unmapped index) next (.single ⟨_, _, legal, returned⟩)

end KHeap

theorem PageBlocks.blankHeap_wellFormed : blankHeap.WellFormed firstPage := by
  obtain ⟨tables, unmapped⟩ := blankBoot_kernelTables
  exact .initial confined tables fun index _ _ => unmapped index

end FosKernel
