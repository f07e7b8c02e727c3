import FosKernel.Heap.Consistency

/-!
# The scan of `find_customfit`

The outer loop of `find_customfit` as a chain of rounds. In every heap that calls
without a size that wraps lead to, each round moves on by at least a page, so the
scan gets to the break and the search returns. A size that wraps is recorded for
no page at all, and the scan stands still at it.
-/

namespace FosKernel

namespace KHeap

variable {β : Type} {D : DynAllocator β} {heap : KHeap β} {top : Nat}

/-- The address that a round of the outer loop of `find_customfit` goes on at. -/
def nextVa (heap : KHeap β) (currVa : Nat) : Except Halt Nat :=
  let index := kvaToIndex currVa
  if heap.kallocationSizes index ≠ 0 then
    .ok (add32 currVa (pagesOf (heap.kallocationSizes index) * pageSize))
  else do
    let freeSpaceSize ← heap.countFreeSpace currVa index (kheapPagesCount + 1)
    return add32 currVa (freeSpaceSize * pageSize)

/-- The outer loop gets from one address to another. -/
def Scans (heap : KHeap β) : Nat → Nat → Prop :=
  Relation.ReflTransGen fun currVa next =>
    currVa < heap.kheapPageAllocBreak ∧ heap.nextVa currVa = .ok next

/-- `find_customfit` ends: each round of its scan moves on by a page at least, and the scan
gets to the break. -/
structure ScanEnds (heap : KHeap β) : Prop where
  returns : ∀ numPages, ∃ va, heap.findCustomfit numPages = .ok va
  advances : ∀ currVa, heap.Scans kheapPageAllocStart currVa →
    currVa < heap.kheapPageAllocBreak →
      ∃ next, heap.nextVa currVa = .ok next ∧ currVa + pageSize ≤ next
  reaches : heap.Scans kheapPageAllocStart heap.kheapPageAllocBreak

/-- The outer loop is a chain of such rounds. -/
theorem scanFreeSpace_succ (heap : KHeap β) {numPages currVa next : Nat} {fit : Fit}
    (below : currVa < heap.kheapPageAllocBreak) (round : heap.nextVa currVa = .ok next)
    (fuel : Nat) : ∃ fit', heap.scanFreeSpace numPages currVa fit (fuel + 1) =
      heap.scanFreeSpace numPages next fit' fuel := by
  rw [scanFreeSpace, if_pos below]
  unfold nextVa at round
  dsimp only at round ⊢
  by_cases recorded : heap.kallocationSizes (kvaToIndex currVa) ≠ 0
  · rw [if_pos recorded] at round ⊢
    obtain rfl := Except.ok.inj round
    exact ⟨fit, rfl⟩
  · rw [if_neg recorded] at round ⊢
    obtain ⟨count, counted, rest⟩ := bind_eq_ok.mp round
    obtain rfl := Except.ok.inj rest
    rw [counted]
    exact ⟨fit.update numPages currVa count, rfl⟩

/-- A round that goes on where it started never ends. -/
theorem scanFreeSpace_stands (heap : KHeap β) {numPages currVa : Nat}
    (below : currVa < heap.kheapPageAllocBreak) (stands : heap.nextVa currVa = .ok currVa)
    (fuel : Nat) : ∀ fit : Fit,
      heap.scanFreeSpace numPages currVa fit fuel = .error .hang := by
  induction fuel with
  | zero => exact fun _ => rfl
  | succ fuel ih =>
      intro fit
      obtain ⟨fit', round⟩ := heap.scanFreeSpace_succ below stands fuel
      exact round.trans (ih fit')

/-- In a well-formed heap a round passes an allocation or the free pages up to the next one. -/
theorem WellFormed.nextVa_spec (wellFormed : heap.WellFormed top) {index : Nat}
    (below : index < top) (unstraddled : Runs.Unstraddled heap.runLength index) :
    ∃ next, heap.nextVa (heapVa index) = .ok (heapVa next) ∧ index < next ∧ next ≤ top ∧
      Runs.Unstraddled heap.runLength next := by
  have top_le := wellFormed.top_le
  unfold nextVa
  rw [kvaToIndex_heapVa (by omega)]
  by_cases recorded : heap.kallocationSizes index ≠ 0
  · have positive := wellFormed.runLength_pos recorded
    have ends := wellFormed.packed.le_high index positive
    refine ⟨index + heap.runLength index, ?_, by omega, ends,
      wellFormed.packed.unstraddled_end positive⟩
    rw [if_pos recorded, ← runLength, add32_heapVa (by omega)]
  · have free := not_not.mp recorded
    obtain ⟨count, counted, upper, empty, ends⟩ := countFreeSpace_spec wellFormed.break_eq
      top_le (Nat.le_of_lt below) (show top - index < kheapPagesCount + 1 by omega)
    have positive : 0 < count := by
      rcases Nat.eq_zero_or_pos count with rfl | positive
      · exact absurd free (ends below)
      · exact positive
    refine ⟨index + count, ?_, by omega, upper,
      unstraddled.add_gap fun page above under => runLength_eq_zero (empty page above under)⟩
    rw [if_neg recorded, counted, ← add32_heapVa (by omega)]
    rfl

/-- The scan of a well-formed heap stays at the edges of its runs. -/
theorem WellFormed.scans_cases (wellFormed : heap.WellFormed top) {currVa : Nat}
    (scans : heap.Scans kheapPageAllocStart currVa) :
    ∃ index, currVa = heapVa index ∧ index ≤ top ∧
        Runs.Unstraddled heap.runLength index := by
  induction scans with
  | refl =>
      exact ⟨firstPage, heapVa_firstPage.symm, wellFormed.firstPage_le,
        wellFormed.packed.unstraddled_low⟩
  | tail _ round ih =>
      obtain ⟨index, rfl, -, unstraddled⟩ := ih
      obtain ⟨below, moved⟩ := round
      rw [wellFormed.break_eq, heapVa_lt_iff] at below
      obtain ⟨next, moved', -, le, unstraddled'⟩ := wellFormed.nextVa_spec below unstraddled
      exact ⟨next, Except.ok.inj (moved.symm.trans moved'), le, unstraddled'⟩

/-- From an edge the scan gets to the break. -/
theorem WellFormed.scans_break (wellFormed : heap.WellFormed top) {index : Nat} (le : index ≤ top)
    (unstraddled : Runs.Unstraddled heap.runLength index) :
    heap.Scans (heapVa index) (heapVa top) := by
  rcases Nat.eq_or_lt_of_le le with rfl | below
  · exact .refl
  · obtain ⟨next, moved, further, le', unstraddled'⟩ :=
      wellFormed.nextVa_spec below unstraddled
    have inside : heapVa index < heap.kheapPageAllocBreak := by
      rw [wellFormed.break_eq, heapVa_lt_iff]
      exact below
    exact .head ⟨inside, moved⟩ (wellFormed.scans_break le' unstraddled')
termination_by top - index

/-- `find_customfit` ends in a well-formed heap. -/
theorem WellFormed.scanEnds (wellFormed : heap.WellFormed top) : heap.ScanEnds where
  returns numPages := by
    obtain ⟨va, found, -⟩ := wellFormed.findCustomfit_spec numPages
    exact ⟨va, found⟩
  advances := by
    intro currVa scans below
    obtain ⟨index, rfl, -, unstraddled⟩ := wellFormed.scans_cases scans
    rw [wellFormed.break_eq, heapVa_lt_iff] at below
    obtain ⟨next, moved, further, -⟩ := wellFormed.nextVa_spec below unstraddled
    refine ⟨heapVa next, moved, ?_⟩
    simp only [heapVa, pageSize]
    omega
  reaches := by
    rw [wellFormed.break_eq, ← heapVa_firstPage]
    exact wellFormed.scans_break wellFormed.firstPage_le wellFormed.packed.unstraddled_low

/-- In every state that calls without a size that wraps lead to from `kheap_init`,
`find_customfit` ends. -/
theorem scanEnds_of_run (D : DynAllocator β) (confined : D.Confined) (memory : Memory)
    (tables : KernelTables memory)
    (unmapped : ∀ index, firstPage ≤ index → index < kheapPagesCount →
      heapEntry memory index = .zero)
    (heap : KHeap β) (run : Relation.ReflTransGen (UnwrappedStep D) (kheapInit D memory) heap) :
    heap.ScanEnds := by
  obtain ⟨top, wellFormed⟩ := wellFormed_of_run confined tables unmapped run
  exact wellFormed.scanEnds

/-- The search ends after one page allocation on a blank machine. -/
theorem scanEnds_of_run_kmalloc : ∃ next : KHeap (List Nat),
    PageBlocks.blankHeap.kmalloc PageBlocks.allocator 5000 = .ok (kheapPageAllocStart, next) ∧
      next.ScanEnds := by
  have completes : (PageBlocks.blankHeap.kmalloc PageBlocks.allocator 5000).map Prod.fst =
      .ok kheapPageAllocStart := by decide +kernel
  obtain ⟨tables, unmapped⟩ := blankBoot_kernelTables
  cases returned : PageBlocks.blankHeap.kmalloc PageBlocks.allocator 5000 with
  | error halt =>
      rw [returned] at completes
      cases completes
  | ok result =>
      obtain ⟨va, next⟩ := result
      rw [returned] at completes
      obtain rfl : va = kheapPageAllocStart := Except.ok.inj completes
      have small : PageBlocks.blankHeap.Unwrapped (.kmalloc 5000) :=
        show 5000 ≤ 2 ^ 32 - pageSize by decide
      exact ⟨next, rfl, scanEnds_of_run PageBlocks.allocator PageBlocks.confined _ tables
        (fun index _ _ => unmapped index) next (.single ⟨_, _, small, returned⟩)⟩

/-- Two allocations, the release of the first, and a `kmalloc` of 0xFFFFFFFF bytes in its
place. -/
def wrappedCalls : List HeapCall :=
  [.kmalloc 5000, .kmalloc 5000, .kfree kheapPageAllocStart, .kmalloc 0xFFFFFFFF]

/-- The size 0xFFFFFFFF is recorded for a free page below the break, and the next search hangs
there. -/
theorem not_scanEnds_wrapped : ∃ heap : KHeap (List Nat),
    Relation.ReflTransGen (fun heap next => ∃ call va, call ∈ wrappedCalls ∧
      heap.exec PageBlocks.allocator call = .ok (va, next)) PageBlocks.blankHeap heap ∧
    heap.findCustomfit 2 = .error .hang ∧ ¬ heap.ScanEnds := by
  have completes : (do
      let first ← PageBlocks.blankHeap.exec PageBlocks.allocator (.kmalloc 5000)
      let second ← first.2.exec PageBlocks.allocator (.kmalloc 5000)
      let freed ← second.2.exec PageBlocks.allocator (.kfree kheapPageAllocStart)
      let wrapped ← freed.2.exec PageBlocks.allocator (.kmalloc 0xFFFFFFFF)
      return (wrapped.2.kheapPageAllocBreak, wrapped.2.kallocationSizes firstPage)) =
      Except.ok (heapVa (firstPage + 4), 0xFFFFFFFF) := by decide +kernel
  obtain ⟨⟨va₁, heap₁⟩, first, rest⟩ := bind_eq_ok.mp completes
  obtain ⟨⟨va₂, heap₂⟩, second, rest⟩ := bind_eq_ok.mp rest
  obtain ⟨⟨va₃, heap₃⟩, freed, rest⟩ := bind_eq_ok.mp rest
  obtain ⟨⟨va₄, heap⟩, wrapped, rest⟩ := bind_eq_ok.mp rest
  obtain ⟨brk, recorded⟩ := Prod.mk.inj (Except.ok.inj rest)
  have below : kheapPageAllocStart < heap.kheapPageAllocBreak := by
    have lower : kheapPageAllocStart < heapVa (firstPage + 4) := by decide
    exact Nat.lt_of_lt_of_eq lower brk.symm
  have stands : heap.nextVa kheapPageAllocStart = .ok kheapPageAllocStart := by
    have nonzero : heap.kallocationSizes firstPage ≠ 0 := by
      rw [recorded]
      decide
    have page : kvaToIndex kheapPageAllocStart = firstPage := by decide
    unfold nextVa
    rw [page, if_pos nonzero, recorded]
    decide
  have hangs : heap.findCustomfit 2 = .error .hang := by
    rw [findCustomfit, heap.scanFreeSpace_stands below stands]
    rfl
  refine ⟨heap, ?_, hangs, fun ends => ?_⟩
  · refine .tail (.tail (.tail (.single ⟨.kmalloc 5000, va₁, by decide, first⟩)
      ⟨.kmalloc 5000, va₂, by decide, second⟩)
        ⟨.kfree kheapPageAllocStart, va₃, by decide, freed⟩)
      ⟨.kmalloc 0xFFFFFFFF, va₄, by decide, wrapped⟩
  · obtain ⟨va, found⟩ := ends.returns 2
    rw [hangs] at found
    cases found

end KHeap

end FosKernel
