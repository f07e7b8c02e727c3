import FosKernel.Heap.PageMoves

/-!
# Releasing blocks

`kfree` looks an address up in the size table before anything else, and the
table records runs of pages only. So `kfree` of a block does nothing: no block
that `kmalloc` took from the dynamic allocator is returned to it by `kfree`.
The sizes of the calls range over all of `uint32`.
-/

namespace FosKernel

namespace KHeap

variable {β : Type} {D : DynAllocator β} {heap next : KHeap β} {top index va : Nat}

/-- What a caller may expect of `kfree` for a live block: exactly one `free_block` of it. -/
def ReleasesBlock (D : DynAllocator β) (heap : KHeap β) (va : Nat) : Prop :=
  heap.kfree D va = heap.freeBlock D va

/-- In every state that calls with `uint32` sizes lead to from `kheap_init`, `kfree` of an address
in the dynamic allocator's part returns at once, whatever `free_block` would do, so it releases
no live block. -/
theorem not_releasesBlock_of_run (D : DynAllocator β) (block : β → Nat → Option Nat)
    (Valid : β → Memory → Prop) (correct : D.Correct block Valid) (memory : Memory)
    (heap : KHeap β) (run : Relation.ReflTransGen (WordStep D) (kheapInit D memory) heap)
    (va : Nat) (upper : va < dynAllocEnd) :
    (∀ free, heap.kfree { D with freeBlock := free } va = .ok heap) ∧
      ∀ size, Valid heap.blocks heap.memory → block heap.blocks va = some size →
        ¬ heap.ReleasesBlock D va := by
  have kept : ∃ top, heap.PagesOnly top := by
    induction run with
    | refl => exact ⟨firstPage, PagesOnly.initial D memory⟩
    | tail _ step ih =>
        obtain ⟨top, kept⟩ := ih
        obtain ⟨top', kept', -⟩ := kept.step step
        exact ⟨top', kept'⟩
  obtain ⟨top, kept⟩ := kept
  have ignored : ∀ D : DynAllocator β, heap.kfree D va = .ok heap :=
    fun D => kept.kfree_block D (Nat.le_of_lt upper)
  refine ⟨fun free => ignored _, ?_⟩
  intro size valid live released
  rw [ReleasesBlock, ignored D] at released
  obtain ⟨⟨blocks, memory'⟩, freed, rest⟩ := bind_eq_ok.mp released.symm
  have same : heap.blocks = blocks := (congrArg KHeap.blocks (Except.ok.inj rest)).symm
  obtain ⟨-, -, gone, -⟩ := correct.free valid live freed
  have absent : block heap.blocks va = none := by
    rw [same, gone, Function.update_self]
  rw [live] at absent
  cases absent

/-- A block of 8 bytes that is allocated and freed stays live. -/
theorem not_releasesBlock_of_run_kmalloc : ∃ va, ∃ next : KHeap (List Nat),
    PageBlocks.blankHeap.kmalloc PageBlocks.allocator 8 = .ok (va, next) ∧
      PageBlocks.block next.blocks va = some dynAllocMaxBlockSize ∧
      next.kfree PageBlocks.allocator va = .ok next ∧
      ¬ next.ReleasesBlock PageBlocks.allocator va := by
  have completes : (PageBlocks.blankHeap.kmalloc PageBlocks.allocator 8).map
      (fun result => (result.1, result.2.blocks)) = .ok (heapVa 8191, [8191]) := by decide +kernel
  cases returned : PageBlocks.blankHeap.kmalloc PageBlocks.allocator 8 with
  | error halt =>
      rw [returned] at completes
      cases completes
  | ok result =>
      obtain ⟨va, next⟩ := result
      rw [returned] at completes
      obtain ⟨start, blocks⟩ := Prod.mk.inj (Except.ok.inj completes)
      obtain rfl : va = heapVa 8191 := start
      have live : PageBlocks.block next.blocks (heapVa 8191) = some dynAllocMaxBlockSize := by
        rw [show next.blocks = [8191] from blocks]
        decide
      have valid := PageBlocks.blankHeap_wellFormed.kmalloc_valid PageBlocks.correct
        PageBlocks.blankHeap_valid (by decide) returned
      have legal : PageBlocks.blankHeap.WordLegal (.kmalloc 8) := show 8 < 2 ^ 32 by decide
      have run : Relation.ReflTransGen (WordStep PageBlocks.allocator)
          (kheapInit PageBlocks.allocator FrameManager.blankBoot.memory) next :=
        .single ⟨_, _, legal, returned⟩
      obtain ⟨ignored, kept⟩ := not_releasesBlock_of_run PageBlocks.allocator PageBlocks.block
        PageBlocks.Valid PageBlocks.correct _ next run (heapVa 8191) (by decide)
      exact ⟨_, next, rfl, live, ignored PageBlocks.allocator.freeBlock, kept _ valid live⟩

/-- After `kmalloc` of 8 bytes and `kfree` of the pointer the block is still in use; `free_block`
would have released it. -/
theorem kfree_leaks_block :
    (do
      let (va, heap) ← PageBlocks.blankHeap.kmalloc PageBlocks.allocator 8
      let freed ← heap.kfree PageBlocks.allocator va
      let released ← heap.freeBlock PageBlocks.allocator va
      return (va, freed.blocks, released.blocks)) = Except.ok (heapVa 8191, [8191], []) := by
  decide +kernel

end KHeap

end FosKernel
