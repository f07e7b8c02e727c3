import FosKernel.Heap.Allocator

/-!
# The frames of the kernel heap

The present pages of the kernel heap hold different frames, and none of these
is free. So a byte of the heap changes only by a store to its own address:
mapping and unmapping other pages, and stores to other addresses, leave it
alone.
-/

namespace FosKernel

/-- Present heap pages hold different frames that are not on the free list. -/
structure OwnFrames (memory : Memory) : Prop where
  tables : KernelTables memory
  clean : ∀ index < kheapPagesCount, (heapEntry memory index).Clean
  distinct : ∀ first < kheapPagesCount, ∀ second < kheapPagesCount,
    (heapEntry memory first).present = true → (heapEntry memory second).present = true →
      (heapEntry memory first).frame = (heapEntry memory second).frame → first = second
  free : ∃ nodes, memory.freeFrameList.Represents nodes ∧ ∀ index < kheapPagesCount,
    (heapEntry memory index).present = true → (heapEntry memory index).frame ∉ nodes

/-- Bytes of the heap outside some consecutive pages are unchanged. -/
def SameOutside (before after : Memory) (index count : Nat) : Prop :=
  ∀ va, kernelHeapStart ≤ va → va < kernelHeapMax →
    ¬ (heapVa index ≤ va ∧ va < heapVa (index + count)) → SameByte before after va

variable {memory next : Memory} {index count : Nat}

/-- `decrement_references` puts at most its own frame on the free list. -/
theorem Memory.decrementReferences_free {frame : Nat} {nodes : List Nat}
    (represents : memory.freeFrameList.Represents nodes) (outside : frame ∉ nodes) :
    ∃ nodes', (memory.decrementReferences frame).freeFrameList.Represents nodes' ∧
      nodes' ⊆ frame :: nodes := by
  obtain ⟨nodes', represents', freed | kept⟩ :=
    Memory.decrementReferences_represents represents outside
  · exact ⟨nodes', represents', fun _ member => freed ▸ member⟩
  · exact ⟨nodes', represents', fun _ member => List.mem_cons_of_mem frame (kept ▸ member)⟩

namespace OwnFrames

theorem pages (frames : OwnFrames memory) : HeapPages memory :=
  ⟨frames.tables, fun index _ inside => frames.clean index inside⟩

/-- Ownership is a matter of page tables and the free list only. -/
theorem congr (frames : OwnFrames memory) (directories : next.directories = memory.directories)
    (tables : next.tables = memory.tables) (list : next.freeFrameList = memory.freeFrameList) :
    OwnFrames next := by
  have same : ∀ index, heapEntry next index = heapEntry memory index := by
    intro index
    rw [heapEntry, heapEntry, pageSlot_congr directories, tables]
  refine ⟨frames.tables.congr directories, ?_, ?_, ?_⟩
  · simp only [same]
    exact frames.clean
  · simp only [same]
    exact frames.distinct
  · simp only [same, list]
    exact frames.free

/-- `get_page` installs a frame that no page holds. -/
theorem getPage (frames : OwnFrames memory) (inside : index < kheapPagesCount)
    (mapped : getPage memory (heapVa index) = .ok next) : OwnFrames next := by
  have clean := frames.clean index inside
  obtain ⟨directories, -, cleanHere, -, same⟩ := getPage_spec frames.tables inside clean mapped
  rcases getPage_cases frames.tables inside clean mapped with
    ⟨-, rfl⟩ | ⟨-, frame, taken, took, rfl⟩
  · exact frames
  obtain ⟨nodes, represents, unfree⟩ := frames.free
  obtain ⟨rest, rfl, restRepresents, -⟩ := Memory.allocateFrame_cases represents took
  have holds : (heapEntry (taken.installFrame (pageSlot memory index) frame (heapVa index)
      permWriteable) index).frame = frame := by
    rw [heapEntry, pageSlot_congr directories, Memory.installFrame_tables, Function.update_self]
  -- a frame from the free list is no other page's frame
  have fresh : ∀ page < kheapPagesCount, (heapEntry memory page).present = true →
      (heapEntry memory page).frame ≠ frame := fun page below present equal =>
    unfree page below present (equal ▸ List.mem_cons_self)
  refine ⟨frames.tables.congr directories, ?_, ?_, ⟨rest, restRepresents, ?_⟩⟩
  · intro page below
    by_cases here : page = index
    · rw [here]
      exact cleanHere
    · rw [same page below here]
      exact frames.clean page below
  · intro first belowFirst second belowSecond presentFirst presentSecond equal
    by_cases hereFirst : first = index <;> by_cases hereSecond : second = index
    · exact hereFirst.trans hereSecond.symm
    · rw [same second belowSecond hereSecond] at presentSecond equal
      rw [hereFirst, holds] at equal
      exact absurd equal.symm (fresh second belowSecond presentSecond)
    · rw [same first belowFirst hereFirst] at presentFirst equal
      rw [hereSecond, holds] at equal
      exact absurd equal (fresh first belowFirst presentFirst)
    · rw [same first belowFirst hereFirst] at presentFirst equal
      rw [same second belowSecond hereSecond] at presentSecond equal
      exact frames.distinct first belowFirst second belowSecond presentFirst presentSecond equal
  · intro page below present
    by_cases here : page = index
    · rw [here, holds]
      exact (List.nodup_cons.mp represents.nodup).1
    · rw [same page below here] at present ⊢
      exact fun member => unfree page below present (List.mem_cons_of_mem frame member)

/-- `return_page` frees no frame that another page holds. -/
theorem returnPage (frames : OwnFrames memory) (inside : index < kheapPagesCount) :
    OwnFrames (returnPage memory (heapVa index)) := by
  have clean := frames.clean index inside
  obtain ⟨directories, -, cleanHere, absent, same⟩ :=
    returnPage_spec frames.tables inside clean
  have other : ∀ page < kheapPagesCount,
      (heapEntry (FosKernel.returnPage memory (heapVa index)) page).present = true →
        page ≠ index ∧ (heapEntry memory page).present = true := by
    intro page below present
    have different : page ≠ index := by
      rintro rfl
      rw [absent] at present
      cases present
    exact ⟨different, same page below different ▸ present⟩
  obtain ⟨nodes, represents, unfree⟩ := frames.free
  refine ⟨frames.tables.congr directories, ?_, ?_, ?_⟩
  · intro page below
    by_cases here : page = index
    · rw [here]
      exact cleanHere
    · rw [same page below here]
      exact frames.clean page below
  · intro first belowFirst second belowSecond presentFirst presentSecond equal
    obtain ⟨hereFirst, presentFirst⟩ := other first belowFirst presentFirst
    obtain ⟨hereSecond, presentSecond⟩ := other second belowSecond presentSecond
    rw [same first belowFirst hereFirst, same second belowSecond hereSecond] at equal
    exact frames.distinct first belowFirst second belowSecond presentFirst presentSecond equal
  · cases present : (heapEntry memory index).present with
    | false =>
        refine ⟨nodes, ?_, ?_⟩
        · rw [FosKernel.returnPage, roundDown_heapVa,
            Memory.unmapFrame_of_not_holdsFrame (frames.tables.slot_eq inside)]
          · exact represents
          · rw [← heapEntry, clean.holdsFrame, present]
        · intro page below present'
          obtain ⟨here, present'⟩ := other page below present'
          rw [same page below here]
          exact unfree page below present'
    | true =>
        obtain ⟨nodes', represents', subset⟩ :=
          Memory.decrementReferences_free represents (unfree index inside present)
        refine ⟨nodes', ?_, ?_⟩
        · rw [FosKernel.returnPage, roundDown_heapVa,
            Memory.unmapFrame_of_holdsFrame (frames.tables.slot_eq inside)]
          · exact represents'
          · rw [← heapEntry, clean.holdsFrame, present]
        · intro page below present'
          obtain ⟨here, present'⟩ := other page below present'
          rw [same page below here]
          intro member
          rcases List.mem_cons.mp (subset member) with equal | member
          · exact here (frames.distinct page below index inside present' present equal)
          · exact unfree page below present' member

theorem getPages (frames : OwnFrames memory) (upper : index + count ≤ kheapPagesCount)
    (mapped : getPages memory (heapVa index) count = .ok next) : OwnFrames next := by
  induction count generalizing memory index with
  | zero =>
      obtain rfl := Except.ok.inj mapped
      exact frames
  | succ count ih =>
      obtain ⟨middle, first, rest⟩ := bind_eq_ok.mp mapped
      rw [add32_heapVa_one (by omega)] at rest
      exact ih (frames.getPage (by omega) first) (by omega) rest

theorem returnPages (frames : OwnFrames memory) (upper : index + count ≤ kheapPagesCount) :
    OwnFrames (returnPages memory (heapVa index) count) := by
  induction count generalizing memory index with
  | zero => exact frames
  | succ count ih =>
      rw [FosKernel.returnPages, add32_heapVa_one (by omega)]
      exact ih (frames.returnPage (by omega)) (by omega)

/-- A heap address is the only one that its frame and offset belong to. -/
theorem translate_inj (frames : OwnFrames memory) {va va' : Nat} {place : Nat × Nat}
    (lower : kernelHeapStart ≤ va) (upper : va < kernelHeapMax) (lower' : kernelHeapStart ≤ va')
    (upper' : va' < kernelHeapMax) (translated : memory.translate kernelDirectory va = some place)
    (translated' : memory.translate kernelDirectory va' = some place) : va = va' := by
  obtain ⟨lies, inside⟩ := roundDown_eq_heapVa lower upper
  obtain ⟨lies', inside'⟩ := roundDown_eq_heapVa lower' upper'
  rw [frames.tables.translate_eq lies inside] at translated
  rw [frames.tables.translate_eq lies' inside'] at translated'
  split at translated
  · split at translated'
    · rename_i present present'
      obtain ⟨frame, offset⟩ :=
        Prod.mk.inj (Option.some.inj (translated.trans translated'.symm))
      have page := frames.distinct _ inside _ inside' present present' frame
      rw [page] at lies
      have start := lies.trans lies'.symm
      simp only [roundDown, pgoff, pageSize] at start offset
      omega
    · cases translated'
  · cases translated

/-- A store to a mapped heap address changes the byte at this address only. -/
theorem readByte_store (frames : OwnFrames memory) {va va' frame offset : Nat}
    (lower : kernelHeapStart ≤ va) (upper : va < kernelHeapMax) (lower' : kernelHeapStart ≤ va')
    (upper' : va' < kernelHeapMax)
    (translated : memory.translate kernelDirectory va = some (frame, offset)) (value : UInt8) :
    ({ memory with
      bytes := Function.update memory.bytes frame
        (Function.update (memory.bytes frame) offset value) } : Memory).readByte
          kernelDirectory va' =
      if va' = va then value else memory.readByte kernelDirectory va' := by
  have kept : ({ memory with
      bytes := Function.update memory.bytes frame
        (Function.update (memory.bytes frame) offset value) } : Memory).translate
          kernelDirectory va' =
      memory.translate kernelDirectory va' := Memory.translate_congr rfl rfl ..
  rw [Memory.readByte, kept, Memory.readByte]
  by_cases here : va' = va
  · rw [here, translated, if_pos rfl]
    simp only [Function.update_self]
  · rw [if_neg here]
    cases place : memory.translate kernelDirectory va' with
    | none => rfl
    | some place' =>
        obtain ⟨frame', offset'⟩ := place'
        by_cases sameFrame : frame' = frame
        · have different : offset' ≠ offset := by
            rintro rfl
            rw [sameFrame] at place
            exact here (frames.translate_inj lower' upper' lower upper place translated)
          simp only [sameFrame, Function.update_self, Function.update_of_ne different]
        · simp only [Function.update_of_ne sameFrame]

/-- `memcpy` between disjoint ranges of the heap copies the source to the destination and
changes nothing else. -/
theorem memcpy_contents (frames : OwnFrames memory) {dst src va : Nat}
    (lowerDst : kernelHeapStart ≤ dst) (upperDst : dst + count ≤ kernelHeapMax)
    (lowerSrc : kernelHeapStart ≤ src) (upperSrc : src + count ≤ kernelHeapMax)
    (apart : dst + count ≤ src ∨ src + count ≤ dst)
    (copied : memory.memcpy kernelDirectory dst src count = some next)
    (lower : kernelHeapStart ≤ va) (upper : va < kernelHeapMax) :
    next.readByte kernelDirectory va =
      if dst ≤ va ∧ va < dst + count then memory.readByte kernelDirectory (src + (va - dst))
      else memory.readByte kernelDirectory va := by
  induction count generalizing next va with
  | zero =>
      obtain rfl := Option.some.inj copied
      rw [if_neg fun range => Nat.not_lt.mpr range.1 range.2]
  | succ count ih =>
      obtain ⟨before, copied, last⟩ := Option.bind_eq_some_iff.mp copied
      have word : kernelHeapMax < 2 ^ 32 := by decide
      have dstEq : add32 dst count = dst + count := Nat.mod_eq_of_lt (by omega)
      have srcEq : add32 src count = src + count := Nat.mod_eq_of_lt (by omega)
      have sofar : ∀ va, kernelHeapStart ≤ va → va < kernelHeapMax →
          before.readByte kernelDirectory va =
            if dst ≤ va ∧ va < dst + count then
              memory.readByte kernelDirectory (src + (va - dst))
            else memory.readByte kernelDirectory va :=
        fun va lower upper => ih (by omega) (by omega) (by omega) copied lower upper
      obtain ⟨bytes, rfl⟩ := Memory.memcpy_spec copied
      have frames' : OwnFrames { memory with bytes := bytes } := frames.congr rfl rfl rfl
      rw [Memory.copyByte, dstEq, srcEq] at last
      split at last
      · rename_i source sourceOffset frame offset sourcePlace place
        obtain rfl := Option.some.inj last
        rw [frames'.readByte_store (by omega) (by omega) lower upper place]
        by_cases here : va = dst + count
        · have stored : ({ memory with bytes := bytes } : Memory).readByte kernelDirectory
              (src + count) = bytes source sourceOffset := by
            rw [Memory.readByte, sourcePlace]
          have within : dst ≤ va ∧ va < dst + (count + 1) := by omega
          have untouched : ¬ (dst ≤ src + count ∧ src + count < dst + count) := by omega
          rw [if_pos here, if_pos within, show src + (va - dst) = src + count by omega]
          rw [sofar (src + count) (by omega) (by omega), if_neg untouched] at stored
          exact stored.symm
        · have range : (dst ≤ va ∧ va < dst + count) ↔
              (dst ≤ va ∧ va < dst + (count + 1)) := by
            omega
          rw [if_neg here, sofar va lower upper]
          simp only [range]
      · cases last

end OwnFrames

end FosKernel
