import FosKernel.Heap.Allocator
import FosKernel.Mem.References

/-!
# A dynamic allocator with one block a page

An instance of the dynamic allocator: every block takes the start of a page of
its own, and the free page with the highest index is taken first. It is a correct
dynamic allocator.
-/

namespace FosKernel

namespace PageBlocks

/-- The highest page below a bound that no block uses. -/
def freePage (live : List Nat) : Nat → Option Nat
  | 0 => none
  | bound + 1 => if bound ∈ live then freePage live bound else some bound

/-- A dynamic allocator whose state is the list of the pages of its blocks. -/
def allocator : DynAllocator (List Nat) where
  initializeDynamicAllocator memory := ([], memory)
  allocBlock _ := fun (live, memory) =>
    match freePage live blockPages with
    | none => .ok (0, live, memory)
    | some index => do
        let memory ← getPage memory (heapVa index)
        return (heapVa index, index :: live, memory)
  freeBlock va := fun (live, memory) =>
    let index := kvaToIndex va
    if index < blockPages ∧ index ∈ live then
      .ok (live.erase index, returnPage memory (heapVa index))
    else .ok (live, memory)
  reallocBlock va _ := fun (live, memory) => .ok (va, live, memory)
  getBlockSize _ _ := dynAllocMaxBlockSize

theorem freePage_lt {live : List Nat} {bound index : Nat}
    (found : freePage live bound = some index) : index < bound ∧ index ∉ live := by
  induction bound with
  | zero => cases found
  | succ bound ih =>
      rw [freePage] at found
      split at found
      · obtain ⟨below, unused⟩ := ih found
        exact ⟨Nat.lt_succ_of_lt below, unused⟩
      · rename_i unused
        obtain rfl := Option.some.inj found
        exact ⟨Nat.lt_succ_self bound, unused⟩

end PageBlocks

/-- All directories of a blank machine share its page tables. -/
theorem blank_slot_eq (numberOfFrames directory va : Nat) :
    (Memory.blank.initializePaging physExtendedMemFrame numberOfFrames).slot directory va =
      some (pdx va, ptx va) := by
  obtain ⟨-, -, -, directories, -⟩ := Memory.initializePaging_spec Memory.blank numberOfFrames
    (Nat.le_refl physExtendedMemFrame)
  rw [Memory.slot_congr directories]
  rfl

/-- The page tables of a blank machine exist, and none of its heap pages is mapped. -/
theorem blank_kernelTables (numberOfFrames : Nat) :
    KernelTables (Memory.blank.initializePaging physExtendedMemFrame numberOfFrames) ∧
      ∀ index, heapEntry (Memory.blank.initializePaging physExtendedMemFrame numberOfFrames)
        index = .zero := by
  obtain ⟨-, -, tables, -⟩ := Memory.initializePaging_spec Memory.blank numberOfFrames
    (Nat.le_refl physExtendedMemFrame)
  refine ⟨⟨fun index _ => ⟨_, blank_slot_eq ..⟩, ?_⟩, ?_⟩
  · intro first boundFirst second boundSecond same
    have limit : kheapPagesCount = 40959 := by decide
    rw [blank_slot_eq, blank_slot_eq, Option.some.injEq, Prod.mk.injEq] at same
    simp only [pdx, ptx, heapVa, kernelHeapStart, pageSize] at same
    omega
  · intro index
    rw [heapEntry, tables]
    rfl

theorem blankBoot_slot_eq (directory va : Nat) :
    FrameManager.blankBoot.memory.slot directory va = some (pdx va, ptx va) :=
  blank_slot_eq 257 directory va

theorem blankBoot_kernelTables : KernelTables FrameManager.blankBoot.memory ∧
    ∀ index, heapEntry FrameManager.blankBoot.memory index = .zero :=
  blank_kernelTables 257

/-- The heap's entries of a blank machine are not those of user pages. -/
theorem blankBoot_pageSlot_ne (index : Nat) {va : Nat} (inside : index < kheapPagesCount)
    (lower : va < userTop) :
    pageSlot FrameManager.blankBoot.memory index ≠ (pdx va, ptx va) := by
  have limit : kheapPagesCount = 40959 := by decide
  rw [pageSlot, blankBoot_slot_eq, Option.getD_some]
  simp only [ne_eq, Prod.mk.injEq, pdx, heapVa, kernelHeapStart, userTop, pageSize] at *
  omega

/-- The allocator maps and unmaps only its own pages. -/
theorem PageBlocks.confined : allocator.Confined where
  initial := OnlyBlockPages.refl
  alloc := by
    intro size live memory va live' memory' allocated
    simp only [allocator] at allocated
    split at allocated
    · obtain ⟨-, rest⟩ := Prod.mk.inj (Except.ok.inj allocated)
      obtain ⟨-, rfl⟩ := Prod.mk.inj rest
      exact OnlyBlockPages.refl memory
    · rename_i found
      obtain ⟨mapped, page, rest⟩ := bind_eq_ok.mp allocated
      obtain ⟨-, rest⟩ := Prod.mk.inj (Except.ok.inj rest)
      obtain ⟨-, rfl⟩ := Prod.mk.inj rest
      exact OnlyBlockPages.getPage (freePage_lt found).1 page
  free := by
    intro va live memory live' memory' freed
    simp only [allocator] at freed
    split at freed
    · rename_i live
      obtain ⟨-, rfl⟩ := Prod.mk.inj (Except.ok.inj freed)
      exact OnlyBlockPages.returnPage memory live.1
    · obtain ⟨-, rfl⟩ := Prod.mk.inj (Except.ok.inj freed)
      exact OnlyBlockPages.refl memory
  realloc := by
    intro va size live memory va' live' memory' moved
    obtain ⟨-, rest⟩ := Prod.mk.inj (Except.ok.inj moved)
    obtain ⟨-, rfl⟩ := Prod.mk.inj rest
    exact OnlyBlockPages.refl memory

namespace PageBlocks

/-- The live blocks: one at the start of every page in use. -/
def block (live : List Nat) (va : Nat) : Option Nat :=
  if kvaToIndex va ∈ live ∧ va = heapVa (kvaToIndex va) then some dynAllocMaxBlockSize else none

/-- The pages in use are different, mapped pages of the dynamic allocator. -/
structure Valid (live : List Nat) (memory : Memory) : Prop where
  tables : KernelTables memory
  clean : ∀ index < blockPages, (heapEntry memory index).Clean
  inside : ∀ index ∈ live, index < blockPages
  present : ∀ index ∈ live, (heapEntry memory index).present = true
  nodup : live.Nodup

variable {live : List Nat} {memory next : Memory} {index va size : Nat}

theorem block_eq_some (inside : ∀ index ∈ live, index < blockPages) :
    block live va = some size ↔
      size = dynAllocMaxBlockSize ∧ ∃ index ∈ live, va = heapVa index := by
  have limit : blockPages ≤ kheapPagesCount := by decide
  rw [block]
  constructor
  · intro found
    split at found
    · rename_i page
      exact ⟨(Option.some.inj found).symm, _, page.1, page.2⟩
    · cases found
  · intro ⟨sized, index, member, start⟩
    have same := kvaToIndex_heapVa (Nat.le_trans (Nat.le_of_lt (inside index member)) limit)
    rw [start, same, if_pos ⟨member, rfl⟩, sized]

theorem block_cons (inside : index < blockPages) :
    block (index :: live) =
      Function.update (block live) (heapVa index) (some dynAllocMaxBlockSize) := by
  have limit : blockPages ≤ kheapPagesCount := by decide
  have same := kvaToIndex_heapVa (Nat.le_trans (Nat.le_of_lt inside) limit)
  funext va
  by_cases here : va = heapVa index
  · rw [here, Function.update_self, block, same, if_pos ⟨List.mem_cons_self, rfl⟩]
  · rw [Function.update_of_ne here, block, block]
    apply if_congr _ rfl rfl
    apply and_congr_left
    intro start
    have other : kvaToIndex va ≠ index := fun equal => here (equal ▸ start)
    rw [List.mem_cons, or_iff_right other]

theorem block_erase (nodup : live.Nodup) (inside : index < blockPages) :
    block (live.erase index) = Function.update (block live) (heapVa index) none := by
  have limit : blockPages ≤ kheapPagesCount := by decide
  have same := kvaToIndex_heapVa (Nat.le_trans (Nat.le_of_lt inside) limit)
  funext va
  rw [block]
  simp only [nodup.mem_erase_iff]
  by_cases here : va = heapVa index
  · rw [here, Function.update_self, same, if_neg fun page => page.1.1 rfl]
  · rw [Function.update_of_ne here, block]
    apply if_congr _ rfl rfl
    apply and_congr_left
    intro start
    have other : kvaToIndex va ≠ index := fun equal => here (equal ▸ start)
    rw [and_iff_right other]

/-- An address of a live block lies in the block's page. -/
theorem block_page (index : Nat) {offset : Nat} (less : offset < dynAllocMaxBlockSize) :
    roundDown (heapVa index + offset) pageSize = heapVa index := by
  simp only [roundDown, heapVa, kernelHeapStart, pageSize, dynAllocMaxBlockSize] at *
  omega

/-- A block keeps its contents when its page keeps its entry and the frames theirs. -/
theorem sameBlock (tables : KernelTables memory)
    (directories : next.directories = memory.directories) (bytes : next.bytes = memory.bytes)
    (inside : index < blockPages) (same : heapEntry next index = heapEntry memory index) :
    SameBlock memory next (heapVa index) dynAllocMaxBlockSize := by
  have limit : blockPages ≤ kheapPagesCount := by decide
  have bound := Nat.lt_of_lt_of_le inside limit
  intro offset less
  exact .of_entry tables (tables.congr directories) (block_page index less) bound same bytes

/-- Allocating a block takes a page that no block uses. -/
theorem allocBlock_cases {live' : List Nat}
    (returned : allocator.allocBlock size (live, memory) = .ok (va, live', next)) :
    va = 0 ∧ live' = live ∧ next = memory ∨
      ∃ index, index < blockPages ∧ index ∉ live ∧ va = heapVa index ∧
        live' = index :: live ∧
        getPage memory (heapVa index) = .ok next := by
  simp only [allocator] at returned
  split at returned
  · obtain ⟨null, rest⟩ := Prod.mk.inj (Except.ok.inj returned)
    obtain ⟨same, kept⟩ := Prod.mk.inj rest
    exact .inl ⟨null.symm, same.symm, kept.symm⟩
  · rename_i index found
    obtain ⟨mapped, page, rest⟩ := bind_eq_ok.mp returned
    obtain ⟨start, rest⟩ := Prod.mk.inj (Except.ok.inj rest)
    obtain ⟨used, rfl⟩ := Prod.mk.inj rest
    obtain ⟨inside, unused⟩ := freePage_lt found
    exact .inr ⟨index, inside, unused, start.symm, used.symm, page⟩

/-- Freeing a live block unmaps its page. -/
theorem freeBlock_eq (valid : Valid live memory) (member : index ∈ live) :
    allocator.freeBlock (heapVa index) (live, memory) =
      .ok (live.erase index, returnPage memory (heapVa index)) := by
  have limit : blockPages ≤ kheapPagesCount := by decide
  have inside := valid.inside index member
  simp only [allocator, kvaToIndex_heapVa (Nat.le_trans (Nat.le_of_lt inside) limit),
    if_pos (And.intro inside member)]

theorem Valid.alloc (valid : Valid live memory) (inside : index < blockPages)
    (unused : index ∉ live) (mapped : getPage memory (heapVa index) = .ok next) :
    Valid (index :: live) next := by
  have limit : blockPages ≤ kheapPagesCount := by decide
  have bound := Nat.lt_of_lt_of_le inside limit
  obtain ⟨directories, -, clean, present, same⟩ :=
    getPage_spec valid.tables bound (valid.clean index inside) mapped
  refine ⟨valid.tables.congr directories, ?_, ?_, ?_,
    List.nodup_cons.mpr ⟨unused, valid.nodup⟩⟩
  · intro page below
    by_cases here : page = index
    · rw [here]
      exact clean
    · rw [same page (Nat.lt_of_lt_of_le below limit) here]
      exact valid.clean page below
  · intro page member
    obtain rfl | member := List.mem_cons.mp member
    · exact inside
    · exact valid.inside page member
  · intro page member
    obtain rfl | member := List.mem_cons.mp member
    · exact present
    · have here : page ≠ index := fun equal => unused (equal ▸ member)
      rw [same page (Nat.lt_of_lt_of_le (valid.inside page member) limit) here]
      exact valid.present page member

theorem Valid.free (valid : Valid live memory) (member : index ∈ live) :
    Valid (live.erase index) (returnPage memory (heapVa index)) := by
  have limit : blockPages ≤ kheapPagesCount := by decide
  have inside := valid.inside index member
  have bound := Nat.lt_of_lt_of_le inside limit
  obtain ⟨directories, -, clean, -, same⟩ :=
    returnPage_spec valid.tables bound (valid.clean index inside)
  refine ⟨valid.tables.congr directories, ?_, ?_, ?_, valid.nodup.erase index⟩
  · intro page below
    by_cases here : page = index
    · rw [here]
      exact clean
    · rw [same page (Nat.lt_of_lt_of_le below limit) here]
      exact valid.clean page below
  · intro page other
    exact valid.inside page (List.mem_of_mem_erase other)
  · intro page other
    obtain ⟨different, member⟩ := valid.nodup.mem_erase_iff.mp other
    rw [same page (Nat.lt_of_lt_of_le (valid.inside page member) limit) different]
    exact valid.present page member

/-- The allocator is a correct dynamic allocator. -/
theorem correct : allocator.Correct block Valid where
  confined := confined
  initial memory tables clean :=
    ⟨.refl, ⟨tables, clean, nofun, nofun, List.nodup_nil⟩, fun _ => if_neg fun page =>
      nomatch page.1⟩
  inside := by
    intro live memory va size valid found
    obtain ⟨rfl, index, member, rfl⟩ := (block_eq_some valid.inside).mp found
    have inside := valid.inside index member
    have limit : dynAllocEnd = heapVa blockPages := by decide
    simp only [limit, heapVa, pageSize, dynAllocMaxBlockSize] at *
    omega
  bounded := fun valid found => Nat.le_of_eq ((block_eq_some valid.inside).mp found).1
  mapped := by
    intro live memory va size valid found offset less
    obtain ⟨rfl, index, member, rfl⟩ := (block_eq_some valid.inside).mp found
    have limit : blockPages ≤ kheapPagesCount := by decide
    have inside := valid.inside index member
    rw [valid.tables.translate_isSome (block_page _ less) (Nat.lt_of_lt_of_le inside limit)]
    exact valid.present index member
  apart := by
    intro live memory first second size size' valid different found found'
    obtain ⟨rfl, index, member, rfl⟩ := (block_eq_some valid.inside).mp found
    obtain ⟨rfl, index', member', rfl⟩ := (block_eq_some valid.inside).mp found'
    have distinct : index ≠ index' := fun same => different (same ▸ rfl)
    simp only [heapVa, pageSize, dynAllocMaxBlockSize]
    omega
  stable := by
    intro live memory memory' valid tables same _
    refine ⟨tables, ?_, valid.inside, ?_, valid.nodup⟩
    · intro index below
      rw [same index below]
      exact valid.clean index below
    · intro index member
      rw [same index (valid.inside index member)]
      exact valid.present index member
  alloc := by
    intro size live memory va live' memory' valid _ small returned
    obtain same | ⟨index, inside, unused, rfl, rfl, page⟩ := allocBlock_cases returned
    · exact .inl same
    · have limit : blockPages ≤ kheapPagesCount := by decide
      obtain ⟨directories, bytes, -, -, same⟩ := getPage_spec valid.tables
        (Nat.lt_of_lt_of_le inside limit) (valid.clean index inside) page
      refine .inr ⟨heapVa_ne_zero index, .single (.getPage inside page),
        valid.alloc inside unused page, ?_, ⟨_, small, block_cons inside⟩, ?_⟩
      · by_contra taken
        obtain ⟨size, found⟩ := Option.ne_none_iff_exists'.mp taken
        obtain ⟨-, other, member, start⟩ := (block_eq_some valid.inside).mp found
        exact unused (heapVa_inj.mp start ▸ member)
      · intro other size found
        obtain ⟨rfl, page, member, rfl⟩ := (block_eq_some valid.inside).mp found
        have below := valid.inside page member
        exact sameBlock valid.tables directories bytes below
          (same page (Nat.lt_of_lt_of_le below limit) fun equal => unused (equal ▸ member))
  alloc_halt := by
    intro size state halt stopped
    simp only [allocator] at stopped
    split at stopped
    · cases stopped
    · obtain first | ⟨_, -, rest⟩ := bind_eq_error.mp stopped
      · exact getPage_halt first
      · cases rest
  free := by
    intro live memory va size live' memory' valid found returned
    obtain ⟨rfl, index, member, rfl⟩ := (block_eq_some valid.inside).mp found
    rw [freeBlock_eq valid member] at returned
    obtain ⟨rfl, rfl⟩ := Prod.mk.inj (Except.ok.inj returned)
    have limit : blockPages ≤ kheapPagesCount := by decide
    have inside := valid.inside index member
    obtain ⟨directories, bytes, -, -, same⟩ := returnPage_spec valid.tables
      (Nat.lt_of_lt_of_le inside limit) (valid.clean index inside)
    refine ⟨.single (.returnPage inside), valid.free member, block_erase valid.nodup inside, ?_⟩
    intro other size different found'
    obtain ⟨rfl, page, member', rfl⟩ := (block_eq_some valid.inside).mp found'
    have below := valid.inside page member'
    exact sameBlock valid.tables directories bytes below
      (same page (Nat.lt_of_lt_of_le below limit) fun equal => different (equal ▸ rfl))
  realloc := by
    intro live memory va size newSize va' live' memory' valid found _ small returned
    obtain ⟨rfl, rest⟩ := Prod.mk.inj (Except.ok.inj returned)
    obtain ⟨rfl, rfl⟩ := Prod.mk.inj rest
    obtain ⟨rfl, index, member, rfl⟩ := (block_eq_some valid.inside).mp found
    refine .inr ⟨heapVa_ne_zero index, .refl, valid, .inl rfl, ⟨_, small, ?_⟩, fun _ _ => rfl,
      fun _ _ _ _ _ _ => rfl⟩
    rw [Function.update_idem, ← found, Function.update_eq_self]
  getBlockSize := by
    intro live memory va size valid found
    exact ((block_eq_some valid.inside).mp found).1.symm

/-- The kernel heap of a blank machine. -/
def blankHeap : KHeap (List Nat) := KHeap.kheapInit allocator FrameManager.blankBoot.memory

theorem blankHeap_valid : Valid blankHeap.blocks blankHeap.memory := by
  obtain ⟨tables, unmapped⟩ := blankBoot_kernelTables
  refine (correct.initial _ tables fun index _ => ?_).2.1
  rw [unmapped index]
  exact ⟨by decide, fun _ => rfl⟩

end PageBlocks

end FosKernel
