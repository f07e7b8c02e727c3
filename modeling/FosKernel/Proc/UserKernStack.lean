import FosKernel.Heap.Consistency
import FosKernel.Heap.HeapFrames

/-!
# The kernel stack of a user environment

`create_user_kern_stack`: a block of the kernel heap whose bottom page loses its
present bit, followed by a loop that maps new frames. The loop adds a page to the
address before it maps the first frame, after the bottom page was skipped
already, and maps one frame for every page of the block, so it starts one page
too late and ends two pages behind the block.
-/

namespace FosKernel

/-- `KERNEL_STACK_SIZE`. -/
def kernelStackSize : Nat := 8 * pageSize

namespace KHeap

variable {β : Type}

/-- `create_page_table`: a page of the kernel heap becomes a page table, which is named by
`tableAt` for its address. -/
def createPageTable (D : DynAllocator β) (tableAt : Nat → Nat) (heap : KHeap β)
    (directory va : Nat) : Except Halt (KHeap β) := do
  let (pageTable, heap) ← heap.kmalloc D pageSize
  if pageTable = 0 then throw .panic
  else
    return { heap with memory := heap.memory.linkTable directory va (tableAt pageTable) }

/-- The first part of `map_frame`: the page table is created where there is none. -/
def ensurePageTable (D : DynAllocator β) (tableAt : Nat → Nat) (heap : KHeap β)
    (directory va : Nat) : Except Halt (KHeap β) :=
  match heap.memory.slot directory va with
  | some _ => .ok heap
  | none => heap.createPageTable D tableAt directory va

/-- `map_frame`. -/
def mapFrame (D : DynAllocator β) (tableAt : Nat → Nat) (heap : KHeap β)
    (directory frame va : Nat) (perm : Perm) : Except Halt (KHeap β) := do
  let heap ← heap.ensurePageTable D tableAt directory va
  match heap.memory.mapFrame directory frame va perm with
  | none => throw .panic
  | some memory => return { heap with memory := memory }

/-- One round of the loop of `create_user_kern_stack`. -/
def mapStackPage (D : DynAllocator β) (tableAt : Nat → Nat) (heap : KHeap β)
    (directory stackAllocVa : Nat) : Except Halt (KHeap β) :=
  match heap.memory.allocateFrame with
  | none => .error .panic
  | some (frame, memory) =>
      ({ heap with memory := memory } : KHeap β).mapFrame D tableAt directory frame stackAllocVa
        (permWriteable ||| permUser ||| permPresent)

/-- The loop of `create_user_kern_stack`. -/
def mapStackPages (D : DynAllocator β) (tableAt : Nat → Nat) (heap : KHeap β)
    (directory stackAllocVa : Nat) : Nat → Except Halt (KHeap β)
  | 0 => .ok heap
  | count + 1 => do
      let stackAllocVa := add32 stackAllocVa pageSize
      let heap ← heap.mapStackPage D tableAt directory stackAllocVa
      heap.mapStackPages D tableAt directory stackAllocVa count

/-- `create_user_kern_stack`. -/
def createUserKernStack (D : DynAllocator β) (tableAt : Nat → Nat) (heap : KHeap β)
    (directory : Nat) : Except Halt (Nat × KHeap β) := do
  let (bottomVa, heap) ← heap.kmalloc D kernelStackSize
  match heap.memory.ptSetPagePermissions directory bottomVa 0 permPresent with
  | none => throw .panic
  | some memory =>
      let heap ← ({ heap with memory := memory } : KHeap β).mapStackPages D tableAt directory
        (add32 bottomVa pageSize) (kernelStackSize / pageSize)
      return (bottomVa, heap)

/-- A kernel stack with its guard page: the bottom page is not present, the others are present,
writeable and closed to the user, and nothing else changed. -/
structure GuardedStack (heap next : KHeap β) (directory bottomVa : Nat) : Prop where
  guard : ∃ entry, next.memory.entry directory bottomVa = some entry ∧ entry.present = false
  stack : ∀ page, 1 ≤ page → page < kernelStackSize / pageSize →
    ∃ entry, next.memory.entry directory (bottomVa + page * pageSize) = some entry ∧
      entry.present = true ∧ Perm.has entry.perm permWriteable = true ∧
      Perm.has entry.perm permUser = false
  frame : ∀ directory' va, va < 2 ^ 32 →
    ¬ (bottomVa ≤ va ∧ va < bottomVa + kernelStackSize) →
    next.memory.entry directory' va = heap.memory.entry directory' va

/-- The call returns a guarded kernel stack. -/
def CreatesGuardedStack (D : DynAllocator β) (tableAt : Nat → Nat) (heap : KHeap β)
    (directory : Nat) : Prop :=
  ∃ bottomVa next, heap.createUserKernStack D tableAt directory = .ok (bottomVa, next) ∧
    heap.GuardedStack next directory bottomVa

/-- Free frames are in no present page. -/
structure FreeApart (memory : Memory) (free : List Nat) : Prop where
  represents : memory.freeFrameList.Represents free
  apart : ∀ slot, (memory.tables slot).present = true → (memory.tables slot).frame ∉ free

/-- The directory of an environment uses every page table once, and shares those of the kernel
heap. -/
structure SharesHeap (memory : Memory) (directory : Nat) : Prop where
  separate : ∀ first second table, memory.directories directory first = some table →
    memory.directories directory second = some table → first = second
  shared : ∀ index < kheapPagesCount,
    memory.getPageTable directory (heapVa index) =
      memory.getPageTable kernelDirectory (heapVa index)

variable {heap next : KHeap β} {memory after : Memory} {D : DynAllocator β}
  {tableAt : Nat → Nat}
  {directory frame va index count top : Nat} {free : List Nat} {slot : Slot}

/-- Pages with different numbers have different entries. -/
theorem SharesHeap.slot_ne (shares : SharesHeap memory directory) {va' : Nat}
    (bound : va < 2 ^ 32) (bound' : va' < 2 ^ 32) (different : vpn va ≠ vpn va')
    (located : memory.slot directory va = some slot) : memory.slot directory va' ≠ some slot := by
  intro located'
  obtain ⟨table, held, same⟩ := Option.map_eq_some_iff.mp located
  obtain ⟨table', held', same'⟩ := Option.map_eq_some_iff.mp located'
  rw [← same] at same'
  obtain ⟨tables, indices⟩ := Prod.mk.inj same'
  subst tables
  have regions := shares.separate _ _ _ held held'
  unfold pdx at regions
  unfold ptx at indices
  unfold vpn pageSize at different
  omega

/-- Mapping a frame writes one entry. -/
theorem tables_of_mapFrame {perm : Perm} (mapped :
    memory.mapFrame directory frame va perm = some after) :
    after.directories = memory.directories ∧
      ∀ other, memory.slot directory va ≠ some other →
          after.tables other = memory.tables other := by
  obtain ⟨slot, located, alternatives⟩ := Memory.mapFrame_cases mapped
  have apart : ∀ other, memory.slot directory va ≠ some other → other ≠ slot :=
    fun other different same => different (same ▸ located)
  obtain ⟨-, -, rfl⟩ | ⟨-, -, rfl⟩ | ⟨-, rfl⟩ := alternatives
  · exact ⟨rfl, fun _ _ => rfl⟩
  · refine ⟨Memory.unmapFrame_directories .., fun other different => ?_⟩
    rw [Memory.installFrame_tables, Function.update_of_ne (apart other different),
      Memory.unmapFrame_tables located, Function.update_of_ne (apart other different)]
  · refine ⟨rfl, fun other different => ?_⟩
    rw [Memory.installFrame_tables, Function.update_of_ne (apart other different)]

/-- Mapping a free frame at a present page gives the page the new permissions. -/
theorem perm_of_mapFrame {perm : Perm} (located : memory.slot directory va = some slot)
    (other : (memory.tables slot).present = true → (memory.tables slot).frame ≠ frame)
    (mapped : memory.mapFrame directory frame va perm = some after) {mask : Perm}
    (set : Perm.has perm mask = true) : Perm.has (after.tables slot).perm mask = true := by
  obtain ⟨slot', located', alternatives⟩ := Memory.mapFrame_cases mapped
  obtain rfl : slot' = slot := Option.some.inj (located'.symm.trans located)
  obtain ⟨present, same, -⟩ | ⟨-, -, rfl⟩ | ⟨-, rfl⟩ := alternatives
  · exact absurd same (other present)
  · rw [Memory.installFrame_tables, Function.update_self]
    simp only [Perm.has_or, set, Bool.or_true, Bool.true_or]
  · rw [Memory.installFrame_tables, Function.update_self]
    simp only [Perm.has_or, set, Bool.or_true, Bool.true_or]

/-- Mapping heap pages that are absent keeps the free frames apart. -/
theorem FreeApart.getPages (pages : HeapPages memory) (apart : FreeApart memory free)
    (lower : firstPage ≤ index) (upper : index + count ≤ kheapPagesCount)
    (mapped : getPages memory (heapVa index) count = .ok after) :
    (∃ rest, FreeApart after rest) ∧ after.directories = memory.directories := by
  induction count generalizing memory index free with
  | zero =>
      obtain rfl := Except.ok.inj mapped
      exact ⟨⟨free, apart⟩, rfl⟩
  | succ count ih =>
      obtain ⟨middle, first, rest⟩ := bind_eq_ok.mp mapped
      rw [add32_heapVa_one (by omega)] at rest
      have pages' := (getPage_pages pages lower (by omega) first).1
      have clean := pages.clean index lower (by omega)
      obtain ⟨-, rfl⟩ | ⟨absent, frame, taken, took, rfl⟩ :=
        getPage_cases pages.tables (by omega) clean first
      · exact ih pages' apart (by omega) (by omega) rest
      · obtain ⟨others, rfl, represents, -⟩ := Memory.allocateFrame_cases apart.represents took
        obtain ⟨tables, directories, -⟩ := Memory.allocateFrame_spec took
        have nodup := List.nodup_cons.mp apart.represents.nodup
        have apart' : FreeApart (taken.installFrame (pageSlot memory index) frame (heapVa index)
            permWriteable) others := by
          refine ⟨represents, fun slot present => ?_⟩
          rw [Memory.installFrame_tables] at present ⊢
          by_cases same : slot = pageSlot memory index
          · rw [same, Function.update_self]
            exact nodup.1
          · rw [Function.update_of_ne same, tables] at present ⊢
            exact fun inside => apart.apart slot present (List.mem_cons_of_mem _ inside)
        obtain ⟨kept, directories'⟩ := ih pages' apart' (by omega) (by omega) rest
        exact ⟨kept, directories'.trans directories⟩

/-- Pages of the heap, and the page behind it, have entries in a directory that shares the heap. -/
theorem SharesHeap.located (shares : SharesHeap memory directory) (tables : KernelTables memory)
    (inside : index ≤ kheapPagesCount) : ∃ slot,
        memory.slot directory (heapVa index) = some slot := by
  have shared : ∀ page < kheapPagesCount, ∃ table,
      memory.getPageTable directory (heapVa page) = some table := by
    intro page below
    obtain ⟨slot, located⟩ := tables.located page below
    obtain ⟨table, held, -⟩ := Option.map_eq_some_iff.mp located
    exact ⟨table, (shares.shared page below).trans held⟩
  have held : ∃ table, memory.getPageTable directory (heapVa index) = some table := by
    obtain below | rfl := Nat.lt_or_eq_of_le inside
    · exact shared index below
    · -- The page behind the heap is in the region of the last page of the heap.
      have region : pdx (heapVa kheapPagesCount) = pdx (heapVa (kheapPagesCount - 1)) := by decide
      obtain ⟨table, held⟩ := shared (kheapPagesCount - 1) (by decide)
      exact ⟨table, (congrArg _ region).trans held⟩
  obtain ⟨table, held⟩ := held
  exact ⟨_, Option.map_eq_some_iff.mpr ⟨table, held, rfl⟩⟩

/-- A heap that reaches up to its end has no room for a page table. -/
theorem createPageTable_ne_ok (full : heap.kheapPageAllocBreak = kernelHeapMax) :
    heap.createPageTable D tableAt directory va ≠ .ok next := by
  have refused : heap.kmalloc D pageSize = .ok (0, heap) := by
    unfold kmalloc
    rw [full]
    rfl
  intro created
  unfold createPageTable at created
  obtain ⟨⟨table, after⟩, allocated, rest⟩ := bind_eq_ok.mp created
  obtain ⟨rfl, rfl⟩ := Prod.mk.inj (Except.ok.inj (refused.symm.trans allocated))
  cases rest

/-- A round of the loop allocates a frame and maps it, and creates no page table. -/
theorem mapStackPage_keeps (located : (∃ slot, heap.memory.slot directory va = some slot) ∨
      heap.kheapPageAllocBreak = kernelHeapMax)
    (returned : heap.mapStackPage D tableAt directory va = .ok next) :
    ∃ frame taken, heap.memory.allocateFrame = some (frame, taken) ∧
      taken.mapFrame directory frame va (permWriteable ||| permUser ||| permPresent) =
        some next.memory ∧ next.kheapPageAllocBreak = heap.kheapPageAllocBreak := by
  unfold mapStackPage at returned
  split at returned
  · cases returned
  · rename_i frame taken allocated
    obtain ⟨-, directories, -⟩ := Memory.allocateFrame_spec allocated
    obtain ⟨middle, linked, mapped⟩ := bind_eq_ok.mp returned
    have same : middle = { heap with memory := taken } := by
      unfold ensurePageTable at linked
      split at linked
      · exact (Except.ok.inj linked).symm
      · rename_i absent
        obtain ⟨slot, located⟩ | full := located
        · rw [Memory.slot_congr directories, located] at absent
          cases absent
        · exact absurd linked (createPageTable_ne_ok full)
    subst same
    split at mapped
    · cases mapped
    · rename_i stored
      obtain rfl := Except.ok.inj mapped
      exact ⟨frame, taken, allocated, stored, rfl⟩

theorem SharesHeap.congr (shares : SharesHeap memory directory)
    (same : after.directories = memory.directories) : SharesHeap after directory where
  separate := by
    rw [same]
    exact shares.separate
  shared := by
    unfold Memory.getPageTable
    rw [same]
    exact shares.shared

/-- A round of the loop keeps the entries of other pages. -/
theorem mapStackPage_frame (shares : SharesHeap heap.memory directory) {page : Nat}
    (bound : page < 2 ^ 32) (bound' : va < 2 ^ 32) (different : vpn page ≠ vpn va)
    (held : heap.memory.slot directory page = some slot)
    (located : (∃ slot, heap.memory.slot directory va = some slot) ∨
      heap.kheapPageAllocBreak = kernelHeapMax)
    (returned : heap.mapStackPage D tableAt directory va = .ok next) :
    next.memory.directories = heap.memory.directories ∧
      next.memory.tables slot = heap.memory.tables slot ∧
      next.kheapPageAllocBreak = heap.kheapPageAllocBreak := by
  obtain ⟨frame, taken, allocated, mapped, sameBreak⟩ := mapStackPage_keeps located returned
  obtain ⟨tables, directories, -⟩ := Memory.allocateFrame_spec allocated
  obtain ⟨directories', kept⟩ := tables_of_mapFrame mapped
  have apart := shares.slot_ne bound bound' different held
  rw [← Memory.slot_congr directories] at apart
  refine ⟨directories'.trans directories, ?_, sameBreak⟩
  rw [kept slot apart, tables]

/-- The rounds of the loop keep the entry of a page that lies before those that they map. -/
theorem mapStackPages_frame (shares : SharesHeap heap.memory directory)
    (tables : KernelTables heap.memory) {page : Nat} (before : page ≤ index)
    (inside : page < kheapPagesCount) (held : heap.memory.slot directory (heapVa page) = some slot)
    (upper : index + count ≤ kheapPagesCount ∨ index + count = kheapPagesCount + 1 ∧
      heap.kheapPageAllocBreak = kernelHeapMax)
    (returned : heap.mapStackPages D tableAt directory (heapVa index) count = .ok next) :
    next.memory.directories = heap.memory.directories ∧
      next.memory.tables slot = heap.memory.tables slot := by
  induction count generalizing heap index with
  | zero =>
      obtain rfl := Except.ok.inj returned
      exact ⟨rfl, rfl⟩
  | succ count ih =>
      obtain ⟨middle, first, rest⟩ := bind_eq_ok.mp returned
      have limit : kheapPagesCount = 40959 := by decide
      have bound : heapVa page < 2 ^ 32 := by
        unfold heapVa kernelHeapStart pageSize
        omega
      by_cases within : index + 1 ≤ kheapPagesCount
      · rw [add32_heapVa_one within] at first rest
        have bound' : heapVa (index + 1) < 2 ^ 32 := by
          unfold heapVa kernelHeapStart pageSize
          omega
        have different : vpn (heapVa page) ≠ vpn (heapVa (index + 1)) := by
          unfold vpn heapVa kernelHeapStart pageSize
          omega
        obtain ⟨directories, kept, sameBreak⟩ :=
          mapStackPage_frame shares bound bound' different
          held (.inl (shares.located tables within)) first
        rw [← kept, ← directories]
        refine ih (shares.congr directories) (tables.congr directories) (by omega) ?_ ?_ rest
        · rw [Memory.slot_congr directories, held]
        · rw [sameBreak]
          omega
      · -- The address wraps in the last round, and the heap is full.
        obtain ⟨last, full⟩ := upper.resolve_left (by omega)
        obtain rfl : index = kheapPagesCount := by omega
        obtain rfl : count = 0 := by omega
        have wrapped : add32 (heapVa kheapPagesCount) pageSize = 0 := by decide
        rw [wrapped] at first rest
        obtain rfl := Except.ok.inj rest
        have different : vpn (heapVa page) ≠ vpn 0 := by
          unfold vpn heapVa kernelHeapStart pageSize
          omega
        obtain ⟨directories, kept, -⟩ :=
          mapStackPage_frame shares bound (by decide) different held (.inr full) first
        exact ⟨directories, kept⟩

/-- Clearing permissions keeps the free frames apart. -/
theorem FreeApart.ptSetPagePermissions (apart : FreeApart memory free) {clear : Perm}
    (cleared : memory.ptSetPagePermissions directory va 0 clear = some after) :
    FreeApart after free ∧ after.directories = memory.directories := by
  unfold Memory.ptSetPagePermissions at cleared
  split at cleared
  · cases cleared
  · rename_i written _
    obtain rfl := Option.some.inj cleared
    refine ⟨⟨apart.represents, fun slot present => ?_⟩, rfl⟩
    rw [Memory.setEntry_tables] at present ⊢
    by_cases same : slot = written
    · rw [same, Function.update_self] at present ⊢
      exact apart.apart written (PageTableEntry.present_of_clear present)
    · rw [Function.update_of_ne same] at present ⊢
      exact apart.apart slot present

/-- The first page that the loop maps is open to the user in the end. -/
theorem permUser_of_mapStackPages (apart : FreeApart heap.memory free)
    (shares : SharesHeap heap.memory directory) (tables : KernelTables heap.memory)
    (inside : index + 1 < kheapPagesCount)
    (upper : index + (count + 1) ≤ kheapPagesCount ∨
      index + (count + 1) = kheapPagesCount + 1 ∧
      heap.kheapPageAllocBreak = kernelHeapMax)
    (returned : heap.mapStackPages D tableAt directory (heapVa index) (count + 1) = .ok next) :
    ∃ entry, next.memory.entry directory (heapVa (index + 1)) = some entry ∧
      Perm.has entry.perm permUser = true := by
  obtain ⟨middle, first, rest⟩ := bind_eq_ok.mp returned
  rw [add32_heapVa_one (by omega)] at first rest
  obtain ⟨slot, located⟩ := shares.located tables (Nat.le_of_lt inside)
  obtain ⟨frame, taken, allocated, mapped, sameBreak⟩ :=
    mapStackPage_keeps (.inl ⟨slot, located⟩) first
  obtain ⟨others, rfl, -, -⟩ := Memory.allocateFrame_cases apart.represents allocated
  obtain ⟨entries, directories, -⟩ := Memory.allocateFrame_spec allocated
  have directories' := (tables_of_mapFrame mapped).1.trans directories
  have user : Perm.has (middle.memory.tables slot).perm permUser = true := by
    refine perm_of_mapFrame ?_ (fun present same => ?_) mapped (by decide)
    · rw [Memory.slot_congr directories, located]
    · rw [entries] at present same
      exact apart.apart slot present (same ▸ List.mem_cons_self)
  obtain ⟨directories'', kept⟩ := mapStackPages_frame (shares.congr directories')
    (tables.congr directories') (Nat.le_refl _) inside
    ((Memory.slot_congr directories' ..).trans located) (by omega) rest
  refine ⟨_, Memory.entry_eq ?_, kept ▸ user⟩
  rw [Memory.slot_congr (directories''.trans directories'), located]

/-- The second page above the guard page is mapped for the user: `create_user_kern_stack` never
creates a guarded kernel stack. -/
theorem not_createsGuardedStack (wellFormed : heap.WellFormed top)
    (apart : FreeApart heap.memory free) (shares : SharesHeap heap.memory directory)
    (served : heap.kmalloc D kernelStackSize = .ok (va, next)) (nonnull : va ≠ 0) :
    ¬ heap.CreatesGuardedStack D tableAt directory := by
  rintro ⟨bottomVa, last, created, stack⟩
  obtain ⟨⟨va', next'⟩, served', rest⟩ := bind_eq_ok.mp created
  obtain ⟨rfl, rfl⟩ := Prod.mk.inj (Except.ok.inj (served.symm.trans served'))
  have pages : pagesOf kernelStackSize = 8 := by decide
  obtain ⟨rfl, -⟩ | ⟨-, small, -⟩ | ⟨-, index, top', space, -, bound, -, allocated⟩ :=
    wellFormed.kmalloc_cases served
  · exact nonnull rfl
  · exact absurd small (by decide)
  rw [pages] at space allocated
  have lower := space.lower
  have upper := space.upper
  obtain ⟨memory, mapped, stored⟩ := bind_eq_ok.mp allocated
  obtain ⟨rfl, rfl⟩ := Prod.mk.inj (Except.ok.inj stored)
  obtain ⟨⟨others, apart'⟩, directories⟩ :=
    apart.getPages wellFormed.pages lower (by omega) mapped
  cases guarded : memory.ptSetPagePermissions directory (heapVa index) 0 permPresent with
  | none =>
      simp only [guarded] at rest
      cases rest
  | some cleared =>
      simp only [guarded] at rest
      obtain ⟨apart'', directories'⟩ := apart'.ptSetPagePermissions guarded
      have same := directories'.trans directories
      obtain ⟨final, looped, ended⟩ := bind_eq_ok.mp rest
      obtain ⟨rfl, rfl⟩ := Prod.mk.inj (Except.ok.inj ended)
      rw [add32_heapVa_one (by omega)] at looped
      have room : index + 1 + 8 ≤ kheapPagesCount ∨ index + 1 + 8 = kheapPagesCount + 1 ∧
          heapVa top' = kernelHeapMax := by
        by_cases within : index + 1 + 8 ≤ kheapPagesCount
        · exact .inl within
        · obtain rfl : top' = kheapPagesCount := by omega
          exact .inr ⟨by omega, heapVa_kheapPagesCount⟩
      obtain ⟨entry, found, user⟩ := permUser_of_mapStackPages apart'' (shares.congr same)
        (wellFormed.pages.tables.congr same) (by omega) room looped
      obtain ⟨entry', found', -, -, closed⟩ := stack.stack 2 (by decide) (by decide)
      have page : heapVa index + 2 * pageSize = heapVa (index + 1 + 1) := by
        unfold heapVa pageSize
        omega
      rw [page, found] at found'
      obtain rfl := Option.some.inj found'
      rw [user] at closed
      cases closed

/-- All directories of a blank machine share the kernel heap. -/
theorem blankHeap_sharesHeap (directory : Nat) :
    SharesHeap PageBlocks.blankHeap.memory directory := by
  have same : PageBlocks.blankHeap.memory.directories = Memory.blank.directories := by
    obtain ⟨-, -, -, directories, -⟩ := Memory.initializePaging_spec Memory.blank 257
      (Nat.le_refl physExtendedMemFrame)
    exact directories
  constructor
  · intro first second table held held'
    rw [same] at held held'
    exact (Option.some.inj held).trans (Option.some.inj held').symm
  · intro index _
    unfold Memory.getPageTable
    rw [same]
    rfl

/-- Nothing is mapped on a blank machine. -/
theorem blankHeap_freeApart : ∃ free, FreeApart PageBlocks.blankHeap.memory free := by
  obtain ⟨free, represents, tables, -⟩ := Memory.initializePaging_spec Memory.blank 257
    (Nat.le_refl physExtendedMemFrame)
  refine ⟨free, represents, fun slot present => ?_⟩
  have empty : PageBlocks.blankHeap.memory.tables slot = .zero := congrFun tables slot
  rw [empty] at present
  cases present

/-- The heap of a blank machine serves a kernel stack, which is not guarded. -/
theorem not_createsGuardedStack_blank : ∃ va next,
    PageBlocks.blankHeap.kmalloc PageBlocks.allocator kernelStackSize =
      .ok (va, next) ∧ va ≠ 0 ∧
      ¬ PageBlocks.blankHeap.CreatesGuardedStack PageBlocks.allocator id 1 := by
  have completes : (PageBlocks.blankHeap.kmalloc PageBlocks.allocator kernelStackSize).map
      Prod.fst = .ok kheapPageAllocStart := by decide +kernel
  obtain ⟨free, apart⟩ := blankHeap_freeApart
  cases served : PageBlocks.blankHeap.kmalloc PageBlocks.allocator kernelStackSize with
  | error halt =>
      rw [served] at completes
      cases completes
  | ok result =>
      obtain ⟨va, next⟩ := result
      rw [served] at completes
      obtain rfl : va = kheapPageAllocStart := Except.ok.inj completes
      exact ⟨_, next, rfl, by decide, not_createsGuardedStack PageBlocks.blankHeap_wellFormed
        apart (blankHeap_sharesHeap 1) served (by decide)⟩

/-- The test that the stack's second page above the guard page is open to the user. -/
def openToUser (heap : KHeap β) (directory bottomVa : Nat) : Bool :=
  match heap.memory.entry directory (bottomVa + 2 * pageSize) with
  | none => false
  | some entry => Perm.has entry.perm permUser

/-- On a blank machine the stack is created with a page that is open to the user. -/
theorem createUserKernStack_open : ∃ bottomVa next,
    PageBlocks.blankHeap.createUserKernStack PageBlocks.allocator id 1 = .ok (bottomVa, next) ∧
      next.openToUser 1 bottomVa = true ∧
          ¬ PageBlocks.blankHeap.GuardedStack next 1 bottomVa := by
  have completes : (PageBlocks.blankHeap.createUserKernStack PageBlocks.allocator id 1).map
      (fun created => created.2.openToUser 1 created.1) = .ok true := by decide +kernel
  cases created : PageBlocks.blankHeap.createUserKernStack PageBlocks.allocator id 1 with
  | error halt =>
      rw [created] at completes
      cases completes
  | ok result =>
      obtain ⟨bottomVa, next⟩ := result
      rw [created] at completes
      have user : next.openToUser 1 bottomVa = true := Except.ok.inj completes
      refine ⟨bottomVa, next, rfl, user, fun stack => ?_⟩
      obtain ⟨entry, found, -, -, closed⟩ := stack.stack 2 (by decide) (by decide)
      have open_ : next.openToUser 1 bottomVa = Perm.has entry.perm permUser := by
        rw [openToUser, found]
      rw [user, closed] at open_
      cases open_

end KHeap

end FosKernel
