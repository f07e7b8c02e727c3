import FosKernel.Heap.KHeap

/-!
# Pages of the kernel heap

The pages of the kernel heap by index: their addresses, their page-table
entries, and what `get_page`, `return_page` and the break loop of `kfree` do to
the set of present pages.
-/

namespace FosKernel

/-- The address of a heap page. -/
def heapVa (index : Nat) : Nat := kernelHeapStart + index * pageSize

/-- The index of the first page of the page allocator. -/
def firstPage : Nat := (kheapPageAllocStart - kernelHeapStart) / pageSize

section Addresses

variable {index count : Nat}

theorem heapVa_firstPage : heapVa firstPage = kheapPageAllocStart := by decide

theorem heapVa_kheapPagesCount : heapVa kheapPagesCount = kernelHeapMax := by decide

theorem heapVa_ne_zero (index : Nat) : heapVa index ≠ 0 := by
  simp only [heapVa, kernelHeapStart]
  omega

theorem heapVa_le_iff {other : Nat} : heapVa index ≤ heapVa other ↔ index ≤ other := by
  simp only [heapVa, pageSize]
  omega

theorem heapVa_lt_iff {other : Nat} : heapVa index < heapVa other ↔ index < other := by
  simp only [heapVa, pageSize]
  omega

theorem heapVa_inj {other : Nat} : heapVa index = heapVa other ↔ index = other := by
  simp only [heapVa, pageSize]
  omega

theorem kernelHeapStart_le_heapVa (index : Nat) : kernelHeapStart ≤ heapVa index := by
  rw [heapVa]
  exact Nat.le_add_right _ _

/-- Bytes that fit in some pages end before the page after these. -/
theorem heapVa_add_le {bytes : Nat} (fit : bytes ≤ count * pageSize) :
    heapVa index + bytes ≤ heapVa (index + count) := by
  simp only [heapVa, pageSize] at *
  omega

theorem heapVa_le_max (le : index ≤ kheapPagesCount) : heapVa index ≤ kernelHeapMax := by
  rw [← heapVa_kheapPagesCount]
  exact heapVa_le_iff.mpr le

theorem start_le_heapVa (le : firstPage ≤ index) : kheapPageAllocStart ≤ heapVa index := by
  rw [← heapVa_firstPage]
  exact heapVa_le_iff.mpr le

theorem roundDown_heapVa (index : Nat) : roundDown (heapVa index) pageSize = heapVa index := by
  simp only [roundDown, heapVa, kernelHeapStart, pageSize]
  omega

theorem le_page_of_heapVa_le {low va : Nat} (lies : roundDown va pageSize = heapVa index)
    (lower : heapVa low ≤ va) : low ≤ index := by
  simp only [roundDown, heapVa, pageSize] at *
  omega

theorem lt_page_of_lt_heapVa {high va : Nat} (lies : roundDown va pageSize = heapVa index)
    (upper : va < heapVa high) : index < high := by
  simp only [roundDown, heapVa, pageSize] at *
  omega

/-- Indices of the heap are recovered from addresses in their page. -/
theorem kvaToIndex_eq {va : Nat} (bound : index ≤ kheapPagesCount)
    (page : roundDown va pageSize = heapVa index) : kvaToIndex va = index := by
  simp only [roundDown, heapVa, kvaToIndex, sub32, kernelHeapStart, pageSize] at *
  have limit : kheapPagesCount = 40959 := by decide
  omega

theorem kvaToIndex_heapVa (bound : index ≤ kheapPagesCount) : kvaToIndex (heapVa index) = index :=
  kvaToIndex_eq bound (roundDown_heapVa index)

/-- An address of the heap lies in the page of its index. -/
theorem roundDown_eq_heapVa {va : Nat} (lower : kernelHeapStart ≤ va)
    (upper : va < kernelHeapMax) :
    roundDown va pageSize = heapVa (kvaToIndex va) ∧ kvaToIndex va < kheapPagesCount := by
  have limit : kheapPagesCount = 40959 := by decide
  simp only [roundDown, heapVa, kvaToIndex, sub32, kernelHeapStart, kernelHeapMax, pageSize] at *
  omega

theorem add32_heapVa (bound : index + count ≤ kheapPagesCount) :
    add32 (heapVa index) (count * pageSize) = heapVa (index + count) := by
  have limit : kheapPagesCount = 40959 := by decide
  simp only [add32, heapVa, kernelHeapStart, pageSize]
  omega

theorem add32_heapVa_one (bound : index + 1 ≤ kheapPagesCount) :
    add32 (heapVa index) pageSize = heapVa (index + 1) := by
  rw [← add32_heapVa bound, Nat.one_mul]

theorem sub32_heapVa_one (bound : index + 1 ≤ kheapPagesCount) :
    sub32 (heapVa (index + 1)) pageSize = heapVa index := by
  have limit : kheapPagesCount = 40959 := by decide
  simp only [sub32, heapVa, kernelHeapStart, pageSize]
  omega

end Addresses

section Sizes

variable {size : Nat}

/-- Up to `2 ^ 32 - 4096` bytes, rounding up does not wrap. -/
theorem pagesOf_eq (small : size ≤ 2 ^ 32 - pageSize) :
    pagesOf size = (size + (pageSize - 1)) / pageSize := by
  simp only [pagesOf, roundUp, roundDown, add32, pageSize] at *
  omega

/-- A larger `uint32` size wraps to no pages at all. -/
theorem pagesOf_eq_zero (large : 2 ^ 32 - pageSize < size) (word : size < 2 ^ 32) :
    pagesOf size = 0 := by
  simp only [pagesOf, roundUp, roundDown, add32, pageSize] at *
  omega

theorem pagesOf_pos (positive : 0 < size) (small : size ≤ 2 ^ 32 - pageSize) :
    0 < pagesOf size := by
  rw [pagesOf_eq small]
  simp only [pageSize]
  omega

/-- The pages of a size hold its bytes. -/
theorem le_pagesOf_mul (small : size ≤ 2 ^ 32 - pageSize) : size ≤ pagesOf size * pageSize := by
  rw [pagesOf_eq small]
  simp only [pageSize]
  omega

end Sizes

/-- The page tables of the kernel heap exist, and its pages have different entries. -/
structure KernelTables (memory : Memory) : Prop where
  located : ∀ index < kheapPagesCount, ∃ slot,
    memory.slot kernelDirectory (heapVa index) = some slot
  injective : ∀ first < kheapPagesCount, ∀ second < kheapPagesCount,
    memory.slot kernelDirectory (heapVa first) = memory.slot kernelDirectory (heapVa second) →
      first = second

/-- The place of a heap page's entry. -/
def pageSlot (memory : Memory) (index : Nat) : Slot :=
  (memory.slot kernelDirectory (heapVa index)).getD (0, 0)

/-- The page-table entry of a heap page. -/
def heapEntry (memory : Memory) (index : Nat) : PageTableEntry :=
  memory.tables (pageSlot memory index)

/-- An entry of the page allocator: not buffered, and without a frame unless present. -/
def PageTableEntry.Clean (entry : PageTableEntry) : Prop :=
  Perm.has entry.perm permBuffered = false ∧ (entry.present = false → entry.frame = 0)

namespace PageTableEntry

variable {entry : PageTableEntry}

theorem Clean.holdsFrame (clean : entry.Clean) : entry.holdsFrame = entry.present := by
  cases present : entry.present with
  | true => exact holdsFrame_of_present present
  | false =>
      have absent := present
      rw [PageTableEntry.present] at absent
      simp [PageTableEntry.holdsFrame, Perm.has_mask_or, absent, clean.1, clean.2 present]

theorem Clean.unmapped (clean : entry.Clean) : entry.unmapped.Clean := by
  refine ⟨?_, fun _ => rfl⟩
  change Perm.has (entry.perm &&& permAvailable) permBuffered = false
  rw [Perm.has_and, show permAvailable &&& permBuffered = permBuffered by decide]
  exact clean.1

/-- Mapping a kernel page keeps its entry clean. -/
theorem Clean.installed (clean : entry.Clean) (frame : Nat) :
    (⟨frame, entry.perm &&& permAvailable ||| permWriteable ||| permPresent⟩ :
      PageTableEntry).Clean := by
  constructor
  · simp only [Perm.has_or, Perm.has_and,
      show permAvailable &&& permBuffered = permBuffered by decide,
      show Perm.has permWriteable permBuffered = false by decide,
      show Perm.has permPresent permBuffered = false by decide, clean.1, Bool.or_self]
  · intro absent
    rw [PageTableEntry.present, Perm.has_or, show Perm.has permPresent permPresent = true by decide,
      Bool.or_true] at absent
    cases absent

end PageTableEntry

section Slots

variable {memory other : Memory}

theorem KernelTables.congr (tables : KernelTables memory)
    (same : other.directories = memory.directories) : KernelTables other where
  located := by
    intro index bound
    rw [Memory.slot_congr same]
    exact tables.located index bound
  injective := by
    intro first boundFirst second boundSecond
    rw [Memory.slot_congr same, Memory.slot_congr same]
    exact tables.injective first boundFirst second boundSecond

theorem KernelTables.slot_eq (tables : KernelTables memory) {index : Nat}
    (bound : index < kheapPagesCount) :
    memory.slot kernelDirectory (heapVa index) = some (pageSlot memory index) := by
  obtain ⟨slot, located⟩ := tables.located index bound
  rw [pageSlot, located, Option.getD_some]

theorem KernelTables.pageSlot_inj (tables : KernelTables memory) {first second : Nat}
    (boundFirst : first < kheapPagesCount) (boundSecond : second < kheapPagesCount)
    (same : pageSlot memory first = pageSlot memory second) : first = second := by
  apply tables.injective first boundFirst second boundSecond
  rw [tables.slot_eq boundFirst, tables.slot_eq boundSecond, same]

/-- An address of a heap page has the place of the page's entry. -/
theorem KernelTables.slot_of_page (tables : KernelTables memory) {va page : Nat}
    (lies : roundDown va pageSize = heapVa page) (inside : page < kheapPagesCount) :
    memory.slot kernelDirectory va = some (pageSlot memory page) := by
  have directoryIndex : pdx va = pdx (heapVa page) := by
    simp only [pdx, roundDown, heapVa, kernelHeapStart, pageSize] at *
    omega
  have tableIndex : ptx va = ptx (heapVa page) := by
    simp only [ptx, roundDown, heapVa, kernelHeapStart, pageSize] at *
    omega
  rw [← tables.slot_eq inside, Memory.slot, Memory.slot, Memory.getPageTable, Memory.getPageTable,
    directoryIndex, tableIndex]

/-- The translation of a heap address by the entry of its page. -/
theorem KernelTables.translate_eq (tables : KernelTables memory) {va page : Nat}
    (lies : roundDown va pageSize = heapVa page) (inside : page < kheapPagesCount) :
    memory.translate kernelDirectory va =
      if (heapEntry memory page).present then some ((heapEntry memory page).frame, pgoff va)
      else none := by
  rw [Memory.translate, Memory.entry_eq (tables.slot_of_page lies inside)]
  rfl

/-- A heap address is mapped when its page is present. -/
theorem KernelTables.translate_isSome (tables : KernelTables memory) {va page : Nat}
    (lies : roundDown va pageSize = heapVa page) (inside : page < kheapPagesCount) :
    (memory.translate kernelDirectory va).isSome = true ↔
      (heapEntry memory page).present = true := by
  rw [tables.translate_eq lies inside]
  cases present : (heapEntry memory page).present <;> simp

theorem pageSlot_congr (same : other.directories = memory.directories) (index : Nat) :
    pageSlot other index = pageSlot memory index := by
  rw [pageSlot, pageSlot, Memory.slot_congr same]

/-- Writing the entry of one heap page. -/
theorem KernelTables.heapEntry_update (tables : KernelTables memory) {index page : Nat}
    (bound : index < kheapPagesCount) (inside : page < kheapPagesCount)
    (directories : other.directories = memory.directories) {entry : PageTableEntry}
    (written : other.tables = Function.update memory.tables (pageSlot memory index) entry) :
    heapEntry other page = if page = index then entry else heapEntry memory page := by
  rw [heapEntry, pageSlot_congr directories, written]
  by_cases same : page = index
  · rw [if_pos same, same, Function.update_self]
  · have different : pageSlot memory page ≠ pageSlot memory index := fun equal =>
      same (tables.pageSlot_inj inside bound equal)
    rw [if_neg same, Function.update_of_ne different, heapEntry]

end Slots

/-- The kernel page tables exist and the entries of the page allocator are clean. -/
structure HeapPages (memory : Memory) : Prop where
  tables : KernelTables memory
  clean : ∀ index, firstPage ≤ index → index < kheapPagesCount →
    (heapEntry memory index).Clean

section Operations

variable {memory next : Memory} {index count : Nat}

/-- `get_page` is `alloc_page` of a kernel page that returns. -/
theorem getPage_eq_ok {va : Nat} (mapped : getPage memory va = .ok next) :
    ∃ code, memory.allocPage kernelDirectory kernelDirectory (roundDown va pageSize)
      permWriteable false = some (next, code) := by
  rw [getPage] at mapped
  split at mapped
  · cases mapped
  · rename_i allocated
    obtain rfl := Except.ok.inj mapped
    exact ⟨_, allocated⟩

/-- `get_page` leaves the directories alone. -/
theorem getPage_directories {va : Nat} (mapped : getPage memory va = .ok next) :
    next.directories = memory.directories := by
  obtain ⟨code, allocated⟩ := getPage_eq_ok mapped
  cases located : memory.slot kernelDirectory (roundDown va pageSize) with
  | none =>
      rw [Memory.allocPage_of_not_located located] at allocated
      cases allocated
  | some slot =>
      obtain ⟨-, -, rfl⟩ | ⟨-, -, frame, taken, bytes, took, rfl, -⟩ :=
        Memory.allocPage_cases located allocated
      · rfl
      · exact (Memory.allocateFrame_spec took).2.1

theorem getPages_directories {va : Nat} (mapped : getPages memory va count = .ok next) :
    next.directories = memory.directories := by
  induction count generalizing memory va with
  | zero =>
      obtain rfl := Except.ok.inj mapped
      rfl
  | succ count ih =>
      obtain ⟨middle, first, rest⟩ := bind_eq_ok.mp mapped
      exact (ih rest).trans (getPage_directories first)

theorem returnPages_directories (memory : Memory) (va count : Nat) :
    (returnPages memory va count).directories = memory.directories := by
  induction count generalizing memory va with
  | zero => rfl
  | succ count ih =>
      rw [returnPages, ih]
      exact Memory.unmapFrame_directories ..

theorem getPage_halt {va : Nat} {halt : Halt} (stopped : getPage memory va = .error halt) :
    halt = .panic := by
  rw [getPage] at stopped
  split at stopped
  · exact (Except.error.inj stopped).symm
  · cases stopped

/-- Mapping pages stops only for lack of frames. -/
theorem getPages_halt {va : Nat} {halt : Halt}
    (stopped : getPages memory va count = .error halt) : halt = .panic := by
  induction count generalizing memory va with
  | zero => cases stopped
  | succ count ih =>
      obtain first | ⟨middle, -, rest⟩ := bind_eq_error.mp stopped
      · exact getPage_halt first
      · exact ih rest

/-- `get_page` leaves a present page alone, and installs a newly allocated frame in an absent
one. -/
theorem getPage_cases (tables : KernelTables memory) (upper : index < kheapPagesCount)
    (clean : (heapEntry memory index).Clean) (mapped : getPage memory (heapVa index) = .ok next) :
    (heapEntry memory index).present = true ∧ next = memory ∨
      (heapEntry memory index).present = false ∧ ∃ frame taken,
        memory.allocateFrame = some (frame, taken) ∧
          next = taken.installFrame (pageSlot memory index) frame (heapVa index)
            permWriteable := by
  rw [getPage, roundDown_heapVa] at mapped
  split at mapped
  · cases mapped
  · rename_i allocated
    obtain rfl := Except.ok.inj mapped
    have holds := clean.holdsFrame
    cases Memory.allocPage_cases (tables.slot_eq upper) allocated with
    | inl already =>
        rw [← heapEntry] at already
        exact .inl ⟨holds.symm.trans already.1, already.2.2⟩
    | inr fresh =>
        obtain ⟨empty, -, frame, taken, bytes, took, rfl, kept⟩ := fresh
        rw [← heapEntry] at empty
        obtain ⟨-, -, contents⟩ := Memory.allocateFrame_spec took
        refine .inr ⟨holds.symm.trans empty, frame, taken, took, ?_⟩
        rw [kept rfl, ← contents]
        rfl

/-- `get_page` makes its page present and touches no other entry and no contents. -/
theorem getPage_spec (tables : KernelTables memory) (upper : index < kheapPagesCount)
    (clean : (heapEntry memory index).Clean) (mapped : getPage memory (heapVa index) = .ok next) :
    next.directories = memory.directories ∧ next.bytes = memory.bytes ∧
      (heapEntry next index).Clean ∧ (heapEntry next index).present = true ∧
      ∀ page < kheapPagesCount, page ≠ index →
          heapEntry next page = heapEntry memory page := by
  obtain ⟨present, rfl⟩ | ⟨-, frame, taken, took, rfl⟩ :=
    getPage_cases tables upper clean mapped
  · exact ⟨rfl, rfl, clean, present, fun _ _ _ => rfl⟩
  · obtain ⟨tablesEq, directories, contents⟩ := Memory.allocateFrame_spec took
    have kept : (taken.installFrame (pageSlot memory index) frame (heapVa index)
        permWriteable).directories = memory.directories := directories
    have written := Memory.installFrame_tables taken (pageSlot memory index) frame
      (heapVa index) permWriteable
    rw [tablesEq] at written
    have entries : ∀ page < kheapPagesCount, _ := fun page inside =>
      tables.heapEntry_update upper inside kept written
    refine ⟨kept, contents, ?_, ?_, ?_⟩
    · rw [entries index upper, if_pos rfl]
      exact clean.installed frame
    · rw [heapEntry, pageSlot_congr kept]
      exact Memory.installFrame_present ..
    · intro page inside different
      rw [entries page inside, if_neg different]

/-- `get_page` keeps the pages of the page allocator in order. -/
theorem getPage_pages (pages : HeapPages memory) (lower : firstPage ≤ index)
    (upper : index < kheapPagesCount) (mapped : getPage memory (heapVa index) = .ok next) :
    HeapPages next ∧ next.bytes = memory.bytes ∧ (heapEntry next index).present = true ∧
      ∀ page < kheapPagesCount, page ≠ index →
          heapEntry next page = heapEntry memory page := by
  obtain ⟨directories, bytes, clean, present, same⟩ :=
    getPage_spec pages.tables upper (pages.clean index lower upper) mapped
  refine ⟨⟨pages.tables.congr directories, ?_⟩, bytes, present, same⟩
  intro page above inside
  by_cases here : page = index
  · rw [here]
    exact clean
  · rw [same page inside here]
    exact pages.clean page above inside

/-- `return_page` makes its page absent and touches no other entry and no contents. -/
theorem returnPage_spec (tables : KernelTables memory) (upper : index < kheapPagesCount)
    (clean : (heapEntry memory index).Clean) :
    (returnPage memory (heapVa index)).directories = memory.directories ∧
      (returnPage memory (heapVa index)).bytes = memory.bytes ∧
      (heapEntry (returnPage memory (heapVa index)) index).Clean ∧
      (heapEntry (returnPage memory (heapVa index)) index).present = false ∧
      ∀ page < kheapPagesCount, page ≠ index →
        heapEntry (returnPage memory (heapVa index)) page = heapEntry memory page := by
  rw [returnPage, roundDown_heapVa]
  have directories := Memory.unmapFrame_directories memory kernelDirectory (heapVa index)
  have written := Memory.unmapFrame_tables (tables.slot_eq upper)
  rw [← heapEntry, clean.holdsFrame] at written
  have entries : ∀ page < kheapPagesCount, _ := fun page inside =>
    tables.heapEntry_update upper inside directories written
  refine ⟨directories, Memory.unmapFrame_bytes .., ?_, ?_, ?_⟩
  · rw [entries index upper, if_pos rfl]
    split
    · exact clean.unmapped
    · exact clean
  · rw [entries index upper, if_pos rfl]
    cases present : (heapEntry memory index).present with
    | true => exact PageTableEntry.unmapped_not_present _
    | false => exact present
  · intro page inside different
    rw [entries page inside, if_neg different]

/-- `return_page` keeps the pages of the page allocator in order. -/
theorem returnPage_pages (pages : HeapPages memory) (lower : firstPage ≤ index)
    (upper : index < kheapPagesCount) :
    HeapPages (returnPage memory (heapVa index)) ∧
      (returnPage memory (heapVa index)).bytes = memory.bytes ∧
      (heapEntry (returnPage memory (heapVa index)) index).present = false ∧
      ∀ page < kheapPagesCount, page ≠ index →
        heapEntry (returnPage memory (heapVa index)) page = heapEntry memory page := by
  obtain ⟨directories, bytes, clean, absent, same⟩ :=
    returnPage_spec pages.tables upper (pages.clean index lower upper)
  refine ⟨⟨pages.tables.congr directories, ?_⟩, bytes, absent, same⟩
  intro page above inside
  by_cases here : page = index
  · rw [here]
    exact clean
  · rw [same page inside here]
    exact pages.clean page above inside

/-- `get_page` for consecutive pages makes these present and touches no other entry. -/
theorem getPages_pages (pages : HeapPages memory) (lower : firstPage ≤ index)
    (upper : index + count ≤ kheapPagesCount)
    (mapped : getPages memory (heapVa index) count = .ok next) :
    HeapPages next ∧ next.bytes = memory.bytes ∧
      (∀ page, index ≤ page → page < index + count →
        (heapEntry next page).present = true) ∧
      ∀ page < kheapPagesCount, ¬ (index ≤ page ∧ page < index + count) →
        heapEntry next page = heapEntry memory page := by
  induction count generalizing memory index with
  | zero =>
      obtain rfl := Except.ok.inj mapped
      exact ⟨pages, rfl, fun page above below => by omega, fun _ _ _ => rfl⟩
  | succ count ih =>
      obtain ⟨middle, first, rest⟩ := bind_eq_ok.mp mapped
      rw [add32_heapVa_one (by omega)] at rest
      obtain ⟨pages₁, bytes₁, present₁, kept₁⟩ :=
        getPage_pages pages lower (by omega) first
      obtain ⟨pages₂, bytes₂, present₂, kept₂⟩ := ih pages₁ (by omega) (by omega) rest
      refine ⟨pages₂, bytes₂.trans bytes₁, ?_, ?_⟩
      · intro page above below
        by_cases same : page = index
        · subst same
          rw [kept₂ page (by omega) (by omega)]
          exact present₁
        · exact present₂ page (by omega) (by omega)
      · intro page inside outside
        rw [kept₂ page inside (by omega), kept₁ page inside (by omega)]

/-- `return_page` for consecutive pages makes exactly these absent. -/
theorem returnPages_pages (pages : HeapPages memory) (lower : firstPage ≤ index)
    (upper : index + count ≤ kheapPagesCount) :
    HeapPages (returnPages memory (heapVa index) count) ∧
      (returnPages memory (heapVa index) count).bytes = memory.bytes ∧
      (∀ page, index ≤ page → page < index + count →
        (heapEntry (returnPages memory (heapVa index) count) page).present = false) ∧
      ∀ page < kheapPagesCount, ¬ (index ≤ page ∧ page < index + count) →
        heapEntry (returnPages memory (heapVa index) count) page = heapEntry memory page := by
  induction count generalizing memory index with
  | zero => exact ⟨pages, rfl, fun page above below => by omega, fun _ _ _ => rfl⟩
  | succ count ih =>
      rw [returnPages, add32_heapVa_one (by omega)]
      obtain ⟨pages₁, bytes₁, absent₁, kept₁⟩ := returnPage_pages pages lower (by omega)
      obtain ⟨pages₂, bytes₂, absent₂, kept₂⟩ :=
        ih pages₁ (show firstPage ≤ index + 1 by omega) (by omega)
      refine ⟨pages₂, bytes₂.trans bytes₁, ?_, ?_⟩
      · intro page above below
        by_cases same : page = index
        · subst same
          rw [kept₂ page (by omega) (by omega)]
          exact absent₁
        · exact absent₂ page (by omega) (by omega)
      · intro page inside outside
        rw [kept₂ page inside (by omega), kept₁ page inside (by omega)]

/-- `return_page` frees the page that an address lies in. -/
theorem returnPages_of_page (memory : Memory) {va : Nat}
    (page : roundDown va pageSize = heapVa index) (upper : index + count ≤ kheapPagesCount) :
    returnPages memory va count = returnPages memory (heapVa index) count := by
  induction count generalizing memory index va with
  | zero => rfl
  | succ count ih =>
      have following : roundDown (add32 va pageSize) pageSize = heapVa (index + 1) := by
        have limit : kheapPagesCount = 40959 := by decide
        simp only [roundDown, heapVa, add32, kernelHeapStart, pageSize] at *
        omega
      have single : returnPage memory va = returnPage memory (heapVa index) := by
        rw [returnPage, returnPage, page, roundDown_heapVa]
      rw [returnPages, returnPages, add32_heapVa_one (by omega), single]
      exact ih _ following (by omega)

/-- The break loop of `kfree` ends, at the first page or above a present one, and passes
absent pages only. -/
theorem lowerBreak_spec (tables : KernelTables memory) {fuel : Nat} (lower : firstPage ≤ index)
    (upper : index ≤ kheapPagesCount) (enough : index - firstPage < fuel) :
    ∃ index', lowerBreak memory (heapVa index) fuel = .ok (heapVa index') ∧
      firstPage ≤ index' ∧ index' ≤ index ∧
      (∀ page, index' ≤ page → page < index → (heapEntry memory page).present = false) ∧
      (index' = firstPage ∨ (heapEntry memory (index' - 1)).present = true) := by
  induction fuel generalizing index with
  | zero => omega
  | succ fuel ih =>
      simp only [lowerBreak, ← heapVa_firstPage, heapVa_lt_iff]
      by_cases bottom : firstPage < index
      · obtain ⟨below, rfl⟩ : ∃ below, index = below + 1 := ⟨index - 1, by omega⟩
        rw [if_pos bottom]
        simp only [sub32_heapVa_one upper,
          Memory.entry_eq (tables.slot_eq (Nat.lt_of_succ_le upper))]
        rw [← heapEntry]
        cases present : (heapEntry memory below).present with
        | true =>
            refine ⟨below + 1, rfl, lower, (Nat.le_refl _),
              fun page above below' => by omega, .inr ?_⟩
            exact present
        | false =>
            obtain ⟨index', lowered, above, le, absent, stop⟩ :=
              ih (show firstPage ≤ below by omega) (by omega) (by omega)
            refine ⟨index', lowered, above, by omega, ?_, stop⟩
            intro page lower' upper'
            by_cases same : page = below
            · rw [same]
              exact present
            · exact absent page lower' (by omega)
      · rw [if_neg bottom]
        exact ⟨index, rfl, lower, (Nat.le_refl _),
          fun page above below => by omega, .inl (by omega)⟩

end Operations

end FosKernel
