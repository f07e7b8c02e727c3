import FosKernel.Heap.PageMoves

/-!
# Frames of heap pages and of user pages

The mapped pages of the kernel heap have frames of their own, whose descriptors
record the addresses of these pages. A frame that nothing maps records no
address, and a frame of user pages one at which a user page was mapped. This
survives `get_page` and `return_page` of heap pages, and mapping and unmapping of
user pages that leave the frames of the heap alone.
-/

namespace FosKernel

/-- A page of user mode: its page table exists, and its entry is no heap page's. -/
def Memory.UserPage (memory : Memory) (directory va : Nat) : Prop :=
  va < userTop ∧ ∃ slot, memory.slot directory va = some slot ∧
    ∀ index < kheapPagesCount, pageSlot memory index ≠ slot

/-- Some present heap page holds a frame. -/
def Memory.HeapMaps (memory : Memory) (frame : Nat) : Prop :=
  ∃ index < kheapPagesCount, (heapEntry memory index).present = true ∧
    (heapEntry memory index).frame = frame

/-- The frames of the heap pages, with a property of the addresses at which user pages are
mapped. -/
structure HeapFrames (Place : Nat → Prop) (managed : Finset Nat) (memory : Memory) : Prop where
  tables : KernelTables memory
  clean : ∀ index < kheapPagesCount, (heapEntry memory index).Clean
  alone : ∀ index < kheapPagesCount, (heapEntry memory index).present = true →
    mappers memory.tables (heapEntry memory index).frame = {pageSlot memory index}
  recorded : ∀ index < kheapPagesCount, (heapEntry memory index).present = true →
    (memory.frames (heapEntry memory index).frame).kheapMappedVa = heapVa index
  unmapped : ∀ frame ∈ managed, mappers memory.tables frame = ∅ →
    (memory.frames frame).kheapMappedVa = 0
  user : ∀ frame, ∀ slot ∈ mappers memory.tables frame,
    (∀ index < kheapPagesCount, pageSlot memory index ≠ slot) →
      Place (memory.frames frame).kheapMappedVa

namespace HeapFrames

variable {Place : Nat → Prop} {managed pending : Finset Nat} {memory next : Memory}
  {free : List Nat} {slot : Slot} {frame va : Nat} {perm : Perm}

/-- Nothing depends on the free frame list, the contents of frames and the directories of user
mode. -/
theorem congr (kept : HeapFrames Place managed memory)
    (slots : ∀ index < kheapPagesCount, pageSlot next index = pageSlot memory index)
    (tables : KernelTables next) (entries : next.tables = memory.tables)
    (addresses : ∀ frame, (next.frames frame).kheapMappedVa =
      (memory.frames frame).kheapMappedVa) : HeapFrames Place managed next := by
  have same : ∀ index < kheapPagesCount, heapEntry next index = heapEntry memory index := by
    intro index inside
    rw [heapEntry, heapEntry, slots index inside, entries]
  refine ⟨tables, ?_, ?_, ?_, ?_, ?_⟩
  · intro index inside
    rw [same index inside]
    exact kept.clean index inside
  · intro index inside
    rw [same index inside, slots index inside, entries]
    exact kept.alone index inside
  · intro index inside
    rw [same index inside, addresses]
    exact kept.recorded index inside
  · simp only [entries, addresses]
    exact kept.unmapped
  · intro frame slot
    rw [entries, addresses]
    intro mapper outside
    exact kept.user frame slot mapper fun index inside =>
      slots index inside ▸ outside index inside

/-- The frame of a heap page is mapped by no other entry. -/
theorem frame_ne (kept : HeapFrames Place managed memory) {index : Nat}
    (inside : index < kheapPagesCount) (present : (heapEntry memory index).present = true)
    (mapper : slot ∈ mappers memory.tables frame) (different : pageSlot memory index ≠ slot) :
    (heapEntry memory index).frame ≠ frame := by
  intro same
  have alone := kept.alone index inside present
  rw [same] at alone
  rw [alone] at mapper
  exact different (Set.mem_singleton_iff.mp mapper).symm

/-- Allocating a frame resets its descriptor and changes nothing else. -/
theorem allocate (kept : HeapFrames Place managed memory)
    (invariant : FrameInvariant managed memory pending free)
    (allocated : memory.allocateFrame = some (frame, next)) :
    HeapFrames Place managed next ∧ mappers memory.tables frame = ∅ ∧ frame ∈ managed := by
  obtain ⟨tables, directories, -⟩ := Memory.allocateFrame_spec allocated
  obtain ⟨rest, rfl, -, frames⟩ := Memory.allocateFrame_cases invariant.represents allocated
  obtain ⟨member, unmapped, -⟩ := (invariant.mem_free frame).mp (List.mem_cons_self ..)
  refine ⟨kept.congr (fun index _ => pageSlot_congr directories index)
    (kept.tables.congr directories) tables ?_,
    unmapped, member⟩
  intro other
  rw [frames]
  by_cases same : other = frame
  · rw [same, Function.update_self, kept.unmapped frame member unmapped]
  · rw [Function.update_of_ne same]

/-- Installing a frame at an absent entry: at a heap page one without mappings, and at a user
page one that no heap page holds. -/
theorem install (kept : HeapFrames Place managed memory)
    (absent : (memory.tables slot).present = false)
    (heap : ∀ index < kheapPagesCount, pageSlot memory index = slot →
      va = heapVa index ∧ mappers memory.tables frame = ∅ ∧ perm = permWriteable)
    (other : ¬ memory.HeapMaps frame)
    (user : (∀ index < kheapPagesCount, pageSlot memory index ≠ slot) → Place va) :
    HeapFrames Place managed (memory.installFrame slot frame va perm) := by
  have slots : ∀ index, pageSlot (memory.installFrame slot frame va perm) index =
      pageSlot memory index := pageSlot_congr rfl
  have nowPresent := memory.installFrame_present slot frame va perm
  have written := memory.installFrame_tables slot frame va perm
  have held : ((memory.installFrame slot frame va perm).tables slot).frame = frame := by simp
  have mappersEq : ∀ other, mappers (memory.installFrame slot frame va perm).tables other =
      if frame = other then insert slot (mappers memory.tables other)
      else mappers memory.tables other := by
    intro other
    rw [written, mappers_update_present _ _ _ _ absent]
    simpa using nowPresent
  have address : ∀ other, ((memory.installFrame slot frame va perm).frames other).kheapMappedVa =
      if other = frame then va else (memory.frames other).kheapMappedVa := by
    intro other
    by_cases same : other = frame
    · simp [Memory.installFrame, same]
    · simp [Memory.installFrame, Memory.setReferences, Memory.setEntry, same]
  have elsewhere : ∀ index, pageSlot memory index ≠ slot →
      heapEntry (memory.installFrame slot frame va perm) index = heapEntry memory index := by
    intro index different
    rw [heapEntry, slots, written, Function.update_of_ne different, heapEntry]
  have here : ∀ index, pageSlot memory index = slot →
      heapEntry (memory.installFrame slot frame va perm) index =
        (memory.installFrame slot frame va perm).tables slot := by
    intro index same
    rw [heapEntry, slots, same]
  refine ⟨kept.tables.congr rfl, ?_, ?_, ?_, ?_, ?_⟩
  · intro index inside
    by_cases same : pageSlot memory index = slot
    · obtain ⟨-, -, rfl⟩ := heap index inside same
      have clean := kept.clean index inside
      rw [heapEntry, same] at clean
      rw [here index same, written, Function.update_self]
      exact clean.installed frame
    · rw [elsewhere index same]
      exact kept.clean index inside
  · intro index inside present
    by_cases same : pageSlot memory index = slot
    · rw [here index same, held, mappersEq, if_pos rfl, (heap index inside same).2.1, slots, same,
        insert_empty_eq]
    · rw [elsewhere index same] at present ⊢
      have apart : frame ≠ (heapEntry memory index).frame := fun equal =>
        other ⟨index, inside, present, equal.symm⟩
      rw [mappersEq, if_neg apart, slots]
      exact kept.alone index inside present
  · intro index inside present
    by_cases same : pageSlot memory index = slot
    · rw [here index same, held, address, if_pos rfl]
      exact (heap index inside same).1
    · rw [elsewhere index same] at present ⊢
      have apart : (heapEntry memory index).frame ≠ frame := fun equal =>
        other ⟨index, inside, present, equal⟩
      rw [address, if_neg apart]
      exact kept.recorded index inside present
  · intro other' member unmapped
    rw [mappersEq] at unmapped
    by_cases same : frame = other'
    · rw [if_pos same] at unmapped
      exact absurd unmapped (Set.insert_nonempty ..).ne_empty
    · rw [if_neg same] at unmapped
      rw [address, if_neg (Ne.symm same)]
      exact kept.unmapped other' member unmapped
  · intro other' slot' mapper outside
    simp only [slots] at outside
    rw [mappersEq] at mapper
    rw [address]
    by_cases same : frame = other'
    · rw [if_pos same] at mapper
      rw [if_pos same.symm]
      apply user
      intro index inside equal
      obtain ⟨-, empty, -⟩ := heap index inside equal
      rw [← same, empty, insert_empty_eq, Set.mem_singleton_iff] at mapper
      exact outside index inside (equal.trans mapper.symm)
    · rw [if_neg same] at mapper
      rw [if_neg (Ne.symm same)]
      exact kept.user other' slot' mapper outside

/-- Unmapping a present entry clears the recorded address of its frame with the last mapping. -/
theorem unmapFrame_kheapMappedVa {directory : Nat}
    (invariant : FrameInvariant managed memory pending free)
    (located : memory.slot directory va = some slot) (mapper : slot ∈ mappers memory.tables frame)
    (other : Nat) :
    (other = frame ∧ mappers memory.tables frame ⊆ {slot} →
      ((memory.unmapFrame directory va).frames other).kheapMappedVa = 0) ∧
    (¬ (other = frame ∧ mappers memory.tables frame ⊆ {slot}) →
      ((memory.unmapFrame directory va).frames other).kheapMappedVa =
        (memory.frames other).kheapMappedVa) := by
  have present : (memory.tables slot).present = true := mapper.1
  have held : (memory.tables slot).frame = frame := mapper.2
  have member : frame ∈ managed := held ▸ invariant.mapped slot present
  have counted := invariant.counted frame member
  rw [← Set.ncard_sdiff_singleton_add_one mapper (invariant.finite frame)] at counted
  rw [Memory.unmapFrame_of_holdsFrame located (PageTableEntry.holdsFrame_of_present present), held,
    Memory.setEntry_frames, ← Set.sdiff_eq_empty]
  cases count : (mappers memory.tables frame \ {slot}).ncard with
  | zero =>
      rw [count] at counted
      have emptied := (Set.ncard_eq_zero (invariant.finite frame).sdiff).mp count
      rw [Memory.decrementReferences_of_one counted]
      by_cases same : other = frame
      · simp [Memory.freeFrame, Memory.initializeFrameInfo, same, emptied]
      · simp [Memory.freeFrame, Memory.initializeFrameInfo, same]
  | succ rest =>
      have mapped : mappers memory.tables frame \ {slot} ≠ ∅ := fun emptied => by
        simp [emptied] at count
      rw [count] at counted
      rw [Memory.decrementReferences_of_more counted]
      refine ⟨fun both => absurd both.2 mapped, fun _ => ?_⟩
      by_cases same : other = frame
      · simp [Memory.setReferences, same]
      · simp [Memory.setReferences, same]

/-- Unmapping a present entry. -/
theorem release {directory : Nat} (kept : HeapFrames Place managed memory)
    (invariant : FrameInvariant managed memory pending free)
    (located : memory.slot directory va = some slot)
    (present : (memory.tables slot).present = true) :
    HeapFrames Place managed (memory.unmapFrame directory va) := by
  have directories := memory.unmapFrame_directories directory va
  have slots := pageSlot_congr directories
  have written := Memory.unmapFrame_tables located
  rw [PageTableEntry.holdsFrame_of_present present, if_pos rfl] at written
  have mapper : slot ∈ mappers memory.tables (memory.tables slot).frame := ⟨present, rfl⟩
  have address := unmapFrame_kheapMappedVa invariant located mapper
  have mappersEq : ∀ other, mappers (memory.unmapFrame directory va).tables other =
      mappers memory.tables other \ {slot} := by
    intro other
    rw [written]
    exact mappers_update_absent _ _ _ _ (PageTableEntry.unmapped_not_present _)
  -- a heap page that stays present keeps its entry and shares its frame with nobody
  have still : ∀ index, (heapEntry (memory.unmapFrame directory va) index).present = true →
      pageSlot memory index ≠ slot ∧
        heapEntry (memory.unmapFrame directory va) index = heapEntry memory index := by
    intro index present'
    rw [heapEntry, slots, written] at present' ⊢
    by_cases same : pageSlot memory index = slot
    · rw [same, Function.update_self, PageTableEntry.unmapped_not_present] at present'
      cases present'
    · exact ⟨same, Function.update_of_ne same ..⟩
  refine ⟨kept.tables.congr directories, ?_, ?_, ?_, ?_, ?_⟩
  · intro index inside
    have clean := kept.clean index inside
    rw [heapEntry] at clean
    rw [heapEntry, slots, written]
    by_cases same : pageSlot memory index = slot
    · rw [same] at clean ⊢
      rw [Function.update_self]
      exact clean.unmapped
    · rwa [Function.update_of_ne same]
  · intro index inside present'
    obtain ⟨different, same⟩ := still index present'
    rw [same] at present' ⊢
    rw [mappersEq, kept.alone index inside present', slots]
    exact Set.sdiff_singleton_eq_self fun equal => different equal.symm
  · intro index inside present'
    obtain ⟨different, same⟩ := still index present'
    rw [same] at present' ⊢
    rw [(address _).2 fun both => kept.frame_ne inside present' mapper different both.1]
    exact kept.recorded index inside present'
  · intro other member unmapped
    rw [mappersEq, Set.sdiff_eq_empty] at unmapped
    by_cases last : other = (memory.tables slot).frame ∧
        mappers memory.tables (memory.tables slot).frame ⊆ {slot}
    · exact (address other).1 last
    · rw [(address other).2 last]
      apply kept.unmapped other member
      rw [Set.eq_empty_iff_forall_notMem]
      intro slot' mapper'
      obtain rfl : slot' = slot := unmapped mapper'
      exact last ⟨mapper'.2.symm, mapper'.2 ▸ unmapped⟩
  · intro other slot' mapper' outside
    simp only [slots] at outside
    rw [mappersEq] at mapper'
    rw [(address other).2 fun both => mapper'.2 (both.2 (both.1 ▸ mapper'.1))]
    exact kept.user other slot' mapper'.1 outside

end HeapFrames

/-- Store a new page table, cleared, in a page directory. -/
def Memory.linkTable (memory : Memory) (directory va table : Nat) : Memory :=
  { memory with
    directories := Function.update memory.directories directory
      (Function.update (memory.directories directory) (pdx va) (some table))
    tables := fun slot => if slot.1 = table then .zero else memory.tables slot }

/-- A page table that no directory holds and that maps nothing. -/
structure Memory.FreshTable (memory : Memory) (table : Nat) : Prop where
  unlinked : ∀ directory va, memory.getPageTable directory va ≠ some table
  empty : ∀ index, memory.tables (table, index) = .zero

/-- Storing a fresh page table changes no entry. -/
theorem Memory.FreshTable.linkTable_tables {memory : Memory} {table : Nat}
    (fresh : memory.FreshTable table) (directory va : Nat) :
    (memory.linkTable directory va table).tables = memory.tables := by
  funext slot
  change (if slot.1 = table then PageTableEntry.zero else memory.tables slot) = _
  split
  · rename_i same
    rw [← same] at fresh
    exact (fresh.empty slot.2).symm
  · rfl

/-- The references of the frames count their mappings, and the frames of the heap pages are
their own. -/
structure AddressMap (Place : Nat → Prop) (managed : Finset Nat) (memory : Memory)
    (pending : Finset Nat) : Prop where
  counted : ∃ free, FrameInvariant managed memory pending free
  frames : HeapFrames Place managed memory

namespace AddressMap

variable {Place : Nat → Prop} {managed pending : Finset Nat} {memory next : Memory}
  {directory frame va index : Nat} {perm : Perm}

/-- A frame without mappings is held by no heap page. -/
theorem not_heapMaps (unmapped : mappers memory.tables frame = ∅) : ¬ memory.HeapMaps frame := by
  intro ⟨index, _, present, held⟩
  have mapper : pageSlot memory index ∈ mappers memory.tables frame := ⟨present, held⟩
  rw [unmapped] at mapper
  exact mapper

theorem getPage (kept : AddressMap Place managed memory pending) (inside : index < kheapPagesCount)
    (mapped : getPage memory (heapVa index) = .ok next) :
    AddressMap Place managed next pending := by
  obtain ⟨free, invariant⟩ := kept.counted
  constructor
  · obtain ⟨code, allocated⟩ := getPage_eq_ok mapped
    exact invariant.allocPage allocated
  · have frames := kept.frames
    obtain ⟨-, rfl⟩ | ⟨absent, frame, taken, took, rfl⟩ :=
      getPage_cases frames.tables inside (frames.clean index inside) mapped
    · exact frames
    · obtain ⟨tables, directories, -⟩ := Memory.allocateFrame_spec took
      obtain ⟨frames', unmapped, -⟩ := frames.allocate invariant took
      rw [← tables] at unmapped
      have slots := pageSlot_congr directories
      rw [← slots] at *
      apply frames'.install
      · rw [tables, slots]
        exact absent
      · intro other below same
        rw [frames'.tables.pageSlot_inj below inside same]
        exact ⟨rfl, unmapped, rfl⟩
      · exact not_heapMaps unmapped
      · exact fun outside => absurd rfl (outside index inside)

theorem returnPage (kept : AddressMap Place managed memory pending)
    (inside : index < kheapPagesCount) :
    AddressMap Place managed (returnPage memory (heapVa index)) pending := by
  obtain ⟨free, invariant⟩ := kept.counted
  have frames := kept.frames
  have located := frames.tables.slot_eq inside
  have clean := frames.clean index inside
  rw [FosKernel.returnPage, roundDown_heapVa]
  constructor
  · apply invariant.unmapFrame
    intro entry found _
    rw [Memory.entry_eq located] at found
    obtain rfl := Option.some.inj found
    exact clean.1
  · cases present : (heapEntry memory index).present with
    | true => exact frames.release invariant located present
    | false =>
        rw [Memory.unmapFrame_of_not_holdsFrame located]
        · exact frames
        · rw [← heapEntry, clean.holdsFrame, present]

theorem pageMove (kept : AddressMap Place managed memory pending) (move : PageMove memory next) :
    AddressMap Place managed next pending := by
  cases move with
  | getPage inside mapped => exact kept.getPage inside mapped
  | returnPage inside => exact kept.returnPage inside
  | store bytes =>
      obtain ⟨free, invariant⟩ := kept.counted
      exact ⟨⟨free, invariant.congr rfl rfl rfl⟩,
        kept.frames.congr (fun _ _ => rfl) (kept.frames.tables.congr rfl) rfl fun _ => rfl⟩

theorem pageMoves (moves : PageMoves memory next) (kept : AddressMap Place managed memory pending) :
    AddressMap Place managed next pending :=
  @PageMoves.keep _ _ (fun memory => AddressMap Place managed memory pending) pageMove moves kept

theorem allocateFrame (kept : AddressMap Place managed memory pending)
    (allocated : memory.allocateFrame = some (frame, next)) :
    AddressMap Place managed next (insert frame pending) := by
  obtain ⟨free, invariant⟩ := kept.counted
  exact ⟨invariant.allocate allocated, (kept.frames.allocate invariant allocated).1⟩

/-- Mapping a frame that the heap does not hold at a user page. -/
theorem mapFrame (kept : AddressMap Place managed memory pending)
    (page : memory.UserPage directory va) (place : Place va) (other : ¬ memory.HeapMaps frame)
    (may : memory.MayMap pending directory frame va)
    (mapped : memory.mapFrame directory frame va perm = some next) :
    AddressMap Place managed next (pending.erase frame) := by
  obtain ⟨free, invariant⟩ := kept.counted
  refine ⟨invariant.mapFrame_of_mayMap may mapped, ?_⟩
  obtain ⟨-, slot, located, outside⟩ := page
  obtain ⟨slot', located', alternatives⟩ := Memory.mapFrame_cases mapped
  obtain rfl : slot' = slot := Option.some.inj (located'.symm.trans located)
  obtain ⟨-, -, rfl⟩ | ⟨present, -, rfl⟩ | ⟨absent, rfl⟩ := alternatives
  · exact kept.frames
  · have released := kept.frames.release invariant located present
    have slots := pageSlot_congr (memory.unmapFrame_directories directory va)
    have written := Memory.unmapFrame_tables located
    rw [PageTableEntry.holdsFrame_of_present present, if_pos rfl] at written
    apply released.install
    · rw [written, Function.update_self, PageTableEntry.unmapped_not_present]
    · intro index inside same
      exact absurd (slots index ▸ same) (outside index inside)
    · intro ⟨index, inside, present', held⟩
      rw [heapEntry, slots, written, Function.update_of_ne (outside index inside)] at present' held
      exact other ⟨index, inside, present', held⟩
    · exact fun _ => place
  · apply kept.frames.install absent _ other (fun _ => place)
    exact fun index inside same => absurd same (outside index inside)

theorem unmapFrame (kept : AddressMap Place managed memory pending)
    (page : memory.UserPage directory va)
    (regular : ∀ entry ∈ memory.entry directory va,
      entry.present = false → Perm.has entry.perm permBuffered = false) :
    AddressMap Place managed (memory.unmapFrame directory va) pending := by
  obtain ⟨free, invariant⟩ := kept.counted
  refine ⟨invariant.unmapFrame regular, ?_⟩
  obtain ⟨-, slot, located, -⟩ := page
  cases present : (memory.tables slot).present with
  | true => exact kept.frames.release invariant located present
  | false =>
      have empty := invariant.not_holdsFrame present (regular _ (Memory.entry_eq located) present)
      rw [Memory.unmapFrame_of_not_holdsFrame located empty]
      exact kept.frames

theorem allocPage {cr3 code : Nat} {setToZero : Bool}
    (kept : AddressMap Place managed memory pending) (page : memory.UserPage directory va)
    (place : Place va)
    (allocated : memory.allocPage cr3 directory va perm setToZero = some (next, code)) :
    AddressMap Place managed next pending := by
  obtain ⟨free, invariant⟩ := kept.counted
  refine ⟨invariant.allocPage allocated, ?_⟩
  obtain ⟨-, slot, located, outside⟩ := page
  obtain ⟨-, -, rfl⟩ | ⟨empty, -, frame, taken, bytes, took, rfl, -⟩ :=
    Memory.allocPage_cases located allocated
  · exact kept.frames
  · obtain ⟨tables, directories, -⟩ := Memory.allocateFrame_spec took
    obtain ⟨frames, unmapped, -⟩ := kept.frames.allocate invariant took
    rw [← tables] at unmapped
    have slots := pageSlot_congr directories
    have absent : (taken.tables slot).present = false := by
      rw [tables]
      exact PageTableEntry.not_present_of_not_holdsFrame empty
    have installed : HeapFrames Place managed (taken.installFrame slot frame va perm) := by
      apply frames.install absent _ (not_heapMaps unmapped) (fun _ => place)
      exact fun index inside same => absurd (slots index ▸ same) (outside index inside)
    exact installed.congr (fun _ _ => rfl) (installed.tables.congr rfl) rfl fun _ => rfl

/-- A fresh page table for an address that has none leaves every mapping alone. -/
theorem linkTable {table : Nat} (kept : AddressMap Place managed memory pending)
    (missing : memory.getPageTable directory va = none) (fresh : memory.FreshTable table) :
    AddressMap Place managed (memory.linkTable directory va table) pending := by
  obtain ⟨free, invariant⟩ := kept.counted
  have frames := kept.frames
  have entries := fresh.linkTable_tables directory va
  have slots : ∀ index < kheapPagesCount,
      (memory.linkTable directory va table).slot kernelDirectory (heapVa index) =
        memory.slot kernelDirectory (heapVa index) := by
    intro index inside
    obtain ⟨slot, located⟩ := frames.tables.located index inside
    have elsewhere : ¬ (kernelDirectory = directory ∧ pdx (heapVa index) = pdx va) := by
      intro ⟨same, same'⟩
      rw [Memory.slot, Memory.getPageTable, same, same', ← Memory.getPageTable,
        missing] at located
      cases located
    simp only [Memory.slot, Memory.getPageTable, Memory.linkTable]
    by_cases same : kernelDirectory = directory
    · rw [same, Function.update_self, Function.update_of_ne fun same' =>
        elsewhere ⟨same, same'⟩]
    · rw [Function.update_of_ne same]
  refine ⟨⟨free, invariant.congr rfl rfl entries⟩,
    frames.congr ?_ ⟨?_, ?_⟩ entries fun _ => rfl⟩
  · intro index inside
    rw [pageSlot, slots index inside, pageSlot]
  · intro index inside
    rw [slots index inside]
    exact frames.tables.located index inside
  · intro first below second below'
    rw [slots first below, slots second below']
    exact frames.tables.injective first below second below'

end AddressMap

end FosKernel
