import FosKernel.Lib.IntrusiveList
import FosKernel.Mem.PageTable

/-!
# The memory manager

Physical frames, the free frame list, page directories and page tables, with
the functions of `memory_manager.c` and `paging_helpers.c` that work on them.
A directory names its page tables, so that several directories can share one,
and the physical memory holds the bytes of every frame.

`map_frame` is the case in which the page table of the address exists; it
returns `none` where the source would create one. The direct map of low memory
that `boot_map_range` builds is no part of this state: no function here is
called for its addresses. A page table stays reachable in the kernel heap, so a
directory names it directly. TLB invalidation and the frame-list lock have no
counterpart.
-/

namespace FosKernel

/-- `struct FrameInfo` without its list links, which are part of the free list. -/
structure FrameInfo where
  references : Nat
  kheapMappedVa : Nat
  isBuffered : Bool
  deriving DecidableEq, Repr

/-- A page-table entry's place: the page table and the index in it. -/
abbrev Slot := Nat × Nat

/-- The state of the memory manager. -/
structure Memory where
  frames : Nat → FrameInfo
  freeFrameList : IntrusiveList Nat
  directories : Nat → Nat → Option Nat
  tables : Slot → PageTableEntry
  bytes : Nat → Nat → UInt8

namespace Memory

/-- A machine with a page table for every directory index, shared by all directories, in
which nothing is mapped and no frame is free. -/
def blank : Memory where
  frames := fun _ => ⟨0, 0, false⟩
  freeFrameList := ⟨none, none, 0, fun _ => none, fun _ => none⟩
  directories := fun _ index => some index
  tables := fun _ => .zero
  bytes := fun _ _ => 0

/-- `initialize_frame_info`: zero the descriptor, links included. -/
def initializeFrameInfo (memory : Memory) (frame : Nat) : Memory :=
  { memory with
    frames := Function.update memory.frames frame ⟨0, 0, false⟩
    freeFrameList := memory.freeFrameList.clearLinks frame }

/-- `allocate_frame`, or `none` when the kernel panics for lack of frames. -/
def allocateFrame (memory : Memory) : Option (Nat × Memory) :=
  match memory.freeFrameList.first with
  | none => none
  | some frame =>
      let memory := { memory with freeFrameList := memory.freeFrameList.remove frame }
      some (frame, memory.initializeFrameInfo frame)

/-- `free_frame`. -/
def freeFrame (memory : Memory) (frame : Nat) : Memory :=
  let memory := memory.initializeFrameInfo frame
  { memory with freeFrameList := memory.freeFrameList.insertHead frame }

/-- Store the reference count of a frame. -/
def setReferences (memory : Memory) (frame references : Nat) : Memory :=
  { memory with
    frames := Function.update memory.frames frame
      { memory.frames frame with references := references } }

/-- `decrement_references`. -/
def decrementReferences (memory : Memory) (frame : Nat) : Memory :=
  let references := pred16 (memory.frames frame).references
  let memory := memory.setReferences frame references
  if references = 0 then memory.freeFrame frame else memory

/-- `get_page_table`: the table that a directory holds for an address. -/
def getPageTable (memory : Memory) (directory va : Nat) : Option Nat :=
  memory.directories directory (pdx va)

/-- The slot of an address in its page table. -/
def slot (memory : Memory) (directory va : Nat) : Option Slot :=
  (memory.getPageTable directory va).map fun table => (table, ptx va)

/-- Store a page-table entry. -/
def setEntry (memory : Memory) (slot : Slot) (entry : PageTableEntry) : Memory :=
  { memory with tables := Function.update memory.tables slot entry }

/-- The entry of an address, when its page table exists. -/
def entry (memory : Memory) (directory va : Nat) : Option PageTableEntry :=
  (memory.slot directory va).map memory.tables

/-- `get_frame_info`. -/
def getFrameInfo (memory : Memory) (directory va : Nat) : Option Nat :=
  match memory.entry directory va with
  | none => none
  | some entry => if entry.holdsFrame then some entry.frame else none

/-- `unmap_frame`. -/
def unmapFrame (memory : Memory) (directory va : Nat) : Memory :=
  match memory.slot directory va, memory.getFrameInfo directory va with
  | some slot, some frame =>
      let memory := memory.decrementReferences frame
      memory.setEntry slot (memory.tables slot).unmapped
  | _, _ => memory

/-- The last steps of `map_frame`: count the reference, write the entry with the
available bits it had, and record the virtual address. -/
def installFrame (memory : Memory) (slot : Slot) (frame va : Nat) (perm : Perm) : Memory :=
  let memory := memory.setReferences frame (succ16 (memory.frames frame).references)
  let available := (memory.tables slot).perm &&& permAvailable
  let memory := memory.setEntry slot ⟨frame, available ||| perm ||| permPresent⟩
  { memory with
    frames := Function.update memory.frames frame
      { memory.frames frame with kheapMappedVa := va } }

/-- `map_frame` on an existing page table. -/
def mapFrame (memory : Memory) (directory frame va : Nat) (perm : Perm) : Option Memory :=
  match memory.slot directory va with
  | none => none
  | some slot =>
      let old := memory.tables slot
      if old.present then
        if old.frame = frame then some memory
        else some ((memory.unmapFrame directory va).installFrame slot frame va perm)
      else some (memory.installFrame slot frame va perm)

/-- The frame and offset that a present page translates an address to. -/
def translate (memory : Memory) (directory va : Nat) : Option (Nat × Nat) :=
  match memory.entry directory va with
  | none => none
  | some entry => if entry.present then some (entry.frame, pgoff va) else none

/-- Store a byte at a virtual address; an unmapped address is left alone. -/
def writeByte (memory : Memory) (directory va : Nat) (value : UInt8) : Memory :=
  match memory.translate directory va with
  | none => memory
  | some (frame, offset) =>
      { memory with
        bytes := Function.update memory.bytes frame
          (Function.update (memory.bytes frame) offset value) }

/-- Load a byte from a virtual address; an unmapped address reads as 0. -/
def readByte (memory : Memory) (directory va : Nat) : UInt8 :=
  match memory.translate directory va with
  | none => 0
  | some (frame, offset) => memory.bytes frame offset

/-- `memset` on a virtual address range. -/
def memset (memory : Memory) (directory va : Nat) (value : UInt8) : Nat → Memory
  | 0 => memory
  | count + 1 =>
      (memory.memset directory va value count).writeByte directory (add32 va count) value

/-- Copy one byte, or `none` when the access faults. -/
def copyByte (memory : Memory) (directory dst src : Nat) : Option Memory :=
  match memory.translate directory src, memory.translate directory dst with
  | some (source, sourceOffset), some (frame, offset) =>
      some { memory with
        bytes := Function.update memory.bytes frame
          (Function.update (memory.bytes frame) offset (memory.bytes source sourceOffset)) }
  | _, _ => none

/-- `memcpy` between virtual address ranges, in ascending order. -/
def memcpy (memory : Memory) (directory dst src : Nat) : Nat → Option Memory
  | 0 => some memory
  | count + 1 => (memory.memcpy directory dst src count).bind fun memory =>
      memory.copyByte directory (add32 dst count) (add32 src count)

/-- `alloc_page` on an existing page table, with its return value; `none` when
the kernel panics. `memset` writes through the directory in `cr3`. -/
def allocPage (memory : Memory) (cr3 directory va : Nat) (perms : Perm) (setToZero : Bool) :
    Option (Memory × Nat) :=
  match memory.getFrameInfo directory va with
  | some _ => some (memory, 1)
  | none =>
      match memory.allocateFrame with
      | none => none
      | some (frame, memory) =>
          match memory.mapFrame directory frame va perms with
          | none => none
          | some memory =>
              some (if setToZero then memory.memset cr3 va 0 pageSize else memory, 0)

/-- `pt_set_page_permissions`, or `none` when the kernel panics for lack of a table. -/
def ptSetPagePermissions (memory : Memory) (directory va : Nat) (set clear : Perm) :
    Option Memory :=
  match memory.slot directory va with
  | none => none
  | some slot => some (memory.setEntry slot ((memory.tables slot).setPerms set clear))

/-- `pt_get_page_permissions`; `none` stands for -1. -/
def ptGetPagePermissions (memory : Memory) (directory va : Nat) : Option Perm :=
  (memory.entry directory va).map PageTableEntry.perm

section Fields

variable (memory : Memory) (slot : Slot) (directory frame va references : Nat) (perm : Perm)
  (entry : PageTableEntry) (value : UInt8)

@[simp] theorem initializeFrameInfo_tables :
    (memory.initializeFrameInfo frame).tables = memory.tables := rfl

@[simp] theorem initializeFrameInfo_directories :
    (memory.initializeFrameInfo frame).directories = memory.directories := rfl

@[simp] theorem initializeFrameInfo_bytes :
    (memory.initializeFrameInfo frame).bytes = memory.bytes := rfl

@[simp] theorem freeFrame_tables : (memory.freeFrame frame).tables = memory.tables := rfl

@[simp] theorem freeFrame_directories :
    (memory.freeFrame frame).directories = memory.directories := rfl

@[simp] theorem freeFrame_bytes : (memory.freeFrame frame).bytes = memory.bytes := rfl

@[simp] theorem setEntry_tables :
    (memory.setEntry slot entry).tables = Function.update memory.tables slot entry := rfl

@[simp] theorem setEntry_directories :
    (memory.setEntry slot entry).directories = memory.directories := rfl

@[simp] theorem setEntry_bytes : (memory.setEntry slot entry).bytes = memory.bytes := rfl

@[simp] theorem setEntry_frames : (memory.setEntry slot entry).frames = memory.frames := rfl

@[simp] theorem setEntry_freeFrameList :
    (memory.setEntry slot entry).freeFrameList = memory.freeFrameList := rfl

@[simp] theorem decrementReferences_tables :
    (memory.decrementReferences frame).tables = memory.tables := by
  simp only [decrementReferences]
  split <;> rfl

@[simp] theorem decrementReferences_directories :
    (memory.decrementReferences frame).directories = memory.directories := by
  simp only [decrementReferences]
  split <;> rfl

@[simp] theorem decrementReferences_bytes :
    (memory.decrementReferences frame).bytes = memory.bytes := by
  simp only [decrementReferences]
  split <;> rfl

@[simp] theorem installFrame_tables :
    (memory.installFrame slot frame va perm).tables = Function.update memory.tables slot
      ⟨frame, (memory.tables slot).perm &&& permAvailable ||| perm ||| permPresent⟩ := rfl

@[simp] theorem installFrame_directories :
    (memory.installFrame slot frame va perm).directories = memory.directories := rfl

@[simp] theorem installFrame_bytes :
    (memory.installFrame slot frame va perm).bytes = memory.bytes := rfl

@[simp] theorem installFrame_freeFrameList :
    (memory.installFrame slot frame va perm).freeFrameList = memory.freeFrameList := rfl

@[simp] theorem installFrame_references (other : Nat) :
    ((memory.installFrame slot frame va perm).frames other).references =
      if other = frame then succ16 (memory.frames frame).references
      else (memory.frames other).references := by
  by_cases same : other = frame
  · subst same
    simp [installFrame, setReferences, setEntry]
  · simp [installFrame, setReferences, setEntry, same]

@[simp] theorem writeByte_tables : (memory.writeByte directory va value).tables =
    memory.tables := by
  unfold writeByte
  split <;> rfl

@[simp] theorem writeByte_directories :
    (memory.writeByte directory va value).directories = memory.directories := by
  unfold writeByte
  split <;> rfl

@[simp] theorem writeByte_frames : (memory.writeByte directory va value).frames =
    memory.frames := by
  unfold writeByte
  split <;> rfl

@[simp] theorem writeByte_freeFrameList :
    (memory.writeByte directory va value).freeFrameList = memory.freeFrameList := by
  unfold writeByte
  split <;> rfl

/-- `memset` changes only the contents of frames. -/
theorem memset_spec (count : Nat) :
    ∃ bytes, memory.memset directory va value count = { memory with bytes := bytes } := by
  induction count with
  | zero => exact ⟨memory.bytes, rfl⟩
  | succ count ih =>
      obtain ⟨bytes, same⟩ := ih
      rw [memset, same, writeByte]
      split
      · exact ⟨bytes, rfl⟩
      · exact ⟨_, rfl⟩

end Fields

/-- A slot depends only on the page directories. -/
theorem slot_congr {memory other : Memory} (same : memory.directories = other.directories)
    (directory va : Nat) : memory.slot directory va = other.slot directory va := by
  simp only [slot, getPageTable, same]

/-- Translation depends only on the page directories and tables. -/
theorem translate_congr {memory other : Memory} (directories : other.directories =
    memory.directories) (tables : other.tables = memory.tables) (directory va : Nat) :
    other.translate directory va = memory.translate directory va := by
  rw [translate, translate, entry, entry, slot_congr directories, tables]

/-- `memcpy` changes only the contents of frames. -/
theorem memcpy_spec {memory next : Memory} {directory dst src count : Nat}
    (copied : memory.memcpy directory dst src count = some next) :
    ∃ bytes, next = { memory with bytes := bytes } := by
  induction count generalizing next with
  | zero =>
      obtain rfl := Option.some.inj copied
      exact ⟨memory.bytes, rfl⟩
  | succ count ih =>
      obtain ⟨before, copied, last⟩ := Option.bind_eq_some_iff.mp copied
      obtain ⟨bytes, rfl⟩ := ih copied
      rw [copyByte] at last
      split at last
      · obtain rfl := Option.some.inj last
        exact ⟨_, rfl⟩
      · cases last

/-- `memcpy` between mapped addresses completes. -/
theorem memcpy_isSome {memory : Memory} {directory dst src count : Nat}
    (mappedDst : ∀ offset < count,
      (memory.translate directory (add32 dst offset)).isSome = true)
    (mappedSrc : ∀ offset < count,
      (memory.translate directory (add32 src offset)).isSome = true) :
    ∃ next, memory.memcpy directory dst src count = some next := by
  induction count with
  | zero => exact ⟨memory, rfl⟩
  | succ count ih =>
      obtain ⟨before, copied⟩ :=
        ih (fun offset less => mappedDst offset (Nat.lt_succ_of_lt less))
        (fun offset less => mappedSrc offset (Nat.lt_succ_of_lt less))
      obtain ⟨bytes, rfl⟩ := memcpy_spec copied
      obtain ⟨source, hasSource⟩ :=
        Option.isSome_iff_exists.mp (mappedSrc count (Nat.lt_succ_self _))
      obtain ⟨target, hasTarget⟩ :=
        Option.isSome_iff_exists.mp (mappedDst count (Nat.lt_succ_self _))
      refine ⟨{ memory with
        bytes := Function.update bytes target.1
          (Function.update (bytes target.1) target.2 (bytes source.1 source.2)) }, ?_⟩
      rw [memcpy, copied, Option.bind_some, copyByte]
      have same : ∀ va, ({ memory with bytes := bytes } : Memory).translate directory va =
          memory.translate directory va := translate_congr rfl rfl directory
      rw [same, same, hasSource, hasTarget]

/-- A `memcpy` that completes had its target mapped. -/
theorem mapped_of_memcpy {memory next : Memory} {directory dst src count : Nat}
    (copied : memory.memcpy directory dst src count = some next) (offset : Nat)
    (less : offset < count) :
    (memory.translate directory (add32 dst offset)).isSome = true := by
  induction count generalizing next with
  | zero => exact absurd less (Nat.not_lt_zero offset)
  | succ count ih =>
      obtain ⟨before, copied, last⟩ := Option.bind_eq_some_iff.mp copied
      by_cases same : offset = count
      · subst same
        obtain ⟨bytes, rfl⟩ := memcpy_spec copied
        rw [copyByte] at last
        split at last
        · rename_i target
          have same : ({ memory with bytes := bytes } : Memory).translate directory
            (add32 dst offset) =
              memory.translate directory (add32 dst offset) := translate_congr rfl rfl ..
          rw [← same, target]
          rfl
        · cases last
      · exact ih copied (Nat.lt_of_le_of_ne (Nat.le_of_lt_succ less) same)

/-- An installed entry is present. -/
theorem installFrame_present (memory : Memory) (slot : Slot) (frame va : Nat) (perm : Perm) :
    ((memory.installFrame slot frame va perm).tables slot).present = true := by
  rw [installFrame_tables, Function.update_self, PageTableEntry.present, Perm.has_or,
    show Perm.has permPresent permPresent = true by decide, Bool.or_true]

/-- Dropping the last reference frees the frame. -/
theorem decrementReferences_of_one {memory : Memory} {frame : Nat}
    (last : (memory.frames frame).references = 1) :
    memory.decrementReferences frame = memory.freeFrame frame := by
  simp [decrementReferences, last, pred16, freeFrame, initializeFrameInfo, setReferences]

/-- Dropping another reference only counts down. -/
theorem decrementReferences_of_more {memory : Memory} {frame count : Nat}
    (more : (memory.frames frame).references = count + 2) :
    memory.decrementReferences frame = memory.setReferences frame (count + 1) := by
  simp [decrementReferences, more, pred16]

theorem entry_eq {memory : Memory} {directory va : Nat} {slot : Slot}
    (located : memory.slot directory va = some slot) :
    memory.entry directory va = some (memory.tables slot) := by
  rw [entry, located, Option.map_some]

theorem getFrameInfo_eq {memory : Memory} {directory va : Nat} {slot : Slot}
    (located : memory.slot directory va = some slot) :
    memory.getFrameInfo directory va =
      if (memory.tables slot).holdsFrame then some (memory.tables slot).frame else none := by
  simp only [getFrameInfo, entry_eq located]

/-- `unmap_frame` on an entry that holds a frame. -/
theorem unmapFrame_of_holdsFrame {memory : Memory} {directory va : Nat} {slot : Slot}
    (located : memory.slot directory va = some slot)
    (holds : (memory.tables slot).holdsFrame = true) :
    memory.unmapFrame directory va =
      (memory.decrementReferences (memory.tables slot).frame).setEntry slot
        (memory.tables slot).unmapped := by
  simp only [unmapFrame, located, getFrameInfo_eq located, holds, ↓reduceIte,
    decrementReferences_tables]

/-- `unmap_frame` leaves an entry without a frame alone. -/
theorem unmapFrame_of_not_holdsFrame {memory : Memory} {directory va : Nat} {slot : Slot}
    (located : memory.slot directory va = some slot)
    (empty : (memory.tables slot).holdsFrame = false) :
    memory.unmapFrame directory va = memory := by
  simp only [unmapFrame, located, getFrameInfo_eq located, empty, Bool.false_eq_true, ↓reduceIte]

/-- `unmap_frame` does nothing without a page table. -/
theorem unmapFrame_of_not_located {memory : Memory} {directory va : Nat}
    (absent : memory.slot directory va = none) : memory.unmapFrame directory va = memory := by
  simp only [unmapFrame, absent]

@[simp] theorem unmapFrame_directories (memory : Memory) (directory va : Nat) :
    (memory.unmapFrame directory va).directories = memory.directories := by
  cases located : memory.slot directory va with
  | none => rw [unmapFrame_of_not_located located]
  | some slot =>
      cases holds : (memory.tables slot).holdsFrame with
      | true => simp [unmapFrame_of_holdsFrame located holds]
      | false => rw [unmapFrame_of_not_holdsFrame located holds]

@[simp] theorem unmapFrame_bytes (memory : Memory) (directory va : Nat) :
    (memory.unmapFrame directory va).bytes = memory.bytes := by
  cases located : memory.slot directory va with
  | none => rw [unmapFrame_of_not_located located]
  | some slot =>
      cases holds : (memory.tables slot).holdsFrame with
      | true => simp [unmapFrame_of_holdsFrame located holds]
      | false => rw [unmapFrame_of_not_holdsFrame located holds]

/-- `unmap_frame` changes only the entry of its address, which is no longer present. -/
theorem unmapFrame_tables {memory : Memory} {directory va : Nat} {slot : Slot}
    (located : memory.slot directory va = some slot) :
    (memory.unmapFrame directory va).tables = Function.update memory.tables slot
      (if (memory.tables slot).holdsFrame then (memory.tables slot).unmapped
        else memory.tables slot) := by
  cases holds : (memory.tables slot).holdsFrame with
  | true => simp [unmapFrame_of_holdsFrame located holds]
  | false => simp [unmapFrame_of_not_holdsFrame located holds]

/-- What `map_frame` does: nothing on a page that already maps the frame, else it
installs the frame, after unmapping another one that was present. -/
theorem mapFrame_cases {memory next : Memory} {directory frame va : Nat} {perm : Perm}
    (mapped : memory.mapFrame directory frame va perm = some next) :
    ∃ slot, memory.slot directory va = some slot ∧
      (((memory.tables slot).present = true ∧ (memory.tables slot).frame = frame ∧
          next = memory) ∨
        ((memory.tables slot).present = true ∧ (memory.tables slot).frame ≠ frame ∧
          next = (memory.unmapFrame directory va).installFrame slot frame va perm) ∨
        ((memory.tables slot).present = false ∧
          next = memory.installFrame slot frame va perm)) := by
  cases located : memory.slot directory va with
  | none => simp [mapFrame, located] at mapped
  | some slot =>
      refine ⟨slot, rfl, ?_⟩
      cases present : (memory.tables slot).present with
      | false =>
          simp only [mapFrame, located, present, Bool.false_eq_true, ↓reduceIte,
            Option.some.injEq] at mapped
          exact .inr (.inr ⟨rfl, mapped.symm⟩)
      | true =>
          by_cases same : (memory.tables slot).frame = frame
          · simp only [mapFrame, located, present, same, ↓reduceIte, Option.some.injEq] at mapped
            exact .inl ⟨rfl, same, mapped.symm⟩
          · simp only [mapFrame, located, present, same, ↓reduceIte, Option.some.injEq] at mapped
            exact .inr (.inl ⟨rfl, same, mapped.symm⟩)

/-- Mapping a frame at a page that is not present installs it. -/
theorem mapFrame_of_not_present {memory : Memory} {directory frame va : Nat} {perm : Perm}
    {slot : Slot} (located : memory.slot directory va = some slot)
    (absent : (memory.tables slot).present = false) :
    memory.mapFrame directory frame va perm = some (memory.installFrame slot frame va perm) := by
  simp only [mapFrame, located, absent, Bool.false_eq_true, ↓reduceIte]

/-- `allocate_frame` writes no page table and no frame contents. -/
theorem allocateFrame_spec {memory next : Memory} {frame : Nat}
    (allocated : memory.allocateFrame = some (frame, next)) :
    next.tables = memory.tables ∧ next.directories = memory.directories ∧
      next.bytes = memory.bytes := by
  rw [allocateFrame] at allocated
  split at allocated
  · cases allocated
  · obtain ⟨rfl, rfl⟩ := Prod.mk.inj (Option.some.inj allocated)
    exact ⟨rfl, rfl, rfl⟩

/-- `allocate_frame` takes the first free frame and resets its descriptor. -/
theorem allocateFrame_cases {memory next : Memory} {frame : Nat} {free : List Nat}
    (represents : memory.freeFrameList.Represents free)
    (allocated : memory.allocateFrame = some (frame, next)) :
    ∃ rest, free = frame :: rest ∧ next.freeFrameList.Represents rest ∧
      next.frames = Function.update memory.frames frame ⟨0, 0, false⟩ := by
  cases free with
  | nil =>
      have first := represents.first_eq
      rw [List.head?_nil] at first
      simp [allocateFrame, first] at allocated
  | cons head rest =>
      have first := represents.first_eq
      rw [List.head?_cons] at first
      simp only [allocateFrame, first, Option.some.injEq, Prod.mk.injEq] at allocated
      obtain ⟨rfl, rfl⟩ := allocated
      have split : memory.freeFrameList.Represents ([] ++ head :: rest) := represents
      have removed : (memory.freeFrameList.remove head).Represents rest := split.remove
      exact ⟨rest, rfl, removed.clearLinks (List.nodup_cons.mp represents.nodup).1, rfl⟩

/-- `alloc_page` needs a page table. -/
theorem allocPage_of_not_located {memory : Memory} {directory va : Nat}
    (absent : memory.slot directory va = none) (cr3 : Nat) (perms : Perm) (setToZero : Bool) :
    memory.allocPage cr3 directory va perms setToZero = none := by
  simp only [allocPage, getFrameInfo, entry, absent, Option.map_none]
  cases took : memory.allocateFrame with
  | none => rfl
  | some result =>
      obtain ⟨frame, taken⟩ := result
      obtain ⟨-, directories, -⟩ := allocateFrame_spec took
      simp only [mapFrame, slot_congr directories, absent]

/-- `alloc_page` leaves a page that holds a frame alone, and otherwise allocates a frame,
installs it and, on request, overwrites bytes only. -/
theorem allocPage_cases {memory next : Memory} {cr3 directory va code : Nat} {perms : Perm}
    {setToZero : Bool} {slot : Slot}
    (located : memory.slot directory va = some slot)
    (allocated : memory.allocPage cr3 directory va perms setToZero = some (next, code)) :
    ((memory.tables slot).holdsFrame = true ∧ code = 1 ∧ next = memory) ∨
      ((memory.tables slot).holdsFrame = false ∧ code = 0 ∧ ∃ frame taken bytes,
        memory.allocateFrame = some (frame, taken) ∧
          next = { taken.installFrame slot frame va perms with bytes := bytes } ∧
          (setToZero = false → bytes = memory.bytes)) := by
  rw [allocPage, getFrameInfo_eq located] at allocated
  cases holds : (memory.tables slot).holdsFrame with
  | true =>
      simp only [holds, ↓reduceIte, Option.some.injEq, Prod.mk.injEq] at allocated
      exact .inl ⟨rfl, allocated.2.symm, allocated.1.symm⟩
  | false =>
      right
      simp only [holds, Bool.false_eq_true, ↓reduceIte] at allocated
      cases took : memory.allocateFrame with
      | none => simp [took] at allocated
      | some result =>
          obtain ⟨frame, taken⟩ := result
          obtain ⟨tables, directories, contents⟩ := allocateFrame_spec took
          have located' : taken.slot directory va = some slot := by
            rw [slot_congr directories, located]
          have absent : (taken.tables slot).present = false := by
            rw [tables]
            exact PageTableEntry.not_present_of_not_holdsFrame holds
          simp only [took, mapFrame_of_not_present located' absent, Option.some.injEq,
            Prod.mk.injEq] at allocated
          obtain ⟨stored, code⟩ := allocated
          cases setToZero with
          | false => exact ⟨rfl, code.symm, frame, taken, _, rfl, stored.symm,
            fun _ => contents⟩
          | true =>
              obtain ⟨bytes, zeroed⟩ :=
                memset_spec (taken.installFrame slot frame va perms) cr3 va 0 pageSize
              rw [if_pos rfl, zeroed] at stored
              exact ⟨rfl, code.symm, frame, taken, bytes, rfl, stored.symm, nofun⟩

theorem freeFrame_first (memory : Memory) (frame : Nat) :
    (memory.freeFrame frame).freeFrameList.first = some frame := by
  unfold freeFrame IntrusiveList.insertHead
  dsimp only
  split <;> rfl

/-- Freeing the first free frame links it to itself. -/
theorem freeFrame_of_first (memory : Memory) {frame : Nat}
    (first : memory.freeFrameList.first = some frame) :
    (memory.freeFrame frame).freeFrameList.next frame = some frame :=
  IntrusiveList.next_of_insertHead_first first

/-- `free_frame` puts a frame in front of the free frames and resets its descriptor. -/
theorem freeFrame_represents {memory : Memory} {frame : Nat} {free : List Nat}
    (represents : memory.freeFrameList.Represents free) (outside : frame ∉ free) :
    (memory.freeFrame frame).freeFrameList.Represents (frame :: free) :=
  (represents.clearLinks outside).insertHead outside

/-- `decrement_references` puts its frame in front of the free frames, or leaves them alone. -/
theorem decrementReferences_represents {memory : Memory} {frame : Nat} {free : List Nat}
    (represents : memory.freeFrameList.Represents free) (outside : frame ∉ free) :
    ∃ free', (memory.decrementReferences frame).freeFrameList.Represents free' ∧
      (free' = frame :: free ∨ free' = free) := by
  simp only [decrementReferences]
  split
  · exact ⟨frame :: free, freeFrame_represents represents outside, .inl rfl⟩
  · exact ⟨free, represents, .inr rfl⟩

end Memory

end FosKernel
