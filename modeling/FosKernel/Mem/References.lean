import Mathlib.Data.Set.Card
import Mathlib.Logic.Relation
import Mathlib.Order.Interval.Finset.Nat
import FosKernel.Mem.Memory

/-!
# Reference counts and the free frame list

The accounting of physical frames over runs of `allocate_frame`, `map_frame`,
`unmap_frame` and `alloc_page`, from the state that `initialize_paging` builds.
A frame handed out by `allocate_frame` is pending until it is mapped.
-/

namespace FosKernel

/-- The page-table entries that are `PRESENT` and hold a frame. -/
def mappers (tables : Slot → PageTableEntry) (frame : Nat) : Set Slot :=
  {slot | (tables slot).present = true ∧ (tables slot).frame = frame}

/-- `PHYS_IO_MEM` and `PHYS_EXTENDED_MEM` as frame numbers. -/
def physIOMemFrame : Nat := 0x0A0000 / pageSize
def physExtendedMemFrame : Nat := 0x100000 / pageSize

namespace Memory

/-- `initialize_paging`, with the frame after the kernel image and
`number_of_frames`. The page file is initialised on its own. -/
def initializePaging (memory : Memory) (kernelEnd numberOfFrames : Nat) : Memory :=
  let memory := { memory with freeFrameList := memory.freeFrameList.init }
  let memory := [0, 1, 2].foldl (fun memory frame => memory.setReferences frame 1) memory
  let memory := { memory with
    bytes := fun frame offset =>
      if (frame = 1 ∨ frame = 2) ∧ offset < 1024 then 0 else memory.bytes frame offset }
  -- initialising a descriptor and inserting it at the head is the body of `free_frame`
  let memory := (List.range' 3 (physIOMemFrame - 3)).foldl freeFrame memory
  let memory := (List.range' physIOMemFrame (physExtendedMemFrame - physIOMemFrame)).foldl
    (fun memory frame => memory.setReferences frame 1) memory
  let memory := (List.range' physExtendedMemFrame (kernelEnd - physExtendedMemFrame)).foldl
    (fun memory frame => memory.setReferences frame 1) memory
  (List.range' kernelEnd (numberOfFrames - kernelEnd)).foldl freeFrame memory

end Memory

/-- The frames that `initialize_paging` puts under management. -/
def managedFrames (kernelEnd numberOfFrames : Nat) : Finset Nat :=
  Finset.Ico 3 physIOMemFrame ∪ Finset.Ico kernelEnd numberOfFrames

/-- The memory manager together with the frames that are handed out and not mapped. -/
structure FrameManager where
  memory : Memory
  pending : Finset Nat

/-- The calls of the memory manager. -/
inductive FrameCall where
  | allocateFrame
  | mapFrame (directory frame va : Nat) (perm : Perm)
  | unmapFrame (directory va : Nat)
  | allocPage (cr3 directory va : Nat) (perms : Perm) (setToZero : Bool)

namespace FrameManager

/-- Execute a call; `none` is a kernel panic. -/
def exec (manager : FrameManager) : FrameCall → Option FrameManager
  | .allocateFrame =>
      manager.memory.allocateFrame.map fun (frame, memory) =>
        ⟨memory, insert frame manager.pending⟩
  | .mapFrame directory frame va perm =>
      (manager.memory.mapFrame directory frame va perm).map fun memory =>
        ⟨memory, manager.pending.erase frame⟩
  | .unmapFrame directory va => some ⟨manager.memory.unmapFrame directory va, manager.pending⟩
  | .allocPage cr3 directory va perms setToZero =>
      (manager.memory.allocPage cr3 directory va perms setToZero).map fun (memory, _) =>
        ⟨memory, manager.pending⟩

/-- The page tables of a call exist, and `map_frame` gets a frame that was just
allocated or is mapped somewhere. -/
def Legal (manager : FrameManager) : FrameCall → Prop
  | .allocateFrame => True
  | .mapFrame directory frame va _ =>
      (manager.memory.slot directory va).isSome = true ∧
        (frame ∈ manager.pending ∨ (mappers manager.memory.tables frame).Nonempty)
  | .unmapFrame directory va => (manager.memory.slot directory va).isSome = true
  | .allocPage _ directory va _ _ => (manager.memory.slot directory va).isSome = true

/-- `unmap_frame` is not called for a page that is absent and still marked buffered. -/
def Unbuffered (manager : FrameManager) : FrameCall → Prop
  | .unmapFrame directory va => ∀ entry ∈ manager.memory.entry directory va,
      entry.present = false → Perm.has entry.perm permBuffered = false
  | _ => True

/-- A call that is legal, does not panic, and leaves every frame with at most 65535 mappings. -/
structure Step (manager : FrameManager) (call : FrameCall) (next : FrameManager) : Prop where
  legal : manager.Legal call
  executed : manager.exec call = some next
  few : ∀ frame, (mappers next.memory.tables frame).ncard < 2 ^ 16

/-- The references of every managed frame count its mappings, the free frame list is a
well-formed list of unreferenced and unmapped frames, and no managed frame is lost. -/
structure Accounted (managed : Finset Nat) (manager : FrameManager) : Prop where
  counted : ∀ frame ∈ managed,
    (manager.memory.frames frame).references = (mappers manager.memory.tables frame).ncard
  listed : ∃ free, manager.memory.freeFrameList.Represents free ∧
    (∀ frame ∈ free, (manager.memory.frames frame).references = 0 ∧
      mappers manager.memory.tables frame = ∅) ∧
    ∀ frame ∈ managed, frame ∈ free ∨ (mappers manager.memory.tables frame).Nonempty ∨
      frame ∈ manager.pending

end FrameManager

/-- The accounting invariant, with the sequence on the free frame list. -/
structure FrameInvariant (managed : Finset Nat) (memory : Memory) (pending : Finset Nat)
    (free : List Nat) : Prop where
  represents : memory.freeFrameList.Represents free
  counted : ∀ frame ∈ managed,
    (memory.frames frame).references = (mappers memory.tables frame).ncard
  finite : ∀ frame, (mappers memory.tables frame).Finite
  absent_frame : ∀ slot, (memory.tables slot).present = false → (memory.tables slot).frame = 0
  mapped : ∀ slot, (memory.tables slot).present = true → (memory.tables slot).frame ∈ managed
  handedOut : ∀ frame ∈ pending, frame ∈ managed ∧ mappers memory.tables frame = ∅
  mem_free : ∀ frame, frame ∈ free ↔
    frame ∈ managed ∧ mappers memory.tables frame = ∅ ∧ frame ∉ pending

/-- `map_frame` gets a frame that is handed out or mapped, and its references can count one more
mapping at the address. -/
structure Memory.MayMap (memory : Memory) (pending : Finset Nat) (directory frame va : Nat) :
    Prop where
  used : frame ∈ pending ∨ (mappers memory.tables frame).Nonempty
  countable : ∀ slot, memory.slot directory va = some slot →
    (insert slot (mappers memory.tables frame)).ncard < 2 ^ 16

section Mappers

variable (tables : Slot → PageTableEntry) (slot : Slot) (entry : PageTableEntry) (frame : Nat)

/-- Writing an absent entry removes its slot from the mappers of every frame. -/
theorem mappers_update_absent (absent : entry.present = false) :
    mappers (Function.update tables slot entry) frame = mappers tables frame \ {slot} := by
  ext other
  by_cases same : other = slot
  · subst same
    simp [mappers, absent]
  · simp [mappers, same]

/-- Writing a present entry over an absent one adds its slot to the mappers of its frame. -/
theorem mappers_update_present (absent : (tables slot).present = false)
    (present : entry.present = true) :
    mappers (Function.update tables slot entry) frame =
      if entry.frame = frame then insert slot (mappers tables frame)
      else mappers tables frame := by
  ext other
  by_cases same : other = slot
  · subst same
    by_cases held : entry.frame = frame <;> simp [mappers, absent, present, held]
  · by_cases held : entry.frame = frame <;> simp [mappers, same, held]

/-- `map_frame` adds at most its own entry to the mappers of its frame. -/
theorem mappers_mapFrame {memory next : Memory} {directory frame va : Nat} {perm : Perm}
    (mapped : memory.mapFrame directory frame va perm = some next) :
    ∃ slot, memory.slot directory va = some slot ∧
      mappers next.tables frame ⊆ insert slot (mappers memory.tables frame) := by
  obtain ⟨slot, located, alternatives⟩ := Memory.mapFrame_cases mapped
  refine ⟨slot, located, fun other mapper => ?_⟩
  by_cases same : other = slot
  · exact .inl same
  · have kept : next.tables other = memory.tables other := by
      obtain ⟨-, -, rfl⟩ | ⟨-, -, rfl⟩ | ⟨-, rfl⟩ := alternatives
      · rfl
      · rw [Memory.installFrame_tables, Function.update_of_ne same,
          Memory.unmapFrame_tables located, Function.update_of_ne same]
      · rw [Memory.installFrame_tables, Function.update_of_ne same]
    obtain ⟨present, held⟩ := mapper
    rw [kept] at present held
    exact .inr ⟨present, held⟩

end Mappers

namespace FrameInvariant

variable {managed pending : Finset Nat} {memory : Memory} {free : List Nat} {slot : Slot}
  {frame : Nat}

/-- The invariant does not depend on the contents of the frames. -/
theorem congr {other : Memory} (invariant : FrameInvariant managed memory pending free)
    (frames : other.frames = memory.frames)
    (freeFrameList : other.freeFrameList = memory.freeFrameList)
    (tables : other.tables = memory.tables) : FrameInvariant managed other pending free := by
  obtain ⟨represents, counted, finite, absent, mapped, handedOut, listed⟩ := invariant
  constructor
  · rwa [freeFrameList]
  · rwa [frames, tables]
  · rwa [tables]
  · rwa [tables]
  · rwa [tables]
  · rwa [tables]
  · rwa [tables]

/-- `allocate_frame` moves the first free frame to the pending ones. -/
theorem allocate {next : Memory} (invariant : FrameInvariant managed memory pending free)
    (allocated : memory.allocateFrame = some (frame, next)) :
    ∃ rest, FrameInvariant managed next (insert frame pending) rest := by
  obtain ⟨rest, rfl, represents, frames⟩ :=
    Memory.allocateFrame_cases invariant.represents allocated
  obtain ⟨tables, -, -⟩ := Memory.allocateFrame_spec allocated
  have first := (invariant.mem_free frame).mp (List.mem_cons_self ..)
  have fresh : frame ∉ rest := (List.nodup_cons.mp invariant.represents.nodup).1
  refine ⟨rest, represents, ?_, ?_, ?_, ?_, ?_, ?_⟩
  · intro other member
    rw [frames, tables]
    by_cases same : other = frame
    · subst same
      rw [Function.update_self, first.2.1, Set.ncard_empty]
    · rw [Function.update_of_ne same]
      exact invariant.counted other member
  · rw [tables]
    exact invariant.finite
  · rw [tables]
    exact invariant.absent_frame
  · rw [tables]
    exact invariant.mapped
  · intro other member
    rw [tables]
    cases Finset.mem_insert.mp member with
    | inl same =>
        subst same
        exact ⟨first.1, first.2.1⟩
    | inr old => exact invariant.handedOut other old
  · intro other
    rw [tables, Finset.mem_insert, not_or]
    have listed := invariant.mem_free other
    rw [List.mem_cons] at listed
    by_cases same : other = frame
    · subst same
      simp [fresh]
    · simp only [same, false_or] at listed
      simp only [same, not_false_eq_true, true_and, listed]

/-- The last steps of `map_frame` turn a pending or mapped frame into one with one more mapping. -/
theorem install {va : Nat} {perm : Perm} (invariant : FrameInvariant managed memory pending free)
    (absent : (memory.tables slot).present = false)
    (given : frame ∈ pending ∨ (mappers memory.tables frame).Nonempty)
    (few : (mappers (memory.installFrame slot frame va perm).tables frame).ncard < 2 ^ 16) :
    FrameInvariant managed (memory.installFrame slot frame va perm) (pending.erase frame)
      free := by
  have member : frame ∈ managed := by
    cases given with
    | inl handed => exact (invariant.handedOut frame handed).1
    | inr inhabited =>
        obtain ⟨other, present, held⟩ := inhabited
        rw [← held]
        exact invariant.mapped other present
  have notFree : frame ∉ free := by
    intro listed
    obtain ⟨-, unmapped, unhanded⟩ := (invariant.mem_free frame).mp listed
    cases given with
    | inl handed => exact unhanded handed
    | inr inhabited => exact inhabited.ne_empty unmapped
  have fresh : slot ∉ mappers memory.tables frame := fun held => by
    simp [mappers, absent] at held
  have nowPresent := memory.installFrame_present slot frame va perm
  have held : ((memory.installFrame slot frame va perm).tables slot).frame = frame := by simp
  have mappersEq : ∀ other, mappers (memory.installFrame slot frame va perm).tables other =
      if frame = other then insert slot (mappers memory.tables other)
      else mappers memory.tables other := by
    intro other
    rw [Memory.installFrame_tables, mappers_update_present _ _ _ _ absent]
    simpa using nowPresent
  have added : (mappers (memory.installFrame slot frame va perm).tables frame).ncard =
      (mappers memory.tables frame).ncard + 1 := by
    rw [mappersEq, if_pos rfl, Set.ncard_insert_of_notMem fresh (invariant.finite frame)]
  constructor
  · exact invariant.represents
  · intro other counted
    rw [Memory.installFrame_references]
    by_cases same : other = frame
    · subst same
      rw [if_pos rfl, invariant.counted other counted, added, succ16, Nat.mod_eq_of_lt]
      rwa [added] at few
    · rw [if_neg same, mappersEq, if_neg (Ne.symm same)]
      exact invariant.counted other counted
  · intro other
    rw [mappersEq]
    split
    · exact (invariant.finite other).insert slot
    · exact invariant.finite other
  · intro other nonpresent
    have different : other ≠ slot := by
      intro same
      rw [same, nowPresent] at nonpresent
      cases nonpresent
    rw [Memory.installFrame_tables, Function.update_of_ne different] at nonpresent ⊢
    exact invariant.absent_frame other nonpresent
  · intro other present
    by_cases same : other = slot
    · rw [same, held]
      exact member
    · rw [Memory.installFrame_tables, Function.update_of_ne same] at present ⊢
      exact invariant.mapped other present
  · intro other handed
    obtain ⟨different, old⟩ := Finset.mem_erase.mp handed
    rw [mappersEq, if_neg (Ne.symm different)]
    exact invariant.handedOut other old
  · intro other
    rw [mappersEq]
    by_cases same : other = frame
    · subst same
      rw [if_pos rfl]
      have inhabited := (Set.insert_nonempty slot (mappers memory.tables other)).ne_empty
      exact ⟨fun listed => absurd listed notFree, fun kept => absurd kept.2.1 inhabited⟩
    · rw [if_neg (Ne.symm same), invariant.mem_free other]
      simp [same]

/-- Withdrawing a mapping keeps the invariant when the frame is counted down and, without
other mappings, freed. -/
theorem withdraw {next : Memory} {free' : List Nat}
    (invariant : FrameInvariant managed memory pending free)
    (mapper : slot ∈ mappers memory.tables frame)
    (tables : next.tables =
      Function.update memory.tables slot (memory.tables slot).unmapped)
    (represents : next.freeFrameList.Represents free')
    (counted : (next.frames frame).references = (mappers memory.tables frame \ {slot}).ncard)
    (others : ∀ other, other ≠ frame → next.frames other = memory.frames other)
    (freed : ∀ other, other ∈ free' ↔
      other ∈ free ∨ other = frame ∧ mappers memory.tables frame \ {slot} = ∅) :
    FrameInvariant managed next pending free' := by
  have member : frame ∈ managed := mapper.2 ▸ invariant.mapped slot mapper.1
  have mappersEq : ∀ other,
      mappers next.tables other = mappers memory.tables other \ {slot} := by
    intro other
    rw [tables]
    exact mappers_update_absent _ _ _ _ (PageTableEntry.unmapped_not_present _)
  have mappersOther : ∀ other, other ≠ frame →
      mappers memory.tables other \ {slot} = mappers memory.tables other := by
    intro other different
    apply Set.sdiff_singleton_eq_self
    intro mapped
    exact different (mapped.2.symm.trans mapper.2)
  constructor
  · exact represents
  · intro other managed
    rw [mappersEq]
    by_cases same : other = frame
    · rw [same]
      exact counted
    · rw [others other same, mappersOther other same]
      exact invariant.counted other managed
  · intro other
    rw [mappersEq]
    exact (invariant.finite other).sdiff
  · intro other
    rw [tables]
    by_cases same : other = slot
    · subst same
      simp [PageTableEntry.unmapped]
    · rw [Function.update_of_ne same]
      exact invariant.absent_frame other
  · intro other
    rw [tables]
    by_cases same : other = slot
    · subst same
      simp
    · rw [Function.update_of_ne same]
      exact invariant.mapped other
  · intro other handed
    obtain ⟨managed, unmapped⟩ := invariant.handedOut other handed
    rw [mappersEq, unmapped]
    exact ⟨managed, Set.empty_sdiff _⟩
  · intro other
    rw [freed, mappersEq]
    by_cases same : other = frame
    · subst same
      have mapped : mappers memory.tables other ≠ ∅ := Set.Nonempty.ne_empty ⟨slot, mapper⟩
      have unhanded : other ∉ pending := fun handed =>
        mapped (invariant.handedOut other handed).2
      simp [invariant.mem_free other, mapped, member, unhanded]
    · rw [mappersOther other same]
      simp [same, invariant.mem_free other]

/-- `unmap_frame` of a present page takes away one mapping, and frees the frame with its last
one. -/
theorem release {directory va : Nat} (invariant : FrameInvariant managed memory pending free)
    (located : memory.slot directory va = some slot)
    (present : (memory.tables slot).present = true) :
    ∃ free', FrameInvariant managed (memory.unmapFrame directory va) pending free' := by
  rw [Memory.unmapFrame_of_holdsFrame located (PageTableEntry.holdsFrame_of_present present)]
  generalize held : (memory.tables slot).frame = frame
  have mapper : slot ∈ mappers memory.tables frame := ⟨present, held⟩
  have member : frame ∈ managed := held ▸ invariant.mapped slot present
  have counted := invariant.counted frame member
  have removed := Set.ncard_sdiff_singleton_add_one mapper (invariant.finite frame)
  rw [← removed] at counted
  cases count : (mappers memory.tables frame \ {slot}).ncard with
  | zero =>
      rw [count] at counted
      rw [Memory.decrementReferences_of_one counted]
      have notFree : frame ∉ free := fun listed =>
        Set.Nonempty.ne_empty ⟨slot, mapper⟩ ((invariant.mem_free frame).mp listed).2.1
      have emptied := (Set.ncard_eq_zero (invariant.finite frame).sdiff).mp count
      refine ⟨frame :: free, invariant.withdraw mapper rfl
        (Memory.freeFrame_represents invariant.represents notFree) ?_ ?_ ?_⟩
      · rw [count]
        simp [Memory.freeFrame, Memory.initializeFrameInfo]
      · intro other different
        simp [Memory.freeFrame, Memory.initializeFrameInfo, different]
      · intro other
        simp [emptied, or_comm]
  | succ rest =>
      rw [count] at counted
      rw [Memory.decrementReferences_of_more counted]
      have mapped : mappers memory.tables frame \ {slot} ≠ ∅ := fun emptied => by
        simp [emptied] at count
      refine ⟨free, invariant.withdraw mapper rfl invariant.represents ?_ ?_ ?_⟩
      · rw [count]
        simp [Memory.setReferences]
      · intro other different
        simp [Memory.setReferences, different]
      · intro other
        simp [mapped]

/-- An absent entry that is not buffered holds no frame. -/
theorem not_holdsFrame (invariant : FrameInvariant managed memory pending free)
    (absent : (memory.tables slot).present = false)
    (regular : Perm.has (memory.tables slot).perm permBuffered = false) :
    (memory.tables slot).holdsFrame = false := by
  have frame := invariant.absent_frame slot absent
  rw [PageTableEntry.present] at absent
  simp [PageTableEntry.holdsFrame, Perm.has_mask_or, absent, regular, frame]

/-- `unmap_frame` keeps the invariant on a page that is present or not buffered. -/
theorem unmapFrame {directory va : Nat} (invariant : FrameInvariant managed memory pending free)
    (regular : ∀ entry ∈ memory.entry directory va,
      entry.present = false → Perm.has entry.perm permBuffered = false) :
    ∃ free', FrameInvariant managed (memory.unmapFrame directory va) pending free' := by
  cases located : memory.slot directory va with
  | none =>
      rw [Memory.unmapFrame_of_not_located located]
      exact ⟨free, invariant⟩
  | some slot =>
      cases present : (memory.tables slot).present with
      | true => exact invariant.release located present
      | false =>
          have empty :=
            invariant.not_holdsFrame present (regular _ (Memory.entry_eq located) present)
          rw [Memory.unmapFrame_of_not_holdsFrame located empty]
          exact ⟨free, invariant⟩

/-- `map_frame` of a pending or mapped frame keeps the invariant while its mappings are few. -/
theorem mapFrame {next : Memory} {directory va : Nat} {perm : Perm}
    (invariant : FrameInvariant managed memory pending free)
    (given : frame ∈ pending ∨ (mappers memory.tables frame).Nonempty)
    (mapped : memory.mapFrame directory frame va perm = some next)
    (few : (mappers next.tables frame).ncard < 2 ^ 16) :
    ∃ free', FrameInvariant managed next (pending.erase frame) free' := by
  obtain ⟨slot, located, alternatives⟩ := Memory.mapFrame_cases mapped
  obtain same | replaced | fresh := alternatives
  · obtain ⟨present, held, rfl⟩ := same
    have mapped : (mappers next.tables frame).Nonempty := ⟨slot, present, held⟩
    have unhanded : frame ∉ pending := fun handed =>
      mapped.ne_empty (invariant.handedOut frame handed).2
    rw [Finset.erase_eq_of_notMem unhanded]
    exact ⟨free, invariant⟩
  · obtain ⟨present, different, rfl⟩ := replaced
    obtain ⟨free', released⟩ := invariant.release located present
    have unmapped := Memory.unmapFrame_tables located
    rw [PageTableEntry.holdsFrame_of_present present, if_pos rfl] at unmapped
    have absent : ((memory.unmapFrame directory va).tables slot).present = false := by
      rw [unmapped, Function.update_self, PageTableEntry.unmapped_not_present]
    have given' : frame ∈ pending ∨
        (mappers (memory.unmapFrame directory va).tables frame).Nonempty := by
      apply given.imp_right
      intro ⟨other, present', held⟩
      have apart : other ≠ slot := fun same => different (same ▸ held)
      refine ⟨other, ?_, ?_⟩ <;> rw [unmapped, Function.update_of_ne apart] <;> assumption
    exact ⟨free', released.install absent given' few⟩
  · obtain ⟨absent, rfl⟩ := fresh
    exact ⟨free, invariant.install absent given few⟩

/-- `map_frame` keeps the invariant where the frame is in use and the mapping can be counted. -/
theorem mapFrame_of_mayMap {next : Memory} {directory va : Nat} {perm : Perm}
    (invariant : FrameInvariant managed memory pending free)
    (may : memory.MayMap pending directory frame va)
    (mapped : memory.mapFrame directory frame va perm = some next) :
    ∃ free', FrameInvariant managed next (pending.erase frame) free' := by
  apply invariant.mapFrame may.used mapped
  obtain ⟨slot, located, subset⟩ := mappers_mapFrame mapped
  exact Nat.lt_of_le_of_lt (Set.ncard_le_ncard subset ((invariant.finite frame).insert slot))
    (may.countable slot located)

/-- `alloc_page` keeps the invariant: the frame that it maps had no mapping. -/
theorem allocPage {next : Memory} {cr3 directory va code : Nat} {perms : Perm} {setToZero : Bool}
    (invariant : FrameInvariant managed memory pending free)
    (allocated : memory.allocPage cr3 directory va perms setToZero = some (next, code)) :
    ∃ free', FrameInvariant managed next pending free' := by
  cases located : memory.slot directory va with
  | none =>
      rw [Memory.allocPage_of_not_located located] at allocated
      cases allocated
  | some slot =>
      cases Memory.allocPage_cases located allocated with
      | inl already =>
          obtain ⟨-, -, rfl⟩ := already
          exact ⟨free, invariant⟩
      | inr fresh =>
          obtain ⟨empty, -, frame, taken, bytes, took, rfl, -⟩ := fresh
          obtain ⟨rest, held⟩ := invariant.allocate took
          obtain ⟨_, listed, -⟩ := Memory.allocateFrame_cases invariant.represents took
          obtain ⟨tables, -, -⟩ := Memory.allocateFrame_spec took
          have absent : (taken.tables slot).present = false := by
            rw [tables]
            exact PageTableEntry.not_present_of_not_holdsFrame empty
          have member : frame ∈ free := listed ▸ List.mem_cons_self ..
          obtain ⟨-, unmapped, unhanded⟩ := (invariant.mem_free frame).mp member
          have single : mappers (taken.installFrame slot frame va perms).tables frame =
              {slot} := by
            have present := taken.installFrame_present slot frame va perms
            rw [Memory.installFrame_tables, Function.update_self] at present
            rw [Memory.installFrame_tables, mappers_update_present _ _ _ _ absent present,
              if_pos rfl, tables, unmapped, insert_empty_eq]
          have few : (mappers (taken.installFrame slot frame va perms).tables frame).ncard <
              2 ^ 16 := by
            rw [single, Set.ncard_singleton]
            decide
          have installed := held.install absent (.inl (Finset.mem_insert_self ..)) few
          rw [Finset.erase_insert unhanded] at installed
          exact ⟨rest, installed.congr rfl rfl rfl⟩

end FrameInvariant

namespace Memory

/-- Inserting fresh frames one by one puts them on the list in reverse and resets them. -/
theorem freeFrame_foldl (frames : List Nat) {memory : Memory} {free : List Nat}
    (represents : memory.freeFrameList.Represents free) (nodup : frames.Nodup)
    (apart : ∀ frame ∈ frames, frame ∉ free) :
    (frames.foldl freeFrame memory).freeFrameList.Represents (frames.reverse ++ free) ∧
      (frames.foldl freeFrame memory).tables = memory.tables ∧
      (frames.foldl freeFrame memory).directories = memory.directories ∧
      ∀ frame, (frames.foldl freeFrame memory).frames frame =
        if frame ∈ frames then ⟨0, 0, false⟩ else memory.frames frame := by
  induction frames generalizing memory free with
  | nil => exact ⟨represents, rfl, rfl, fun frame => by simp⟩
  | cons head rest ih =>
      obtain ⟨notRest, nodup⟩ := List.nodup_cons.mp nodup
      have notFree := apart head (List.mem_cons_self ..)
      have inserted := freeFrame_represents represents notFree
      have apart' : ∀ frame ∈ rest, frame ∉ head :: free := by
        intro frame member listed
        cases List.mem_cons.mp listed with
        | inl same => exact notRest (same ▸ member)
        | inr old => exact apart frame (List.mem_cons_of_mem _ member) old
      obtain ⟨represents, tables, directories, reset⟩ := ih inserted nodup apart'
      refine ⟨by simpa using represents, tables, directories, fun frame => ?_⟩
      rw [List.foldl_cons, reset]
      by_cases same : frame = head
      · subst same
        simp [freeFrame, initializeFrameInfo]
      · simp [freeFrame, initializeFrameInfo, same]

/-- Reserving frames leaves everything but their descriptors alone. -/
theorem setReferences_foldl (frames : List Nat) (memory : Memory) :
    let reserved := frames.foldl (fun memory frame => memory.setReferences frame 1) memory
    reserved.freeFrameList = memory.freeFrameList ∧ reserved.tables = memory.tables ∧
      reserved.directories = memory.directories ∧
      ∀ frame, frame ∉ frames → reserved.frames frame = memory.frames frame := by
  induction frames generalizing memory with
  | nil => exact ⟨rfl, rfl, rfl, fun _ _ => rfl⟩
  | cons head rest ih =>
      obtain ⟨list, tables, directories, kept⟩ := ih (memory.setReferences head 1)
      refine ⟨list, tables, directories, fun frame outside => ?_⟩
      obtain ⟨different, outside⟩ := List.ne_and_not_mem_of_not_mem_cons outside
      rw [List.foldl_cons, kept frame outside]
      simp [setReferences, different]

/-- `initialize_paging` lists exactly the managed frames, resets them and writes no page
table or directory. -/
theorem initializePaging_spec (memory : Memory) {kernelEnd : Nat} (numberOfFrames : Nat)
    (extended : physExtendedMemFrame ≤ kernelEnd) :
    ∃ free, (memory.initializePaging kernelEnd numberOfFrames).freeFrameList.Represents free ∧
      (memory.initializePaging kernelEnd numberOfFrames).tables = memory.tables ∧
      (memory.initializePaging kernelEnd numberOfFrames).directories = memory.directories ∧
      (∀ frame, frame ∈ free ↔ frame ∈ managedFrames kernelEnd numberOfFrames) ∧
      ∀ frame ∈ managedFrames kernelEnd numberOfFrames,
        (memory.initializePaging kernelEnd numberOfFrames).frames frame = ⟨0, 0, false⟩ := by
  have apart : ∀ frame ∈ List.range' kernelEnd (numberOfFrames - kernelEnd),
      frame ∉ (List.range' 3 (physIOMemFrame - 3)).reverse ++ [] := by
    intro frame high low
    simp only [List.append_nil, List.mem_reverse, List.mem_range'_1] at high low
    simp only [physIOMemFrame, physExtendedMemFrame, pageSize] at low extended
    omega
  simp only [initializePaging]
  generalize blank : ({ memory with freeFrameList := memory.freeFrameList.init } : Memory) = m₀
  obtain ⟨list₁, tables₁, directories₁, -⟩ := setReferences_foldl [0, 1, 2] m₀
  generalize [0, 1, 2].foldl (fun memory frame => memory.setReferences frame 1) m₀ = m₁
    at list₁ tables₁ directories₁ ⊢
  generalize zeroed : ({ m₁ with bytes := _ } : Memory) = m₂
  have list₂ : m₂.freeFrameList.Represents [] := by
    rw [← zeroed]
    change m₁.freeFrameList.Represents []
    rw [list₁, ← blank]
    exact IntrusiveList.init_represents _
  have tables₂ : m₂.tables = memory.tables := by
    rw [← zeroed]
    change m₁.tables = memory.tables
    rw [tables₁, ← blank]
  have directories₂ : m₂.directories = memory.directories := by
    rw [← zeroed]
    change m₁.directories = memory.directories
    rw [directories₁, ← blank]
  obtain ⟨list₃, tables₃, directories₃, reset₃⟩ :=
    freeFrame_foldl (List.range' 3 (physIOMemFrame - 3)) list₂
    List.nodup_range' (fun _ _ => List.not_mem_nil)
  generalize (List.range' 3 (physIOMemFrame - 3)).foldl freeFrame m₂ = m₃
    at list₃ tables₃ directories₃ reset₃ ⊢
  obtain ⟨list₄, tables₄, directories₄, kept₄⟩ := setReferences_foldl
    (List.range' physIOMemFrame (physExtendedMemFrame - physIOMemFrame)) m₃
  generalize (List.range' physIOMemFrame (physExtendedMemFrame - physIOMemFrame)).foldl
    (fun memory frame => memory.setReferences frame 1) m₃ = m₄
    at list₄ tables₄ directories₄ kept₄ ⊢
  obtain ⟨list₅, tables₅, directories₅, kept₅⟩ := setReferences_foldl
    (List.range' physExtendedMemFrame (kernelEnd - physExtendedMemFrame)) m₄
  generalize (List.range' physExtendedMemFrame (kernelEnd - physExtendedMemFrame)).foldl
    (fun memory frame => memory.setReferences frame 1) m₄ = m₅
    at list₅ tables₅ directories₅ kept₅ ⊢
  rw [← list₄, ← list₅] at list₃
  obtain ⟨list₆, tables₆, directories₆, reset₆⟩ := freeFrame_foldl
    (List.range' kernelEnd (numberOfFrames - kernelEnd)) list₃ List.nodup_range' apart
  refine ⟨_, list₆, ?_, ?_, ?_, ?_⟩
  · rw [tables₆, tables₅, tables₄, tables₃, tables₂]
  · rw [directories₆, directories₅, directories₄, directories₃, directories₂]
  · intro frame
    simp only [List.mem_append, List.mem_reverse, List.mem_range'_1, managedFrames,
      Finset.mem_union, Finset.mem_Ico, List.not_mem_nil, or_false]
    simp only [physIOMemFrame, pageSize]
    omega
  · intro frame member
    simp only [managedFrames, Finset.mem_union, Finset.mem_Ico] at member
    have hole : physIOMemFrame ≤ physExtendedMemFrame := by decide
    rw [reset₆]
    by_cases high : frame ∈ List.range' kernelEnd (numberOfFrames - kernelEnd)
    · rw [if_pos high]
    · simp only [List.mem_range'_1] at high
      have low : 3 ≤ frame ∧ frame < physIOMemFrame := by omega
      have outside₅ : frame ∉
          List.range' physExtendedMemFrame (kernelEnd - physExtendedMemFrame) := by
        simp only [List.mem_range'_1]
        omega
      have outside₄ : frame ∉
          List.range' physIOMemFrame (physExtendedMemFrame - physIOMemFrame) := by
        simp only [List.mem_range'_1]
        omega
      have inside₃ : frame ∈ List.range' 3 (physIOMemFrame - 3) := by
        simp only [List.mem_range'_1]
        omega
      rw [if_neg (by simpa only [List.mem_range'_1] using high), kept₅ frame outside₅,
        kept₄ frame outside₄, reset₃, if_pos inside₃]

end Memory

/-- `initialize_paging` establishes the invariant over page tables that map nothing. -/
theorem FrameInvariant.initial {memory : Memory} {kernelEnd : Nat} (numberOfFrames : Nat)
    (extended : physExtendedMemFrame ≤ kernelEnd)
    (clean : ∀ slot, (memory.tables slot).present = false ∧ (memory.tables slot).frame = 0) :
    ∃ free, FrameInvariant (managedFrames kernelEnd numberOfFrames)
      (memory.initializePaging kernelEnd numberOfFrames) ∅ free := by
  obtain ⟨free, represents, tables, -, listed, reset⟩ :=
    memory.initializePaging_spec numberOfFrames extended
  have unmapped : ∀ frame,
      mappers (memory.initializePaging kernelEnd numberOfFrames).tables frame = ∅ := by
    intro frame
    rw [tables]
    apply Set.eq_empty_of_forall_notMem
    intro slot mapped
    have present := mapped.1
    rw [(clean slot).1] at present
    exact Bool.false_ne_true present
  refine ⟨free, represents, ?_, ?_, ?_, ?_, ?_, ?_⟩
  · intro frame member
    rw [reset frame member, unmapped, Set.ncard_empty]
  · intro frame
    rw [unmapped]
    exact Set.finite_empty
  · intro slot _
    rw [tables]
    exact (clean slot).2
  · intro slot present
    rw [tables, (clean slot).1] at present
    exact absurd present Bool.false_ne_true
  · intro frame handed
    exact absurd handed (Finset.notMem_empty frame)
  · intro frame
    simp [listed, unmapped]

namespace FrameManager

/-- Every legal call that does not unmap an absent buffered page keeps the invariant. -/
theorem Step.invariant {managed : Finset Nat} {manager next : FrameManager} {call : FrameCall}
    {free : List Nat} (step : manager.Step call next) (unbuffered : manager.Unbuffered call)
    (invariant : FrameInvariant managed manager.memory manager.pending free) :
    ∃ free', FrameInvariant managed next.memory next.pending free' := by
  obtain ⟨legal, executed, few⟩ := step
  cases call with
  | allocateFrame =>
      obtain ⟨⟨frame, memory⟩, allocated, rfl⟩ := Option.map_eq_some_iff.mp executed
      exact invariant.allocate allocated
  | mapFrame directory frame va perm =>
      obtain ⟨memory, mapped, rfl⟩ := Option.map_eq_some_iff.mp executed
      exact invariant.mapFrame legal.2 mapped (few frame)
  | unmapFrame directory va =>
      obtain rfl := Option.some.inj executed
      exact invariant.unmapFrame unbuffered
  | allocPage cr3 directory va perms setToZero =>
      obtain ⟨⟨memory, code⟩, allocated, rfl⟩ := Option.map_eq_some_iff.mp executed
      exact invariant.allocPage allocated

/-- A call is for a page, or for none. -/
def ForPage (directory va : Nat) : FrameCall → Prop
  | .allocateFrame => True
  | .mapFrame directory' _ va' _ => directory' = directory ∧ va' = va
  | .unmapFrame directory' va' => directory' = directory ∧ va' = va
  | .allocPage _ directory' va' _ _ => directory' = directory ∧ va' = va

/-- A call changes no page directory, and no entry but that of its page. -/
theorem exec_elsewhere {manager next : FrameManager} {call : FrameCall} {directory va : Nat}
    {slot : Slot} (page : ForPage directory va call)
    (located : manager.memory.slot directory va = some slot)
    (executed : manager.exec call = some next) :
    next.memory.directories = manager.memory.directories ∧
      ∀ other, other ≠ slot → next.memory.tables other = manager.memory.tables other := by
  cases call with
  | allocateFrame =>
      obtain ⟨⟨frame, memory⟩, allocated, rfl⟩ := Option.map_eq_some_iff.mp executed
      obtain ⟨tables, directories, -⟩ := Memory.allocateFrame_spec allocated
      exact ⟨directories, fun other _ => congrFun tables other⟩
  | mapFrame directory' frame va' perm =>
      obtain ⟨rfl, rfl⟩ := page
      obtain ⟨memory, mapped, rfl⟩ := Option.map_eq_some_iff.mp executed
      obtain ⟨slot', located', alternatives⟩ := Memory.mapFrame_cases mapped
      obtain rfl : slot' = slot := Option.some.inj (located'.symm.trans located)
      obtain ⟨-, -, rfl⟩ | ⟨-, -, rfl⟩ | ⟨-, rfl⟩ := alternatives
      · exact ⟨rfl, fun _ _ => rfl⟩
      · refine ⟨Memory.unmapFrame_directories .., fun other different => ?_⟩
        rw [Memory.installFrame_tables, Function.update_of_ne different,
          Memory.unmapFrame_tables located, Function.update_of_ne different]
      · exact ⟨rfl, fun other different => Function.update_of_ne different ..⟩
  | unmapFrame directory' va' =>
      obtain ⟨rfl, rfl⟩ := page
      obtain rfl := Option.some.inj executed
      refine ⟨Memory.unmapFrame_directories .., fun other different => ?_⟩
      rw [Memory.unmapFrame_tables located, Function.update_of_ne different]
  | allocPage cr3 directory' va' perms setToZero =>
      obtain ⟨rfl, rfl⟩ := page
      obtain ⟨⟨memory, code⟩, allocated, rfl⟩ := Option.map_eq_some_iff.mp executed
      obtain ⟨-, -, rfl⟩ | ⟨-, -, frame, taken, bytes, took, rfl, -⟩ :=
        Memory.allocPage_cases located allocated
      · exact ⟨rfl, fun _ _ => rfl⟩
      · obtain ⟨tables, directories, -⟩ := Memory.allocateFrame_spec took
        refine ⟨directories, fun other different => ?_⟩
        rw [← tables]
        exact Function.update_of_ne different ..

/-- Only one entry may be present. -/
def OnlySlot (manager : FrameManager) (slot : Slot) : Prop :=
  ∀ other, other ≠ slot → (manager.memory.tables other).present = false

/-- A call after which only one entry may be present gives no frame too many mappings. -/
theorem Step.of_onlySlot {manager next : FrameManager} {call : FrameCall} {slot : Slot}
    (legal : manager.Legal call) (executed : manager.exec call = some next)
    (single : next.OnlySlot slot) : manager.Step call next where
  legal := legal
  executed := executed
  few := by
    intro frame
    have inside : mappers next.memory.tables frame ⊆ {slot} := by
      intro other mapped
      by_contra different
      have present := mapped.1
      rw [single other different] at present
      exact Bool.false_ne_true present
    calc (mappers next.memory.tables frame).ncard
        ≤ ({slot} : Set Slot).ncard := Set.ncard_le_ncard inside
      _ < 2 ^ 16 := by simp

/-- A legal call for the page of the entry is a step. -/
theorem OnlySlot.step {manager next : FrameManager} {call : FrameCall} {directory va : Nat}
    {slot : Slot} (single : manager.OnlySlot slot)
    (located : manager.memory.slot directory va = some slot) (page : ForPage directory va call)
    (legal : manager.Legal call) (executed : manager.exec call = some next) :
    manager.Step call next ∧ next.OnlySlot slot ∧
      next.memory.slot directory va = some slot := by
  obtain ⟨directories, elsewhere⟩ := exec_elsewhere page located executed
  have single' : next.OnlySlot slot := by
    intro other different
    rw [elsewhere other different]
    exact single other different
  exact ⟨Step.of_onlySlot legal executed single', single',
    (Memory.slot_congr directories directory va).trans located⟩

/-- The boot state of a blank machine with one frame above the kernel image. -/
def blankBoot : FrameManager := ⟨Memory.blank.initializePaging physExtendedMemFrame 257, ∅⟩

theorem blankBoot_onlySlot (slot : Slot) : blankBoot.OnlySlot slot := by
  intro other _
  obtain ⟨-, -, tables, -⟩ :=
    Memory.initializePaging_spec Memory.blank 257 (le_refl physExtendedMemFrame)
  rw [blankBoot, tables]
  exact PageTableEntry.zero_not_present

end FrameManager

end FosKernel
