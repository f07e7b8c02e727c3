import FosKernel.Share.AddressRuns

/-!
# What `map_frame` leaves at a page

`map_frame` documents that the entry of its address gets the permissions of the
call. It keeps the available bits of the entry, replaces a frame that was mapped
there, and touches no other page of the user. Where the page maps the same frame
already, it returns without storing the permissions.
-/

namespace FosKernel

namespace Memory

/-- The permissions of a page; without a page table there are none. -/
def pagePerm (memory : Memory) (directory va : Nat) : Perm :=
  (memory.ptGetPagePermissions directory va).getD 0#12

/-- What `map_frame` stores in an entry with the given permissions. -/
def mappedPerm (before perm : Perm) : Perm := before &&& permAvailable ||| perm ||| permPresent

/-- The translation and the permissions of a page are as they were. -/
def SamePage (memory next : Memory) (directory va : Nat) : Prop :=
  next.translate directory va = memory.translate directory va ∧
    next.pagePerm directory va = memory.pagePerm directory va

/-- The page maps the frame with the permissions of the call and the available bits it had, a frame
that it mapped before lost a reference, and no other user page changed. -/
structure MapsAsDocumented (memory next : Memory) (directory frame va : Nat) (perm : Perm) :
    Prop where
  entry : next.entry directory va =
    some ⟨frame, mappedPerm (memory.pagePerm directory va) perm⟩
  replaced : ∀ old, memory.entry directory va = some old → old.present = true →
    old.frame ≠ frame →
      (next.frames old.frame).references + 1 = (memory.frames old.frame).references
  others : ∀ other va', va' < userTop →
    ¬ (other = directory ∧ va' / pageSize = va / pageSize) → memory.SamePage next other va'

/-- The page maps the frame with other permissions than those of the call. -/
def MapsOtherwise (memory : Memory) (directory frame va : Nat) (perm : Perm) : Prop :=
  ∃ entry, memory.entry directory va = some entry ∧ entry.present = true ∧
    entry.frame = frame ∧
    entry.perm ≠ mappedPerm entry.perm perm

variable {memory next middle : Memory} {directory other frame va va' table : Nat} {perm : Perm}
  {slot : Slot}

theorem pagePerm_of_entry {entry : PageTableEntry} (here : memory.entry directory va = some entry) :
    memory.pagePerm directory va = entry.perm := by
  rw [pagePerm, ptGetPagePermissions, here]
  rfl

theorem pagePerm_of_missing (missing : memory.entry directory va = none) :
    memory.pagePerm directory va = 0#12 := by
  rw [pagePerm, ptGetPagePermissions, missing]
  rfl

theorem SamePage.of_entry (same : next.entry directory va = memory.entry directory va) :
    memory.SamePage next directory va := by
  constructor
  · rw [translate, translate, same]
  · rw [pagePerm, pagePerm, ptGetPagePermissions, ptGetPagePermissions, same]

theorem SamePage.trans (first : memory.SamePage middle directory va)
    (second : middle.SamePage next directory va) : memory.SamePage next directory va :=
  ⟨second.1.trans first.1, second.2.trans first.2⟩

/-- The available bits survive `unmap_frame`. -/
theorem mappedPerm_unmapped (before perm : Perm) :
    mappedPerm (before &&& permAvailable) perm = mappedPerm before perm := by
  rw [mappedPerm, BitVec.and_assoc, BitVec.and_self, mappedPerm]

/-- A new page table maps nothing and permits nothing, like none. -/
theorem FreshTable.samePage (fresh : memory.FreshTable table)
    (missing : memory.getPageTable directory va = none) (other va' : Nat) :
    memory.SamePage (memory.linkTable directory va table) other va' := by
  have entries := fresh.linkTable_tables directory va
  by_cases here : other = directory ∧ pdx va' = pdx va
  · obtain ⟨rfl, index⟩ := here
    have linked : (memory.linkTable other va table).slot other va' = some (table, ptx va') := by
      rw [slot, linkTable_getPageTable, if_pos ⟨rfl, index⟩, Option.map_some]
    have empty : (memory.linkTable other va table).entry other va' = some .zero := by
      rw [entry_eq linked, entries, fresh.empty]
    have unlinked : memory.entry other va' = none := by
      rw [getPageTable, ← index] at missing
      rw [entry, slot, getPageTable, missing]
      rfl
    constructor
    · rw [translate, empty, translate, unlinked]
      rfl
    · rw [pagePerm_of_entry empty, pagePerm_of_missing unlinked]
      rfl
  · apply SamePage.of_entry
    rw [entry, slot, linkTable_getPageTable, if_neg here, entries]
    rfl

/-- `map_frame` maps as documented where the page table exists and the page does not map the frame
yet. -/
theorem mappedPerm_of_mapFrame (mapped : memory.mapFrame directory frame va perm = some next) :
    (∃ entry, memory.entry directory va = some entry ∧ entry.present = true ∧
        entry.frame = frame ∧ next = memory) ∨
      next.entry directory va = some ⟨frame, mappedPerm (memory.pagePerm directory va) perm⟩ ∧
        ∀ old, memory.entry directory va = some old → old.present = true →
          old.frame ≠ frame ∧ (next.frames old.frame).references =
            ((memory.decrementReferences old.frame).frames old.frame).references := by
  obtain ⟨directories, -, -⟩ := mapFrame_others mapped
  obtain ⟨slot, located, alternatives⟩ := mapFrame_cases mapped
  have located' : next.slot directory va = some slot := (slot_congr directories ..).trans located
  have here := entry_eq located
  rcases alternatives with ⟨present, same, kept⟩ | ⟨present, different,
    rfl⟩ | ⟨absent, rfl⟩
  · exact .inl ⟨_, here, present, same, kept⟩
  · right
    have holds := PageTableEntry.holdsFrame_of_present present
    have unmapped := unmapFrame_of_holdsFrame located holds
    refine ⟨?_, fun old found _ => ?_⟩
    · rw [entry_eq located', installFrame_tables, Function.update_self, pagePerm_of_entry here,
        unmapFrame_tables located, Function.update_self, if_pos holds]
      exact congrArg (fun perm => some (PageTableEntry.mk frame perm)) (mappedPerm_unmapped _ perm)
    · obtain rfl := Option.some.inj (here.symm.trans found)
      refine ⟨different, ?_⟩
      rw [installFrame_references, if_neg different, unmapped]
      rfl
  · right
    refine ⟨?_, fun old found present => ?_⟩
    · rw [entry_eq located', installFrame_tables, Function.update_self, pagePerm_of_entry here]
      rfl
    · obtain rfl := Option.some.inj (here.symm.trans found)
      rw [absent] at present
      cases present

/-- Dropping a reference counts down. -/
theorem decrementReferences_references {frame : Nat}
    (used : (memory.frames frame).references ≠ 0) :
    ((memory.decrementReferences frame).frames frame).references + 1 =
      (memory.frames frame).references := by
  match count : (memory.frames frame).references with
  | 0 => exact absurd count used
  | 1 =>
      rw [decrementReferences_of_one count]
      simp [freeFrame, initializeFrameInfo]
  | count' + 2 =>
      rw [decrementReferences_of_more count]
      simp [setReferences]

end Memory

namespace SharedMemory

variable {β : Type} {D : DynAllocator β} {shared after : SharedMemory β}
  {directory frame va va' : Nat} {perm : Perm}

/-- The page table that `map_frame` creates changes no user page. -/
theorem Layout.ensurePageTable_samePage (accessing : D.Accessing) (layout : shared.Layout)
    (ready : shared.ensurePageTable D directory va = .ok after) (other : Nat)
    (user : va' < userTop) :
    shared.heap.memory.SamePage after.heap.memory other va' := by
  unfold SharedMemory.ensurePageTable at ready
  cases held : shared.heap.memory.getPageTable directory va with
  | some table =>
      rw [held] at ready
      obtain rfl := Except.ok.inj ready
      exact .of_entry rfl
  | none =>
      rw [held] at ready
      obtain ⟨⟨table, heap⟩, allocated, rest⟩ := bind_eq_ok.mp ready
      -- the kernel heap keeps the user pages of the other directory as those of any
      obtain ⟨layout', kept⟩ := layout.kmalloc accessing allocated (other + 1)
      dsimp only at rest
      split at rest
      · cases rest
      · obtain rfl := Except.ok.inj rest
        have word : va' < 2 ^ 32 := Nat.lt_trans user (by decide)
        have missing : heap.memory.getPageTable directory va = none := by
          obtain ⟨top, pagesOnly⟩ := layout.pagesOnly
          obtain ⟨-, -, moves⟩ := pagesOnly.kmalloc allocated
          exact (Memory.getPageTable_congr (moves.pageMoves accessing).others.1 directory va).trans
            held
        have linked := (layout'.fresh shared.nextTable (Nat.le_refl _)).samePage missing other va'
        refine Memory.SamePage.trans (.of_entry ?_) linked
        refine (kept.entries other va' word
          (.inl (Nat.ne_of_lt (Nat.lt_succ_self other)))).resolve_right ?_
        rintro ⟨⟨lower, -⟩, -⟩
        have below : userTop ≤ kernelHeapStart := by decide
        omega

/-- `map_frame` on the page table that its first part leaves. -/
theorem mapFrame_eq_ok (mapped : shared.mapFrame D directory frame va perm = .ok after) :
    ∃ ready, shared.ensurePageTable D directory va = .ok ready ∧
      ready.heap.memory.mapFrame directory frame va perm = some after.heap.memory := by
  obtain ⟨ready, table, rest⟩ := bind_eq_ok.mp mapped
  refine ⟨ready, table, ?_⟩
  cases installed : ready.heap.memory.mapFrame directory frame va perm with
  | none =>
      rw [installed] at rest
      cases rest
  | some memory =>
      rw [installed] at rest
      obtain rfl := Except.ok.inj rest
      rfl

/-- `map_frame` changes no other user page. -/
theorem Layout.mapFrame_samePage (accessing : D.Accessing) (layout : shared.Layout)
    (word : va < 2 ^ 32) (mapped : shared.mapFrame D directory frame va perm = .ok after)
    {other : Nat} (user : va' < userTop)
    (different : ¬ (other = directory ∧ va' / pageSize = va / pageSize)) :
    shared.heap.memory.SamePage after.heap.memory other va' := by
  obtain ⟨ready, table, installed⟩ := mapFrame_eq_ok mapped
  refine (layout.ensurePageTable_samePage accessing table other user).trans (.of_entry ?_)
  obtain ⟨layout', -⟩ := layout.ensurePageTable accessing table
  obtain ⟨directories, -, others⟩ := Memory.mapFrame_others installed
  rw [Memory.entry_eq_map, Memory.entry_eq_map, Memory.slot_congr directories]
  cases located : ready.heap.memory.slot other va' with
  | none => rfl
  | some slot =>
      refine congrArg some (others slot fun here => different ?_)
      obtain ⟨region, index, own⟩ := layout'.indices_eq located here
      exact ⟨own (pdx_lt_userTop user),
        page_eq_of_indices (Nat.lt_trans user (by decide)) word region index⟩

/-- The page table that `map_frame` creates is empty. -/
theorem Layout.ensurePageTable_cases (accessing : D.Accessing) (layout : shared.Layout)
    (ready : shared.ensurePageTable D directory va = .ok after) :
    after = shared ∨ shared.heap.memory.entry directory va = none ∧
      after.heap.memory.entry directory va = some .zero := by
  unfold SharedMemory.ensurePageTable at ready
  cases held : shared.heap.memory.getPageTable directory va with
  | some table =>
      rw [held] at ready
      exact .inl (Except.ok.inj ready).symm
  | none =>
      rw [held] at ready
      obtain ⟨⟨table, heap⟩, allocated, rest⟩ := bind_eq_ok.mp ready
      obtain ⟨layout', -⟩ := layout.kmalloc accessing allocated directory
      dsimp only at rest
      split at rest
      · cases rest
      · obtain rfl := Except.ok.inj rest
        have fresh := layout'.fresh shared.nextTable (Nat.le_refl _)
        have linked : (heap.memory.linkTable directory va shared.nextTable).slot directory va =
            some (shared.nextTable, ptx va) := by
          rw [Memory.slot, Memory.linkTable_getPageTable, if_pos ⟨rfl, rfl⟩, Option.map_some]
        refine .inr ⟨?_, ?_⟩
        · rw [Memory.entry, Memory.slot, held]
          rfl
        · refine (Memory.entry_eq linked).trans (congrArg some ?_)
          rw [fresh.linkTable_tables, fresh.empty]

/-- **`map_frame` does what it documents exactly where the page does not already map the frame with
other permissions.** -/
theorem mapFrame_documented_iff (D : DynAllocator β) (accessing : D.Accessing)
    (managed pending : Finset Nat) (shared after : SharedMemory β) (directory frame va : Nat)
    (perm : Perm) (layout : shared.Layout) (kept : shared.Kept managed pending)
    (word : va < 2 ^ 32) (mapped : shared.mapFrame D directory frame va perm = .ok after) :
    shared.heap.memory.MapsAsDocumented after.heap.memory directory frame va perm ↔
      ¬ shared.heap.memory.MapsOtherwise directory frame va perm := by
  have others := fun other va' user =>
    @Layout.mapFrame_samePage _ _ _ _ _ _ va va' _ accessing layout word mapped other user
  obtain ⟨ready, table, installed⟩ := mapFrame_eq_ok mapped
  obtain rfl | ⟨missing, empty⟩ := layout.ensurePageTable_cases accessing table
  · rcases Memory.mappedPerm_of_mapFrame installed with
      ⟨entry, here, present, same, unchanged⟩ | ⟨stored, dropped⟩
    · have perms := Memory.pagePerm_of_entry here
      constructor
      · rintro documented ⟨entry', here', -, -, different⟩
        obtain rfl := Option.some.inj (here.symm.trans here')
        have stored := documented.entry
        rw [unchanged, here, perms] at stored
        exact different (congrArg PageTableEntry.perm (Option.some.inj stored))
      · intro agrees
        have equal : entry.perm = Memory.mappedPerm entry.perm perm := by
          by_contra different
          exact agrees ⟨entry, here, present, same, different⟩
        refine ⟨?_, fun old found _ different => ?_, others⟩
        · rw [unchanged, here, perms, ← equal, ← same]
        · obtain rfl := Option.some.inj (here.symm.trans found)
          exact absurd same different
    · refine iff_of_true ⟨stored, fun old found present _ => ?_, others⟩ ?_
      · obtain ⟨-, references⟩ := dropped old found present
        rw [references]
        obtain ⟨free, invariant⟩ := kept.counted.counted
        obtain ⟨slot, -, rfl⟩ := Option.map_eq_some_iff.mp found
        refine Memory.decrementReferences_references ?_
        rw [invariant.counted _ (invariant.mapped slot present)]
        exact ((Set.ncard_pos (invariant.finite _)).mpr ⟨slot, present, rfl⟩).ne'
      · rintro ⟨entry, here, present, same, -⟩
        exact (dropped entry here present).1 same
  · rcases Memory.mappedPerm_of_mapFrame installed with
      ⟨entry, here, present, -⟩ | ⟨stored, -⟩
    · rw [empty] at here
      obtain rfl := Option.some.inj here
      cases present
    · refine iff_of_true ⟨?_, fun old found => ?_, others⟩ ?_
      · rw [stored, Memory.pagePerm_of_entry empty, Memory.pagePerm_of_missing missing]
        rfl
      · rw [missing] at found
        cases found
      · rintro ⟨entry, here, -⟩
        rw [missing] at here
        cases here

/-- After an environment has created a shared object at the start of the user heap. -/
theorem exists_createdPage (test : SharedMemory (List Nat) → Bool)
    (passes : Returns (spacedShared.syscall PageBlocks.allocator firstCaller
      (createAt 0x80000000)) (fun result => test result.2.shared) = true) :
    ∃ shared : SharedMemory (List Nat), shared.Layout ∧
      shared.Kept (managedFrames physExtendedMemFrame 257) ∅ ∧ test shared = true := by
  obtain ⟨⟨code, stores⟩, returned, passed⟩ := Returns.exists passes
  have counts : spacedShared.KeepsCounts PageBlocks.allocator firstCaller
      (createAt 0x80000000) := trivial
  have below : spacedShared.BelowUserTop PageBlocks.allocator firstCaller
      (createAt 0x80000000) := by
    intro _ index inside
    obtain rfl : index = 0 := Nat.lt_one_iff.mp inside
    decide
  have spaces := spacedShared_addressSpaces.syscall PageBlocks.accessing below counts returned
  exact ⟨stores.shared, spaces.layout, spaces.kept, passed⟩

/-- Mapping the frame of that page for another environment as well. -/
theorem mapFrame_documented_iff_shared : ∃ shared after : SharedMemory (List Nat),
    shared.mapFrame PageBlocks.allocator 2 158 userHeapStart permUser = .ok after ∧
      shared.heap.memory.MapsAsDocumented after.heap.memory 2 158 userHeapStart permUser := by
  obtain ⟨shared, layout, kept, passed⟩ := exists_createdPage
    (fun shared => shared.heap.memory.entry 2 userHeapStart == none &&
      Returns (shared.mapFrame PageBlocks.allocator 2 158 userHeapStart permUser) fun _ => true)
    (by decide +kernel)
  rw [Bool.and_eq_true, beq_iff_eq] at passed
  obtain ⟨after, mapped, -⟩ := Returns.exists passed.2
  refine ⟨shared, after, mapped, ?_⟩
  apply (mapFrame_documented_iff PageBlocks.allocator PageBlocks.accessing _ ∅ shared after 2 158
    userHeapStart permUser layout kept (by decide) mapped).mpr
  rintro ⟨entry, here, -⟩
  rw [passed.1] at here
  cases here

/-- Mapping it again without `PERM_WRITEABLE` leaves it writeable. -/
theorem not_mapsAsDocumented_again : ∃ shared after : SharedMemory (List Nat),
    shared.Layout ∧ shared.Kept (managedFrames physExtendedMemFrame 257) ∅ ∧
      shared.mapFrame PageBlocks.allocator 1 158 userHeapStart permUser = .ok after ∧
      ¬ shared.heap.memory.MapsAsDocumented after.heap.memory 1 158 userHeapStart permUser := by
  obtain ⟨shared, layout, kept, passed⟩ := exists_createdPage
    (fun shared => shared.heap.memory.entry 1 userHeapStart == some ⟨158, 7⟩ &&
      Returns (shared.mapFrame PageBlocks.allocator 1 158 userHeapStart permUser) fun after =>
        after.heap.memory.entry 1 userHeapStart == some ⟨158, 7⟩)
    (by decide +kernel)
  rw [Bool.and_eq_true, beq_iff_eq] at passed
  obtain ⟨after, mapped, unchanged⟩ := Returns.exists passed.2
  refine ⟨shared, after, layout, kept, mapped, fun documented => ?_⟩
  have stored := documented.entry
  rw [beq_iff_eq.mp unchanged, Memory.pagePerm_of_entry passed.1] at stored
  exact absurd stored (by decide)

end SharedMemory

end FosKernel
