import FosKernel.Share.AddressCalls

/-!
# What system calls on addresses leave alone

The page tables of user pages belong to one directory, while directories share those of
the kernel. What the kernel heap and `map_frame` change in them: the kernel heap changes
its own pages, which the user cannot access, and a mapping of a user page changes that
page of its own directory. A page that is present stays mapped until its own address is
mapped or the kernel heap returns it.
-/

namespace FosKernel

/-- The page of an address is present and maps a frame. -/
def Memory.Maps (memory : Memory) (directory va frame : Nat) : Prop :=
  ∃ entry, memory.entry directory va = some entry ∧ entry.present = true ∧ entry.frame = frame

section Addresses

variable {va va' : Nat}

theorem pdx_lt_userTop (user : va < userTop) : pdx va < pdx userTop := by
  unfold userTop pdx at *
  omega

theorem userTop_le_pdx (word : va < 2 ^ 32) (kernel : userTop ≤ va) : pdx userTop ≤ pdx va := by
  unfold userTop pdx at *
  omega

/-- The indices of an address determine its page. -/
theorem page_eq_of_indices (word : va < 2 ^ 32) (word' : va' < 2 ^ 32) (table : pdx va = pdx va')
    (index : ptx va = ptx va') : va / pageSize = va' / pageSize := by
  unfold pdx ptx pageSize at *
  omega

/-- An address in a page of the kernel heap. -/
theorem heap_of_indices {index : Nat} (word : va < 2 ^ 32) (inside : index < kheapPagesCount)
    (table : pdx va = pdx (heapVa index)) (entry : ptx va = ptx (heapVa index)) :
    kernelHeapStart ≤ va ∧ va < kernelHeapMax := by
  have limit : kheapPagesCount = 40959 := by decide
  unfold heapVa kernelHeapStart pageSize at *
  unfold kernelHeapMax
  unfold pdx ptx at *
  omega

end Addresses

namespace Memory

variable {memory next : Memory} {directory frame va : Nat} {perm : Perm} {slot : Slot}

theorem entry_eq_map (memory : Memory) (directory va : Nat) :
    memory.entry directory va = (memory.slot directory va).map memory.tables := rfl

/-- `map_frame` writes no entry but that of its address. -/
theorem mapFrame_others (mapped : memory.mapFrame directory frame va perm = some next) :
    next.directories = memory.directories ∧ next.bytes = memory.bytes ∧
      ∀ other, memory.slot directory va ≠ some other →
          next.tables other = memory.tables other := by
  obtain ⟨slot, located, ⟨-, -, rfl⟩ | ⟨-, -, rfl⟩ | ⟨-, rfl⟩⟩ :=
    mapFrame_cases mapped
  · exact ⟨rfl, rfl, fun _ _ => rfl⟩
  · refine ⟨by simp, by simp, fun other different => ?_⟩
    have apart : other ≠ slot := fun same => different (same ▸ located)
    rw [installFrame_tables, Function.update_of_ne apart, unmapFrame_tables located,
      Function.update_of_ne apart]
  · refine ⟨rfl, rfl, fun other different => ?_⟩
    have apart : other ≠ slot := fun same => different (same ▸ located)
    rw [installFrame_tables, Function.update_of_ne apart]

/-- After `map_frame` the page maps the frame. -/
theorem maps_of_mapFrame (mapped : memory.mapFrame directory frame va perm = some next) :
    next.Maps directory va frame := by
  obtain ⟨directories, -, -⟩ := mapFrame_others mapped
  obtain ⟨slot, located, cases⟩ := mapFrame_cases mapped
  have located' : next.slot directory va = some slot := (slot_congr directories ..).trans located
  refine ⟨next.tables slot, entry_eq located', ?_⟩
  rcases cases with ⟨present, same, rfl⟩ | ⟨-, -, rfl⟩ | ⟨-, rfl⟩
  · exact ⟨present, same⟩
  · refine ⟨installFrame_present .., ?_⟩
    rw [installFrame_tables, Function.update_self]
  · refine ⟨installFrame_present .., ?_⟩
    rw [installFrame_tables, Function.update_self]

/-- `map_frame` leaves a page that maps the frame alone. -/
theorem mapFrame_of_maps (maps : memory.Maps directory va frame)
    (mapped : memory.mapFrame directory frame va perm = some next) : next = memory := by
  obtain ⟨entry, here, present, same⟩ := maps
  obtain ⟨slot, located, cases⟩ := mapFrame_cases mapped
  rw [entry_eq located] at here
  obtain rfl := Option.some.inj here
  rcases cases with ⟨-, -, rfl⟩ | ⟨-, different, -⟩ | ⟨absent, -⟩
  · rfl
  · exact absurd same different
  · rw [present] at absent
    cases absent

/-- A frame that was not mapped at the address gets the permissions of the call. -/
theorem installed_of_mapFrame (unmapped : ¬ memory.Maps directory va frame)
    (mapped : memory.mapFrame directory frame va perm = some next) :
    ∃ available, next.entry directory va =
      some ⟨frame, available &&& permAvailable ||| perm ||| permPresent⟩ := by
  obtain ⟨directories, -, -⟩ := mapFrame_others mapped
  obtain ⟨slot, located, cases⟩ := mapFrame_cases mapped
  have located' : next.slot directory va = some slot := (slot_congr directories ..).trans located
  rw [entry_eq located']
  rcases cases with ⟨present, same, rfl⟩ | ⟨-, -, rfl⟩ | ⟨-, rfl⟩
  · exact absurd ⟨_, entry_eq located, present, same⟩ unmapped
  · exact ⟨_, by rw [installFrame_tables, Function.update_self]⟩
  · exact ⟨_, by rw [installFrame_tables, Function.update_self]⟩

end Memory

theorem has_available_user (perm : Perm) : Perm.has (perm &&& permAvailable) permUser = false := by
  rw [Perm.has_and, show permAvailable &&& permUser = 0#12 by decide]
  simp [Perm.has]

/-- An entry that the kernel heap wrote in one of its pages: the user cannot access it. -/
def HeapWrote (memory next : Memory) (slot : Slot) : Prop :=
  (∃ index < kheapPagesCount, memory.slot kernelDirectory (heapVa index) = some slot) ∧
    Perm.has (next.tables slot).perm permUser = false

/-- `get_page` leaves all entries alone, or writes the one of its address, which held no frame and
which the user then cannot access. -/
theorem getPage_entries {memory next : Memory} {va : Nat} (mapped : getPage memory va = .ok next) :
    next.directories = memory.directories ∧ (next.tables = memory.tables ∨
      ∃ slot entry, memory.slot kernelDirectory (roundDown va pageSize) = some slot ∧
        (memory.tables slot).holdsFrame = false ∧ Perm.has entry.perm permUser = false ∧
          next.tables = Function.update memory.tables slot entry) := by
  obtain ⟨code, allocated⟩ := getPage_eq_ok mapped
  cases located : memory.slot kernelDirectory (roundDown va pageSize) with
  | none =>
      rw [Memory.allocPage_of_not_located located] at allocated
      cases allocated
  | some slot =>
      obtain ⟨-, -, rfl⟩ | ⟨empty, -, frame, taken, bytes, took, rfl, -⟩ :=
        Memory.allocPage_cases located allocated
      · exact ⟨rfl, .inl rfl⟩
      · obtain ⟨tables, directories, -⟩ := Memory.allocateFrame_spec took
        refine ⟨directories, .inr ⟨slot, _, rfl, empty, ?_,
          congrArg (Function.update · slot _) tables⟩⟩
        rw [Perm.has_or, Perm.has_or, has_available_user]
        decide

/-- The kernel heap changes entries of its own pages only. -/
theorem PageMove.others {memory next : Memory} (move : PageMove memory next) :
    next.directories = memory.directories ∧
      ∀ slot, next.tables slot = memory.tables slot ∨ HeapWrote memory next slot := by
  cases move with
  | @getPage index next inside mapped =>
      obtain ⟨directories, same | ⟨place, entry, located, -, hidden, same⟩⟩ :=
        getPage_entries mapped
      · exact ⟨directories, fun slot => .inl (by rw [same])⟩
      · rw [roundDown_heapVa] at located
        refine ⟨directories, fun slot => ?_⟩
        by_cases here : slot = place
        · subst here
          exact .inr ⟨⟨index, inside, located⟩, by rwa [same, Function.update_self]⟩
        · exact .inl (by rw [same, Function.update_of_ne here])
  | @returnPage index inside =>
      refine ⟨Memory.unmapFrame_directories .., fun slot => ?_⟩
      unfold FosKernel.returnPage
      rw [roundDown_heapVa]
      cases located : memory.slot kernelDirectory (heapVa index) with
      | none => exact .inl (by rw [Memory.unmapFrame_of_not_located located])
      | some place =>
          by_cases here : slot = place
          · subst here
            cases holds : (memory.tables slot).holdsFrame with
            | false => exact .inl (by rw [Memory.unmapFrame_of_not_holdsFrame located holds])
            | true =>
                refine .inr ⟨⟨index, inside, located⟩, ?_⟩
                rw [Memory.unmapFrame_tables located, Function.update_self, if_pos holds]
                exact has_available_user _
          · exact .inl (by rw [Memory.unmapFrame_tables located, Function.update_of_ne here])
  | store bytes => exact ⟨rfl, fun _ => .inl rfl⟩

theorem PageMoves.others {memory next : Memory} (moves : PageMoves memory next) :
    next.directories = memory.directories ∧
      ∀ slot, next.tables slot = memory.tables slot ∨ HeapWrote memory next slot := by
  induction moves with
  | refl => exact ⟨rfl, fun _ => .inl rfl⟩
  | tail _ move ih =>
      obtain ⟨directories, written⟩ := ih
      obtain ⟨directories', written'⟩ := move.others
      refine ⟨directories'.trans directories, fun slot => ?_⟩
      rcases written' slot with same | ⟨⟨index, inside, located⟩, hidden⟩
      · rcases written slot with old | ⟨heap, hidden⟩
        · exact .inl (same.trans old)
        · exact .inr ⟨heap, by rwa [same]⟩
      · rw [Memory.slot_congr directories] at located
        exact .inr ⟨⟨index, inside, located⟩, hidden⟩

/-- New pages of the kernel heap leave every page that holds a frame alone. -/
theorem getPages_of_holdsFrame {memory next : Memory} {va count : Nat}
    (mapped : getPages memory va count = .ok next) :
    next.directories = memory.directories ∧
      ∀ slot, (memory.tables slot).holdsFrame = true →
          next.tables slot = memory.tables slot := by
  induction count generalizing memory va with
  | zero =>
      obtain rfl := Except.ok.inj mapped
      exact ⟨rfl, fun _ _ => rfl⟩
  | succ count ih =>
      obtain ⟨middle, first, rest⟩ := bind_eq_ok.mp mapped
      obtain ⟨directories', tables'⟩ := ih rest
      obtain ⟨directories, same | ⟨place, entry, located, empty, -, same⟩⟩ :=
        getPage_entries first
      · refine ⟨directories'.trans directories, fun slot holds => ?_⟩
        rw [tables' slot (by rwa [same]), same]
      · refine ⟨directories'.trans directories, fun slot holds => ?_⟩
        have different : slot ≠ place := by
          intro here
          rw [here, empty] at holds
          cases holds
        have kept : middle.tables slot = memory.tables slot := by
          rw [same, Function.update_of_ne different]
        rw [tables' slot (by rwa [kept]), kept]

namespace Memory

variable {memory : Memory} {directory other va va' table : Nat} {slot : Slot}

theorem slot_eq_some (located : memory.slot directory va = some slot) :
    memory.getPageTable directory va = some slot.1 ∧ slot.2 = ptx va := by
  obtain ⟨table, linked, rfl⟩ := Option.map_eq_some_iff.mp located
  exact ⟨linked, rfl⟩

theorem getPageTable_congr {next : Memory} (same : next.directories = memory.directories)
    (directory va : Nat) : next.getPageTable directory va = memory.getPageTable directory va := by
  rw [getPageTable, same, getPageTable]

theorem linkTable_getPageTable : (memory.linkTable directory va table).getPageTable other va' =
    if other = directory ∧ pdx va' = pdx va then some table
    else memory.getPageTable other va' := by
  unfold getPageTable linkTable
  dsimp only
  by_cases same : other = directory
  · subst same
    rw [Function.update_self]
    by_cases here : pdx va' = pdx va
    · rw [here, Function.update_self, if_pos ⟨rfl, rfl⟩]
    · rw [Function.update_of_ne here, if_neg fun both => here both.2]
  · rw [Function.update_of_ne same, if_neg fun both => same both.1]

end Memory

variable {β : Type} {D : DynAllocator β}

/-- The kernel heap takes new pages for a page table. -/
theorem kmalloc_page_entries {heap next : KHeap β} {va : Nat}
    (returned : heap.kmalloc D pageSize = .ok (va, next)) (nonzero : va ≠ 0) (slot : Slot)
    (holds : (heap.memory.tables slot).holdsFrame = true) :
    next.memory.tables slot = heap.memory.tables slot := by
  have pages : ∀ start brk, heap.allocatePages start brk (pagesOf pageSize) pageSize =
      .ok (va, next) → next.memory.tables slot = heap.memory.tables slot := by
    intro start brk allocated
    obtain ⟨memory, mapped, rest⟩ := bind_eq_ok.mp allocated
    obtain ⟨-, rfl⟩ := Prod.mk.inj (Except.ok.inj rest)
    exact (getPages_of_holdsFrame mapped).2 slot holds
  obtain ⟨null, -⟩ | ⟨-, small, -⟩ | ⟨-, -, fit, -, hit | extended⟩ :=
    KHeap.kmalloc_cases returned
  · exact absurd null nonzero
  · exact absurd small (by decide)
  · exact pages _ _ hit.2
  · exact pages _ _ extended.2.2

namespace SharedMemory

/-- A page table stands for one range of addresses, and one of user pages is in one directory. Those
not created yet are fresh, and the kernel heap records pages of its own. -/
structure Layout (shared : SharedMemory β) : Prop where
  pagesOnly : ∃ top, shared.heap.PagesOnly top
  apart : ∀ {directory other va va' table},
    shared.heap.memory.getPageTable directory va = some table →
      shared.heap.memory.getPageTable other va' = some table →
        pdx va = pdx va' ∧ (pdx va < pdx userTop → directory = other)
  fresh : ∀ table, shared.nextTable ≤ table → shared.heap.memory.FreshTable table

/-- Only user pages of one directory were mapped or unmapped: the pages from `USER_TOP` on and those
of other directories are as they were, but for pages of the kernel heap that the user cannot access,
and no page table was taken away. -/
structure KeepsOthers (directory : Nat) (before after : SharedMemory β) : Prop where
  tables : ∀ other va, va < 2 ^ 32 → other ≠ directory ∨ userTop ≤ va →
    after.heap.memory.getPageTable other va = before.heap.memory.getPageTable other va
  linked : ∀ va table, before.heap.memory.getPageTable directory va = some table →
    after.heap.memory.getPageTable directory va = some table
  entries : ∀ other va, va < 2 ^ 32 → other ≠ directory ∨ userTop ≤ va →
    after.heap.memory.entry other va = before.heap.memory.entry other va ∨
      (kernelHeapStart ≤ va ∧ va < kernelHeapMax) ∧
        ∀ entry, after.heap.memory.entry other va = some entry →
          Perm.has entry.perm permUser = false

variable {shared middle after : SharedMemory β} {directory other frame va va' : Nat} {perm : Perm}
  {slot : Slot}

namespace KeepsOthers

theorem refl (shared : SharedMemory β) (directory : Nat) :
    KeepsOthers directory shared shared where
  tables _ _ _ _ := rfl
  linked _ _ linked := linked
  entries _ _ _ _ := .inl rfl

theorem trans (first : KeepsOthers directory shared middle)
    (second : KeepsOthers directory middle after) : KeepsOthers directory shared after where
  tables other va word outside :=
    (second.tables other va word outside).trans (first.tables other va word outside)
  linked va table linked := second.linked va table (first.linked va table linked)
  entries other va word outside := by
    rcases second.entries other va word outside with same | hidden
    · rw [same]
      exact first.entries other va word outside
    · exact .inr hidden

end KeepsOthers

namespace Layout

/-- One place for two addresses. -/
theorem indices_eq (layout : shared.Layout)
    (here : shared.heap.memory.slot directory va = some slot)
    (there : shared.heap.memory.slot other va' = some slot) :
    pdx va = pdx va' ∧ ptx va = ptx va' ∧ (pdx va < pdx userTop → directory = other) := by
  obtain ⟨linked, index⟩ := Memory.slot_eq_some here
  obtain ⟨linked', index'⟩ := Memory.slot_eq_some there
  obtain ⟨same, own⟩ := layout.apart linked linked'
  exact ⟨same, index.symm.trans index', own⟩

/-- What the kernel heap does on its own pages. -/
theorem heap {heap : KHeap β} (layout : shared.Layout) (pagesOnly : ∃ top, heap.PagesOnly top)
    (moves : PageMoves shared.heap.memory heap.memory) (directory : Nat) :
    ({ shared with heap := heap } : SharedMemory β).Layout ∧
      KeepsOthers directory shared { shared with heap := heap } := by
  obtain ⟨directories, written⟩ := moves.others
  have tables := Memory.getPageTable_congr directories
  refine ⟨⟨pagesOnly, fun {directory other va va' table} linked linked' => ?_,
    fun table above => ?_⟩, fun other va _ _ => tables other va,
    fun va table linked => (tables directory va).trans linked, fun other va word outside => ?_⟩
  · dsimp only at linked linked'
    rw [tables] at linked linked'
    exact layout.apart linked linked'
  · obtain ⟨unlinked, empty⟩ := layout.fresh table above
    refine ⟨fun directory va => ?_, fun index => ?_⟩
    · dsimp only
      rw [tables]
      exact unlinked directory va
    · rcases written (table, index) with same | ⟨⟨page, -, located⟩, -⟩
      · exact same.trans (empty index)
      · exact absurd (Memory.slot_eq_some located).1 (unlinked _ _)
  · rw [Memory.entry_eq_map, Memory.entry_eq_map, Memory.slot_congr directories]
    cases located : shared.heap.memory.slot other va with
    | none => exact .inl rfl
    | some slot =>
        rcases written slot with same | ⟨⟨page, inside, located'⟩, hidden⟩
        · exact .inl (congrArg some same)
        · obtain ⟨table, index, -⟩ := layout.indices_eq located located'
          refine .inr ⟨heap_of_indices word inside table index, ?_⟩
          rintro entry ⟨⟩
          exact hidden

theorem kmalloc {heap : KHeap β} {size : Nat} (accessing : D.Accessing) (layout : shared.Layout)
    (returned : shared.heap.kmalloc D size = .ok (va, heap)) (directory : Nat) :
    ({ shared with heap := heap } : SharedMemory β).Layout ∧
      KeepsOthers directory shared { shared with heap := heap } := by
  obtain ⟨top, pagesOnly⟩ := layout.pagesOnly
  obtain ⟨top', pagesOnly', moves⟩ := pagesOnly.kmalloc returned
  exact layout.heap ⟨top', pagesOnly'⟩ (moves.pageMoves accessing) directory

theorem kfree {heap : KHeap β} (accessing : D.Accessing) (layout : shared.Layout)
    (returned : shared.heap.kfree D va = .ok heap) (directory : Nat) :
    ({ shared with heap := heap } : SharedMemory β).Layout ∧
      KeepsOthers directory shared { shared with heap := heap } := by
  obtain ⟨top, pagesOnly⟩ := layout.pagesOnly
  obtain ⟨top', pagesOnly', moves⟩ := pagesOnly.kfree returned
  exact layout.heap ⟨top', pagesOnly'⟩ (moves.pageMoves accessing) directory

/-- A fresh page table is linked where there was none. -/
theorem linkTable (layout : shared.Layout)
    (missing : shared.heap.memory.getPageTable directory va = none) (linked : SharedMemory β)
    (same : linked.heap.memory = shared.heap.memory.linkTable directory va shared.nextTable)
    (next : linked.nextTable = shared.nextTable + 1)
    (pagesOnly : ∃ top, linked.heap.PagesOnly top) :
    linked.Layout ∧ (va < userTop → KeepsOthers directory shared linked) := by
  have new := layout.fresh shared.nextTable (Nat.le_refl _)
  have entries := new.linkTable_tables directory va
  have tables : ∀ other va', linked.heap.memory.getPageTable other va' =
      if other = directory ∧ pdx va' = pdx va then some shared.nextTable
      else shared.heap.memory.getPageTable other va' := by
    intro other va'
    rw [same]
    exact Memory.linkTable_getPageTable
  refine ⟨⟨pagesOnly, fun {first second va' va'' table} linked linked' => ?_,
    fun table above => ⟨fun other va' => ?_, fun index => ?_⟩⟩,
      fun user => ⟨?_, ?_, ?_⟩⟩
  · rw [tables] at linked linked'
    split at linked <;> split at linked'
    · rename_i here here'
      exact ⟨here.2.trans here'.2.symm, fun _ => here.1.trans here'.1.symm⟩
    · obtain rfl := Option.some.inj linked
      exact absurd linked' (new.unlinked _ _)
    · obtain rfl := Option.some.inj linked'
      exact absurd linked (new.unlinked _ _)
    · exact layout.apart linked linked'
  · rw [next] at above
    rw [tables]
    split
    · exact fun equal => Nat.ne_of_lt above (Option.some.inj equal)
    · exact (layout.fresh table (Nat.le_of_succ_le above)).unlinked other va'
  · rw [next] at above
    rw [same, entries]
    exact (layout.fresh table (Nat.le_of_succ_le above)).empty index
  all_goals
    have outside : ∀ {other va'}, va' < 2 ^ 32 → other ≠ directory ∨ userTop ≤ va' →
        linked.heap.memory.getPageTable other va' = shared.heap.memory.getPageTable other va' := by
      intro other va' word away
      rw [tables, if_neg]
      rintro ⟨rfl, index⟩
      have kernel := away.resolve_left fun different => different rfl
      have upper := userTop_le_pdx word kernel
      have lower := pdx_lt_userTop user
      omega
  · exact fun other va' word away => outside word away
  · intro va' table held
    rw [tables, if_neg, held]
    rintro ⟨-, index⟩
    rw [Memory.getPageTable, index] at held
    rw [Memory.getPageTable, held] at missing
    cases missing
  · intro other va' word away
    refine .inl ?_
    unfold Memory.entry Memory.slot
    rw [outside word away, same, entries]

/-- Where only the entry of one address is written. -/
theorem setMemory {memory : Memory} (layout : shared.Layout)
    (directories : memory.directories = shared.heap.memory.directories)
    (others : ∀ slot, shared.heap.memory.slot directory va ≠ some slot →
      memory.tables slot = shared.heap.memory.tables slot) :
    (shared.setMemory memory).Layout ∧
      (va < userTop → KeepsOthers directory shared (shared.setMemory memory)) := by
  have tables : ∀ other va', (shared.setMemory memory).heap.memory.getPageTable other va' =
      shared.heap.memory.getPageTable other va' := Memory.getPageTable_congr directories
  obtain ⟨top, pagesOnly⟩ := layout.pagesOnly
  refine ⟨⟨⟨top, pagesOnly.congr rfl rfl⟩, fun linked linked' => ?_,
    fun table above => ?_⟩,
    fun user => ⟨fun other va' _ _ => tables other va',
      fun va' table linked => (tables directory va').trans linked,
        fun other va' word away => ?_⟩⟩
  · rw [tables] at linked linked'
    exact layout.apart linked linked'
  · obtain ⟨unlinked, empty⟩ := layout.fresh table above
    refine ⟨fun other va' => ?_, fun index => ?_⟩
    · rw [tables]
      exact unlinked other va'
    · refine (others (table, index) fun located => ?_).trans (empty index)
      exact unlinked _ _ (Memory.slot_eq_some located).1
  · refine .inl ?_
    rw [Memory.entry_eq_map, Memory.entry_eq_map]
    rw [show (shared.setMemory memory).heap.memory.slot other va' =
      shared.heap.memory.slot other va' from Memory.slot_congr directories other va']
    cases located : shared.heap.memory.slot other va' with
    | none => rfl
    | some slot =>
        refine congrArg some (others slot fun here => ?_)
        obtain ⟨index, -, own⟩ := layout.indices_eq here located
        have lower := pdx_lt_userTop user
        rcases away with different | kernel
        · exact different (own lower).symm
        · have upper := userTop_le_pdx word kernel
          omega

/-- The page table that `map_frame` creates where there is none. -/
theorem ensurePageTable (accessing : D.Accessing) (layout : shared.Layout)
    (ready : shared.ensurePageTable D directory va = .ok after) :
    after.Layout ∧ (va < userTop → KeepsOthers directory shared after) := by
  unfold SharedMemory.ensurePageTable at ready
  cases held : shared.heap.memory.getPageTable directory va with
  | some table =>
      rw [held] at ready
      obtain rfl := Except.ok.inj ready
      exact ⟨layout, fun _ => .refl ..⟩
  | none =>
      rw [held] at ready
      obtain ⟨⟨table, heap⟩, allocated, rest⟩ := bind_eq_ok.mp ready
      obtain ⟨top, pagesOnly⟩ := layout.pagesOnly
      obtain ⟨top', pagesOnly', moves⟩ := pagesOnly.kmalloc allocated
      have moves := moves.pageMoves accessing
      obtain ⟨layout', kept⟩ := layout.heap ⟨top', pagesOnly'⟩ moves directory
      dsimp only at rest
      split at rest
      · cases rest
      · obtain rfl := Except.ok.inj rest
        have missing : heap.memory.getPageTable directory va = none :=
          (Memory.getPageTable_congr moves.others.1 directory va).trans held
        obtain ⟨linked, kept'⟩ := layout'.linkTable missing
          { shared with
            heap := { heap with memory := heap.memory.linkTable directory va shared.nextTable }
            nextTable := shared.nextTable + 1 } rfl rfl ⟨top', pagesOnly'.congr rfl rfl⟩
        exact ⟨linked, fun user => kept.trans (kept' user)⟩

/-- `map_frame` at a user page of the directory. -/
theorem mapFrame (accessing : D.Accessing) (layout : shared.Layout)
    (mapped : shared.mapFrame D directory frame va perm = .ok after) :
    after.Layout ∧ (va < userTop → KeepsOthers directory shared after) := by
  obtain ⟨ready, table, rest⟩ := bind_eq_ok.mp mapped
  obtain ⟨layout', kept⟩ := layout.ensurePageTable accessing table
  cases installed : ready.heap.memory.mapFrame directory frame va perm with
  | none =>
      rw [installed] at rest
      cases rest
  | some memory =>
      rw [installed] at rest
      obtain rfl := Except.ok.inj rest
      obtain ⟨directories, -, others⟩ := Memory.mapFrame_others installed
      obtain ⟨layout'', kept'⟩ := layout'.setMemory directories others
      exact ⟨layout'', fun user => (kept user).trans (kept' user)⟩

/-- A page table that `map_frame` creates leaves every present page alone. -/
theorem ensurePageTable_entry (accessing : D.Accessing) (layout : shared.Layout)
    {entry : PageTableEntry} (ready : shared.ensurePageTable D directory va = .ok after)
    (here : shared.heap.memory.entry other va' = some entry) (present : entry.present = true) :
    after.heap.memory.entry other va' = some entry := by
  unfold SharedMemory.ensurePageTable at ready
  cases held : shared.heap.memory.getPageTable directory va with
  | some table =>
      rw [held] at ready
      obtain rfl := Except.ok.inj ready
      exact here
  | none =>
      rw [held] at ready
      obtain ⟨⟨table, heap⟩, allocated, rest⟩ := bind_eq_ok.mp ready
      obtain ⟨top, pagesOnly⟩ := layout.pagesOnly
      obtain ⟨top', pagesOnly', moves⟩ := pagesOnly.kmalloc allocated
      have moves := moves.pageMoves accessing
      obtain ⟨layout', -⟩ := layout.heap ⟨top', pagesOnly'⟩ moves directory
      dsimp only at rest
      split at rest
      · cases rest
      · rename_i nonzero
        obtain rfl := Except.ok.inj rest
        obtain ⟨slot, located, same⟩ := Option.map_eq_some_iff.mp here
        have holds : (shared.heap.memory.tables slot).holdsFrame = true := by
          rw [same]
          exact PageTableEntry.holdsFrame_of_present present
        have kept : heap.memory.tables slot = shared.heap.memory.tables slot :=
          kmalloc_page_entries allocated nonzero slot holds
        have linked : (heap.memory.linkTable directory va shared.nextTable).slot other va' =
            some slot := by
          obtain ⟨linked, -⟩ := Memory.slot_eq_some located
          rw [← Memory.slot_congr moves.others.1] at located
          unfold Memory.slot at located ⊢
          rw [Memory.linkTable_getPageTable, if_neg, located]
          rintro ⟨rfl, index⟩
          rw [Memory.getPageTable, index] at linked
          rw [Memory.getPageTable, linked] at held
          cases held
        have entries := (layout'.fresh shared.nextTable (Nat.le_refl _)).linkTable_tables
          directory va
        refine (Memory.entry_eq linked).trans (congrArg some ?_)
        rw [entries]
        exact kept.trans same

/-- `map_frame` leaves a present page alone, unless it maps another frame there. -/
theorem mapFrame_entry (accessing : D.Accessing) (layout : shared.Layout) {entry : PageTableEntry}
    (mapped : shared.mapFrame D directory frame va perm = .ok after)
    (here : shared.heap.memory.entry directory va' = some entry) (present : entry.present = true)
    (mapped' : pdx va' = pdx va → ptx va' = ptx va → entry.frame = frame) :
    after.heap.memory.entry directory va' = some entry := by
  obtain ⟨ready, table, rest⟩ := bind_eq_ok.mp mapped
  have kept := layout.ensurePageTable_entry accessing table here present
  obtain ⟨layout', -⟩ := layout.ensurePageTable accessing table
  cases installed : ready.heap.memory.mapFrame directory frame va perm with
  | none =>
      rw [installed] at rest
      cases rest
  | some memory =>
      rw [installed] at rest
      obtain rfl := Except.ok.inj rest
      obtain ⟨slot, located, same⟩ := Option.map_eq_some_iff.mp kept
      by_cases written : ready.heap.memory.slot directory va = some slot
      · obtain ⟨table', index, -⟩ := layout'.indices_eq located written
        have maps : ready.heap.memory.Maps directory va frame :=
          ⟨entry, (Memory.entry_eq written).trans (congrArg some same), present,
            mapped' table' index⟩
        obtain rfl := Memory.mapFrame_of_maps maps installed
        exact kept
      · obtain ⟨directories, -, others⟩ := Memory.mapFrame_others installed
        have located' : memory.slot directory va' = some slot :=
          (Memory.slot_congr directories ..).trans located
        refine (Memory.entry_eq located').trans (congrArg some ?_)
        exact (others slot written).trans same

end Layout

theorem mapFrame_maps (mapped : shared.mapFrame D directory frame va perm = .ok after) :
    after.heap.memory.Maps directory va frame := by
  obtain ⟨ready, table, rest⟩ := bind_eq_ok.mp mapped
  cases installed : ready.heap.memory.mapFrame directory frame va perm with
  | none =>
      rw [installed] at rest
      cases rest
  | some memory =>
      rw [installed] at rest
      obtain rfl := Except.ok.inj rest
      exact Memory.maps_of_mapFrame installed

end SharedMemory

end FosKernel
