import FosKernel.Heap.HeapFrames
import FosKernel.Share.ShareNames

/-!
# The frames of shared objects

The reference counts of frames over runs of `create_shared_object`,
`get_shared_object` and `SYS_unmap_frame`. A share records its frames for good,
while the references count mappings only; so the counts are right as long as
`get_shared_object` maps frames that are still in use and 16 bits are enough.
-/

namespace FosKernel

/-- The references count the mappings, no entry is marked buffered, and the page tables from some
name on are fresh. -/
structure Memory.Counted (managed pending : Finset Nat) (nextTable : Nat) (memory : Memory) :
    Prop where
  counted : ∃ free, FrameInvariant managed memory pending free
  unbuffered : ∀ slot, Perm.has (memory.tables slot).perm permBuffered = false
  fresh : ∀ table, nextTable ≤ table → memory.FreshTable table

namespace Memory.Counted

variable {managed pending : Finset Nat} {nextTable : Nat} {memory next : Memory}
  {directory frame va : Nat} {slot : Slot} {perm : Perm}

/-- Writing an entry that is not buffered to a page that has a table. -/
theorem write {entry : PageTableEntry} (kept : memory.Counted managed pending nextTable)
    (located : memory.slot directory va = some slot)
    (regular : Perm.has entry.perm permBuffered = false)
    (directories : next.directories = memory.directories)
    (written : next.tables = Function.update memory.tables slot entry) :
    (∀ slot, Perm.has (next.tables slot).perm permBuffered = false) ∧
      ∀ table, nextTable ≤ table → next.FreshTable table := by
  constructor
  · intro other
    rw [written]
    by_cases same : other = slot
    · rwa [same, Function.update_self]
    · rw [Function.update_of_ne same]
      exact kept.unbuffered other
  · intro table above
    obtain ⟨unlinked, empty⟩ := kept.fresh table above
    have links : ∀ directory va, next.getPageTable directory va ≠ some table := by
      intro directory va
      rw [getPageTable, directories]
      exact unlinked directory va
    refine ⟨links, fun index => ?_⟩
    have different : (table, index) ≠ slot := by
      rintro rfl
      obtain ⟨table', linked, same⟩ := Option.map_eq_some_iff.mp located
      obtain ⟨rfl, -⟩ := Prod.mk.inj same
      exact unlinked directory va linked
    rw [written, Function.update_of_ne different]
    exact empty index

/-- Nothing depends on the contents of frames. -/
theorem congr (kept : memory.Counted managed pending nextTable)
    (frames : next.frames = memory.frames) (list : next.freeFrameList = memory.freeFrameList)
    (directories : next.directories = memory.directories) (tables : next.tables = memory.tables) :
    next.Counted managed pending nextTable := by
  obtain ⟨⟨free, invariant⟩, unbuffered, fresh⟩ := kept
  refine ⟨⟨free, invariant.congr frames list tables⟩, ?_, fun table above => ?_⟩
  · rwa [tables]
  · obtain ⟨unlinked, empty⟩ := fresh table above
    refine ⟨?_, by rwa [tables]⟩
    intro directory va
    rw [getPageTable, directories]
    exact unlinked directory va

/-- What `map_frame` writes is not buffered. -/
theorem installed_regular (regular : Perm.has perm permBuffered = false) {old : Perm}
    (before : Perm.has old permBuffered = false) :
    Perm.has (old &&& permAvailable ||| perm ||| permPresent) permBuffered = false := by
  simp only [Perm.has_or, Perm.has_and, regular, Bool.or_false,
    show permAvailable &&& permBuffered = permBuffered by decide,
    show Perm.has permPresent permBuffered = false by decide]
  exact before

/-- What `unmap_frame` leaves is not buffered. -/
theorem unmapped_regular {entry : PageTableEntry}
    (before : Perm.has entry.perm permBuffered = false) :
    Perm.has entry.unmapped.perm permBuffered = false := by
  rw [PageTableEntry.unmapped, Perm.has_and,
    show permAvailable &&& permBuffered = permBuffered by decide]
  exact before

theorem allocateFrame (kept : memory.Counted managed pending nextTable)
    (allocated : memory.allocateFrame = some (frame, next)) :
    next.Counted managed (insert frame pending) nextTable := by
  obtain ⟨free, invariant⟩ := kept.counted
  obtain ⟨tables, directories, -⟩ := allocateFrame_spec allocated
  refine ⟨invariant.allocate allocated, ?_, fun table above => ?_⟩
  · rw [tables]
    exact kept.unbuffered
  · obtain ⟨unlinked, empty⟩ := kept.fresh table above
    refine ⟨?_, by rwa [tables]⟩
    intro directory va
    rw [getPageTable, directories]
    exact unlinked directory va

theorem unmapFrame (kept : memory.Counted managed pending nextTable) (directory va : Nat) :
    (memory.unmapFrame directory va).Counted managed pending nextTable := by
  obtain ⟨free, invariant⟩ := kept.counted
  have counted : ∃ free, FrameInvariant managed
      (memory.unmapFrame directory va) pending free := by
    apply invariant.unmapFrame
    intro entry found _
    obtain ⟨slot, -, rfl⟩ := Option.map_eq_some_iff.mp found
    exact kept.unbuffered slot
  cases located : memory.slot directory va with
  | none =>
      rw [unmapFrame_of_not_located located]
      exact kept
  | some slot =>
      have regular : Perm.has (if (memory.tables slot).holdsFrame then
          (memory.tables slot).unmapped else memory.tables slot).perm permBuffered = false := by
        split
        · exact unmapped_regular (kept.unbuffered slot)
        · exact kept.unbuffered slot
      obtain ⟨unbuffered, fresh⟩ := kept.write located regular
        (memory.unmapFrame_directories directory va) (unmapFrame_tables located)
      exact ⟨counted, unbuffered, fresh⟩

/-- Installing a frame at an entry of a page that has a table. -/
theorem install (kept : memory.Counted managed pending nextTable)
    (located : memory.slot directory va = some slot)
    (regular : Perm.has perm permBuffered = false) (frame address : Nat) :
    (∀ other, Perm.has ((memory.installFrame slot frame address perm).tables other).perm
        permBuffered = false) ∧
      ∀ table, nextTable ≤ table →
        (memory.installFrame slot frame address perm).FreshTable table :=
  kept.write located (installed_regular regular (kept.unbuffered slot))
    (memory.installFrame_directories slot frame address perm)
    (memory.installFrame_tables slot frame address perm)

theorem mapFrame (kept : memory.Counted managed pending nextTable)
    (regular : Perm.has perm permBuffered = false)
    (may : memory.MayMap pending directory frame va)
    (mapped : memory.mapFrame directory frame va perm = some next) :
    next.Counted managed (pending.erase frame) nextTable := by
  obtain ⟨free, invariant⟩ := kept.counted
  have counted := invariant.mapFrame_of_mayMap may mapped
  obtain ⟨slot, located, alternatives⟩ := mapFrame_cases mapped
  obtain ⟨-, -, rfl⟩ | ⟨present, -, rfl⟩ | ⟨-, rfl⟩ := alternatives
  · exact ⟨counted, kept.unbuffered, kept.fresh⟩
  · have located' : (memory.unmapFrame directory va).slot directory va = some slot :=
      (slot_congr (memory.unmapFrame_directories directory va) ..).trans located
    obtain ⟨unbuffered, fresh⟩ :=
      (kept.unmapFrame directory va).install located' regular frame va
    exact ⟨counted, unbuffered, fresh⟩
  · obtain ⟨unbuffered, fresh⟩ := kept.install located regular frame va
    exact ⟨counted, unbuffered, fresh⟩

theorem pageMove (kept : memory.Counted managed pending nextTable) (move : PageMove memory next) :
    next.Counted managed pending nextTable := by
  cases move with
  | @getPage index _ inside mapped =>
      obtain ⟨free, invariant⟩ := kept.counted
      obtain ⟨code, allocated⟩ := getPage_eq_ok mapped
      have counted := invariant.allocPage allocated
      cases located : memory.slot kernelDirectory (roundDown (heapVa index) pageSize) with
      | none =>
          rw [allocPage_of_not_located located] at allocated
          cases allocated
      | some slot =>
          obtain ⟨-, -, rfl⟩ | ⟨-, -, frame, taken, bytes, took, rfl, -⟩ :=
            allocPage_cases located allocated
          · exact kept
          · obtain ⟨-, directories, -⟩ := allocateFrame_spec took
            have located' : taken.slot kernelDirectory (roundDown (heapVa index) pageSize) =
                some slot := (slot_congr directories ..).trans located
            obtain ⟨unbuffered, fresh⟩ := (kept.allocateFrame took).install located'
              (show Perm.has permWriteable permBuffered = false by decide) frame
              (roundDown (heapVa index) pageSize)
            obtain ⟨free', invariant'⟩ := counted
            have installed : (taken.installFrame slot frame (roundDown (heapVa index) pageSize)
                permWriteable).Counted managed pending nextTable :=
              ⟨⟨free', invariant'.congr rfl rfl rfl⟩, unbuffered, fresh⟩
            exact installed.congr rfl rfl rfl rfl
  | returnPage inside => exact kept.unmapFrame ..
  | store bytes => exact kept.congr rfl rfl rfl rfl

theorem pageMoves (moves : PageMoves memory next)
    (kept : memory.Counted managed pending nextTable) : next.Counted managed pending nextTable :=
  @PageMoves.keep _ _ (fun memory => memory.Counted managed pending nextTable) pageMove moves kept

/-- The next fresh table is stored. -/
theorem linkTable (kept : memory.Counted managed pending nextTable) (directory va : Nat) :
    (memory.linkTable directory va nextTable).Counted managed pending (nextTable + 1) := by
  obtain ⟨free, invariant⟩ := kept.counted
  have entries := (kept.fresh nextTable (Nat.le_refl _)).linkTable_tables directory va
  refine ⟨⟨free, invariant.congr rfl rfl entries⟩, ?_, fun table above => ?_⟩
  · rw [entries]
    exact kept.unbuffered
  · obtain ⟨unlinked, empty⟩ := kept.fresh table (Nat.le_of_succ_le above)
    refine ⟨?_, by rwa [entries]⟩
    intro directory' va'
    simp only [getPageTable, Memory.linkTable]
    by_cases same : directory' = directory
    · rw [same, Function.update_self]
      by_cases same' : pdx va' = pdx va
      · rw [same', Function.update_self]
        exact fun linked => Nat.ne_of_lt above (Option.some.inj linked)
      · rw [Function.update_of_ne same']
        exact unlinked directory va'
    · rw [Function.update_of_ne same]
      exact unlinked directory' va'

end Memory.Counted

/-- A call of an environment, with what lies in the fresh memory of a share and behind the name
fields of the list. -/
inductive ShareCall where
  | createSharedObject (overrun : Nat → List UInt8) (contents : List UInt8) (directory : Nat)
      (ownerId : BitVec 32) (shareName : List UInt8) (size : Nat) (isWritable : UInt8) (va : Nat)
  | getSharedObject (overrun : Nat → List UInt8) (directory : Nat) (ownerId : BitVec 32)
      (shareName : List UInt8) (va : Nat)
  | sysUnmapFrame (directory va : Nat)

namespace SharedMemory

variable {β : Type} {D : DynAllocator β} {managed pending : Finset Nat}
  {shared after : SharedMemory β} {directory frame va index count : Nat} {perm : Perm}
  {framesStorage : List Nat}

/-- Execute a call. -/
def exec (D : DynAllocator β) (shared : SharedMemory β) :
    ShareCall → Except Halt (Int × SharedMemory β)
  | .createSharedObject overrun contents directory ownerId shareName size isWritable va =>
      shared.createSharedObject D overrun contents directory ownerId shareName size isWritable va
  | .getSharedObject overrun directory ownerId shareName va =>
      shared.getSharedObject D overrun directory ownerId shareName va
  | .sysUnmapFrame directory va => .ok (shared.sysUnmapFrame directory va)

/-- One call that returns. -/
def Step (D : DynAllocator β) (shared after : SharedMemory β) : Prop :=
  ∃ call code, shared.exec D call = .ok (code, after)

/-- Every `map_frame` of the loop of `get_shared_object` gets a frame in use with a reference to
spare, once the page table of its address exists. -/
inductive MapsInUse (D : DynAllocator β) (directory va : Nat) (perm : Perm)
    (framesStorage : List Nat) : SharedMemory β → Nat → Nat → Prop
  | done {shared : SharedMemory β} {index : Nat} :
      MapsInUse D directory va perm framesStorage shared index 0
  | next {shared : SharedMemory β} {index count : Nat}
      (may : ∀ frame, framesStorage[index]? = some frame →
        ∀ ready, shared.ensurePageTable D directory (add32 va (index * pageSize)) = .ok ready →
          ready.heap.memory.MayMap ∅ directory frame (add32 va (index * pageSize)))
      (later : ∀ frame, framesStorage[index]? = some frame → ∀ after,
        shared.mapFrame D directory frame (add32 va (index * pageSize)) perm = .ok after →
          MapsInUse D directory va perm framesStorage after (index + 1) count) :
      MapsInUse D directory va perm framesStorage shared index (count + 1)

/-- `get_shared_object` maps frames in use with references to spare. -/
def InUse (D : DynAllocator β) (shared : SharedMemory β) : ShareCall → Prop
  | .getSharedObject overrun directory ownerId shareName va => ∀ index share,
      shared.findShare overrun ownerId shareName = some index →
      shared.sharesList[index]? = some share →
        MapsInUse D directory va
          (if share.isWritable ≠ 0 then permUser ||| permWriteable else permUser)
          share.framesStorage shared 0 (numframe share.size)
  | _ => True

/-- One call that returns and maps only frames in use with references to spare. -/
def InUseStep (D : DynAllocator β) (shared after : SharedMemory β) : Prop :=
  ∃ call code, shared.InUse D call ∧ shared.exec D call = .ok (code, after)

/-- The size table records runs of pages, and the references count the mappings. -/
structure Kept (managed pending : Finset Nat) (shared : SharedMemory β) : Prop where
  pagesOnly : ∃ top, shared.heap.PagesOnly top
  counted : shared.heap.memory.Counted managed pending shared.nextTable

/-- A heap in which a call of the kernel heap has returned. -/
theorem Kept.heap (kept : shared.Kept managed pending) (accessing : D.Accessing)
    {heap : KHeap β} {top : Nat} (pagesOnly : heap.PagesOnly top)
    (moves : HeapMoves D shared.heap.memory heap.memory) :
    ({ shared with heap := heap } : SharedMemory β).Kept managed pending :=
  ⟨⟨top, pagesOnly⟩, kept.counted.pageMoves (moves.pageMoves accessing)⟩

theorem Kept.kmalloc (kept : shared.Kept managed pending) (accessing : D.Accessing)
    {heap : KHeap β} {size : Nat} (returned : shared.heap.kmalloc D size = .ok (va, heap)) :
    ({ shared with heap := heap } : SharedMemory β).Kept managed pending := by
  obtain ⟨top, pagesOnly⟩ := kept.pagesOnly
  obtain ⟨top', pagesOnly', moves⟩ := pagesOnly.kmalloc returned
  exact kept.heap accessing pagesOnly' moves

theorem Kept.kfree (kept : shared.Kept managed pending) (accessing : D.Accessing)
    {heap : KHeap β} (returned : shared.heap.kfree D va = .ok heap) :
    ({ shared with heap := heap } : SharedMemory β).Kept managed pending := by
  obtain ⟨top, pagesOnly⟩ := kept.pagesOnly
  obtain ⟨top', pagesOnly', moves⟩ := pagesOnly.kfree returned
  exact kept.heap accessing pagesOnly' moves

theorem Kept.setMemory (kept : shared.Kept managed pending) {memory : Memory}
    {pending' : Finset Nat} (counted : memory.Counted managed pending' shared.nextTable) :
    (shared.setMemory memory).Kept managed pending' := by
  obtain ⟨top, pagesOnly⟩ := kept.pagesOnly
  exact ⟨⟨top, pagesOnly.congr rfl rfl⟩, counted⟩

theorem Kept.ensurePageTable (kept : shared.Kept managed pending) (accessing : D.Accessing)
    (ready : shared.ensurePageTable D directory va = .ok after) : after.Kept managed pending := by
  unfold SharedMemory.ensurePageTable at ready
  split at ready
  · exact Except.ok.inj ready ▸ kept
  · obtain ⟨⟨table, heap⟩, allocated, rest⟩ := bind_eq_ok.mp ready
    dsimp only at rest
    split at rest
    · cases rest
    · obtain rfl := Except.ok.inj rest
      obtain ⟨⟨top, pagesOnly⟩, counted⟩ := kept.kmalloc accessing allocated
      exact ⟨⟨top, pagesOnly.congr rfl rfl⟩, counted.linkTable directory va⟩

/-- `map_frame` of a frame in use, once the page table exists. -/
theorem Kept.mapFrame (kept : shared.Kept managed pending) (accessing : D.Accessing)
    (regular : Perm.has perm permBuffered = false)
    (may : ∀ ready, shared.ensurePageTable D directory va = .ok ready →
      ready.heap.memory.MayMap pending directory frame va)
    (mapped : shared.mapFrame D directory frame va perm = .ok after) :
    after.Kept managed (pending.erase frame) := by
  obtain ⟨ready, table, rest⟩ := bind_eq_ok.mp mapped
  have kept' := kept.ensurePageTable accessing table
  split at rest
  · cases rest
  · rename_i memory installed
    obtain rfl := Except.ok.inj rest
    exact kept'.setMemory (kept'.counted.mapFrame regular (may ready table) installed)

/-- A frame that was just allocated may be mapped once. -/
theorem mayMap_of_pending (kept : shared.Kept managed pending) (member : frame ∈ pending) :
    shared.heap.memory.MayMap pending directory frame va := by
  obtain ⟨free, invariant⟩ := kept.counted.counted
  refine ⟨.inl member, fun slot _ => ?_⟩
  rw [(invariant.handedOut frame member).2, insert_empty_eq, Set.ncard_singleton]
  decide

theorem Kept.placeFrames (kept : shared.Kept managed ∅) (accessing : D.Accessing)
    {pageAddress : Nat} {framesStorage' : List Nat}
    (placed : shared.placeFrames D directory pageAddress framesStorage index count =
      .ok (framesStorage', after)) : after.Kept managed ∅ := by
  induction count generalizing shared pageAddress framesStorage index with
  | zero =>
      obtain ⟨-, rfl⟩ := Prod.mk.inj (Except.ok.inj placed)
      exact kept
  | succ count ih =>
      rw [SharedMemory.placeFrames] at placed
      split at placed
      · cases placed
      · rename_i frame memory allocated
        obtain ⟨middle, mapped, rest⟩ := bind_eq_ok.mp placed
        have taken := kept.setMemory (kept.counted.allocateFrame allocated)
        have placed' := taken.mapFrame accessing (by decide)
          (fun ready table => mayMap_of_pending (taken.ensurePageTable accessing table)
            (Finset.mem_insert_self ..)) mapped
        rw [Finset.erase_insert (Finset.notMem_empty frame)] at placed'
        exact ih placed' rest

theorem Kept.mapStorage (kept : shared.Kept managed ∅) (accessing : D.Accessing)
    (regular : Perm.has perm permBuffered = false)
    (inUse : MapsInUse D directory va perm framesStorage shared index count)
    (mapped : shared.mapStorage D directory va perm framesStorage index count = .ok after) :
    after.Kept managed ∅ := by
  induction count generalizing shared index with
  | zero => exact Except.ok.inj mapped ▸ kept
  | succ count ih =>
      rw [SharedMemory.mapStorage] at mapped
      split at mapped
      · cases mapped
      · rename_i frame recorded
        obtain ⟨middle, first, rest⟩ := bind_eq_ok.mp mapped
        cases inUse with
        | next may later =>
            have kept' := kept.mapFrame accessing regular (may frame recorded) first
            rw [Finset.erase_empty] at kept'
            exact ih kept' (later frame recorded middle first) rest

/-- The parts of a share are allocated in the kernel heap. -/
theorem Kept.allocShare (kept : shared.Kept managed ∅) (accessing : D.Accessing)
    {contents : List UInt8} {ownerId : BitVec 32} {shareName : List UInt8} {size : Nat}
    {isWritable : UInt8} {share : Option Share} {heap : KHeap β}
    (allocated : SharedMemory.allocShare D shared.heap contents ownerId shareName size isWritable =
      .ok (share, heap)) : ({ shared with heap := heap } : SharedMemory β).Kept managed ∅ := by
  obtain ⟨⟨block, first⟩, call, rest⟩ := bind_eq_ok.mp allocated
  have kept₁ := kept.kmalloc accessing call
  dsimp only at rest
  split at rest
  · obtain ⟨-, rfl⟩ := Prod.mk.inj (Except.ok.inj rest)
    exact kept₁
  · obtain ⟨⟨storage, second⟩, stored, last⟩ := bind_eq_ok.mp rest
    have kept₂ : ({ shared with heap := second } : SharedMemory β).Kept managed ∅ := by
      unfold allocFramesStorage at stored
      split at stored
      · obtain ⟨-, rfl⟩ := Prod.mk.inj (Except.ok.inj stored)
        exact kept₁
      · obtain ⟨⟨block', third⟩, call', rest'⟩ := bind_eq_ok.mp stored
        have kept' := kept₁.kmalloc accessing call'
        dsimp only at rest'
        split at rest'
        · obtain ⟨-, rfl⟩ := Prod.mk.inj (Except.ok.inj rest')
          exact kept'
        · obtain ⟨-, rfl⟩ := Prod.mk.inj (Except.ok.inj rest')
          exact kept'
    cases storage with
    | none =>
        obtain ⟨freed, free, returned⟩ := bind_eq_ok.mp last
        obtain ⟨-, rfl⟩ := Prod.mk.inj (Except.ok.inj returned)
        exact kept₂.kfree accessing free
    | some framesStorage =>
        obtain ⟨-, rfl⟩ := Prod.mk.inj (Except.ok.inj last)
        exact kept₂

theorem Kept.createSharedObject (kept : shared.Kept managed ∅) (accessing : D.Accessing)
    {overrun : Nat → List UInt8} {contents : List UInt8} {ownerId : BitVec 32}
    {shareName : List UInt8} {size : Nat} {isWritable : UInt8} {code : Int}
    (returned : shared.createSharedObject D overrun contents directory ownerId shareName size
      isWritable va = .ok (code, after)) : after.Kept managed ∅ := by
  unfold SharedMemory.createSharedObject at returned
  split at returned
  · obtain ⟨-, rfl⟩ := Prod.mk.inj (Except.ok.inj returned)
    exact kept
  · obtain ⟨⟨share, heap⟩, allocated, rest⟩ := bind_eq_ok.mp returned
    have kept' := kept.allocShare accessing allocated
    dsimp only at rest
    cases share with
    | none =>
        obtain ⟨-, rfl⟩ := Prod.mk.inj (Except.ok.inj rest)
        exact kept'
    | some share =>
        obtain ⟨⟨framesStorage, placed⟩, stored, last⟩ := bind_eq_ok.mp rest
        obtain ⟨-, rfl⟩ := Prod.mk.inj (Except.ok.inj last)
        obtain ⟨pagesOnly, counted⟩ := kept'.placeFrames accessing stored
        exact ⟨pagesOnly, counted⟩

theorem Kept.getSharedObject (kept : shared.Kept managed ∅) (accessing : D.Accessing)
    {overrun : Nat → List UInt8} {ownerId : BitVec 32} {shareName : List UInt8} {code : Int}
    (inUse : shared.InUse D (.getSharedObject overrun directory ownerId shareName va))
    (returned : shared.getSharedObject D overrun directory ownerId shareName va =
      .ok (code, after)) : after.Kept managed ∅ := by
  unfold SharedMemory.getSharedObject at returned
  split at returned
  · obtain ⟨-, rfl⟩ := Prod.mk.inj (Except.ok.inj returned)
    exact kept
  · rename_i index found
    split at returned
    · obtain ⟨-, rfl⟩ := Prod.mk.inj (Except.ok.inj returned)
      exact kept
    · rename_i share listed
      obtain ⟨middle, mapped, rest⟩ := bind_eq_ok.mp returned
      obtain ⟨-, rfl⟩ := Prod.mk.inj (Except.ok.inj rest)
      have regular : Perm.has (if share.isWritable ≠ 0 then permUser ||| permWriteable
          else permUser) permBuffered = false := by
        split <;> decide
      have maps := inUse index share found listed
      obtain ⟨pagesOnly, counted⟩ := kept.mapStorage accessing regular maps mapped
      exact ⟨pagesOnly, counted⟩

theorem Kept.sysUnmapFrame (kept : shared.Kept managed ∅) {code : Int}
    (returned : shared.sysUnmapFrame directory va = (code, after)) : after.Kept managed ∅ := by
  unfold SharedMemory.sysUnmapFrame at returned
  split at returned
  · obtain ⟨-, rfl⟩ := Prod.mk.inj returned
    exact kept
  · obtain ⟨-, rfl⟩ := Prod.mk.inj returned
    exact kept.setMemory (kept.counted.unmapFrame directory va)

theorem Kept.exec (kept : shared.Kept managed ∅) (accessing : D.Accessing) {call : ShareCall}
    {code : Int} (inUse : shared.InUse D call) (returned : shared.exec D call = .ok (code, after)) :
    after.Kept managed ∅ := by
  cases call with
  | createSharedObject overrun contents directory ownerId shareName size isWritable va =>
      exact kept.createSharedObject accessing returned
  | getSharedObject overrun directory ownerId shareName va =>
      exact kept.getSharedObject accessing inUse returned
  | sysUnmapFrame directory va => exact kept.sysUnmapFrame (Except.ok.inj returned)

/-- The state after boot: no shares, and page tables without mappings. -/
def boot (D : DynAllocator β) (memory : Memory) (kernelEnd numberOfFrames nextTable : Nat) :
    SharedMemory β :=
  ⟨KHeap.kheapInit D (memory.initializePaging kernelEnd numberOfFrames), nextTable, []⟩

theorem Kept.of_run (accessing : D.Accessing) {memory : Memory}
    {kernelEnd numberOfFrames nextTable : Nat} (extended : physExtendedMemFrame ≤ kernelEnd)
    (clean : ∀ slot, memory.tables slot = .zero)
    (unlinked : ∀ table, nextTable ≤ table →
      ∀ directory va, memory.getPageTable directory va ≠ some table)
    (run : Relation.ReflTransGen (InUseStep D) (boot D memory kernelEnd numberOfFrames nextTable)
      shared) : shared.Kept (managedFrames kernelEnd numberOfFrames) ∅ := by
  induction run with
  | refl =>
      obtain ⟨-, -, same, directories, -⟩ :=
        memory.initializePaging_spec numberOfFrames extended
      have counted : (memory.initializePaging kernelEnd numberOfFrames).Counted
          (managedFrames kernelEnd numberOfFrames) ∅ nextTable := by
        refine ⟨FrameInvariant.initial numberOfFrames extended fun slot => ?_, fun slot => ?_,
          fun table above => ⟨fun directory va => ?_, fun index => ?_⟩⟩
        · rw [clean]
          exact ⟨rfl, rfl⟩
        · rw [same, clean]
          decide
        · rw [Memory.getPageTable, directories]
          exact unlinked table above directory va
        · rw [same, clean]
      exact ⟨⟨_, KHeap.PagesOnly.initial D _⟩,
        counted.pageMoves (accessing.initial _).pageMoves⟩
  | tail _ step ih =>
      obtain ⟨call, code, inUse, returned⟩ := step
      exact ih.exec accessing inUse returned

/-- A page whose table exists may get a frame in use with references to spare. -/
theorem MapsInUse.of_page (kept : shared.Kept managed ∅) (word : va < 2 ^ 32) {table : Nat}
    (linked : shared.heap.memory.getPageTable directory va = some table)
    (used : (mappers shared.heap.memory.tables frame).Nonempty)
    (few : (shared.heap.memory.frames frame).references + 1 < 2 ^ 16) :
    MapsInUse D directory va perm [frame] shared 0 1 := by
  have here : add32 va (0 * pageSize) = va := by
    unfold add32
    omega
  refine .next (fun frame' recorded ready table' => ?_) fun _ _ _ _ => .done
  obtain rfl : frame = frame' := Option.some.inj recorded
  rw [SharedMemory.ensurePageTable, here, linked] at table'
  obtain rfl := Except.ok.inj table'
  refine ⟨.inr used, fun other _ => ?_⟩
  obtain ⟨slot, mapper⟩ := used
  obtain ⟨free, invariant⟩ := kept.counted.counted
  have counted := invariant.counted frame (mapper.2 ▸ invariant.mapped slot mapper.1)
  have bound := Set.ncard_insert_le other (mappers shared.heap.memory.tables frame)
  omega

/-- An object of one page at the start of the user heap. -/
def createPage : ShareCall :=
  .createSharedObject (fun _ => []) (List.replicate shareNameLength 0) 1 2048 [97] pageSize 1
    userHeapStart

theorem blank_unlinked {table : Nat} (above : 1024 ≤ table) (directory va : Nat) :
    Memory.blank.getPageTable directory va ≠ some table := by
  intro linked
  have index := Option.some.inj linked
  simp only [pdx] at index
  omega

end SharedMemory

end FosKernel
