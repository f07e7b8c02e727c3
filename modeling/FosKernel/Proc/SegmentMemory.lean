import FosKernel.Disk.PageFileMap
import FosKernel.Proc.ProgramSegment
import FosKernel.Trap.FrameAccounts
import FosKernel.Trap.NoLostWrite

/-!
# The part of a segment in memory

`program_segment_alloc_map_copy_workingset` maps free frames at the first pages of a
segment, one after the other, and copies the segment through this mapping. The frames
that were not free, and with them all other pages, keep their contents.
-/

namespace FosKernel

namespace Memory

variable {memory : Memory} {directory va dst other frame : Nat}

/-- The byte at a virtual address, when its page is present. -/
def byteAt (memory : Memory) (directory va : Nat) : Option UInt8 :=
  (memory.translate directory va).map fun place => memory.bytes place.1 place.2

/-- No two present user addresses share a byte of memory. -/
def Unshared (memory : Memory) (directory : Nat) : Prop :=
  ∀ va va' place, va < userTop → va' < userTop →
    memory.translate directory va = some place →
    memory.translate directory va' = some place → va = va'

@[simp] theorem writeByte_translate (memory : Memory) (directory va other : Nat) (value : UInt8) :
    (memory.writeByte directory va value).translate directory other =
      memory.translate directory other :=
  translate_congr (writeByte_directories ..) (writeByte_tables ..) ..

/-- A loop of stores changes only the contents of frames. -/
theorem storeBytes_spec (memory : Memory) (directory dst : Nat) (src : Nat → UInt8)
    (count : Nat) :
    ∃ bytes, memory.storeBytes directory dst src count = { memory with bytes := bytes } := by
  induction count with
  | zero => exact ⟨memory.bytes, rfl⟩
  | succ count ih =>
      obtain ⟨bytes, same⟩ := ih
      rw [storeBytes, same, writeByte]
      split
      · exact ⟨bytes, rfl⟩
      · exact ⟨_, rfl⟩

theorem storeBytes_translate (memory : Memory) (directory dst other : Nat) (src : Nat → UInt8)
    (count : Nat) : (memory.storeBytes directory dst src count).translate directory other =
      memory.translate directory other := by
  obtain ⟨bytes, same⟩ := memory.storeBytes_spec directory dst src count
  rw [same]
  exact translate_congr rfl rfl ..

/-- `memset` stores the same byte everywhere. -/
theorem memset_eq_storeBytes (memory : Memory) (directory va : Nat) (value : UInt8)
    (count : Nat) :
    memory.memset directory va value count = memory.storeBytes directory va
        (fun _ => value) count := by
  induction count with
  | zero => rfl
  | succ count ih => rw [memset, storeBytes, ih]

/-- Storing a byte at a present address changes no other byte. -/
theorem Unshared.byteAt_writeByte (unshared : memory.Unshared directory) (value : UInt8)
    (present : (memory.translate directory va).isSome = true) (user : va < userTop)
    (user' : other < userTop) :
    (memory.writeByte directory va value).byteAt directory other =
      if other = va then some value else memory.byteAt directory other := by
  obtain ⟨place, translated⟩ := Option.isSome_iff_exists.mp present
  unfold byteAt
  rw [writeByte_translate]
  by_cases here : other = va
  · rw [if_pos here, here, translated, Option.map_some, writeByte, translated]
    dsimp only
    rw [Function.update_self, Function.update_self]
  · rw [if_neg here]
    cases translated' : memory.translate directory other with
    | none => rfl
    | some place' =>
        rw [Option.map_some, Option.map_some, writeByte, translated]
        dsimp only
        by_cases sameFrame : place'.1 = place.1
        · have different : place'.2 ≠ place.2 := by
            intro sameOffset
            obtain rfl : place' = place := Prod.ext sameFrame sameOffset
            exact here (unshared other va place' user' user translated' translated)
          rw [sameFrame, Function.update_self, Function.update_of_ne different]
        · rw [Function.update_of_ne sameFrame]

/-- A loop of stores at present addresses writes its bytes and no other ones. -/
theorem Unshared.byteAt_storeBytes (unshared : memory.Unshared directory) (src : Nat → UInt8)
    {count : Nat}
    (present : ∀ va, dst ≤ va → va < dst + count →
      (memory.translate directory va).isSome = true)
    (fits : dst + count ≤ userTop) (user : other < userTop) :
    (memory.storeBytes directory dst src count).byteAt directory other =
      if dst ≤ other ∧ other < dst + count then some (src (other - dst))
      else memory.byteAt directory other := by
  induction count with
  | zero => rw [storeBytes, if_neg (by omega)]
  | succ count ih =>
      have unshared' : (memory.storeBytes directory dst src count).Unshared directory := by
        intro va va' place
        rw [storeBytes_translate, storeBytes_translate]
        exact unshared va va' place
      have sum : add32 dst count = dst + count := by
        unfold userTop at fits
        exact Nat.mod_eq_of_lt (by omega)
      have present' : ((memory.storeBytes directory dst src count).translate directory
          (dst + count)).isSome = true := by
        rw [storeBytes_translate]
        exact present _ (by omega) (by omega)
      rw [storeBytes, sum, unshared'.byteAt_writeByte _ present' (by omega) user,
        ih (fun va lower upper => present va lower (by omega)) (by omega)]
      by_cases last : other = dst + count
      · rw [if_pos last, if_pos (by omega), last, Nat.add_sub_cancel_left]
      · rw [if_neg last]
        exact if_congr (by omega) rfl rfl

/-- A loop of stores changes the frames of its addresses only. -/
theorem storeBytes_bytes_of_ne (memory : Memory) (src : Nat → UInt8) {count : Nat}
    (elsewhere : ∀ va place, dst ≤ va →
      va < dst + count → memory.translate directory va = some place →
      place.1 ≠ frame) (fits : dst + count ≤ 2 ^ 32) :
    (memory.storeBytes directory dst src count).bytes frame = memory.bytes frame := by
  induction count with
  | zero => rfl
  | succ count ih =>
      rw [storeBytes, writeByte, storeBytes_translate,
        show add32 dst count = dst + count from Nat.mod_eq_of_lt (by omega)]
      cases translated : memory.translate directory (dst + count) with
      | none => exact ih (fun va place lower upper =>
        elsewhere va place lower (by omega)) (by omega)
      | some place =>
          have different := elsewhere _ place (by omega) (by omega) translated
          dsimp only
          rw [Function.update_of_ne different.symm]
          exact ih (fun va place lower upper => elsewhere va place lower (by omega)) (by omega)

end Memory

namespace ProgramSegment

/-- The byte of the segment at an address: data of the file, or 0 after its end. -/
def byteAt (seg : ProgramSegment) (va : Nat) : UInt8 :=
  if va < seg.virtualAddress + seg.sizeInFile then seg.ptrStart (va - seg.virtualAddress) else 0

/-- The pages in memory reach at most to the end of the last page of the segment. -/
theorem allocatedPages_fits (seg : ProgramSegment) (progName : String) (remainingWsPages : Nat)
    (user : seg.virtualAddress + seg.sizeInMemory ≤ userTop) :
    roundDown seg.virtualAddress pageSize +
      seg.allocatedPages progName remainingWsPages * pageSize ≤
        (seg.virtualAddress + seg.sizeInMemory + (pageSize - 1)) / pageSize * pageSize := by
  have word : userTop < 2 ^ 32 - pageSize := by decide
  have last : roundUp (add32 seg.virtualAddress seg.sizeInMemory) pageSize =
      (seg.virtualAddress + seg.sizeInMemory + (pageSize - 1)) / pageSize * pageSize := by
    unfold roundUp add32 roundDown
    unfold pageSize at *
    omega
  have fewer := Nat.min_le_left
    ((roundUp (add32 seg.virtualAddress seg.sizeInMemory) pageSize -
      roundDown seg.virtualAddress pageSize + (pageSize - 1)) / pageSize)
    (seg.wsPages progName remainingWsPages)
  unfold allocatedPages
  dsimp only
  rw [last] at fewer ⊢
  unfold roundDown at *
  unfold pageSize at *
  omega

end ProgramSegment

/-- A number of pages from a page on. -/
def pagesFrom (base count : Nat) : List Nat := (List.range count).map fun index =>
    base + index * pageSize

theorem mem_pagesFrom {base count page : Nat} :
    page ∈ pagesFrom base count ↔ ∃ index < count, base + index * pageSize = page := by
  simp only [pagesFrom, List.mem_map, List.mem_range]

theorem pagesFrom_succ (base count : Nat) :
    pagesFrom base (count + 1) = pagesFrom base count ++ [base + count * pageSize] := by
  simp only [pagesFrom, List.range_succ, List.map_append, List.map_singleton]

/-- The page of an address is among the pages of a range that the address is in. -/
theorem roundDown_mem_pagesFrom {base count va : Nat} (aligned : base % pageSize = 0)
    (lower : base ≤ va) (upper : va < base + count * pageSize) :
    roundDown va pageSize ∈ pagesFrom base count := by
  refine mem_pagesFrom.mpr ⟨(va - base) / pageSize, ?_, ?_⟩
  · unfold pageSize at *
    omega
  · unfold roundDown
    unfold pageSize at *
    omega

namespace Kernel

variable {kernel before middle after : Kernel} {env va frame : Nat}
  {free rest last pages pages' : List Nat} {memory : Memory} {perm : Perm}

/-- The page tables of an environment are in no other directory. -/
def TablesApart (kernel : Kernel) (env other : Nat) : Prop :=
  kernel.directory other ≠ kernel.directory env ∧
    ∀ first second table, kernel.memory.directories (kernel.directory env) first = some table →
      kernel.memory.directories (kernel.directory other) second ≠ some table

/-- The page tables and pages of environments with page tables of their own stay. -/
def LeavesForeign (env : Nat) (before after : Kernel) : Prop :=
  ∀ other, before.TablesApart env other → after.TablesApart env other ∧
    after.memory.directories (after.directory other) =
        before.memory.directories (before.directory other) ∧
      ∀ va, after.pageEntry other va = before.pageEntry other va

theorem LeavesForeign.trans (first : LeavesForeign env before middle)
    (second : LeavesForeign env middle after) : LeavesForeign env before after := by
  intro other apart
  obtain ⟨apart', tables, entries⟩ := first other apart
  obtain ⟨apart'', tables', entries'⟩ := second other apart'
  exact ⟨apart'', tables'.trans tables, fun va => (entries' va).trans (entries va)⟩

/-- The environments and their page tables did not change. -/
theorem LeavesForeign.of_same (env : Nat) (tables : after.memory.tables = before.memory.tables)
    (directories : after.memory.directories = before.memory.directories)
    (directory : ∀ other, after.directory other = before.directory other) :
    LeavesForeign env before after := by
  intro other apart
  refine ⟨?_, by rw [directories, directory],
    pageEntry_congr tables directories (directory other)⟩
  unfold TablesApart
  rw [directory, directory, directories]
  exact apart

/-- The entry that is written is one of the environment. -/
theorem LeavesForeign.of_entry {slot : Slot} {entry : PageTableEntry}
    (place : before.memory.slot (before.directory env) va = some slot)
    (tables : after.memory.tables = Function.update before.memory.tables slot entry)
    (directories : after.memory.directories = before.memory.directories)
    (directory : ∀ other, after.directory other = before.directory other) :
    LeavesForeign env before after := by
  intro other apart
  refine ⟨?_, by rw [directories, directory], fun va' => ?_⟩
  · unfold TablesApart
    rw [directory, directory, directories]
    exact apart
  · unfold pageEntry Memory.entry
    rw [directory, Memory.slot_congr directories, tables]
    cases place' : before.memory.slot (before.directory other) va' with
    | none => rfl
    | some slot' =>
        obtain ⟨table, held, rfl⟩ := Option.map_eq_some_iff.mp place
        obtain ⟨table', held', rfl⟩ := Option.map_eq_some_iff.mp place'
        have different : table' ≠ table := by
          intro same
          exact apart.2 _ _ table held (same ▸ held')
        rw [Option.map_some, Option.map_some, Function.update_of_ne]
        exact fun same => different (congrArg Prod.fst same)

/-- A new page table belongs to its environment. -/
theorem createPageTable_leavesForeign (orderly : before.Orderly) (env va : Nat) :
    LeavesForeign env before (before.createPageTable env va) := by
  intro other apart
  obtain ⟨different, apart⟩ := apart
  have same : (before.createPageTable env va).memory.directories (before.directory other) =
      before.memory.directories (before.directory other) := Function.update_of_ne different ..
  have own : (before.createPageTable env va).memory.directories (before.directory env) =
      Function.update (before.memory.directories (before.directory env)) (pdx va)
        (some before.nextTable) := Function.update_self ..
  refine ⟨⟨different, fun first second table held held' => ?_⟩, same, fun va' => ?_⟩
  · change (before.createPageTable env va).memory.directories (before.directory other) second =
      some table at held'
    rw [same] at held'
    change (before.createPageTable env va).memory.directories (before.directory env) first =
      some table at held
    rw [own] at held
    by_cases here : first = pdx va
    · rw [here, Function.update_self, Option.some.injEq] at held
      rw [← held] at held'
      exact absurd (orderly.fresh _ _ _ held') (Nat.lt_irrefl _)
    · rw [Function.update_of_ne here] at held
      exact apart first second table held held'
  · have place : (before.createPageTable env va).memory.slot (before.directory other) va' =
        before.memory.slot (before.directory other) va' := by
      unfold Memory.slot Memory.getPageTable
      rw [same]
    have entries : (before.createPageTable env va).memory.entry (before.directory other) va' =
        before.memory.entry (before.directory other) va' := by
      unfold Memory.entry
      rw [place]
      cases located : before.memory.slot (before.directory other) va' with
      | none => rfl
      | some slot =>
          obtain ⟨table, held, rfl⟩ := Option.map_eq_some_iff.mp located
          exact congrArg some (if_neg (Nat.ne_of_lt (orderly.fresh _ _ _ held)))
    exact congrArg (fun entry => Option.getD entry PageTableEntry.zero) entries

/-- What loading leaves alone: the other environments, the directory and the limit of the
environment, the algorithm, the record of the last fault, and time stamps but those of new
elements. -/
structure LeavesOthers (env : Nat) (before after : Kernel) : Prop where
  others : ∀ other, other ≠ env → after.envs other = before.envs other
  directory : after.directory env = before.directory env
  size : (after.envs env).pageWsMaxSize = (before.envs env).pageWsMaxSize
  algorithm : after.pageRepAlgoType = before.pageRepAlgoType
  active : after.pageActiveWsList = before.pageActiveWsList
  guard : SameGuard before after
  stamps : KeepsStamps before after
  foreign : LeavesForeign env before after
  elements : before.nextElement ≤ after.nextElement ∧
    ∀ element < before.nextElement, after.elements element = before.elements element

namespace LeavesOthers

theorem refl (env : Nat) (kernel : Kernel) : LeavesOthers env kernel kernel :=
  ⟨fun _ _ => rfl, rfl, rfl, rfl, rfl, ⟨rfl, rfl, rfl, rfl⟩, fun _ => .inl rfl,
    .of_same env rfl rfl fun _ => rfl, le_refl _, fun _ _ => rfl⟩

theorem trans (first : LeavesOthers env before middle) (second : LeavesOthers env middle after) :
    LeavesOthers env before after where
  others other different := (second.others other different).trans (first.others other different)
  directory := second.directory.trans first.directory
  size := second.size.trans first.size
  algorithm := second.algorithm.trans first.algorithm
  active := second.active.trans first.active
  guard := first.guard.trans second.guard
  stamps element := by
    rcases second.stamps element with same | new
    · rw [same]
      exact first.stamps element
    · exact .inr new
  foreign := first.foreign.trans second.foreign
  elements := ⟨first.elements.1.trans second.elements.1, fun element old =>
    (second.elements.2 element (Nat.lt_of_lt_of_le old first.elements.1)).trans
      (first.elements.2 element old)⟩

end LeavesOthers

/-- The page file and the disk tables of all environments are the same. -/
def SameDisk (before after : Kernel) : Prop :=
  after.disk = before.disk ∧ ∀ env, (after.envs env).diskEnvPgdir =
    (before.envs env).diskEnvPgdir

theorem SameDisk.trans (first : SameDisk before middle) (second : SameDisk middle after) :
    SameDisk before after :=
  ⟨second.1.trans first.1, fun env => (second.2 env).trans (first.2 env)⟩

/-- What mapping free frames at new pages of an environment does. -/
structure Places (env : Nat) (before : Kernel) (free pages : List Nat) (after : Kernel)
    (rest : List Nat) : Prop where
  orderly : after.Orderly
  workingSet : WorkingSet after env rest
  wsPages : after.wsPages env = before.wsPages env ++ pages
  taken : rest <:+ free
  entries : ∀ page ∈ pages, ∃ frame ∈ free,
    after.pageEntry env page = ⟨frame, permUser ||| permWriteable ||| permPresent⟩
  kept : ∀ page ∈ before.wsPages env, after.pageEntry env page = before.pageEntry env page
  hand : before.HandValid env ∨ pages ≠ [] → after.HandValid env
  leaves : LeavesOthers env before after

namespace Places

theorem refl (orderly : kernel.Orderly) (ws : WorkingSet kernel env free) :
    Places env kernel free [] kernel free where
  orderly := orderly
  workingSet := ws
  wsPages := (List.append_nil _).symm
  taken := List.suffix_refl _
  entries := nofun
  kept _ _ := rfl
  hand valid := valid.resolve_right fun some => some rfl
  leaves := .refl env kernel

theorem trans (first : Places env before free pages middle rest)
    (second : Places env middle rest pages' after last) :
    Places env before free (pages ++ pages') after last where
  orderly := second.orderly
  workingSet := second.workingSet
  wsPages := by rw [second.wsPages, first.wsPages, List.append_assoc]
  taken := second.taken.trans first.taken
  entries page member := by
    rcases List.mem_append.mp member with old | new
    · obtain ⟨frame, taken, entry⟩ := first.entries page old
      have listed : page ∈ middle.wsPages env := by
        rw [first.wsPages]
        exact List.mem_append_right _ old
      exact ⟨frame, taken, (second.kept page listed).trans entry⟩
    · obtain ⟨frame, taken, entry⟩ := second.entries page new
      exact ⟨frame, first.taken.subset taken, entry⟩
  kept page member := by
    have listed : page ∈ middle.wsPages env := by
      rw [first.wsPages]
      exact List.mem_append_left _ member
    exact (second.kept page listed).trans (first.kept page member)
  hand valid := by
    by_cases none : pages' = []
    · refine second.hand (.inl (first.hand (valid.imp_right fun some empty => some ?_)))
      rw [empty, none, List.append_nil]
    · exact second.hand (.inr none)
  leaves := first.leaves.trans second.leaves

/-- The contents of frames do not matter. -/
theorem setBytes (places : Places env before free pages after rest)
    (bytes : Nat → Nat → UInt8) :
    Places env before free pages { after with memory := { after.memory with bytes := bytes } }
        rest where
  orderly := { places.orderly with }
  workingSet := places.workingSet.congr rfl rfl rfl rfl rfl rfl rfl fun _ => ⟨rfl, rfl⟩
  wsPages := places.wsPages
  taken := places.taken
  entries := places.entries
  kept := places.kept
  hand := places.hand
  leaves := { places.leaves with guard := { places.leaves.guard with } }

end Places

/-- A working set owns the bytes of its pages. -/
theorem WorkingSet.unshared (ws : WorkingSet kernel env free) :
    kernel.memory.Unshared (kernel.directory env) := by
  have located : ∀ va place, va < userTop →
      kernel.memory.translate (kernel.directory env) va = some place →
      roundDown va pageSize ∈ kernel.wsPages env ∧
        place = ((kernel.pageEntry env (roundDown va pageSize)).frame, pgoff va) := by
    intro va place user translated
    have present : kernel.pagePresent env va = true := by
      by_contra absent
      rw [(translate_eq_none kernel env va).mpr (Bool.eq_false_of_not_eq_true absent)] at translated
      cases translated
    obtain ⟨slot, located⟩ := exists_slot present
    rw [pagePresent_eq located] at present
    refine ⟨(ws.mapped.present va user).mp (by rwa [pagePresent_eq located]), ?_⟩
    unfold Memory.translate at translated
    rw [Memory.entry_eq located] at translated
    dsimp only at translated
    rw [if_pos present, Option.some.injEq] at translated
    rw [← translated, pageEntry_roundDown, pageEntry_eq located]
  intro va va' place user user' translated translated'
  obtain ⟨listed, here⟩ := located va place user translated
  obtain ⟨listed', there⟩ := located va' place user' translated'
  obtain ⟨frames, offsets⟩ := Prod.mk.inj (here.symm.trans there)
  have same := ws.mapped.owns _ listed _ listed' frames
  unfold roundDown pageSize at same
  unfold pgoff pageSize at offsets
  omega

/-- The byte at an address of a present page. -/
theorem byteAt_eq (present : kernel.pagePresent env va = true) :
    kernel.memory.byteAt (kernel.directory env) va = some (kernel.pageBytes env va (pgoff va)) := by
  obtain ⟨slot, located⟩ := exists_slot present
  rw [pagePresent_eq located] at present
  unfold Memory.byteAt Memory.translate
  rw [Memory.entry_eq located]
  dsimp only
  rw [if_pos present, Option.map_some, pageBytes, pageEntry_eq located]

/-- What mapping an allocated frame at a page does to the memory of an environment. -/
structure MapsPage (kernel : Kernel) (env va : Nat) (entry : PageTableEntry) (free : List Nat)
    (after : Kernel) : Prop where
  same : ∃ memory nextTable, after = { kernel with memory := memory, nextTable := nextTable }
  orderly : after.Orderly
  mapped : Mapped after env (kernel.wsPages env ++ [va]) free
  entries : ∀ page < userTop, after.pageEntry env page =
    if roundDown page pageSize = va then entry else kernel.pageEntry env page
  foreign : LeavesForeign env kernel after

/-- The contents of frames do not matter. -/
theorem MapsPage.setBytes {entry : PageTableEntry} (maps : MapsPage kernel env va entry free after)
    (bytes : Nat → Nat → UInt8) :
    MapsPage kernel env va entry free
      { after with memory := { after.memory with bytes := bytes } } where
  same := by
    obtain ⟨memory, nextTable, same⟩ := maps.same
    exact ⟨{ memory with bytes := bytes }, nextTable, by rw [same]⟩
  orderly := { maps.orderly with }
  mapped := maps.mapped.congr rfl rfl rfl fun _ _ => ⟨rfl, rfl⟩
  entries := maps.entries
  foreign := maps.foreign

/-- The last steps of `loadtime_map_frame`, where the page table exists. -/
theorem WorkingSet.mapsPage {slot : Slot} {entry : PageTableEntry}
    (ws : WorkingSet kernel env (frame :: free)) (orderly : kernel.Orderly)
    (page : IsUserPage va) (absent : kernel.pagePresent env va = false)
    (place : kernel.memory.slot (kernel.directory env) va = some slot)
    (tables : memory.tables = kernel.memory.tables)
    (directories : memory.directories = kernel.memory.directories)
    (represents : memory.freeFrameList.Represents free)
    (present : entry.present = true) (holds : entry.frame = frame) (count : Nat) :
    MapsPage kernel env va entry free
      { kernel with memory := (memory.setReferences frame count).setEntry slot entry } := by
  have written : ((memory.setReferences frame count).setEntry slot entry).tables =
      Function.update kernel.memory.tables slot entry := by
    rw [← tables]
    rfl
  generalize shape : ({ kernel with
    memory := (memory.setReferences frame count).setEntry slot entry } : Kernel) = after
  have tables' : after.memory.tables = Function.update kernel.memory.tables slot entry := by
    rw [← shape, written]
  have directories' : after.memory.directories = kernel.memory.directories := by
    rw [← shape]
    exact directories
  have directory : after.directory env = kernel.directory env := by
    rw [← shape]
    rfl
  have represents' : after.memory.freeFrameList.Represents free := by
    rw [← shape]
    exact represents
  have settles : Settles kernel after := by
    rw [← shape]
    exact .of_memory directories
  refine ⟨⟨after.memory, kernel.nextTable, ?_⟩, settles.orderly orderly, ?_,
    fun other user => ?_,
    .of_entry place tables' directories' fun other => ?_⟩
  · rw [← shape]
  · have loaded := ws.mapped.load page.2 place absent directories' directory tables' present holds
      represents'
    rwa [page.roundDown_eq] at loaded
  · rw [pageEntry_update ws.mapped.separate directories' directory place tables'
      (IsUserPage.lt va page) (Nat.lt_trans user (by decide)), page.roundDown_eq]
  · rw [← shape]
    rfl

theorem loadtimeMapFrame_bytes (kernel : Kernel) (env frame va : Nat) (perm : Perm) :
    (kernel.loadtimeMapFrame env frame va perm).memory.bytes = kernel.memory.bytes := by
  unfold Kernel.loadtimeMapFrame
  dsimp only
  split <;> split <;> rfl

/-- `loadtime_map_frame` maps an allocated frame at a page that is not present. -/
theorem WorkingSet.loadtimeMapFrame (ws : WorkingSet kernel env (frame :: free))
    (orderly : kernel.Orderly) (allocated : kernel.memory.allocateFrame = some (frame, memory))
    (represents : memory.freeFrameList.Represents free) (page : IsUserPage va)
    (absent : kernel.pagePresent env va = false) (perm : Perm) :
    MapsPage kernel env va ⟨frame, perm ||| permPresent⟩ free
      ({ kernel with memory := memory }.loadtimeMapFrame env frame va perm) := by
  obtain ⟨tables, directories, -⟩ := Memory.allocateFrame_spec allocated
  have present : (⟨frame, perm ||| permPresent⟩ : PageTableEntry).present = true := by
    rw [PageTableEntry.present, Perm.has_or, show Perm.has permPresent permPresent = true by decide,
      Bool.or_true]
  have sameTable : memory.getPageTable (kernel.directory env) va =
      kernel.memory.getPageTable (kernel.directory env) va := by
    unfold Memory.getPageTable
    rw [directories]
  have table : Kernel.directory { kernel with memory := memory } env = kernel.directory env := rfl
  unfold Kernel.loadtimeMapFrame
  dsimp only
  rw [table, sameTable]
  cases held : kernel.memory.getPageTable (kernel.directory env) va with
  | some table =>
      have place : kernel.memory.slot (kernel.directory env) va = some (table, ptx va) := by
        unfold Memory.slot
        rw [held, Option.map_some]
      have place' : memory.slot (kernel.directory env) va = some (table, ptx va) := by
        rw [Memory.slot_congr directories, place]
      dsimp only
      rw [show Kernel.directory { kernel with memory := memory } env =
        kernel.directory env from rfl,
        place']
      exact ws.mapsPage orderly page absent place tables directories represents present rfl _
  | none =>
      have entries := createPageTable_pageEntry orderly held
      have created := ws.createPageTable orderly held
      have absent' : (kernel.createPageTable env va).pagePresent env va = false := by
        rw [← pageEntry_present, entries, pageEntry_present, absent]
      have linked : (kernel.createPageTable env va).memory.slot
          ((kernel.createPageTable env va).directory env) va = some (kernel.nextTable, ptx va) := by
        simp [Memory.slot, Memory.getPageTable, Kernel.createPageTable, Kernel.directory]
      have sameTables : (Kernel.createPageTable
        { kernel with memory := memory } env va).memory.tables =
          (kernel.createPageTable env va).memory.tables := by
        unfold Kernel.createPageTable
        dsimp only
        rw [tables]
      have sameDirectories :
          (Kernel.createPageTable { kernel with memory := memory } env va).memory.directories =
            (kernel.createPageTable env va).memory.directories := by
        unfold Kernel.createPageTable
        dsimp only
        rw [directories]
        rfl
      have linked' : (Kernel.createPageTable { kernel with memory := memory } env va).memory.slot
          ((Kernel.createPageTable { kernel with memory := memory } env va).directory env) va =
            some (kernel.nextTable, ptx va) := by
        rw [Memory.slot_congr sameDirectories]
        exact linked
      dsimp only
      rw [linked']
      dsimp only
      obtain ⟨⟨memory', nextTable, same⟩, orderly', mapped, written, foreign⟩ :=
        created.mapsPage (orderly.createPageTable env va) page absent' linked sameTables
          sameDirectories represents present rfl
          (succ16 ((Kernel.createPageTable { kernel with memory := memory } env va).memory.frames
            frame).references)
      refine ⟨⟨_, kernel.nextTable + 1, rfl⟩, orderly', mapped, fun other user => ?_,
        (createPageTable_leavesForeign orderly env va).trans foreign⟩
      rw [← entries]
      exact written other user

theorem placed_settles (kernel : Kernel) (env : Nat) (user : va < userTop) :
    Settles kernel (kernel.placed env va) :=
  ((appendElement_ends kernel env va).of_ok (appendElement_eq env user)).2.trans
    (Withdraws.setHand ..).settles

/-- The hand is the first element of a full working set. -/
theorem placed_handValid (ws : WorkingSet (kernel.placed env va) env free) :
    (kernel.placed env va).HandValid env := by
  have fits := ws.fits
  unfold HandValid HandListed
  rw [placed_self] at fits ⊢
  simp only [List.length_append, List.length_singleton] at fits ⊢
  by_cases full : (kernel.envs env).pageWsList.length + 1 = (kernel.envs env).pageWsMaxSize
  · rw [if_pos full]
    cases (kernel.envs env).pageWsList with
    | nil => exact .inl ⟨_, List.mem_singleton_self _, rfl⟩
    | cons head tail => exact .inl ⟨head, by simp, rfl⟩
  · exact .inr ⟨by omega, if_neg full⟩

/-- Mapping a frame and appending an element leave the page file alone. -/
theorem MapsPage.sameDisk {mapped : Kernel} {entry : PageTableEntry}
    (maps : MapsPage kernel env va entry rest mapped) : SameDisk kernel (mapped.placed env va) := by
  obtain ⟨memory, nextTable, same⟩ := maps.same
  refine ⟨?_, fun other => ?_⟩
  · change mapped.disk = kernel.disk
    rw [same]
  · by_cases here : other = env
    · rw [here, placed_self, same]
    · rw [placed, setHand, setEnv_of_ne _ _ _ here, appended, setEnv_of_ne _ _ _ here, same]

/-- Mapping a frame at a new page and appending an element for the page. -/
theorem MapsPage.places {mapped : Kernel}
    (maps : MapsPage kernel env va ⟨frame, permUser ||| permWriteable ||| permPresent⟩ rest
      mapped)
    (ws : WorkingSet kernel env (frame :: rest)) (page : IsUserPage va)
    (absent : kernel.pagePresent env va = false)
    (room : (kernel.envs env).pageWsList.length < (kernel.envs env).pageWsMaxSize) :
    Places env kernel (frame :: rest) [va] (mapped.placed env va) rest := by
  obtain ⟨⟨memory, nextTable, same⟩, orderly, mappedPages, entries, foreign⟩ := maps
  have envs : mapped.envs = kernel.envs := by rw [same]
  have next : mapped.nextElement = kernel.nextElement := by rw [same]
  have pages : mapped.wsPages env = kernel.wsPages env := by
    unfold wsPages elementVa
    rw [same]
  have created : ∀ element ∈ (mapped.envs env).pageWsList, element < mapped.nextElement := by
    rw [envs, next]
    exact ws.created
  have appended : Mapped mapped env (mapped.wsPages env ++ [roundDown va pageSize]) rest := by
    rw [pages, page.roundDown_eq]
    exact mappedPages
  have workingSet : WorkingSet (mapped.placed env va) env rest :=
    (WorkingSet.of_appended appended created (by rwa [envs])).of_placed
  have sameEntries : ∀ other, (mapped.placed env va).pageEntry env other =
      mapped.pageEntry env other := by
    intro other
    apply pageEntry_congr
    · rfl
    · rfl
    · exact placed_directory ..
  refine ⟨(placed_settles mapped env page.2).orderly orderly, workingSet, ?_,
    List.suffix_cons .., ?_,
    ?_, fun _ => placed_handValid workingSet, ?_⟩
  · rw [placed_wsPages created, pages, page.roundDown_eq]
  · intro other member
    rw [List.mem_singleton.mp member]
    refine ⟨frame, List.mem_cons_self .., ?_⟩
    rw [sameEntries, entries va page.2, page.roundDown_eq, if_pos rfl]
  · intro other member
    have user := ws.mapped.user other member
    have different : other ≠ va := by
      intro here
      rw [here, ← page.roundDown_eq] at member
      exact ws.not_mem_of_absent page.2 absent member
    rw [sameEntries, entries other user.2, user.roundDown_eq, if_neg different]
  · refine ⟨fun other different => ?_, ?_, ?_, ?_, ?_, ?_, ?_,
      foreign.trans (.of_same env rfl rfl fun other => placed_directory ..), ?_⟩
    · rw [Kernel.placed, setHand, setEnv_of_ne _ _ _ different, Kernel.appended,
        setEnv_of_ne _ _ _ different]
      exact congrFun envs other
    · rw [placed_directory, directory, envs]
      rfl
    · rw [placed_self, envs]
    · change mapped.pageRepAlgoType = kernel.pageRepAlgoType
      rw [same]
    · change mapped.pageActiveWsList = kernel.pageActiveWsList
      rw [same]
    · rw [same]
      exact ⟨rfl, rfl, rfl, rfl⟩
    · have stamps := placed_keepsStamps mapped env va
      intro element
      have elements : mapped.elements element = kernel.elements element := by rw [same]
      rw [← elements]
      exact stamps element
    · refine ⟨?_, fun element old => ?_⟩
      · change kernel.nextElement ≤ mapped.nextElement + 1
        omega
      · have kept : (mapped.placed env va).elements element = mapped.elements element :=
          Function.update_of_ne (Nat.ne_of_lt (next ▸ old)) ..
        rw [kept, same]

/-- The frame and the byte that an address of a new page is translated to. -/
theorem Places.translate (places : Places env before free pages after rest) (user : va < userTop)
    (listed : roundDown va pageSize ∈ pages) : ∃ frame ∈ free,
      after.memory.translate (after.directory env) va = some (frame, pgoff va) := by
  have member : roundDown va pageSize ∈ after.wsPages env := by
    rw [places.wsPages]
    exact List.mem_append_right _ listed
  have present : after.pagePresent env va = true :=
    (places.workingSet.mapped.present va user).mpr member
  obtain ⟨slot, located⟩ := exists_slot present
  obtain ⟨frame, taken, entry⟩ := places.entries _ listed
  rw [pageEntry_roundDown, pageEntry_eq located] at entry
  rw [pagePresent_eq located] at present
  refine ⟨frame, taken, ?_⟩
  unfold Memory.translate
  rw [Memory.entry_eq located]
  dsimp only
  rw [if_pos present, entry]

/-- Copying a segment to new pages writes the segment up to the end of these pages, and no frame
that was not free. -/
theorem Places.copies {count : Nat} (seg : ProgramSegment)
    (places : Places env before free (pagesFrom (roundDown seg.virtualAddress pageSize) count) after
      rest)
    (user : seg.virtualAddress ≤ userTop)
    (fits : roundDown seg.virtualAddress pageSize + count * pageSize ≤ userTop) :
    let stop := roundDown seg.virtualAddress pageSize + count * pageSize
    let copied := min stop (seg.virtualAddress + seg.sizeInFile) - seg.virtualAddress
    let memory := (after.memory.storeBytes (after.directory env) seg.virtualAddress seg.ptrStart
      copied).memset (after.directory env) (seg.virtualAddress + copied) 0
        (stop - (seg.virtualAddress + copied))
    (∃ bytes, memory = { after.memory with bytes := bytes }) ∧
      (∀ frame, frame ∉ free → memory.bytes frame = after.memory.bytes frame) ∧
      ∀ va, seg.virtualAddress ≤ va → va < stop →
        memory.byteAt (after.directory env) va = some (seg.byteAt va) := by
  intro stop copied memory
  have aligned : roundDown seg.virtualAddress pageSize % pageSize = 0 := by
    unfold roundDown pageSize
    omega
  have below : roundDown seg.virtualAddress pageSize ≤ seg.virtualAddress := Nat.sub_le ..
  have word : userTop < 2 ^ 32 := by decide
  have translates : ∀ va, seg.virtualAddress ≤ va → va < stop → ∃ frame ∈ free,
      after.memory.translate (after.directory env) va = some (frame, pgoff va) :=
    fun va lower upper => places.translate (by omega)
      (roundDown_mem_pagesFrom aligned (below.trans lower) upper)
  have unshared := places.workingSet.unshared
  obtain ⟨bytes, stored⟩ := after.memory.storeBytes_spec
    (after.directory env) seg.virtualAddress
    seg.ptrStart copied
  have unshared' : (after.memory.storeBytes (after.directory env) seg.virtualAddress seg.ptrStart
      copied).Unshared (after.directory env) := by
    intro va va' place
    rw [Memory.storeBytes_translate, Memory.storeBytes_translate]
    exact unshared va va' place
  have memset : memory = (after.memory.storeBytes (after.directory env) seg.virtualAddress
      seg.ptrStart copied).storeBytes (after.directory env)
        (seg.virtualAddress + copied) (fun _ => 0)
        (stop - (seg.virtualAddress + copied)) := Memory.memset_eq_storeBytes ..
  have inside : copied = 0 ∨ seg.virtualAddress + copied ≤ stop := by omega
  refine ⟨?_, fun frame outside => ?_, fun va lower upper => ?_⟩
  · obtain ⟨bytes', stored'⟩ :=
      (after.memory.storeBytes (after.directory env) seg.virtualAddress
      seg.ptrStart copied).storeBytes_spec (after.directory env) (seg.virtualAddress + copied)
        (fun _ => 0) (stop - (seg.virtualAddress + copied))
    rw [memset, stored', stored]
    exact ⟨bytes', rfl⟩
  · have elsewhere : ∀ va place, seg.virtualAddress ≤ va → va < stop →
        after.memory.translate (after.directory env) va = some place → place.1 ≠ frame := by
      intro va place lower upper translated here
      obtain ⟨taken, member, translated'⟩ := translates va lower upper
      obtain rfl := Option.some.inj (translated'.symm.trans translated)
      exact outside (here ▸ member)
    rw [memset, Memory.storeBytes_bytes_of_ne, Memory.storeBytes_bytes_of_ne]
    · exact fun va place lower upper => elsewhere va place lower (by omega)
    · omega
    · intro va place lower upper translated
      rw [Memory.storeBytes_translate] at translated
      exact elsewhere va place (by omega) (by omega) translated
    · omega
  · have user : va < userTop := by omega
    rw [memset, unshared'.byteAt_storeBytes _ _ (by omega) user,
      unshared.byteAt_storeBytes _ _ (by omega) user]
    · unfold ProgramSegment.byteAt
      by_cases file : va < seg.virtualAddress + copied
      · rw [if_neg (by omega), if_pos ⟨lower, file⟩, if_pos (by omega)]
      · rw [if_pos (by omega), if_neg (by omega)]
    · intro other lower' upper'
      obtain ⟨frame, -, translated⟩ := translates other lower' (by omega)
      rw [translated, Option.isSome_some]
    · intro other lower' upper'
      obtain ⟨frame, -, translated⟩ := translates other (by omega) (by omega)
      rw [Memory.storeBytes_translate, translated, Option.isSome_some]

/-- Without LRU by lists the element of a new page is appended as by a placement. -/
theorem addSegmentElement_eq (lists : kernel.pageRepAlgoType ≠ .lruListsApprox)
    (user : va < userTop) :
    kernel.addSegmentElement env va = .ok (kernel.nextElement, kernel.placed env va) := by
  unfold addSegmentElement createElement
  rw [if_pos user]
  change Except.ok _ = Except.ok _
  dsimp only
  rw [if_neg lists, List.length_append, List.length_singleton]
  simp [placed, setHand, appended, setEnv]

theorem addStackElement_eq (lists : kernel.pageRepAlgoType ≠ .lruListsApprox)
    (user : va < userTop) :
    kernel.addStackElement env va = .ok (kernel.nextElement, kernel.placed env va) := by
  unfold addStackElement createElement
  rw [if_pos user]
  change Except.ok _ = Except.ok _
  dsimp only
  rw [if_neg lists, List.length_append, List.length_singleton]
  simp [placed, setHand, appended, setEnv]

end Kernel

namespace Loading

variable {loading : Loading} {env activeListSize iVA : Nat} {free : List Nat}

/-- A round maps the first free frame at its page and appends the page to the working set. -/
theorem placePage_ends (orderly : loading.kernel.Orderly)
    (ws : Kernel.WorkingSet loading.kernel env free)
    (lists : loading.kernel.pageRepAlgoType ≠ .lruListsApprox) (page : IsUserPage iVA)
    (absent : loading.kernel.pagePresent env iVA = false)
    (room : (loading.kernel.envs env).pageWsList.length < (loading.kernel.envs env).pageWsMaxSize) :
    Ends (loading.placePage env activeListSize iVA)
      (fun next => next.remainingWsPages = loading.remainingWsPages ∧
        next.kernel.memory.bytes = loading.kernel.memory.bytes ∧
        Kernel.SameDisk loading.kernel next.kernel ∧
        ∃ rest, Kernel.Places env loading.kernel free [iVA] next.kernel rest)
      fun halt => halt = .outOfMemory ∧ free = [] ∨ halt = .panic := by
  unfold placePage
  cases allocated : loading.kernel.memory.allocateFrame with
  | none =>
      refine .error (.inl ⟨rfl, ?_⟩)
      cases free with
      | nil => rfl
      | cons head tail =>
          have first := ws.mapped.represents.first_eq
          rw [List.head?_cons] at first
          simp [Memory.allocateFrame, first] at allocated
  | some taken =>
      obtain ⟨frame, memory⟩ := taken
      obtain ⟨rest, rfl, represents, -⟩ :=
        Memory.allocateFrame_cases ws.mapped.represents allocated
      have maps := ws.loadtimeMapFrame orderly allocated represents page absent
        (permUser ||| permWriteable)
      have bytes := (Kernel.loadtimeMapFrame_bytes
        { loading.kernel with memory := memory } env frame iVA
        (permUser ||| permWriteable)).trans (Memory.allocateFrame_spec allocated).2.2
      dsimp only
      generalize Kernel.loadtimeMapFrame { loading.kernel with memory := memory } env frame iVA
        (permUser ||| permWriteable) = mapped at maps bytes ⊢
      obtain ⟨memory', nextTable, same⟩ := maps.same
      have places := maps.places ws page absent room
      have algorithm : mapped.pageRepAlgoType ≠ .lruListsApprox := by
        rw [same]
        exact lists
      rw [Kernel.addSegmentElement_eq algorithm page.2]
      change Ends (if _ then _ else _) _ _
      by_cases wraps : pdx iVA ≠ loading.lastTableNumber ∧
          (if pdx iVA ≠ loading.lastTableNumber then (loading.tableLastWsIndex + 1) % twsMaxSize
            else loading.tableLastWsIndex) = 0
      · rw [if_pos wraps]
        exact .error (.inr rfl)
      · rw [if_neg wraps]
        exact .ok ⟨rfl, bytes, maps.sameDisk, rest, places⟩

/-- The loop maps free frames at its pages and appends them to the working set. -/
theorem placePages_ends {base count : Nat} (orderly : loading.kernel.Orderly)
    (ws : Kernel.WorkingSet loading.kernel env free)
    (lists : loading.kernel.pageRepAlgoType ≠ .lruListsApprox) (aligned : base % pageSize = 0)
    (fits : base + count * pageSize ≤ userTop)
    (absent : ∀ page ∈ pagesFrom base count, page ∉ loading.kernel.wsPages env)
    (room : (loading.kernel.envs env).pageWsList.length + count ≤
      (loading.kernel.envs env).pageWsMaxSize) :
    Ends ((List.range count).foldlM
        (fun loading index => loading.placePage env activeListSize (base + index * pageSize))
          loading)
      (fun next => next.remainingWsPages = loading.remainingWsPages ∧
        next.kernel.memory.bytes = loading.kernel.memory.bytes ∧
        Kernel.SameDisk loading.kernel next.kernel ∧
        ∃ rest, Kernel.Places env loading.kernel free (pagesFrom base count) next.kernel rest)
      fun halt => halt = .outOfMemory ∨ halt = .panic := by
  refine Ends.foldlM_range (fun index (next : Loading) =>
    next.remainingWsPages = loading.remainingWsPages ∧
      next.kernel.memory.bytes = loading.kernel.memory.bytes ∧
      Kernel.SameDisk loading.kernel next.kernel ∧
      ∃ rest, Kernel.Places env loading.kernel free (pagesFrom base index) next.kernel rest)
    (fun index less next => ?_) loading ⟨rfl, rfl, ⟨rfl, fun _ => rfl⟩, free,
      .refl orderly ws⟩
  rintro ⟨remaining, bytes, disk, rest, places⟩
  have page : IsUserPage (base + index * pageSize) := by
    unfold IsUserPage
    unfold pageSize userTop at *
    omega
  have outside : base + index * pageSize ∉ next.kernel.wsPages env := by
    rw [places.wsPages, List.mem_append, not_or]
    refine ⟨absent _ (mem_pagesFrom.mpr ⟨index, less, rfl⟩), fun listed => ?_⟩
    obtain ⟨earlier, less', same⟩ := mem_pagesFrom.mp listed
    unfold pageSize at same
    omega
  have absent' : next.kernel.pagePresent env (base + index * pageSize) = false := by
    rw [← Bool.not_eq_true, places.workingSet.mapped.present _ page.2, page.roundDown_eq]
    exact outside
  have length := congrArg List.length places.wsPages
  rw [Kernel.wsPages, Kernel.wsPages, List.length_map, List.length_append, List.length_map,
    pagesFrom, List.length_map, List.length_range] at length
  have lists' : next.kernel.pageRepAlgoType ≠ .lruListsApprox := by
    rw [places.leaves.algorithm]
    exact lists
  have room' : (next.kernel.envs env).pageWsList.length < (next.kernel.envs env).pageWsMaxSize := by
    rw [places.leaves.size]
    omega
  refine (placePage_ends places.orderly places.workingSet lists' page absent' room').mono ?_
    fun halt stopped => stopped.imp_left And.left
  rintro after ⟨remaining', bytes', disk', rest', places'⟩
  refine ⟨remaining'.trans remaining, bytes'.trans bytes, disk.trans disk', rest', ?_⟩
  rw [pagesFrom_succ]
  exact places.trans places'

/-- The first pages of a segment get frames with the segment in them, up to the end of the last of
these pages. -/
theorem programSegmentAllocMapCopyWorkingset_ends {seg : ProgramSegment} {progName : String}
    {count : Nat} (orderly : loading.kernel.Orderly)
    (ws : Kernel.WorkingSet loading.kernel env free)
    (lists : loading.kernel.pageRepAlgoType ≠ .lruListsApprox)
    (number : seg.allocatedPages progName loading.remainingWsPages = count)
    (user : seg.virtualAddress + seg.sizeInMemory ≤ userTop)
    (file : seg.sizeInFile ≤ seg.sizeInMemory)
    (absent : ∀ page ∈ pagesFrom (roundDown seg.virtualAddress pageSize) count,
      page ∉ loading.kernel.wsPages env)
    (room : (loading.kernel.envs env).pageWsList.length + count ≤
      (loading.kernel.envs env).pageWsMaxSize) :
    Ends (loading.programSegmentAllocMapCopyWorkingset env activeListSize progName seg)
      (fun next => next.remainingWsPages = loading.remainingWsPages ∧
        (∀ frame, frame ∉ free →
          next.kernel.memory.bytes frame = loading.kernel.memory.bytes frame) ∧
        (∀ va, seg.virtualAddress ≤ va →
          va < roundDown seg.virtualAddress pageSize + count * pageSize →
            next.kernel.memory.byteAt (next.kernel.directory env) va = some (seg.byteAt va)) ∧
        Kernel.SameDisk loading.kernel next.kernel ∧
        ∃ rest, Kernel.Places env loading.kernel free
          (pagesFrom (roundDown seg.virtualAddress pageSize) count) next.kernel rest)
      fun halt => halt = .outOfMemory ∨ halt = .panic := by
  have aligned : roundDown seg.virtualAddress pageSize % pageSize = 0 := by
    unfold roundDown pageSize
    omega
  have fits : roundDown seg.virtualAddress pageSize + count * pageSize ≤ userTop := by
    rw [← number]
    exact (seg.allocatedPages_fits progName _ user).trans (by unfold userTop pageSize at *; omega)
  have word : userTop < 2 ^ 32 := by decide
  have stop : add32 (roundDown seg.virtualAddress pageSize) (count * pageSize) =
      roundDown seg.virtualAddress pageSize + count * pageSize := Nat.mod_eq_of_lt (by omega)
  have endOfFile : add32 seg.virtualAddress seg.sizeInFile = seg.virtualAddress + seg.sizeInFile :=
    Nat.mod_eq_of_lt (by omega)
  unfold programSegmentAllocMapCopyWorkingset
  rw [number]
  apply (placePages_ends orderly ws lists aligned fits absent room).bind
  rintro placed ⟨remaining, bytes, disk, rest, places⟩
  obtain ⟨⟨copy, same⟩, others, copied⟩ := places.copies seg (by omega) fits
  rw [stop, endOfFile]
  refine .ok ⟨remaining, fun frame outside => ?_, copied, disk, rest, ?_⟩
  · rw [← bytes]
    exact others frame outside
  · dsimp only
    rw [same]
    exact places.setBytes copy

end Loading

end FosKernel
