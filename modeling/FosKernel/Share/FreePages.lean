import FosKernel.Share.AddressRuns
import FosKernel.Share.MappedPages

/-!
# Mapping objects at free addresses

What the loops of `create_shared_object` and `get_shared_object` do where nothing is
mapped. Whatever was present stays, at its place, so a frame in use stays in use.
Creation stores new frames, all of them different, and a getter maps the frames that
it finds, whose references can count it as long as 16 bits are enough in the end.
-/

namespace FosKernel

theorem has_available_writeable (perm : Perm) :
    Perm.has (perm &&& permAvailable) permWriteable = false := by
  rw [Perm.has_and, show permAvailable &&& permWriteable = 0#12 by decide]
  simp [Perm.has]

namespace Memory

variable {memory middle next : Memory} {directory frame va : Nat} {entry : PageTableEntry}
  {perm : Perm}

/-- No page is present at the address. -/
def Unmapped (memory : Memory) (directory va : Nat) : Prop :=
  Perm.has (memory.pagePerm directory va) permPresent = false

/-- Whatever was present still is, at the same place. -/
structure Extends (memory next : Memory) : Prop where
  linked : ∀ directory va table, memory.getPageTable directory va = some table →
    next.getPageTable directory va = some table
  present : ∀ slot, (memory.tables slot).present = true → next.tables slot = memory.tables slot

theorem Unmapped.absent (unmapped : memory.Unmapped directory va)
    (here : memory.entry directory va = some entry) : entry.present = false := by
  rwa [Unmapped, pagePerm_of_entry here] at unmapped

theorem Unmapped.not_maps (unmapped : memory.Unmapped directory va) :
    ¬ memory.Maps directory va frame := by
  rintro ⟨entry, here, present, -⟩
  rw [unmapped.absent here] at present
  cases present

theorem SamePage.unmapped (same : memory.SamePage next directory va)
    (unmapped : memory.Unmapped directory va) : next.Unmapped directory va := by
  rwa [Unmapped, same.2]

theorem Maps.mappers_nonempty (maps : memory.Maps directory va frame) :
    (mappers memory.tables frame).Nonempty := by
  obtain ⟨entry, here, present, same⟩ := maps
  obtain ⟨slot, -, rfl⟩ := Option.map_eq_some_iff.mp here
  exact ⟨slot, present, same⟩

namespace Extends

theorem refl (memory : Memory) : memory.Extends memory :=
  ⟨fun _ _ _ linked => linked, fun _ _ => rfl⟩

theorem trans (first : memory.Extends middle) (second : middle.Extends next) :
    memory.Extends next where
  linked directory va table linked :=
    second.linked directory va table (first.linked directory va table linked)
  present slot present := by
    have kept := first.present slot present
    rw [second.present slot (by rwa [kept]), kept]

theorem present_entry (later : memory.Extends next) {entry : PageTableEntry}
    (here : memory.entry directory va = some entry) (present : entry.present = true) :
    next.entry directory va = some entry := by
  obtain ⟨slot, located, rfl⟩ := Option.map_eq_some_iff.mp here
  obtain ⟨table, linked, rfl⟩ := Option.map_eq_some_iff.mp located
  have located' : next.slot directory va = some (table, ptx va) := by
    rw [slot, later.linked directory va table linked, Option.map_some]
  rw [entry_eq located', later.present _ present]

theorem mappers_subset (later : memory.Extends next) (frame : Nat) :
    mappers memory.tables frame ⊆ mappers next.tables frame := by
  rintro slot ⟨present, same⟩
  have kept := later.present slot present
  exact ⟨by rwa [kept], by rwa [kept]⟩

theorem of_allocateFrame (allocated : memory.allocateFrame = some (frame, next)) :
    memory.Extends next := by
  obtain ⟨tables, directories, -⟩ := allocateFrame_spec allocated
  refine ⟨fun directory va table linked => ?_, fun slot _ => congrFun tables slot⟩
  rwa [getPageTable_congr directories]

/-- `map_frame` at a free address. -/
theorem of_mapFrame (unmapped : memory.Unmapped directory va)
    (mapped : memory.mapFrame directory frame va perm = some next) : memory.Extends next := by
  obtain ⟨directories, -, others⟩ := mapFrame_others mapped
  refine ⟨fun directory va table linked => ?_,
    fun slot present => others slot fun located => ?_⟩
  · rwa [getPageTable_congr directories]
  · rw [unmapped.absent (entry_eq located)] at present
    cases present

end Extends

/-- `map_frame` at a free address adds its entry to those that map the frame. -/
theorem insert_mappers_subset {slot : Slot} (unmapped : memory.Unmapped directory va)
    (mapped : memory.mapFrame directory frame va perm = some next)
    (located : memory.slot directory va = some slot) :
    insert slot (mappers memory.tables frame) ⊆ mappers next.tables frame := by
  refine Set.insert_subset ?_ ((Extends.of_mapFrame unmapped mapped).mappers_subset frame)
  obtain ⟨entry, here, present, same⟩ := maps_of_mapFrame mapped
  obtain ⟨directories, -⟩ := mapFrame_others mapped
  rw [entry_eq ((slot_congr directories ..).trans located)] at here
  obtain rfl := Option.some.inj here
  exact ⟨present, same⟩

end Memory

theorem ncard_lt_of_subset {α : Type} {few many : Set α} {bound : Nat} (subset : few ⊆ many)
    (bounded : many.encard < bound) : few.ncard < bound := by
  have finite : many.Finite := Set.encard_lt_top_iff.mp (bounded.trans (ENat.natCast_lt_top bound))
  rw [← finite.cast_ncard_eq, Nat.cast_lt] at bounded
  exact Nat.lt_of_le_of_lt (Set.ncard_le_ncard subset finite) bounded

namespace SharedMemory

variable {β : Type} {D : DynAllocator β} {managed pending : Finset Nat}
  {shared middle after : SharedMemory β} {directory frame va va' index count : Nat} {perm : Perm}
  {framesStorage framesStorage' : List Nat} {memory : Memory}

/-- The page table that `map_frame` creates. -/
theorem Layout.ensurePageTable_extends (accessing : D.Accessing) (layout : shared.Layout)
    (ready : shared.ensurePageTable D directory va = .ok after) :
    shared.heap.memory.Extends after.heap.memory := by
  unfold SharedMemory.ensurePageTable at ready
  cases held : shared.heap.memory.getPageTable directory va with
  | some table =>
      rw [held] at ready
      obtain rfl := Except.ok.inj ready
      exact .refl _
  | none =>
      rw [held] at ready
      obtain ⟨⟨table, heap⟩, allocated, rest⟩ := bind_eq_ok.mp ready
      obtain ⟨layout', -⟩ := layout.kmalloc accessing allocated directory
      obtain ⟨top, pagesOnly⟩ := layout.pagesOnly
      obtain ⟨-, -, moves⟩ := pagesOnly.kmalloc allocated
      have tables := Memory.getPageTable_congr (moves.pageMoves accessing).others.1
      dsimp only at rest
      split at rest
      · cases rest
      · rename_i nonzero
        obtain rfl := Except.ok.inj rest
        have fresh := layout'.fresh shared.nextTable (Nat.le_refl _)
        have entries := fresh.linkTable_tables directory va
        constructor
        · intro other va' table linked
          refine Memory.linkTable_getPageTable.trans ?_
          rw [if_neg, tables, linked]
          rintro ⟨rfl, region⟩
          rw [Memory.getPageTable, region] at linked
          rw [Memory.getPageTable, linked] at held
          cases held
        · intro slot present
          refine (congrFun entries slot).trans ?_
          exact kmalloc_page_entries allocated nonzero slot
            (PageTableEntry.holdsFrame_of_present present)

/-- The page table that `map_frame` creates leaves the address free. -/
theorem Layout.ensurePageTable_unmapped (accessing : D.Accessing) (layout : shared.Layout)
    (unmapped : shared.heap.memory.Unmapped directory va)
    (ready : shared.ensurePageTable D directory va = .ok after) :
    after.heap.memory.Unmapped directory va := by
  obtain rfl | ⟨-, empty⟩ := layout.ensurePageTable_cases accessing ready
  · exact unmapped
  · rw [Memory.Unmapped, Memory.pagePerm_of_entry empty]
    decide

/-- `map_frame` at a free address. -/
theorem Layout.mapFrame_extends (accessing : D.Accessing) (layout : shared.Layout)
    (unmapped : shared.heap.memory.Unmapped directory va)
    (mapped : shared.mapFrame D directory frame va perm = .ok after) :
    shared.heap.memory.Extends after.heap.memory ∧ ∃ available,
      after.heap.memory.entry directory va =
        some ⟨frame, available &&& permAvailable ||| perm ||| permPresent⟩ := by
  obtain ⟨ready, table, installed⟩ := mapFrame_eq_ok mapped
  have unmapped' := layout.ensurePageTable_unmapped accessing unmapped table
  exact ⟨(layout.ensurePageTable_extends accessing table).trans
    (.of_mapFrame unmapped' installed),
    Memory.installed_of_mapFrame unmapped'.not_maps installed⟩

theorem present_of_installed (frame : Nat) (available perm : Perm) :
    (PageTableEntry.mk frame (available ||| perm ||| permPresent)).present = true := by
  simp only [PageTableEntry.present, Perm.has_or]
  simp [show Perm.has permPresent permPresent = true by decide]

section Loops

/-- The pages of a loop that are still to be mapped. -/
def FreePages (shared : SharedMemory β) (directory va index count : Nat) : Prop :=
  ∀ page, index ≤ page → page < index + count → sharePage va page < userTop ∧
    shared.heap.memory.Unmapped directory (sharePage va page)

/-- Mapping the first page leaves the others free. -/
theorem FreePages.mapFrame (free : shared.FreePages directory va index (count + 1))
    (accessing : D.Accessing) (layout : shared.Layout) (fits : index + (count + 1) ≤ 2 ^ 20)
    (mapped : shared.mapFrame D directory frame (sharePage va index) perm = .ok after) :
    after.FreePages directory va (index + 1) count := by
  intro page lower upper
  obtain ⟨user, unmapped⟩ := free page (by omega) (by omega)
  refine ⟨user, Memory.SamePage.unmapped ?_ unmapped⟩
  refine layout.mapFrame_samePage accessing (sharePage_lt ..) mapped user ?_
  rintro ⟨-, same⟩
  unfold sharePage add32 pageSize at same
  omega

theorem FreePages.allocateFrame (free : shared.FreePages directory va index count)
    (allocated : shared.heap.memory.allocateFrame = some (frame, memory)) :
    (shared.setMemory memory).FreePages directory va index count := by
  intro page lower upper
  obtain ⟨user, unmapped⟩ := free page lower upper
  exact ⟨user, Memory.SamePage.unmapped (.of_entry (allocateFrame_entry allocated ..)) unmapped⟩

/-- The loop of `get_shared_object` over free pages. -/
theorem Layout.mapStorage_extends (accessing : D.Accessing) (layout : shared.Layout)
    (fits : index + count ≤ 2 ^ 20) (free : shared.FreePages directory va index count)
    (mapped : shared.mapStorage D directory va perm framesStorage index count = .ok after) :
    shared.heap.memory.Extends after.heap.memory := by
  induction count generalizing shared index with
  | zero => exact Except.ok.inj mapped ▸ .refl _
  | succ count ih =>
      rw [SharedMemory.mapStorage] at mapped
      split at mapped
      · cases mapped
      · obtain ⟨middle, first, rest⟩ := bind_eq_ok.mp mapped
        obtain ⟨-, unmapped⟩ := free index (Nat.le_refl _) (by omega)
        obtain ⟨later, -⟩ := layout.mapFrame_extends accessing unmapped first
        obtain ⟨layout', -⟩ := layout.mapFrame accessing first
        exact later.trans (ih layout' (by omega) (free.mapFrame accessing layout fits first) rest)

/-- The references count the mappings of the loop as long as 16 bits are enough in the end. -/
theorem Kept.mapStorage_of_few (kept : shared.Kept managed ∅) (accessing : D.Accessing)
    (layout : shared.Layout) (regular : Perm.has perm permBuffered = false)
    (fits : index + count ≤ 2 ^ 20) (free : shared.FreePages directory va index count)
    (used : ∀ frame ∈ framesStorage, (mappers shared.heap.memory.tables frame).Nonempty)
    (few : ∀ frame, (mappers after.heap.memory.tables frame).encard < 2 ^ 16)
    (mapped : shared.mapStorage D directory va perm framesStorage index count = .ok after) :
    after.Kept managed ∅ := by
  induction count generalizing shared index with
  | zero => exact Except.ok.inj mapped ▸ kept
  | succ count ih =>
      rw [SharedMemory.mapStorage] at mapped
      split at mapped
      · cases mapped
      · rename_i frame recorded
        obtain ⟨middle, first, rest⟩ := bind_eq_ok.mp mapped
        obtain ⟨-, unmapped⟩ := free index (Nat.le_refl _) (by omega)
        obtain ⟨later, -⟩ := layout.mapFrame_extends accessing unmapped first
        obtain ⟨layout', -⟩ := layout.mapFrame accessing first
        have free' := free.mapFrame accessing layout fits first
        have last := layout'.mapStorage_extends accessing (by omega) free' rest
        have may : ∀ ready, shared.ensurePageTable D directory (sharePage va index) =
          .ok ready →
            ready.heap.memory.MayMap ∅ directory frame (sharePage va index) := by
          intro ready table
          obtain ⟨ready', table', installed⟩ := mapFrame_eq_ok first
          obtain rfl : ready = ready' := Except.ok.inj (table.symm.trans table')
          have grown := (layout.ensurePageTable_extends accessing table).mappers_subset frame
          refine ⟨.inr ((used frame (List.mem_of_getElem? recorded)).mono grown), ?_⟩
          intro slot located
          have added := Memory.insert_mappers_subset
            (layout.ensurePageTable_unmapped accessing unmapped table) installed located
          exact ncard_lt_of_subset (added.trans (last.mappers_subset frame)) (few frame)
        have kept' := kept.mapFrame accessing regular may first
        rw [Finset.erase_empty] at kept'
        exact ih kept' layout' (by omega) free'
          (fun frame member => (used frame member).mono (later.mappers_subset frame)) rest

/-- Every page of the loop maps its recorded frame with the permissions of the call. -/
theorem Layout.mapStorage_installs (accessing : D.Accessing) (layout : shared.Layout)
    (fits : index + count ≤ 2 ^ 20) (free : shared.FreePages directory va index count)
    (mapped : shared.mapStorage D directory va perm framesStorage index count = .ok after)
    {page : Nat} (lower : index ≤ page) (upper : page < index + count)
    (recorded : framesStorage[page]? = some frame) : ∃ available,
      after.heap.memory.entry directory (sharePage va page) =
        some ⟨frame, available &&& permAvailable ||| perm ||| permPresent⟩ := by
  induction count generalizing shared index with
  | zero => omega
  | succ count ih =>
      rw [SharedMemory.mapStorage] at mapped
      split at mapped
      · cases mapped
      · rename_i found stored
        obtain ⟨middle, first, rest⟩ := bind_eq_ok.mp mapped
        obtain ⟨-, unmapped⟩ := free index (Nat.le_refl _) (by omega)
        obtain ⟨layout', -⟩ := layout.mapFrame accessing first
        have free' := free.mapFrame accessing layout fits first
        by_cases same : page = index
        · subst same
          obtain rfl := Option.some.inj (stored.symm.trans recorded)
          obtain ⟨-, available, here⟩ := layout.mapFrame_extends accessing unmapped first
          have later := layout'.mapStorage_extends accessing (by omega) free' rest
          exact ⟨available, later.present_entry here (present_of_installed ..)⟩
        · exact ih layout' (by omega) free' rest (by omega) (by omega)

/-- The loop of `create_shared_object` over free pages. -/
theorem Layout.placeFrames_extends (accessing : D.Accessing) (layout : shared.Layout)
    (fits : index + count ≤ 2 ^ 20) (free : shared.FreePages directory va index count)
    (placed : shared.placeFrames D directory (sharePage va index) framesStorage index count =
      .ok (framesStorage', after)) : shared.heap.memory.Extends after.heap.memory := by
  induction count generalizing shared index framesStorage with
  | zero =>
      obtain ⟨-, rfl⟩ := Prod.mk.inj (Except.ok.inj placed)
      exact .refl _
  | succ count ih =>
      rw [SharedMemory.placeFrames] at placed
      split at placed
      · cases placed
      · rename_i frame memory allocated
        obtain ⟨middle, mapped, rest⟩ := bind_eq_ok.mp placed
        rw [sharePage_succ] at rest
        have free' := free.allocateFrame allocated
        obtain ⟨-, unmapped⟩ := free' index (Nat.le_refl _) (by omega)
        obtain ⟨taken, -⟩ := layout.allocateFrame allocated directory
        obtain ⟨later, -⟩ := taken.mapFrame_extends accessing unmapped mapped
        obtain ⟨layout', -⟩ := taken.mapFrame accessing mapped
        exact ((Memory.Extends.of_allocateFrame allocated).trans later).trans
          (ih layout' (by omega) (free'.mapFrame accessing taken fits mapped) rest)

/-- The frames that the loop of `create_shared_object` stored. Each is new and mapped at its page,
for the user to write. -/
structure Placed (shared after : SharedMemory β) (directory va index count : Nat)
    (framesStorage framesStorage' : List Nat) : Prop where
  before : ∀ page < index, framesStorage'[page]? = framesStorage[page]?
  new : ∀ page, index ≤ page → page < index + count → ∃ entry,
    after.heap.memory.entry directory (sharePage va page) = some entry ∧ entry.present = true ∧
      Perm.has entry.perm permWriteable = true ∧ framesStorage'[page]? = some entry.frame ∧
        mappers shared.heap.memory.tables entry.frame = ∅
  distinct : ∀ page page', index ≤ page → page < index + count → index ≤ page' →
    page' < index + count → framesStorage'[page]? = framesStorage'[page']? → page = page'

theorem Layout.placeFrames_placed (accessing : D.Accessing) (layout : shared.Layout)
    (kept : shared.Kept managed ∅) (fits : index + count ≤ 2 ^ 20)
    (room : index + count ≤ framesStorage.length)
    (free : shared.FreePages directory va index count)
    (placed : shared.placeFrames D directory (sharePage va index) framesStorage index count =
      .ok (framesStorage', after)) :
    Placed shared after directory va index count framesStorage framesStorage' := by
  induction count generalizing shared index framesStorage with
  | zero =>
      obtain ⟨rfl, rfl⟩ := Prod.mk.inj (Except.ok.inj placed)
      exact ⟨fun _ _ => rfl, fun page _ _ => by omega, fun page _ _ _ => by omega⟩
  | succ count ih =>
      rw [SharedMemory.placeFrames] at placed
      split at placed
      · cases placed
      · rename_i frame memory allocated
        obtain ⟨middle, mapped, rest⟩ := bind_eq_ok.mp placed
        rw [sharePage_succ] at rest
        have free₁ := free.allocateFrame allocated
        obtain ⟨-, unmapped⟩ := free₁ index (Nat.le_refl _) (by omega)
        obtain ⟨taken, -⟩ := layout.allocateFrame allocated directory
        obtain ⟨later, available, here⟩ := taken.mapFrame_extends accessing unmapped mapped
        obtain ⟨layout', -⟩ := taken.mapFrame accessing mapped
        have free' := free₁.mapFrame accessing taken fits mapped
        have counted := kept.setMemory (kept.counted.allocateFrame allocated)
        have kept' := counted.mapFrame accessing (by decide)
          (fun ready table => mayMap_of_pending (counted.ensurePageTable accessing table)
            (Finset.mem_insert_self ..)) mapped
        rw [Finset.erase_insert (Finset.notMem_empty frame)] at kept'
        have last := layout'.placeFrames_extends accessing (by omega) free' rest
        have inner := ih layout' kept' (by omega) (by rw [List.length_set]; omega) free' rest
        have grown := (Memory.Extends.of_allocateFrame allocated).trans later
        have own : framesStorage'[index]? = some frame := by
          rw [inner.before index (Nat.lt_succ_self _), List.getElem?_set_self (by omega)]
        have fresh : mappers shared.heap.memory.tables frame = ∅ := by
          obtain ⟨free, invariant⟩ := counted.counted.counted
          obtain ⟨tables, -⟩ := Memory.allocateFrame_spec allocated
          have unused := (invariant.handedOut frame (Finset.mem_insert_self ..)).2
          rwa [show (shared.setMemory memory).heap.memory.tables = _ from tables] at unused
        have apart : ∀ page, index + 1 ≤ page → page < index + (count + 1) →
            framesStorage'[page]? ≠ framesStorage'[index]? := by
          intro page lower upper same
          obtain ⟨entry, -, -, -, recorded, unused⟩ := inner.new page lower (by omega)
          rw [recorded, own] at same
          obtain rfl : entry.frame = frame := Option.some.inj same
          have used := (mapFrame_maps mapped).mappers_nonempty
          rw [unused] at used
          exact Set.not_nonempty_empty used
        refine ⟨fun page before => ?_, fun page lower upper => ?_, ?_⟩
        · rw [inner.before page (by omega), List.getElem?_set_ne (by omega)]
        · rcases Nat.eq_or_lt_of_le lower with rfl | further
          · refine ⟨_, last.present_entry here (present_of_installed ..),
              present_of_installed ..,
              ?_, own, fresh⟩
            simp only [Perm.has_or]
            simp [show Perm.has permWriteable permWriteable = true by decide]
          · obtain ⟨entry, mapped', present, writeable, recorded, unused⟩ :=
              inner.new page (by omega) (by omega)
            refine ⟨entry, mapped', present, writeable, recorded, ?_⟩
            exact Set.subset_eq_empty (grown.mappers_subset entry.frame) unused
        · intro page page' lower upper lower' upper' same
          rcases Nat.eq_or_lt_of_le lower with rfl | further <;>
            rcases Nat.eq_or_lt_of_le lower' with here' | further'
          · exact here'
          · exact absurd same.symm (apart page' further' upper')
          · subst here'
            exact absurd same (apart page further upper)
          · exact inner.distinct page page' further (by omega) further' (by omega) same

end Loops

section Calls

variable {overrun : Nat → List UInt8} {contents shareName : List UInt8} {ownerId : BitVec 32}
  {size : Nat} {isWritable : UInt8} {share : Share} {heap heap' : KHeap β} {code : Int}

theorem allocShare_record
    (allocated : allocShare D heap contents ownerId shareName size isWritable =
      .ok (some share, heap')) : share.size = size ∧ share.isWritable = isWritable := by
  obtain ⟨⟨va, first⟩, -, rest⟩ := bind_eq_ok.mp allocated
  dsimp only at rest
  split at rest
  · cases rest
  · obtain ⟨⟨storage, second⟩, -, last⟩ := bind_eq_ok.mp rest
    cases storage with
    | none =>
        obtain ⟨third, -, returned⟩ := bind_eq_ok.mp last
        cases returned
    | some framesStorage =>
        obtain ⟨same, -⟩ := Prod.mk.inj (Except.ok.inj last)
        obtain rfl := Option.some.inj same
        exact ⟨rfl, rfl⟩

/-- `get_shared_object` finds no share, or maps the frames of one at the address. -/
theorem getSharedObject_found
    (returned : shared.getSharedObject D overrun directory ownerId shareName va =
      .ok (code, after)) :
    (code < 0 ∧ after = shared) ∨
    ∃ index share mapped, code = share.id ∧
      shared.findShare overrun ownerId shareName = some index ∧
      shared.sharesList[index]? = some share ∧
      shared.mapStorage D directory va
        (if share.isWritable ≠ 0 then permUser ||| permWriteable else permUser)
        share.framesStorage 0 (numframe share.size) = .ok mapped ∧
      after = { mapped with
        sharesList := shared.sharesList.modify index fun share =>
          { share with references := add32 share.references 1 } } := by
  unfold getSharedObject at returned
  split at returned
  · obtain ⟨rfl, rfl⟩ := Prod.mk.inj (Except.ok.inj returned)
    exact .inl ⟨by decide, rfl⟩
  · rename_i index found
    split at returned
    · obtain ⟨rfl, rfl⟩ := Prod.mk.inj (Except.ok.inj returned)
      exact .inl ⟨by decide, rfl⟩
    · rename_i share listed
      obtain ⟨mapped, maps, rest⟩ := bind_eq_ok.mp returned
      obtain ⟨rfl, rfl⟩ := Prod.mk.inj (Except.ok.inj rest)
      refine .inr ⟨index, share, mapped, rfl, found, listed, maps, ?_⟩
      rw [mapStorage_sharesList maps]

/-- `create_shared_object` fails without a new share, or adds one with the frames it placed. -/
theorem createSharedObject_adds
    (returned : shared.createSharedObject D overrun contents directory ownerId shareName size
      isWritable va = .ok (code, after)) :
    (code < 0 ∧ (after = shared ∨ ∃ heap, after = { shared with heap := heap } ∧
      allocShare D shared.heap contents ownerId shareName size isWritable = .ok (none, heap))) ∨
    ∃ share heap framesStorage placed, code = share.id ∧
      shared.findShare overrun ownerId shareName = none ∧
      allocShare D shared.heap contents ownerId shareName size isWritable =
        .ok (some share, heap) ∧
      placeFrames D { shared with heap := heap } directory va share.framesStorage 0
        (pagesOf size) = .ok (framesStorage, placed) ∧
      after = { placed with
        sharesList := shared.sharesList ++ [{ share with framesStorage := framesStorage }] } := by
  unfold createSharedObject at returned
  split at returned
  · obtain ⟨rfl, rfl⟩ := Prod.mk.inj (Except.ok.inj returned)
    exact .inl ⟨by decide, .inl rfl⟩
  · rename_i untaken
    obtain ⟨⟨made, heap⟩, allocated, rest⟩ := bind_eq_ok.mp returned
    cases made with
    | none =>
        obtain ⟨rfl, rfl⟩ := Prod.mk.inj (Except.ok.inj rest)
        exact .inl ⟨by decide, .inr ⟨heap, rfl, allocated⟩⟩
    | some share =>
        obtain ⟨⟨framesStorage, placed⟩, stored, last⟩ := bind_eq_ok.mp rest
        obtain ⟨rfl, rfl⟩ := Prod.mk.inj (Except.ok.inj last)
        refine .inr ⟨share, heap, framesStorage, placed, rfl, by simpa using untaken, allocated,
          stored, ?_⟩
        rw [(placeFrames_sharesList stored :)]

/-- What was present at user addresses still is. -/
def KeepsUserPages (shared after : SharedMemory β) : Prop :=
  ∀ directory va entry, va < userTop → shared.heap.memory.entry directory va = some entry →
    entry.present = true → after.heap.memory.entry directory va = some entry

theorem KeepsUserPages.of_extends (later : shared.heap.memory.Extends after.heap.memory) :
    shared.KeepsUserPages after :=
  fun _ _ _ _ here present => later.present_entry here present

theorem KeepsUserPages.of_entry (same : ∀ directory va, va < userTop →
    after.heap.memory.entry directory va = shared.heap.memory.entry directory va) :
    shared.KeepsUserPages after :=
  fun directory va _ user here _ => (same directory va user).trans here

/-- The kernel heap changes no user page. -/
theorem Layout.allocShare_entry (accessing : D.Accessing) (layout : shared.Layout)
    {made : Option Share}
    (allocated : SharedMemory.allocShare D shared.heap contents ownerId shareName size isWritable =
      .ok (made, heap)) (directory : Nat) (user : va < userTop) :
    heap.memory.entry directory va = shared.heap.memory.entry directory va := by
  -- the pages of one directory are kept as those of others than the next
  obtain ⟨-, kept⟩ := layout.allocShare accessing allocated (directory + 1)
  refine (kept.entries directory va (Nat.lt_trans user (by decide))
    (.inl (Nat.ne_of_lt (Nat.lt_succ_self _)))).resolve_right ?_
  rintro ⟨⟨lower, -⟩, -⟩
  have below : userTop ≤ kernelHeapStart := by decide
  omega

end Calls

section Pages

theorem lt_pagesOf_iff {size page : Nat} (inRange : size ≤ userTop) :
    page < pagesOf size ↔ page * pageSize < size := by
  unfold pagesOf roundUp roundDown add32
  unfold userTop at inRange
  unfold pageSize
  omega

theorem sharePage_eq {page : Nat} (user : va + page * pageSize < userTop) :
    sharePage va page = va + page * pageSize := by
  unfold sharePage add32
  unfold userTop at user
  omega

/-- A size that no `int` can hold is negative there, and the loop runs past the stored frames. -/
theorem numframe_cases (size : Nat) : numframe size = pagesOf size ∨ 2 ^ 20 < numframe size := by
  unfold numframe pagesOf toInt32
  have word : roundUp size pageSize < 2 ^ 32 := by
    unfold roundUp roundDown add32
    omega
  have aligned : roundUp size pageSize % pageSize = 0 := by
    unfold roundUp roundDown add32 pageSize
    omega
  generalize roundUp size pageSize = rounded at word aligned
  unfold pageSize at aligned ⊢
  split
  · left
    rw [Int.tdiv_eq_ediv_of_nonneg (Int.natCast_nonneg _)]
    omega
  · right
    rw [Int.tdiv_eq_ediv_of_dvd (by omega)]
    omega

end Pages

end SharedMemory

end FosKernel
