import FosKernel.Heap.Completeness
import FosKernel.Share.SharedPages

/-!
# Getting objects of every size

A getter maps as many pages as the creator did only up to the largest size that an
`int` can hold after rounding. Up to there `get_shared_object` returns the id of the
object as long as page tables can be created. Beyond, `Numframe` is negative, and
the loop runs past the stored frames.
-/

namespace FosKernel

namespace Memory

variable {memory : Memory} {directory frame va : Nat} {perm : Perm} {free : List Nat}

/-- `map_frame` completes on an existing page table. -/
theorem mapFrame_completes (frame : Nat) (perm : Perm)
    (linked : (memory.getPageTable directory va).isSome) :
    ∃ next, memory.mapFrame directory frame va perm = some next := by
  obtain ⟨table, linked⟩ := Option.isSome_iff_exists.mp linked
  rw [mapFrame, slot, linked, Option.map_some]
  dsimp only
  split
  · split
    · exact ⟨_, rfl⟩
    · exact ⟨_, rfl⟩
  · exact ⟨_, rfl⟩

end Memory

namespace SharedMemory

variable {β : Type} {D : DynAllocator β} {shared middle ready after : SharedMemory β}
  {directory frame va index count more : Nat} {perm : Perm} {framesStorage : List Nat}

theorem ensurePageTable_of_linked (linked : (shared.heap.memory.getPageTable directory va).isSome) :
    shared.ensurePageTable D directory va = .ok shared := by
  obtain ⟨table, linked⟩ := Option.isSome_iff_exists.mp linked
  rw [ensurePageTable, linked]

/-- The page table exists once it was ensured. -/
theorem Layout.ensurePageTable_linked (accessing : D.Accessing) (layout : shared.Layout)
    (table : shared.ensurePageTable D directory va = .ok ready) :
    (ready.heap.memory.getPageTable directory va).isSome := by
  obtain rfl | ⟨-, empty⟩ := layout.ensurePageTable_cases accessing table
  · by_contra missing
    rw [Option.not_isSome_iff_eq_none] at missing
    rw [SharedMemory.ensurePageTable, missing] at table
    obtain ⟨⟨address, heap⟩, -, rest⟩ := bind_eq_ok.mp table
    dsimp only at rest
    split at rest
    · cases rest
    · have next := congrArg SharedMemory.nextTable (Except.ok.inj rest)
      exact absurd next (Nat.succ_ne_self _)
  · by_contra missing
    rw [Option.not_isSome_iff_eq_none] at missing
    rw [Memory.entry, Memory.slot, missing] at empty
    cases empty

/-- `map_frame` completes once the page table was ensured. -/
theorem Layout.mapFrame_completes (frame : Nat) (perm : Perm) (accessing : D.Accessing)
    (layout : shared.Layout) (table : shared.ensurePageTable D directory va = .ok ready) :
    ∃ after, shared.mapFrame D directory frame va perm = .ok after := by
  obtain ⟨memory, installed⟩ := Memory.mapFrame_completes frame perm
    (layout.ensurePageTable_linked accessing table)
  refine ⟨ready.setMemory memory, bind_eq_ok.mpr ⟨ready, table, ?_⟩⟩
  rw [installed]
  rfl

section Loops

/-- The loop of `get_shared_object` goes on where it stands. -/
theorem mapStorage_append
    (front : shared.mapStorage D directory va perm framesStorage index count = .ok middle) :
    shared.mapStorage D directory va perm framesStorage index (count + more) =
      middle.mapStorage D directory va perm framesStorage (index + count) more := by
  induction count generalizing shared index with
  | zero =>
      obtain rfl := Except.ok.inj front
      rw [Nat.zero_add, Nat.add_zero]
  | succ count ih =>
      rw [Nat.succ_add, mapStorage]
      rw [mapStorage] at front
      split at front
      · cases front
      · rename_i frame recorded
        obtain ⟨next, first, rest⟩ := bind_eq_ok.mp front
        have onwards := ih rest
        rw [Nat.add_assoc, Nat.add_comm 1 count] at onwards
        simp only [first]
        exact onwards

/-- Whenever the loop of `get_shared_object` comes to a page, the page's table exists or memory
suffices to create it. -/
def TablesFit (D : DynAllocator β) (shared : SharedMemory β) (directory va : Nat) (perm : Perm)
    (framesStorage : List Nat) (count : Nat) : Prop :=
  ∀ page < count, ∀ middle,
    shared.mapStorage D directory va perm framesStorage 0 page = .ok middle →
      ∃ ready, middle.ensurePageTable D directory (sharePage va page) = .ok ready

/-- The loop of `get_shared_object` ends if there is a frame for every page. -/
theorem Layout.mapStorage_completes (accessing : D.Accessing) (layout : shared.Layout)
    (fits : count ≤ 2 ^ 20) (free : shared.FreePages directory va 0 count)
    (stored : count ≤ framesStorage.length)
    (tables : shared.TablesFit D directory va perm framesStorage count) :
    ∃ after, shared.mapStorage D directory va perm framesStorage 0 count = .ok after := by
  induction count with
  | zero => exact ⟨shared, rfl⟩
  | succ count ih =>
      have fewer : shared.FreePages directory va 0 count := by
        intro page lower upper
        exact free page lower (by omega)
      obtain ⟨middle, front⟩ := ih (by omega) fewer (by omega)
        fun page inside => tables page (Nat.lt_succ_of_lt inside)
      obtain ⟨layout', -⟩ := layout.mapStorage accessing (by omega)
        (fun page lower upper frame _ => .inl (fewer page lower upper).1) front
      obtain ⟨ready, table⟩ := tables count (Nat.lt_succ_self count) middle front
      have recorded := List.getElem?_eq_getElem (Nat.lt_of_lt_of_le (Nat.lt_succ_self count) stored)
      obtain ⟨after, mapped⟩ :=
        layout'.mapFrame_completes framesStorage[count] perm accessing table
      refine ⟨after, ?_⟩
      rw [mapStorage_append front, Nat.zero_add, SharedMemory.mapStorage, recorded]
      exact bind_eq_ok.mpr ⟨after, mapped, rfl⟩

end Loops

/-- The pages that `get_shared_object` maps are those of the object up to the largest rounded size
that an `int` can hold. -/
theorem numframe_eq_iff {size : Nat} (inRange : size ≤ userTop) :
    numframe size = pagesOf size ↔ size ≤ 0x7FFFF000 := by
  unfold userTop at inRange
  have rounded : roundUp size pageSize = (size + 4095) / 4096 * 4096 := by
    unfold roundUp roundDown add32 pageSize
    omega
  unfold numframe pagesOf toInt32
  rw [rounded]
  unfold pageSize
  split
  · rw [Int.tdiv_eq_ediv_of_nonneg (Int.natCast_nonneg _)]
    omega
  · rw [Int.tdiv_eq_ediv_of_dvd (by omega)]
    omega

end SharedMemory

namespace SharingLog

open SharedMemory

variable {β : Type} {D : DynAllocator β} {managed : Finset Nat} {log : SharingLog β}

/-- A call of `get_shared_object` for a created object, at a free range for all of its pages and
while memory suffices for the page tables. -/
structure Gets (D : DynAllocator β) (log : SharingLog β) (object : SharedObject)
    (directory : Nat) (va : BitVec 32) : Prop where
  created : object ∈ log.created
  free : log.shared.FreeRange directory va object.size
  tables : ∀ (index : Nat) (share : Share), log.created[index]? = some object →
    log.shared.sharesList[index]? = some share →
      log.shared.TablesFit D directory va.toNat
        (if share.isWritable ≠ 0 then permUser ||| permWriteable else permUser)
        share.framesStorage (pagesOf object.size.toNat)

/-- `get_shared_object` returns the id of the object. -/
def GetReturns (D : DynAllocator β) (log : SharingLog β) (overrun : Nat → List UInt8)
    (object : SharedObject) (directory : Nat) (va : BitVec 32) : Prop :=
  ∃ after, log.shared.getSharedObject D overrun directory object.creation.ownerId
    object.creation.name va.toNat = .ok (object.id, after)

/-- A getter gets an object exactly if its size, rounded to pages, is one that an `int` can hold. -/
theorem Sharing.getReturns_iff (sharing : log.Sharing managed) (accessing : D.Accessing)
    {overrun : Nat → List UInt8} {object : SharedObject} {directory : Nat} {va : BitVec 32}
    (gets : log.Gets D object directory va) :
    log.GetReturns D overrun object directory va ↔ object.size.toNat ≤ 0x7FFFF000 := by
  obtain ⟨index, created⟩ := List.mem_iff_getElem?.mp gets.created
  have found := (sharing.findShare_iff overrun _ _ index).mpr ⟨object, created, rfl⟩
  obtain ⟨bound, -⟩ := List.getElem?_eq_some_iff.mp created
  have listed := List.getElem?_eq_getElem (sharing.stored.length_eq ▸ bound)
  have stored := sharing.stored_of_listed listed created
  have inRange : object.size.toNat ≤ userTop := Nat.le_trans (Nat.le_add_left ..) stored.inRange
  have fits : pagesOf object.size.toNat ≤ 2 ^ 20 := pagesOf_le _
  rw [← numframe_eq_iff inRange]
  constructor
  · rintro ⟨after, returned⟩
    obtain ⟨negative, -⟩ | ⟨index', share, mapped, -, found', listed', maps, -⟩ :=
      getSharedObject_found returned
    · exact absurd (stored.id ▸ Int.natCast_nonneg _) (Int.not_le.mpr negative)
    · obtain rfl := Option.some.inj (found.symm.trans found')
      obtain rfl := Option.some.inj (listed.symm.trans listed')
      have counted := mapStorage_count maps
      rw [stored.size, stored.length] at counted
      rcases numframe_cases object.size.toNat with same | huge
      · exact same
      · omega
  · intro same
    obtain ⟨mapped, maps⟩ := sharing.layout.mapStorage_completes accessing fits
      gets.free.freePages
      (Nat.le_of_eq stored.length.symm) (gets.tables index _ created listed)
    refine ⟨{ mapped with
      sharesList := mapped.sharesList.modify index fun share =>
        { share with references := add32 share.references 1 } }, ?_⟩
    unfold getSharedObject
    simp only [found, listed]
    rw [stored.size, same, ← stored.id]
    exact bind_eq_ok.mpr ⟨mapped, maps, rfl⟩

/-- **Sharing works page by page**, in every run of creations and gets at free addresses, from any
state without shares that system calls can reach after boot. In every state reached, an object can
be got exactly if its size, rounded to pages, is one that an `int` can hold. -/
theorem pageByPage_of_run (D : DynAllocator β) (accessing : D.Accessing) (memory : Memory)
    (kernelEnd numberOfFrames nextTable : Nat) (extended : physExtendedMemFrame ≤ kernelEnd)
    (clean : ∀ slot, memory.tables slot = .zero)
    (unlinked : ∀ table, nextTable ≤ table →
      ∀ directory va, memory.getPageTable directory va ≠ some table)
    (separate : ∀ directory other va va' table, memory.getPageTable directory va = some table →
      memory.getPageTable other va' = some table →
        pdx va = pdx va' ∧ (pdx va < pdx userTop → directory = other))
    (start : SharedMemory β)
    (reached : Relation.ReflTransGen (OrderlyCall D)
      (SharedMemory.boot D memory kernelEnd numberOfFrames nextTable) start)
    (empty : start.sharesList = []) (log : SharingLog β)
    (run : Relation.ReflTransGen (Step D) ⟨start, [], []⟩ log) :
    log.PageByPage ∧ ∀ overrun object directory va, log.Gets D object directory va →
      (log.GetReturns D overrun object directory va ↔ object.size.toNat ≤ 0x7FFFF000) := by
  have sharing := Sharing.of_run accessing
    (addressSpaces_of_run accessing extended clean unlinked separate reached) empty run
  exact ⟨sharing.pageByPage, fun _ _ _ _ gets => sharing.getReturns_iff accessing gets⟩

theorem pageName_terminated : (0 : UInt8) ∉ ([97] : List UInt8) := by decide

theorem pageName_sized : (List.replicate 64 (0 : UInt8)).length = shareNameLength := by decide

/-- A read-only object of one page at the start of the user heap of an environment. -/
def pageObject (ownerId : BitVec 32) (directory : Nat) (id : Int) : SharedObject where
  creation :=
    { ownerId := ownerId
      name := [97]
      contents := List.replicate 64 0
      terminated := pageName_terminated
      sized := pageName_sized }
  size := 4096
  isWritable := 0
  directory := directory
  va := 0x80000000
  id := id

theorem pagesOf_pageObject (ownerId : BitVec 32) (directory : Nat) (id : Int) :
    pagesOf (pageObject ownerId directory id).size.toNat = 1 := by
  change pagesOf 4096 = 1
  decide

theorem pageObject_small (ownerId : BitVec 32) (directory : Nat) (id : Int) :
    (pageObject ownerId directory id).size.toNat ≤ 0x7FFFF000 := by
  change 4096 ≤ 0x7FFFF000
  decide

/-- Getting the object of the first environment, in the second one. -/
def gottenPage (id : Int) : GottenObject := ⟨2048, [97], 2, 0x80001000, id⟩

def callCreate (shared : SharedMemory (List Nat)) (ownerId : BitVec 32) (directory : Nat) :=
  shared.createSharedObject PageBlocks.allocator (fun _ => []) (List.replicate 64 0) directory
    ownerId [97] 4096 0 0x80000000

def callGet (shared : SharedMemory (List Nat)) :=
  shared.getSharedObject PageBlocks.allocator (fun _ => []) 2 2048 [97] 0x80001000

theorem freeRange_of_page {shared : SharedMemory (List Nat)} {directory : Nat} {va : BitVec 32}
    (aligned : va.toNat % pageSize = 0) (inRange : va.toNat + pageSize ≤ userTop)
    (unmapped : Perm.has (shared.heap.memory.pagePerm directory va.toNat) permPresent = false) :
    shared.FreeRange directory va 4096 := by
  refine ⟨aligned, inRange, fun page inside => ?_⟩
  obtain rfl : page = 0 := by
    unfold pageSize at inside
    have size : (4096 : BitVec 32).toNat = 4096 := rfl
    omega
  rwa [Nat.zero_mul, Nat.add_zero]

theorem step_callCreate {log : SharingLog (List Nat)} {ownerId : BitVec 32} {directory : Nat}
    {id : Int} {after : SharedMemory (List Nat)} (succeeded : 0 ≤ id)
    (unmapped : Perm.has (log.shared.heap.memory.pagePerm directory 0x80000000) permPresent = false)
    (returned : callCreate log.shared ownerId directory = .ok (id, after)) :
    Step PageBlocks.allocator log
      ⟨after, log.created ++ [pageObject ownerId directory id], log.gotten⟩ := by
  have free : log.shared.FreeRange directory 0x80000000 4096 :=
    freeRange_of_page (by decide) (by decide) unmapped
  have short : (pageObject ownerId directory id).creation.name.length < shareNameLength - 1 := by
    change 1 < 63
    decide
  have step := @Step.create _ PageBlocks.allocator log (fun _ => [])
    (pageObject ownerId directory id) after short free returned
  rwa [if_pos (show 0 ≤ (pageObject ownerId directory id).id from succeeded)] at step

/-- The references bound the mappings. -/
theorem encard_lt_of_references {β : Type} {managed : Finset Nat} {shared : SharedMemory β}
    {bound : Nat} (kept : shared.Kept managed ∅) (positive : 0 < bound)
    (references : ∀ frame ∈ managed, (shared.heap.memory.frames frame).references < bound)
    (frame : Nat) : (mappers shared.heap.memory.tables frame).encard < bound := by
  obtain ⟨free, invariant⟩ := kept.counted.counted
  by_cases member : frame ∈ managed
  · rw [← (invariant.finite frame).cast_ncard_eq, Nat.cast_lt,
      ← invariant.counted frame member]
    exact references frame member
  · have none : mappers shared.heap.memory.tables frame = ∅ := by
      by_contra some
      obtain ⟨slot, present, same⟩ := Set.nonempty_iff_ne_empty.mpr some
      exact member (same ▸ invariant.mapped slot present)
    rw [none, Set.encard_empty]
    exact_mod_cast positive

theorem step_callGet {log : SharingLog (List Nat)} {id : Int} {after : SharedMemory (List Nat)}
    (succeeded : 0 ≤ id)
    (sizes : ∀ object ∈ log.created, object.size = 4096)
    (unmapped : Perm.has (log.shared.heap.memory.pagePerm 2 0x80001000) permPresent = false)
    (few : ∀ frame, (mappers after.heap.memory.tables frame).encard < 2 ^ 16)
    (returned : callGet log.shared = .ok (id, after)) :
    Step PageBlocks.allocator log ⟨after, log.created, log.gotten ++ [gottenPage id]⟩ := by
  have free : log.shared.FreeRange 2 0x80001000 4096 :=
    freeRange_of_page (by decide) (by decide) unmapped
  have step := @Step.get _ PageBlocks.allocator log (fun _ => []) (gottenPage id) after
    (fun object member _ => by
      rw [sizes object member]
      exact free) few returned
  rwa [if_pos (show 0 ≤ (gottenPage id).id from succeeded)] at step

/-- Two environments create objects under one name, and the second one gets that of the first. -/
theorem callGet_return : ∃ id first id' second code third,
    callCreate spacedShared 2048 1 = .ok (id, first) ∧ 0 ≤ id ∧
    Perm.has (first.heap.memory.pagePerm 2 0x80000000) permPresent = false ∧
    callCreate first 2049 2 = .ok (id', second) ∧ 0 ≤ id' ∧
    (second.sharesList.map fun share => (share.framesStorage, share.size)) =
      [([158], 4096), ([154], 4096)] ∧
    second.findShare (fun _ => []) 2048 [97] = some 0 ∧
    Perm.has (second.heap.memory.pagePerm 2 0x80001000) permPresent = false ∧
    (second.heap.memory.getPageTable 2 0x80001000).isSome ∧
    (second.heap.memory.frames 158).references = 1 ∧
    callGet second = .ok (code, third) ∧ 0 ≤ code ∧
    Perm.has (third.heap.memory.pagePerm 3 0x80001000) permPresent = false ∧
    (∃ ready, third.ensurePageTable PageBlocks.allocator 3 0x80001000 = .ok ready) ∧
    ∀ frame < 257, (third.heap.memory.frames frame).references < 2 ^ 16 := by
  have completes : Returns (callCreate spacedShared 2048 1) (fun first =>
      decide (0 ≤ first.1) &&
      Perm.has (first.2.heap.memory.pagePerm 2 0x80000000) permPresent == false &&
      Returns (callCreate first.2 2049 2) fun second =>
        decide (0 ≤ second.1) &&
        (second.2.sharesList.map fun share => (share.framesStorage, share.size)) ==
          [([158], 4096), ([154], 4096)] &&
        second.2.findShare (fun _ => []) 2048 [97] == some 0 &&
        Perm.has (second.2.heap.memory.pagePerm 2 0x80001000) permPresent == false &&
        (second.2.heap.memory.getPageTable 2 0x80001000).isSome &&
        (second.2.heap.memory.frames 158).references == 1 &&
        Returns (callGet second.2) fun third =>
          decide (0 ≤ third.1) &&
          Perm.has (third.2.heap.memory.pagePerm 3 0x80001000) permPresent == false &&
          Returns (third.2.ensurePageTable PageBlocks.allocator 3 0x80001000) (fun _ => true) &&
          (List.range 257).all fun frame =>
            decide ((third.2.heap.memory.frames frame).references < 2 ^ 16)) = true := by
    decide +kernel
  obtain ⟨⟨id, first⟩, called, observed⟩ := Returns.exists completes
  simp only [Bool.and_eq_true, decide_eq_true_eq, beq_iff_eq] at observed
  obtain ⟨⟨succeeded, unmapped⟩, completes⟩ := observed
  obtain ⟨⟨id', second⟩, called', observed⟩ := Returns.exists completes
  simp only [Bool.and_eq_true, decide_eq_true_eq, beq_iff_eq] at observed
  obtain ⟨⟨⟨⟨⟨⟨succeeded', shares⟩, found⟩, unmapped'⟩, linked⟩, references⟩,
      completes⟩ :=
    observed
  obtain ⟨⟨code, third⟩, called'', observed⟩ := Returns.exists completes
  simp only [Bool.and_eq_true, decide_eq_true_eq, beq_iff_eq, List.all_eq_true, List.mem_range]
    at observed
  obtain ⟨⟨⟨succeeded'', unmapped''⟩, creates⟩, few⟩ := observed
  obtain ⟨ready, table, -⟩ := Returns.exists creates
  exact ⟨id, first, id', second, code, third, called, succeeded, unmapped, called', succeeded',
    shares, found, unmapped', linked, references, called'', succeeded'', unmapped'',
    ⟨ready, table⟩, few⟩

/-- A third environment can get that object as well. -/
theorem exists_run_callGet : ∃ log : SharingLog (List Nat), ∃ id,
    Relation.ReflTransGen (Step PageBlocks.allocator) ⟨spacedShared, [], []⟩ log ∧
      log.created.length = 2 ∧ log.gotten.length = 1 ∧
      log.Gets PageBlocks.allocator (pageObject 2048 1 id) 3 0x80001000 := by
  obtain ⟨id, first, id', second, code, third, called, succeeded, unmapped, called', succeeded',
    shares, found, unmapped', linked, references, called'', succeeded'', unmapped'',
      ⟨ready, tableReady⟩, few⟩ := callGet_return
  obtain ⟨table, linked⟩ := Option.isSome_iff_exists.mp linked
  have start : Perm.has (spacedShared.heap.memory.pagePerm 1 0x80000000) permPresent = false := by
    decide +kernel
  have step := @step_callCreate ⟨spacedShared, [], []⟩ 2048 1 id first succeeded start called
  have run := (Relation.ReflTransGen.single step).tail
    (step_callCreate succeeded' unmapped called')
  have sharing := Sharing.of_run PageBlocks.accessing spacedShared_addressSpaces rfl run
  have inUse : second.InUse PageBlocks.allocator
      (.getSharedObject (fun _ => []) 2 2048 [97] 0x80001000) := by
    intro index share found' listed
    obtain rfl : 0 = index := Option.some.inj (found.symm.trans found')
    obtain ⟨storage, size⟩ : share.framesStorage = [158] ∧ share.size = 4096 := by
      have first := congrArg (·[0]?) shares
      simp only [List.getElem?_map, listed] at first
      exact Prod.mk.inj (Option.some.inj first)
    rw [storage, size, show numframe 4096 = 1 by decide]
    refine .of_page sharing.kept (by decide) linked ?_ (by omega)
    exact sharing.mappers_nonempty (List.mem_of_getElem? listed)
      (storage ▸ List.mem_singleton_self _)
  have kept := sharing.kept.getSharedObject PageBlocks.accessing inUse called''
  have bounded : ∀ frame, (mappers third.heap.memory.tables frame).encard < 2 ^ 16 := by
    refine encard_lt_of_references kept (by decide) fun frame member => few frame ?_
    rw [managedFrames, Finset.mem_union, Finset.mem_Ico, Finset.mem_Ico] at member
    have low : physIOMemFrame ≤ 257 := by decide
    omega
  refine ⟨_, id, run.tail (step_callGet succeeded'' ?_ unmapped' bounded called''), rfl, rfl,
    List.mem_cons_self, freeRange_of_page (by decide) (by decide) unmapped'', ?_⟩
  · intro object member
    rcases List.mem_pair.mp member with rfl | rfl <;> rfl
  · intro index share _ _ page inside middle mapped
    have single : pagesOf (pageObject 2048 1 id).size.toNat = 1 := pagesOf_pageObject ..
    obtain rfl : page = 0 := Nat.lt_one_iff.mp (single ▸ inside)
    obtain rfl := Except.ok.inj mapped
    exact ⟨ready, tableReady⟩

/-- The theorem after these calls: the third environment gets the object. -/
theorem pageByPage_of_run_callGet : ∃ log : SharingLog (List Nat), ∃ id,
    log.created.length = 2 ∧ log.gotten.length = 1 ∧ log.PageByPage ∧
      log.GetReturns PageBlocks.allocator (fun _ => []) (pageObject 2048 1 id) 3 0x80001000 := by
  obtain ⟨log, id, run, created, gotten, gets⟩ := exists_run_callGet
  obtain ⟨shared, returns⟩ := pageByPage_of_run PageBlocks.allocator PageBlocks.accessing
    spacedMemory physExtendedMemFrame 257 1024 (Nat.le_refl _) (fun _ => rfl)
    (fun _ above => spacedMemory_unlinked above) (fun _ _ _ _ _ => spacedMemory_separate)
    spacedShared .refl rfl log run
  exact ⟨log, id, created, gotten, shared, (returns _ _ _ _ gets).mpr (pageObject_small ..)⟩

end SharingLog

end FosKernel
