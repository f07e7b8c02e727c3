import FosKernel.Heap.Consistency
import FosKernel.Share.SharedFrames

/-!
# Deleting a shared object

`free_share`. It frees frames by the references of the share, not by those of the
frames, and walks the recorded frames up to a `NULL` that nothing puts behind them.
So it does what it is for exactly as long as it does not free any frame itself and
none is left to be freed. The addresses of the record and of its storage are
arguments, as are the words behind the storage; freeing what is no frame there
has no other effect in the model than on a frame of that number.
-/

namespace FosKernel

namespace Memory

/-- A frame is on the free frame list. -/
def OnFreeList (memory : Memory) (frame : Nat) : Prop :=
  ∃ free, memory.freeFrameList.Represents free ∧ frame ∈ free

/-- No page of the kernel heap maps the frame. -/
def OutsideHeap (memory : Memory) (frame : Nat) : Prop :=
  ∀ index < kheapPagesCount, ∀ slot, memory.slot kernelDirectory (heapVa index) = some slot →
    slot ∉ mappers memory.tables frame

/-- Pages of the kernel heap were given up: mappings were only removed, and frames outside the heap
are as they were. -/
structure GivesUp (memory next : Memory) : Prop where
  directories : next.directories = memory.directories
  bytes : next.bytes = memory.bytes
  mappers_subset : ∀ frame, mappers next.tables frame ⊆ mappers memory.tables frame
  outside : ∀ frame, memory.OutsideHeap frame →
    next.frames frame = memory.frames frame ∧
      mappers next.tables frame = mappers memory.tables frame

end Memory

theorem Memory.Counted.onFreeList_iff {memory : Memory} {managed pending : Finset Nat}
    {nextTable frame : Nat} (kept : memory.Counted managed pending nextTable) :
    memory.OnFreeList frame ↔
      frame ∈ managed ∧ mappers memory.tables frame = ∅ ∧ frame ∉ pending := by
  obtain ⟨free, invariant⟩ := kept.counted
  rw [← invariant.mem_free]
  constructor
  · rintro ⟨free', represents, member⟩
    rwa [invariant.represents.unique represents]
  · exact fun member => ⟨free, invariant.represents, member⟩

theorem ne_zero_of_managed {kernelEnd numberOfFrames frame : Nat}
    (extended : physExtendedMemFrame ≤ kernelEnd)
    (member : frame ∈ managedFrames kernelEnd numberOfFrames) : frame ≠ 0 := by
  have positive : 0 < physExtendedMemFrame := by decide
  rw [managedFrames, Finset.mem_union, Finset.mem_Ico, Finset.mem_Ico] at member
  omega

section GivesUp

variable {memory middle next : Memory} {managed pending : Finset Nat} {nextTable index count : Nat}

theorem Memory.GivesUp.refl (memory : Memory) : memory.GivesUp memory :=
  ⟨rfl, rfl, fun _ => subset_rfl, fun _ _ => ⟨rfl, rfl⟩⟩

theorem Memory.GivesUp.outsideHeap (gives : memory.GivesUp next) {frame : Nat}
    (outside : memory.OutsideHeap frame) : next.OutsideHeap frame := by
  intro index inside slot located mapper
  rw [slot_congr gives.directories] at located
  exact outside index inside slot located (gives.mappers_subset frame mapper)

theorem Memory.GivesUp.trans (first : memory.GivesUp middle) (second : middle.GivesUp next) :
    memory.GivesUp next where
  directories := second.directories.trans first.directories
  bytes := second.bytes.trans first.bytes
  mappers_subset frame := (second.mappers_subset frame).trans (first.mappers_subset frame)
  outside frame outside := by
    obtain ⟨frames, mappers⟩ := first.outside frame outside
    obtain ⟨frames', mappers'⟩ := second.outside frame (first.outsideHeap outside)
    exact ⟨frames'.trans frames, mappers'.trans mappers⟩

/-- Dropping a reference of a frame changes the descriptor of no other. -/
theorem Memory.decrementReferences_frames {frame other : Nat} (different : other ≠ frame) :
    (memory.decrementReferences frame).frames other = memory.frames other := by
  unfold decrementReferences
  dsimp only
  split
  · simp [freeFrame, initializeFrameInfo, setReferences, different]
  · simp [setReferences, different]

/-- `return_page` gives up the page. -/
theorem Memory.GivesUp.returnPage (kept : memory.Counted managed pending nextTable)
    (inside : index < kheapPagesCount) :
    memory.GivesUp (FosKernel.returnPage memory (heapVa index)) := by
  unfold FosKernel.returnPage
  rw [roundDown_heapVa]
  cases located : memory.slot kernelDirectory (heapVa index) with
  | none =>
      rw [unmapFrame_of_not_located located]
      exact .refl memory
  | some slot =>
      cases holds : (memory.tables slot).holdsFrame with
      | false =>
          rw [unmapFrame_of_not_holdsFrame located holds]
          exact .refl memory
      | true =>
          have present : (memory.tables slot).present = true := by
            obtain ⟨free, invariant⟩ := kept.counted
            by_contra absent
            rw [Bool.not_eq_true] at absent
            have shown : Perm.has (memory.tables slot).perm permPresent = false := absent
            rw [PageTableEntry.holdsFrame, Perm.has_mask_or, kept.unbuffered slot,
              invariant.absent_frame slot absent, shown] at holds
            cases holds
          have removed := fun frame => mappers_update_absent memory.tables slot
            (memory.tables slot).unmapped frame (PageTableEntry.unmapped_not_present _)
          rw [unmapFrame_of_holdsFrame located holds]
          refine ⟨by simp, by simp, fun frame => ?_, fun frame outside => ⟨?_, ?_⟩⟩
          · simp only [setEntry_tables, decrementReferences_tables, removed]
            exact Set.sdiff_subset
          · have different : frame ≠ (memory.tables slot).frame := by
              rintro rfl
              exact outside index inside slot located ⟨present, rfl⟩
            simpa using decrementReferences_frames different
          · simp only [setEntry_tables, decrementReferences_tables, removed]
            exact Set.sdiff_singleton_eq_self (outside index inside slot located)

theorem Memory.GivesUp.returnPages (kept : memory.Counted managed pending nextTable)
    (upper : index + count ≤ kheapPagesCount) :
    memory.GivesUp (FosKernel.returnPages memory (heapVa index) count) ∧
      (FosKernel.returnPages memory (heapVa index) count).Counted managed pending nextTable := by
  induction count generalizing memory index with
  | zero => exact ⟨.refl memory, kept⟩
  | succ count ih =>
      rw [FosKernel.returnPages, add32_heapVa_one (by omega)]
      have inside : index < kheapPagesCount := by omega
      obtain ⟨gives, kept'⟩ := @ih _ (index + 1) (kept.pageMove (.returnPage inside)) (by omega)
      exact ⟨(GivesUp.returnPage kept inside).trans gives, kept'⟩

/-- `kfree` completes and gives up pages of the heap at most. -/
theorem KHeap.WellFormed.kfree_givesUp {β : Type} {heap : KHeap β} {top : Nat}
    (wellFormed : heap.WellFormed top) (D : DynAllocator β)
    (kept : heap.memory.Counted managed pending nextTable) (va : Nat) :
    ∃ next top', heap.kfree D va = .ok next ∧ next.WellFormed top' ∧
      heap.memory.GivesUp next.memory ∧ next.memory.Counted managed pending nextTable := by
  obtain same | ⟨index, inside, page, recorded, freed⟩ := wellFormed.kfree_cases D va
  · exact ⟨heap, top, same, wellFormed, .refl _, kept⟩
  · obtain ⟨next, top', completed, wellFormed', -, memory, -⟩ :=
      wellFormed.freePages page inside recorded
    have upper := (wellFormed.run_bounds recorded).2.2
    refine ⟨next, top', freed.trans completed, wellFormed', ?_⟩
    rw [memory]
    exact Memory.GivesUp.returnPages kept upper

end GivesUp

namespace SharedMemory

variable {β : Type} {D : DynAllocator β} {shared after : SharedMemory β}
  {managed pending : Finset Nat} {index read : Nat} {share : Share}

/-- The loop of `free_share` over the words from `framesStorage` on, with how many it has read.
Reading behind the last one is a fault. -/
def freeStored (memory : Memory) (read : Nat) : List Nat → Except Halt (Nat × Memory)
  | [] => .error .pageFault
  | frame :: words =>
      if frame = 0 then .ok (read + 1, memory) else
        freeStored (memory.freeFrame frame) (read + 1) words

/-- `free_share` of a listed share, with how many words of `framesStorage` it read. -/
def freeShare (D : DynAllocator β) (shared : SharedMemory β) (index storageVa recordVa : Nat)
    (behind : List Nat) : Except Halt (Nat × SharedMemory β) :=
  match shared.sharesList[index]? with
  | none => .error .pageFault
  | some share => do
      let shared := { shared with sharesList := shared.sharesList.eraseIdx index }
      let (read, memory) ←
        if share.references = 1 then
          freeStored shared.heap.memory 0 (share.framesStorage ++ behind)
        else .ok (0, shared.heap.memory)
      let heap ← (shared.setMemory memory).heap.kfree D storageVa
      let heap ← heap.kfree D recordVa
      return (read, { shared with heap := heap })

/-- What `free_share` is for. The share is gone, its storage was read within its bounds, its frames
are on the free frame list exactly if no entry maps them, and frames that are not its own or that
are still mapped are as they were, but for those that the kernel heap gives up. -/
structure FreesShare (shared after : SharedMemory β) (index : Nat) (share : Share) (read : Nat) :
    Prop where
  removed : after.sharesList = shared.sharesList.eraseIdx index
  inBounds : read ≤ share.framesStorage.length
  returned : ∀ frame ∈ share.framesStorage,
    after.heap.memory.OnFreeList frame ↔ mappers after.heap.memory.tables frame = ∅
  others : ∀ frame, shared.heap.memory.OutsideHeap frame →
    frame ∉ share.framesStorage ∨ (mappers shared.heap.memory.tables frame).Nonempty →
      after.heap.memory.frames frame = shared.heap.memory.frames frame ∧
      mappers after.heap.memory.tables frame = mappers shared.heap.memory.tables frame ∧
      (after.heap.memory.OnFreeList frame ↔ shared.heap.memory.OnFreeList frame)
  contents : after.heap.memory.bytes = shared.heap.memory.bytes

/-- The loop reads all recorded frames and at least one word behind them. -/
theorem freeStored_read {memory next : Memory} {start : Nat} {frames behind : List Nat}
    (nonzero : ∀ frame ∈ frames, frame ≠ 0)
    (freed : freeStored memory start (frames ++ behind) = .ok (read, next)) :
    start + frames.length < read := by
  induction frames generalizing memory start with
  | nil =>
      induction behind generalizing memory start with
      | nil => cases freed
      | cons word behind ih =>
          rw [List.nil_append, freeStored] at freed
          split at freed
          · obtain ⟨rfl, -⟩ := Prod.mk.inj (Except.ok.inj freed)
            exact Nat.lt_succ_self start
          · have later := ih freed
            rw [List.length_nil] at later ⊢
            omega
  | cons frame frames ih =>
      rw [List.cons_append, freeStored, if_neg (nonzero frame (List.mem_cons_self ..))] at freed
      have later := ih (fun other member => nonzero other (List.mem_cons_of_mem _ member)) freed
      rw [List.length_cons]
      omega

/-- A share with one reference has its storage read out of bounds. -/
theorem not_freesShare_of_one {storageVa recordVa : Nat} {behind : List Nat}
    (listed : shared.sharesList[index]? = some share) (one : share.references = 1)
    (nonzero : ∀ frame ∈ share.framesStorage, frame ≠ 0)
    (freed : shared.freeShare D index storageVa recordVa behind = .ok (read, after)) :
    ¬ FreesShare shared after index share read := by
  intro frees
  unfold freeShare at freed
  rw [listed] at freed
  dsimp only at freed
  rw [if_pos one] at freed
  obtain ⟨⟨count, memory⟩, stored, rest⟩ := bind_eq_ok.mp freed
  obtain ⟨first, -, rest⟩ := bind_eq_ok.mp rest
  obtain ⟨second, -, rest⟩ := bind_eq_ok.mp rest
  obtain ⟨rfl, -⟩ := Prod.mk.inj (Except.ok.inj rest)
  have beyond := freeStored_read nonzero stored
  have inBounds := frees.inBounds
  omega

/-- A share with another number of references is removed, and its storage given up. -/
theorem freeShare_of_ne_one {top : Nat} (wellFormed : shared.heap.WellFormed top)
    (kept : shared.Kept managed pending) (listed : shared.sharesList[index]? = some share)
    (others : share.references ≠ 1) (D : DynAllocator β) (storageVa recordVa : Nat)
    (behind : List Nat) :
    ∃ after, shared.freeShare D index storageVa recordVa behind = .ok (0, after) ∧
      after.sharesList = shared.sharesList.eraseIdx index ∧
      shared.heap.memory.GivesUp after.heap.memory ∧
      after.heap.memory.Counted managed pending shared.nextTable := by
  obtain ⟨first, top', freed, wellFormed', gives, kept'⟩ :=
    wellFormed.kfree_givesUp D kept.counted storageVa
  obtain ⟨second, -, freed', -, gives', kept''⟩ := wellFormed'.kfree_givesUp D kept' recordVa
  refine ⟨{ shared with heap := second, sharesList := shared.sharesList.eraseIdx index }, ?_, rfl,
    gives.trans gives', kept''⟩
  unfold freeShare
  rw [listed]
  dsimp only
  rw [if_neg others]
  refine bind_eq_ok.mpr ⟨_, rfl, bind_eq_ok.mpr
    ⟨first, freed, bind_eq_ok.mpr ⟨second, freed', rfl⟩⟩⟩

/-- **`free_share` does what it is for exactly if the share does not have one reference and each of
its frames that no entry maps is on the free frame list already.** -/
theorem freesShare_iff (D : DynAllocator β) (kernelEnd numberOfFrames : Nat)
    (extended : physExtendedMemFrame ≤ kernelEnd) (pending : Finset Nat)
    (shared : SharedMemory β)
    (top : Nat) (wellFormed : shared.heap.WellFormed top)
    (kept : shared.Kept (managedFrames kernelEnd numberOfFrames) pending) (index : Nat)
    (share : Share) (listed : shared.sharesList[index]? = some share)
    (stored : ∀ frame ∈ share.framesStorage, frame ∈ managedFrames kernelEnd numberOfFrames)
    (storageVa recordVa : Nat) (behind : List Nat) :
    (∃ read after, shared.freeShare D index storageVa recordVa behind = .ok (read, after) ∧
        FreesShare shared after index share read) ↔
      share.references ≠ 1 ∧ ∀ frame ∈ share.framesStorage,
        mappers shared.heap.memory.tables frame = ∅ → shared.heap.memory.OnFreeList frame := by
  constructor
  · rintro ⟨read, after, freed, frees⟩
    have others : share.references ≠ 1 := fun one =>
      not_freesShare_of_one listed one
        (fun frame member => ne_zero_of_managed extended (stored frame member)) freed frees
    refine ⟨others, fun frame member unmapped => ?_⟩
    obtain ⟨after', freed', -, gives, counted⟩ :=
      freeShare_of_ne_one wellFormed kept listed others D storageVa recordVa behind
    obtain ⟨-, rfl⟩ := Prod.mk.inj (Except.ok.inj (freed.symm.trans freed'))
    have still := Set.subset_eq_empty (gives.mappers_subset frame) unmapped
    obtain ⟨managed, -, done⟩ :=
      counted.onFreeList_iff.mp ((frees.returned frame member).mpr still)
    exact kept.counted.onFreeList_iff.mpr ⟨managed, unmapped, done⟩
  · rintro ⟨others, listedFree⟩
    obtain ⟨after, freed, removed, gives, counted⟩ :=
      freeShare_of_ne_one wellFormed kept listed others D storageVa recordVa behind
    refine ⟨0, after, freed, removed, Nat.zero_le _, ?_, ?_, gives.bytes⟩
    · intro frame member
      rw [counted.onFreeList_iff]
      refine ⟨fun listed => listed.2.1, fun unmapped => ⟨stored frame member, unmapped, ?_⟩⟩
      by_cases before : mappers shared.heap.memory.tables frame = ∅
      · exact (kept.counted.onFreeList_iff.mp (listedFree frame member before)).2.2
      · obtain ⟨free, invariant⟩ := kept.counted.counted
        exact fun handedOut => before (invariant.handedOut frame handedOut).2
    · intro frame outside _
      obtain ⟨frames, mappers⟩ := gives.outside frame outside
      refine ⟨frames, mappers, ?_⟩
      rw [counted.onFreeList_iff, kept.counted.onFreeList_iff, mappers]

/-- A share of one page that its creator and a getter have unmapped. -/
def unmappedShare : Share where
  id := 0
  ownerId := 2048
  name := [97]
  size := pageSize
  references := 2
  isWritable := 1
  framesStorage := [158]

theorem blankShared_kept (shares : List Share) :
    ({ ShareHistory.blankShared with sharesList := shares } : SharedMemory (List Nat)).Kept
      (managedFrames physExtendedMemFrame 257) ∅ := by
  obtain ⟨pagesOnly, counted⟩ := Kept.of_run PageBlocks.accessing (Nat.le_refl _)
    (fun _ => rfl) (fun _ above => blank_unlinked above)
      (.refl : Relation.ReflTransGen (InUseStep PageBlocks.allocator)
      (boot PageBlocks.allocator Memory.blank physExtendedMemFrame 257 1024) _)
  exact ⟨pagesOnly, counted⟩

/-- Deleting it after boot. -/
theorem freesShare_iff_unmapped : ∃ read after,
    ({ ShareHistory.blankShared with sharesList := [unmappedShare] } :
        SharedMemory (List Nat)).freeShare PageBlocks.allocator 0 (heapVa 8191) (heapVa 8190) [] =
      .ok (read, after) ∧
    FreesShare { ShareHistory.blankShared with sharesList := [unmappedShare] } after 0
      unmappedShare read := by
  have kept := blankShared_kept [unmappedShare]
  have stored : ∀ frame ∈ unmappedShare.framesStorage,
      frame ∈ managedFrames physExtendedMemFrame 257 := by
    intro frame member
    obtain rfl := List.mem_singleton.mp member
    rw [managedFrames, Finset.mem_union, Finset.mem_Ico]
    exact .inl (by decide)
  apply (freesShare_iff PageBlocks.allocator physExtendedMemFrame 257
    (Nat.le_refl _) ∅ _ firstPage
    PageBlocks.blankHeap_wellFormed kept 0 unmappedShare rfl stored (heapVa 8191) (heapVa 8190)
    []).mpr
  refine ⟨by decide, fun frame member unmapped => ?_⟩
  exact kept.counted.onFreeList_iff.mpr ⟨stored frame member, unmapped,
    Finset.notMem_empty frame⟩

/-- An object of one page that only its creator has: `free_share` reads behind the storage and frees
the frame that the creator's page still maps. -/
theorem not_freesShare_created : ∃ shared after : SharedMemory (List Nat), ∃ share,
    Relation.ReflTransGen (Step PageBlocks.allocator) ShareHistory.blankShared shared ∧
      shared.sharesList[0]? = some share ∧ share.framesStorage = [158] ∧
      shared.freeShare PageBlocks.allocator 0 (heapVa 8190) (heapVa 8191) [0] = .ok (2, after) ∧
      (mappers after.heap.memory.tables 158).Nonempty ∧
      after.heap.memory.freeFrameList.first = some 158 ∧
      ¬ FreesShare shared after 0 share 2 := by
  have completes : Returns (ShareHistory.blankShared.exec PageBlocks.allocator createPage)
      (fun created => (created.2.sharesList.map Share.framesStorage) == [[158]] &&
        Returns (created.2.freeShare PageBlocks.allocator 0 (heapVa 8190) (heapVa 8191) [0])
          fun freed => freed.1 == 2 && freed.2.heap.memory.freeFrameList.first == some 158 &&
            freed.2.heap.memory.entry 1 userHeapStart == some ⟨158, 7⟩) = true := by
    decide +kernel
  obtain ⟨⟨code, shared⟩, created, observed⟩ := Returns.exists completes
  rw [Bool.and_eq_true, beq_iff_eq] at observed
  obtain ⟨shares, completes⟩ := observed
  obtain ⟨⟨read, after⟩, freed, observed⟩ := Returns.exists completes
  simp only [Bool.and_eq_true, beq_iff_eq] at observed
  obtain ⟨⟨rfl, first⟩, entry⟩ := observed
  obtain ⟨share, listed, storage⟩ : ∃ share, shared.sharesList[0]? = some share ∧
      share.framesStorage = [158] := by
    have head := congrArg (·[0]?) shares
    simpa [Option.map_eq_some_iff] using head
  obtain ⟨slot, -, held⟩ := Option.map_eq_some_iff.mp entry
  have mapper : slot ∈ mappers after.heap.memory.tables 158 := by
    constructor
    · rw [held]
      rfl
    · rw [held]
  refine ⟨shared, after, share, .single ⟨createPage, code, created⟩, listed, storage, freed,
    ⟨slot, mapper⟩, first, fun frees => ?_⟩
  have inBounds := frees.inBounds
  rw [storage] at inBounds
  exact absurd inBounds (by decide)

end SharedMemory

end FosKernel
