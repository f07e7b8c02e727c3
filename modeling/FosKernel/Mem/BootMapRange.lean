import Mathlib.Algebra.GroupWithZero.Nat
import FosKernel.Mem.BootMemory

/-!
# Mapping a range at boot time

A page directory with its page tables is a two-level map, and `boot_map_range` stores an
entry for each page of its range in that map: the page tables that it creates are the nodes
that the map attaches, and `ptr_free_mem` counts them.
-/

namespace FosKernel

section Entries

/-- `entry & ~0xFFF` of a word. -/
theorem extractAddress_eq (entry : Nat) :
    extractAddress entry = entry % 2 ^ 32 / pageSize * pageSize := by
  have mask : (0xFFFFF000 : Nat) = (2 ^ 20 - 1) <<< 12 := by decide
  have shifted : entry % 2 ^ 32 / pageSize * pageSize = (entry % 2 ^ 32) >>> 12 <<< 12 := by
    rw [Nat.shiftRight_eq_div_pow, Nat.shiftLeft_eq]
    rfl
  rw [extractAddress, mask, shifted]
  apply Nat.eq_of_testBit_eq
  intro bit
  simp only [Nat.testBit_and, Nat.testBit_shiftLeft, Nat.testBit_shiftRight,
    Nat.testBit_mod_two_pow, Nat.testBit_two_pow_sub_one]
  by_cases above : 12 ≤ bit
  · rw [Nat.add_sub_cancel' above]
    by_cases below : bit < 32
    · simp [above, below, show bit - 12 < 20 by omega]
    · simp [above, below, show ¬ bit - 12 < 20 by omega]
  · simp [above]

theorem constructEntry_eq (frame : Nat) {perm : Nat} (low : perm < pageSize) :
    constructEntry (frame * pageSize) perm = frame * pageSize + perm := by
  unfold pageSize at *
  rw [constructEntry, Nat.mul_comm]
  exact (Nat.two_pow_add_eq_or_of_lt (i := 12) low frame).symm

/-- An entry holds the address it was made of. -/
theorem extractAddress_constructEntry {frame perm : Nat} (word : frame * pageSize < 2 ^ 32)
    (low : perm < pageSize) : extractAddress (constructEntry (frame * pageSize) perm) =
      frame * pageSize := by
  rw [constructEntry_eq frame low, extractAddress_eq]
  unfold pageSize at *
  omega

/-- An entry holds the flags it was made of. -/
theorem entryFlags_constructEntry (frame : Nat) {perm : Nat} (low : perm < pageSize) :
    entryFlags (constructEntry (frame * pageSize) perm) = perm := by
  rw [constructEntry_eq frame low, entryFlags, show 0xFFF = 2 ^ 12 - 1 by decide,
    Nat.and_two_pow_sub_one_eq_mod]
  unfold pageSize at *
  omega

theorem entryPresent_constructEntry (address perm : Nat) :
    entryPresent (constructEntry address (perm ||| permPresent.toNat)) = true := by
  have one : permPresent.toNat = 1 := rfl
  rw [entryPresent, constructEntry, one, bne_iff_ne]
  intro zero
  have bit := congrArg (fun word => word.testBit 0) zero
  simp at bit

theorem or_present_lt {perm : Nat} (low : perm < pageSize) :
    perm ||| permPresent.toNat < pageSize :=
  Nat.or_lt_two_pow (n := 12) low (by decide)

end Entries

/-- How many frames have a kernel virtual address. -/
def kernelFrames : Nat := (2 ^ 32 - kernelBase) / pageSize

/-- The kernel virtual address of a frame. -/
def frameVa (frame : Nat) : Nat := kernelBase + frame * pageSize

theorem wordOf_frameVa {frame : Nat} (inside : frame < kernelFrames) :
    wordOf (frameVa frame) = frame * 1024 := by
  have limit : kernelFrames = 65536 := by decide
  unfold wordOf frameVa sub32 kernelBase pageSize
  omega

namespace BootMemory

/-- The address at which the next allocation looks for space. -/
def freePointer (boot : BootMemory) : Nat :=
  if boot.ptrFreeMem = 0 then boot.endOfKernel else boot.ptrFreeMem

/-- The first frame that no boot allocation reaches. -/
def firstFree (boot : BootMemory) : Nat :=
  (boot.freePointer - kernelBase + (pageSize - 1)) / pageSize

/-- The nonzero entries of the directory are present and point to different page tables, other than
the directory itself, and all are allocated. -/
structure DirectoryState (boot : BootMemory) (directory : Nat) : Prop where
  pointer : kernelBase ≤ boot.freePointer ∧ boot.freePointer < 2 ^ 32
  allocated : directory < boot.firstFree
  tables : ∀ index < 1024, boot.directoryEntry (frameVa directory) index ≠ 0 →
    entryPresent (boot.directoryEntry (frameVa directory) index) = true ∧
      ∃ frame, extractAddress (boot.directoryEntry (frameVa directory) index) =
        frame * pageSize ∧
        frame ≠ 0 ∧ frame ≠ directory ∧ frame < boot.firstFree ∧
          frame < boot.numberOfFrames
  separate : ∀ index < 1024, ∀ other < 1024,
    boot.directoryEntry (frameVa directory) index ≠ 0 →
      boot.directoryEntry (frameVa directory) other ≠ 0 →
        extractAddress (boot.directoryEntry (frameVa directory) index) =
          extractAddress (boot.directoryEntry (frameVa directory) other) → index = other

/-- The directory indices of the pages of a range. -/
def rangeTables (va count : Nat) : List Nat :=
  (List.range count).map fun page => pdx (va + page * pageSize)

/-- How many directory entries of a range have no page table. -/
def missingTables (boot : BootMemory) (directory va count : Nat) : Nat :=
  ((rangeTables va count).toFinset.filter fun index =>
    boot.directoryEntry (frameVa directory) index = 0).card

/-- What `boot_map_range` stores for the pages of a range. -/
def rangeEntries (va pa perm count : Nat) : List (Nat × Nat × Nat) :=
  (List.range count).map fun page =>
    (pdx (va + page * pageSize), ptx (va + page * pageSize),
      constructEntry ((pa + page * pageSize) % 2 ^ 32) (perm ||| permPresent.toNat))

/-- The directory and its page tables are a two-level map, whose counter is the first free frame.
The directory had the given entries before. -/
structure Represents (boot : BootMemory) (directory : Nat) (before : Nat → Nat)
    (map : TwoLevelMap Nat Nat Nat) : Prop where
  sound : map.Sound
  allocated : directory < map.next
  limit : map.next ≤ kernelFrames
  counter : map.next < kernelFrames →
    boot.firstFree = map.next ∧ kernelBase ≤ boot.freePointer ∧ boot.freePointer < 2 ^ 32
  entry : ∀ index < 1024, boot.directoryEntry (frameVa directory) index =
    if before index = 0 then
      (map.root index).elim 0 fun frame =>
        constructEntry (frame * pageSize) (permPresent ||| permWriteable).toNat
    else before index
  old : ∀ index < 1024, before index ≠ 0 → entryPresent (before index) = true ∧
    ∃ frame, map.root index = some frame ∧ extractAddress (before index) = frame * pageSize
  root : ∀ index frame, map.root index = some frame →
    index < 1024 ∧ frame ≠ 0 ∧ frame ≠ directory ∧ frame < boot.numberOfFrames
  node : ∀ index frame, map.root index = some frame → ∀ key < 1024,
    boot.words (frame * 1024 + key) = map.node frame key

/-- The two-level map of a directory. -/
def tableMap (boot : BootMemory) (directory : Nat) : TwoLevelMap Nat Nat Nat where
  root index :=
    if index < 1024 ∧ boot.directoryEntry (frameVa directory) index ≠ 0 then
      some (extractAddress (boot.directoryEntry (frameVa directory) index) / pageSize)
    else none
  node frame key := boot.words (frame * 1024 + key)
  next := boot.firstFree

variable {boot next : BootMemory} {directory va pa perm index frame count : Nat}
  {before : Nat → Nat} {map : TwoLevelMap Nat Nat Nat}

theorem firstFree_le (pointer : boot.freePointer < 2 ^ 32) : boot.firstFree ≤ kernelFrames := by
  have limit : kernelFrames = 65536 := by decide
  unfold firstFree kernelBase pageSize
  omega

theorem DirectoryState.represents (state : boot.DirectoryState directory) :
    boot.Represents directory (boot.directoryEntry (frameVa directory))
      (boot.tableMap directory) := by
  have positive : 0 < pageSize := by decide
  have root : ∀ index frame, (boot.tableMap directory).root index = some frame →
      index < 1024 ∧ boot.directoryEntry (frameVa directory) index ≠ 0 ∧
        extractAddress (boot.directoryEntry (frameVa directory) index) = frame * pageSize ∧
        frame ≠ 0 ∧ frame ≠ directory ∧ frame < boot.firstFree ∧
            frame < boot.numberOfFrames := by
    intro index frame held
    simp only [tableMap] at held
    split at held
    · rename_i both
      obtain ⟨-, frame', address, facts⟩ := state.tables index both.1 both.2
      rw [address, Nat.mul_div_cancel _ positive] at held
      obtain rfl := Option.some.inj held
      exact ⟨both.1, both.2, address, facts⟩
    · cases held
  refine ⟨⟨fun {first second frame} here there => ?_, fun {index frame} here => ?_⟩,
    state.allocated,
    firstFree_le state.pointer.2, fun _ => ⟨rfl, state.pointer⟩, fun index inside => ?_,
    fun index inside nonzero => ?_, fun index frame held => ?_,
      fun index frame held key inside => rfl⟩
  · obtain ⟨inside, nonzero, address, -⟩ := root first frame here
    obtain ⟨inside', nonzero', address', -⟩ := root second frame there
    exact state.separate first inside second inside' nonzero nonzero' (address.trans address'.symm)
  · exact (root index frame here).2.2.2.2.2.1
  · split
    · rename_i zero
      rw [zero, tableMap]
      simp [zero]
    · rfl
  · obtain ⟨present, frame, address, -⟩ := state.tables index inside nonzero
    refine ⟨present, frame, ?_, address⟩
    simp only [tableMap]
    rw [if_pos ⟨inside, nonzero⟩, address, Nat.mul_div_cancel _ positive]
  · obtain ⟨inside, -, -, nonzero, different, -, exists_⟩ := root index frame held
    exact ⟨inside, nonzero, different, exists_⟩

section Round

theorem staticKernelVirtualAddress_frame (inside : frame < kernelFrames)
    (installed : frame < boot.numberOfFrames) :
    boot.staticKernelVirtualAddress (frame * pageSize) = some (frameVa frame) := by
  have limit : kernelFrames = 65536 := by decide
  have number : vpn (frame * pageSize) = frame := Nat.mul_div_cancel _ (by decide)
  rw [staticKernelVirtualAddress, number, if_neg (Nat.not_le.mpr installed)]
  unfold add32 frameVa kernelBase pageSize
  refine congrArg some ?_
  omega

theorem mk_numberOfFrames (words : Nat → Nat) (frames kernel pointer : Nat) :
    (BootMemory.mk words frames kernel pointer).numberOfFrames = frames := rfl

theorem clear_numberOfFrames (boot : BootMemory) (start size : Nat) :
    (boot.clear start size).numberOfFrames = boot.numberOfFrames :=
  mk_numberOfFrames ..

theorem bootAllocateSpace_numberOfFrames (boot : BootMemory) (size align : Nat) :
    (boot.bootAllocateSpace size align).2.numberOfFrames = boot.numberOfFrames :=
  (mk_numberOfFrames ..).trans (boot.clear_numberOfFrames (roundUp boot.freePointer align) size)

/-- An allocation of a page takes the first free frame. -/
theorem bootAllocateSpace_page (lower : kernelBase ≤ boot.freePointer)
    (room : boot.firstFree < kernelFrames) :
    boot.bootAllocateSpace pageSize pageSize = (frameVa boot.firstFree,
      { boot.clear (frameVa boot.firstFree) pageSize with
        ptrFreeMem := add32 (frameVa boot.firstFree) pageSize }) := by
  have limit : kernelFrames = 65536 := by decide
  have start : roundUp boot.freePointer pageSize = frameVa boot.firstFree := by
    unfold firstFree at room ⊢
    unfold roundUp roundDown add32 frameVa
    unfold kernelBase pageSize at *
    omega
  unfold bootAllocateSpace
  dsimp only
  rw [← freePointer, start]

/-- A frame that the map names has its entry in the directory. -/
theorem Represents.linked (represents : boot.Represents directory before map)
    (held : map.root index = some frame) :
    entryPresent (boot.directoryEntry (frameVa directory) index) = true ∧
      extractAddress (boot.directoryEntry (frameVa directory) index) = frame * pageSize := by
  have limit : kernelFrames = 65536 := by decide
  have below := represents.sound.below held
  have limited := represents.limit
  obtain ⟨inside, -⟩ := represents.root index frame held
  rw [represents.entry index inside]
  by_cases zero : before index = 0
  · rw [if_pos zero, held, Option.elim_some]
    refine ⟨entryPresent_constructEntry (frame * pageSize) permWriteable.toNat,
      extractAddress_constructEntry ?_ (by decide)⟩
    unfold pageSize
    omega
  · rw [if_neg zero]
    obtain ⟨present, frame', held', address⟩ := represents.old index inside zero
    obtain rfl := Option.some.inj (held.symm.trans held')
    exact ⟨present, address⟩

theorem Represents.absent (represents : boot.Represents directory before map)
    (inside : index < 1024) (free : map.root index = none) :
    before index = 0 ∧ boot.directoryEntry (frameVa directory) index = 0 := by
  have zero : before index = 0 := by
    by_contra nonzero
    obtain ⟨-, frame, held, -⟩ := represents.old index inside nonzero
    rw [free] at held
    cases held
  rw [represents.entry index inside, if_pos zero, free]
  exact ⟨zero, rfl⟩

/-- Storing a word in a page table writes the entry of the map. -/
theorem Represents.setWord (represents : boot.Represents directory before map)
    (held : map.root index = some frame) {key : Nat} (inside : key < 1024) (entry : Nat) :
    (boot.setWord (frame * 1024 + key) entry).Represents directory before
      (map.write index key entry) := by
  have root := TwoLevelMap.write_root map index key entry
  have count := TwoLevelMap.write_next map index key entry
  have node : (map.write index key entry).node =
      Function.update map.node frame (Function.update (map.node frame) key entry) := by
    rw [TwoLevelMap.write, held]
  have limit : kernelFrames = 65536 := by decide
  have limited := represents.limit
  have allocated := represents.allocated
  refine ⟨represents.sound.write index key entry, by rwa [count], by rwa [count], ?_,
    fun other below => ?_, ?_, ?_, fun other frame' held' key' below => ?_⟩
  · rw [count]
    exact represents.counter
  · rw [root, ← represents.entry other below, directoryEntry, directoryEntry,
      wordOf_frameVa (by omega)]
    have different := (represents.root index frame held).2.2.1
    change Function.update boot.words (frame * 1024 + key) entry (directory * 1024 + other) = _
    rw [Function.update_of_ne (by omega)]
  · rw [root]
    exact represents.old
  · rw [root]
    exact represents.root
  · rw [root] at held'
    rw [node]
    change Function.update boot.words (frame * 1024 + key) entry (frame' * 1024 + key') = _
    by_cases same : frame' = frame
    · subst same
      rw [Function.update_self]
      by_cases equal : key' = key
      · rw [equal, Function.update_self, Function.update_self]
      · rw [Function.update_of_ne equal, Function.update_of_ne (by omega)]
        exact represents.node other frame' held' key' below
    · rw [Function.update_of_ne same, Function.update_of_ne (by omega)]
      exact represents.node other frame' held' key' below

/-- A new page table is cleared and linked in the directory. -/
theorem Represents.attach (represents : boot.Represents directory before map)
    (inside : index < 1024) (free : map.root index = none) (room : map.next < kernelFrames)
    (installed : map.next < boot.numberOfFrames)
    (allocation : boot.bootAllocateSpace pageSize pageSize = (frameVa map.next, next)) :
    (next.setWord (wordOf (frameVa directory) + index)
      (constructEntry (map.next * pageSize) (permPresent ||| permWriteable).toNat)).Represents
        directory before (map.attach index) := by
  obtain ⟨first, lower, -⟩ := represents.counter room
  rw [bootAllocateSpace_page lower (first ▸ room), first, Prod.mk.injEq] at allocation
  obtain ⟨-, rfl⟩ := allocation
  have root := TwoLevelMap.attach_root map index
  have count := TwoLevelMap.attach_next map index
  rw [if_pos free] at count
  have node : (map.attach index).node = Function.update map.node map.next fun _ => 0 := by
    rw [TwoLevelMap.attach, free]
  have limit : kernelFrames = 65536 := by decide
  have allocated := represents.allocated
  have word := wordOf_frameVa (show directory < kernelFrames by omega)
  have cleared : ∀ place, (boot.clear (frameVa map.next) pageSize).words place =
      if map.next * 1024 ≤ place ∧ place < map.next * 1024 + 1024 then 0 else
          boot.words place := by
    intro place
    rw [clear, wordOf_frameVa room]
    rfl
  refine ⟨represents.sound.attach index, by omega, by omega, fun room' => ?_,
    fun other below => ?_, fun other below old => ?_, fun other frame held => ?_,
    fun other frame held key below => ?_⟩
  · rw [count] at room'
    have pointer : add32 (frameVa map.next) pageSize = frameVa (map.next + 1) := by
      unfold add32 frameVa kernelBase pageSize
      omega
    have positive : frameVa (map.next + 1) ≠ 0 := by
      unfold frameVa kernelBase
      omega
    simp only [firstFree, freePointer, BootMemory.setWord, pointer, if_neg positive, count]
    unfold frameVa kernelBase pageSize
    omega
  · rw [root, directoryEntry, word]
    change Function.update (boot.clear (frameVa map.next) pageSize).words (directory * 1024 + index)
      _ (directory * 1024 + other) = _
    by_cases same : other = index
    · subst same
      rw [Function.update_self, if_pos (represents.absent inside free).1, if_pos ⟨rfl, free⟩,
        Option.elim_some]
    · have kept := represents.entry other below
      rw [directoryEntry, word] at kept
      rw [Function.update_of_ne (by omega), cleared, if_neg (by omega), kept,
        if_neg (show ¬ (other = index ∧ _) from fun both => same both.1)]
  · obtain ⟨present, frame, held, address⟩ := represents.old other below old
    refine ⟨present, frame, ?_, address⟩
    rw [root, if_neg, held]
    rintro ⟨rfl, -⟩
    rw [free] at held
    cases held
  · rw [root] at held
    split at held
    · rename_i both
      obtain rfl := Option.some.inj held
      exact ⟨both.1 ▸ inside, Nat.ne_of_gt (Nat.zero_lt_of_lt allocated),
        Nat.ne_of_gt allocated,
        installed⟩
    · exact represents.root other frame held
  · have outside : frame ≠ directory := by
      rw [root] at held
      split at held
      · obtain rfl := Option.some.inj held
        exact Nat.ne_of_gt allocated
      · exact (represents.root other frame held).2.2.1
    rw [node, word]
    simp only [BootMemory.setWord]
    rw [Function.update_of_ne (by omega), cleared]
    rw [root] at held
    split at held
    · obtain rfl := Option.some.inj held
      rw [if_pos (by omega), Function.update_self]
    · have below' := represents.sound.below held
      rw [if_neg (by omega), Function.update_of_ne (by omega)]
      exact represents.node other frame held key below

/-- `boot_get_page_table` attaches a page table where there is none. -/
theorem Represents.bootGetPageTable (represents : boot.Represents directory before map)
    (room : map.root (pdx va) = none → map.next < kernelFrames ∧
      map.next < boot.numberOfFrames) :
    ∃ frame next, boot.bootGetPageTable (frameVa directory) va true =
      some (frameVa frame, next) ∧
      (map.attach (pdx va)).root (pdx va) = some frame ∧
      next.Represents directory before (map.attach (pdx va)) ∧
      next.numberOfFrames = boot.numberOfFrames := by
  have inside : pdx va < 1024 := Nat.mod_lt _ (by decide)
  unfold BootMemory.bootGetPageTable
  dsimp only
  cases held : map.root (pdx va) with
  | some frame =>
      obtain ⟨-, nonzero, -, installed⟩ := represents.root _ frame held
      have below := represents.sound.below held
      have limited := represents.limit
      have apart : frame * pageSize ≠ 0 := Nat.mul_ne_zero nonzero (by decide)
      rw [(represents.linked held).2, staticKernelVirtualAddress_frame (by omega) installed,
        TwoLevelMap.attach_of_node held]
      dsimp only
      rw [if_neg apart]
      exact ⟨frame, boot, rfl, held, represents, rfl⟩
  | none =>
      obtain ⟨reachable, installed⟩ := room held
      obtain ⟨first, lower, -⟩ := represents.counter reachable
      have empty : extractAddress 0 = 0 * pageSize := by decide
      have physical : staticKernelPhysicalAddress (frameVa map.next) =
          some (map.next * pageSize) := by
        rw [staticKernelPhysicalAddress, frameVa, if_neg (by omega), Nat.add_sub_cancel_left]
      have start := bootAllocateSpace_page lower (first ▸ reachable)
      rw [(represents.absent inside held).2, empty,
        staticKernelVirtualAddress_frame (by decide) (Nat.zero_lt_of_lt installed)]
      dsimp only
      rw [if_pos (Nat.zero_mul _), if_pos rfl]
      rcases allocation : boot.bootAllocateSpace pageSize pageSize with ⟨table, next⟩
      have parts := start.symm.trans allocation
      rw [first, Prod.mk.injEq] at parts
      have frames := bootAllocateSpace_numberOfFrames boot pageSize pageSize
      rw [allocation] at frames
      obtain rfl := parts.1
      dsimp only
      rw [physical]
      refine ⟨map.next, _, rfl, ?_, represents.attach inside held reachable installed allocation,
        frames⟩
      rw [TwoLevelMap.attach_root, if_pos ⟨rfl, held⟩]

/-- A round stores an entry in the map. -/
theorem Represents.bootMapPage (represents : boot.Represents directory before map)
    (room : map.root (pdx va) = none → map.next < kernelFrames ∧ map.next < boot.numberOfFrames)
    (pa perm : Nat) :
    ∃ next, boot.bootMapPage (frameVa directory) va pa perm = some next ∧
      next.Represents directory before (map.store (pdx va) (ptx va)
        (constructEntry pa (perm ||| permPresent.toNat))) ∧
      next.numberOfFrames = boot.numberOfFrames := by
  obtain ⟨frame, next, found, held, represents', same⟩ := represents.bootGetPageTable room
  have limited := represents'.limit
  have below := represents'.sound.below held
  rw [BootMemory.bootMapPage, found]
  dsimp only
  rw [wordOf_frameVa (by omega)]
  exact ⟨_, rfl, represents'.setWord held (Nat.mod_lt _ (by decide)) _, same⟩

theorem rangeEntries_succ (va pa perm count : Nat) (physical : pa < 2 ^ 32) :
    rangeEntries va pa perm (count + 1) =
      (pdx va, ptx va, constructEntry pa (perm ||| permPresent.toNat)) ::
        rangeEntries (add32 va pageSize) (add32 pa pageSize) perm count := by
  unfold rangeEntries
  rw [List.range_succ_eq_map, List.map_cons, List.map_map]
  have first : (pa + 0 * pageSize) % 2 ^ 32 = pa := by omega
  rw [first, Nat.zero_mul, Nat.add_zero]
  refine congrArg _ (List.map_congr_left fun page _ => ?_)
  have address : ((pa + (page + 1) * pageSize) % 2 ^ 32) =
      (add32 pa pageSize + page * pageSize) % 2 ^ 32 := by
    unfold add32 pageSize
    omega
  have region : pdx (va + (page + 1) * pageSize) = pdx (add32 va pageSize + page * pageSize) := by
    unfold pdx add32 pageSize
    omega
  have entry : ptx (va + (page + 1) * pageSize) = ptx (add32 va pageSize + page * pageSize) := by
    unfold ptx add32 pageSize
    omega
  change (pdx (va + (page + 1) * pageSize), ptx (va + (page + 1) * pageSize),
    constructEntry ((pa + (page + 1) * pageSize) % 2 ^ 32) _) = _
  rw [address, region, entry]

/-- The loop stores the entries of its pages in the map. -/
theorem Represents.bootMapPages (represents : boot.Represents directory before map)
    (physical : pa < 2 ^ 32) (kernel : map.next +
      map.missing ((rangeEntries va pa perm count).map Prod.fst) ≤ kernelFrames)
    (installed : map.next + map.missing ((rangeEntries va pa perm count).map Prod.fst) ≤
      boot.numberOfFrames) :
    ∃ next, boot.bootMapPages (frameVa directory) va pa perm count = some next ∧
      next.Represents directory before (map.storeAll (rangeEntries va pa perm count)) := by
  induction count generalizing boot map va pa with
  | zero => exact ⟨boot, rfl, represents⟩
  | succ count ih =>
      rw [rangeEntries_succ va pa perm count physical] at kernel installed ⊢
      simp only [List.map_cons] at kernel installed
      have one : map.root (pdx va) = none → 1 ≤ map.missing (pdx va ::
          (rangeEntries (add32 va pageSize) (add32 pa pageSize) perm count).map Prod.fst) := by
        intro free
        refine Finset.card_pos.mpr ⟨pdx va, ?_⟩
        rw [Finset.mem_filter, List.mem_toFinset]
        exact ⟨List.mem_cons_self .., free⟩
      obtain ⟨middle, first, represents', same⟩ := represents.bootMapPage
        (fun free => by
          have positive := one free
          omega) pa perm
      have fewer := TwoLevelMap.attach_missing_le map (pdx va)
        ((rangeEntries (add32 va pageSize) (add32 pa pageSize) perm count).map Prod.fst)
      have stored : ∀ indices, (map.store (pdx va) (ptx va)
          (constructEntry pa (perm ||| permPresent.toNat))).missing indices =
            (map.attach (pdx va)).missing indices := by
        intro indices
        unfold TwoLevelMap.missing
        rw [TwoLevelMap.store_root]
      have wrapped : add32 pa pageSize < 2 ^ 32 := Nat.mod_lt _ (by decide)
      have kernel' : (map.store (pdx va) (ptx va)
        (constructEntry pa (perm ||| permPresent.toNat))).next
          + (map.store (pdx va) (ptx va) (constructEntry pa (perm ||| permPresent.toNat))).missing
            ((rangeEntries (add32 va pageSize) (add32 pa pageSize) perm count).map Prod.fst) ≤
          kernelFrames := by
        rw [TwoLevelMap.store_next, stored]
        omega
      obtain ⟨next, later, represents''⟩ := ih represents' wrapped kernel' (by
        rw [TwoLevelMap.store_next, stored, same]
        omega)
      refine ⟨next, ?_, represents''⟩
      rw [BootMemory.bootMapPages, first]
      exact later

end Round

section Range

variable {size : Nat}

theorem rangeEntries_indices (va pa perm count : Nat) :
    (rangeEntries va pa perm count).map Prod.fst = rangeTables va count := by
  rw [rangeEntries, rangeTables, List.map_map]
  rfl

theorem mem_rangeTables : index ∈ rangeTables va count ↔
    ∃ page < count, pdx (va + page * pageSize) = index := by
  simp [rangeTables]

/-- A directory and a table index are those of a page of the range only for its own pages. -/
theorem key_mem_range {address : Nat} (aligned : va % pageSize = 0)
    (inside : va + count * pageSize ≤ 2 ^ 32) (word : address < 2 ^ 32) :
    (pdx address, ptx address) ∈
        (rangeEntries va pa perm count).map (fun stored => (stored.1, stored.2.1)) ↔
      va ≤ address ∧ address < va + count * pageSize := by
  rw [rangeEntries, List.map_map, List.mem_map]
  unfold pdx ptx
  unfold pageSize at *
  constructor
  · rintro ⟨page, listed, same⟩
    have below := List.mem_range.mp listed
    obtain ⟨directory, table⟩ := Prod.mk.inj same
    dsimp only at directory table
    omega
  · rintro ⟨lower, upper⟩
    refine ⟨(address - va) / 4096, List.mem_range.mpr (by omega), Prod.ext ?_ ?_⟩
    · change (va + (address - va) / 4096 * 4096) / 2 ^ 22 % 1024 = _
      omega
    · change (va + (address - va) / 4096 * 4096) / 2 ^ 12 % 1024 = _
      omega

/-- The pages of a range have different entries. -/
theorem rangeEntries_nodup (aligned : va % pageSize = 0)
    (inside : va + count * pageSize ≤ 2 ^ 32) :
    ((rangeEntries va pa perm count).map fun stored => (stored.1, stored.2.1)).Nodup := by
  rw [rangeEntries, List.map_map]
  refine List.Nodup.map_on (fun page listed other listed' same => ?_) List.nodup_range
  have below := List.mem_range.mp listed
  have below' := List.mem_range.mp listed'
  obtain ⟨directory, table⟩ := Prod.mk.inj same
  unfold pdx at directory
  unfold ptx at table
  unfold pageSize at *
  dsimp only at directory table
  omega

theorem entryPresent_zero : entryPresent 0 = false := by decide

/-- The processor translates by the entries of the map. -/
theorem Represents.translate (represents : boot.Represents directory before map)
    (address : Nat) : boot.translate (frameVa directory) address =
      if entryPresent (map.lookup (pdx address) (ptx address)) then
        some (extractAddress (map.lookup (pdx address) (ptx address)) + pgoff address,
          entryFlags (map.lookup (pdx address) (ptx address)))
      else none := by
  unfold BootMemory.translate
  dsimp only
  cases held : map.root (pdx address) with
  | some frame =>
      have word : frame * pageSize / 4 = frame * 1024 := by
        unfold pageSize
        omega
      have inside : ptx address < 1024 := Nat.mod_lt _ (by decide)
      rw [(represents.linked held).1, if_pos rfl, (represents.linked held).2, word,
        represents.node _ frame held _ inside, TwoLevelMap.lookup_of_node held]
  | none =>
      have inside : pdx address < 1024 := Nat.mod_lt _ (by decide)
      rw [(represents.absent inside held).2, TwoLevelMap.lookup_of_missing held,
        entryPresent_zero]
      rfl

/-- The page tables that `boot_map_range` has to create are the nodes that the map lacks. -/
theorem DirectoryState.missing (state : boot.DirectoryState directory) (va count : Nat) :
    (boot.tableMap directory).missing (rangeTables va count) =
      boot.missingTables directory va count := by
  unfold TwoLevelMap.missing missingTables
  congr 1
  refine Finset.filter_congr fun index listed => ?_
  have inside : index < 1024 := by
    obtain ⟨page, -, rfl⟩ := mem_rangeTables.mp (List.mem_toFinset.mp listed)
    exact Nat.mod_lt _ (by decide)
  constructor
  · intro free
    exact (state.represents.absent inside free).2
  · intro zero
    exact if_neg fun both => both.2 zero

section Stored

variable (state : boot.DirectoryState directory)
  (stored : next.Represents directory (boot.directoryEntry (frameVa directory))
    ((boot.tableMap directory).storeAll (rangeEntries va pa perm count)))

include state stored

/-- The stored entries translate the range. -/
theorem DirectoryState.translate_inside (virtualAligned : va % pageSize = 0)
    (physicalAligned : pa % pageSize = 0) (inside : va + count * pageSize ≤ 2 ^ 32)
    (low : perm < pageSize) {offset : Nat} (within : offset < count * pageSize) :
    next.translate (frameVa directory) (va + offset) =
      some ((pa + offset) % 2 ^ 32, perm ||| permPresent.toNat) := by
  have size : pageSize = 4096 := rfl
  have page : offset / pageSize < count := by
    rw [size] at within ⊢
    omega
  have directoryIndex : pdx (va + offset) = pdx (va + offset / pageSize * pageSize) := by
    unfold pdx
    rw [size] at virtualAligned ⊢
    omega
  have tableIndex : ptx (va + offset) = ptx (va + offset / pageSize * pageSize) := by
    unfold ptx
    rw [size] at virtualAligned ⊢
    omega
  have frame : (pa + offset / pageSize * pageSize) % 2 ^ 32 =
      (pa + offset / pageSize * pageSize) % 2 ^ 32 / pageSize * pageSize := by
    rw [size] at physicalAligned ⊢
    omega
  have listed : (pdx (va + offset), ptx (va + offset),
      constructEntry ((pa + offset / pageSize * pageSize) % 2 ^ 32)
        (perm ||| permPresent.toNat)) ∈ rangeEntries va pa perm count := by
    rw [directoryIndex, tableIndex]
    exact List.mem_map.mpr ⟨offset / pageSize, List.mem_range.mpr page, rfl⟩
  have entry := state.represents.sound.storeAll_lookup_of_mem
    (rangeEntries_nodup virtualAligned inside) listed
  have flags := or_present_lt low
  rw [stored.translate, entry, entryPresent_constructEntry, if_pos rfl, frame,
    extractAddress_constructEntry _ flags, entryFlags_constructEntry _ flags]
  · refine congrArg (fun address => some (address, _)) ?_
    unfold pgoff
    rw [size] at virtualAligned physicalAligned ⊢
    omega
  · rw [← frame]
    exact Nat.mod_lt _ (by decide)

/-- Addresses outside the range are translated as before. -/
theorem DirectoryState.translate_outside (virtualAligned : va % pageSize = 0)
    (inside : va + count * pageSize ≤ 2 ^ 32) {address : Nat} (word : address < 2 ^ 32)
    (outside : address < va ∨ va + count * pageSize ≤ address) :
    next.translate (frameVa directory) address = boot.translate (frameVa directory) address := by
  have unlisted : (pdx address, ptx address) ∉
      (rangeEntries va pa perm count).map fun stored => (stored.1, stored.2.1) := by
    rw [key_mem_range virtualAligned inside word]
    omega
  rw [stored.translate, state.represents.translate,
    state.represents.sound.storeAll_lookup_of_notMem unlisted]

/-- A directory entry of the range that was 0 names a new page table. -/
theorem DirectoryState.created_frame (listed : index ∈ rangeTables va count)
    (zero : boot.directoryEntry (frameVa directory) index = 0) :
    ∃ frame, ((boot.tableMap directory).storeAll (rangeEntries va pa perm count)).root index =
        some frame ∧
      next.directoryEntry (frameVa directory) index =
        constructEntry (frame * pageSize) (permPresent ||| permWriteable).toNat ∧
      boot.firstFree ≤ frame ∧
      frame < boot.firstFree + boot.missingTables directory va count := by
  have below : index < 1024 := by
    obtain ⟨page, -, rfl⟩ := mem_rangeTables.mp listed
    exact Nat.mod_lt _ (by decide)
  have free : (boot.tableMap directory).root index = none := if_neg fun both => both.2 zero
  obtain ⟨frame, held, fresh⟩ := TwoLevelMap.storeAll_root_of_mem free
    (rangeEntries_indices va pa perm count ▸ listed)
  have limit := TwoLevelMap.storeAll_next_le_missing (boot.tableMap directory)
    (rangeEntries va pa perm count)
  rw [rangeEntries_indices, state.missing] at limit
  refine ⟨frame, held, ?_, fresh, Nat.lt_of_lt_of_le (stored.sound.below held) limit⟩
  rw [stored.entry index below, if_pos zero, held, Option.elim_some]

/-- The words of a new page table are 0 outside the range. -/
theorem DirectoryState.created_zero (virtualAligned : va % pageSize = 0)
    (inside : va + count * pageSize ≤ 2 ^ 32) (listed : index ∈ rangeTables va count)
    (zero : boot.directoryEntry (frameVa directory) index = 0)
    (held : ((boot.tableMap directory).storeAll (rangeEntries va pa perm count)).root index =
      some frame) {key : Nat} (below : key < 1024)
    (outside : index * 2 ^ 22 + key * pageSize < va ∨
      va + count * pageSize ≤ index * 2 ^ 22 + key * pageSize) :
    next.words (frame * 1024 + key) = 0 := by
  have index_lt : index < 1024 := by
    obtain ⟨page, -, rfl⟩ := mem_rangeTables.mp listed
    exact Nat.mod_lt _ (by decide)
  have directoryIndex : pdx (index * 2 ^ 22 + key * pageSize) = index := by
    unfold pdx pageSize
    omega
  have tableIndex : ptx (index * 2 ^ 22 + key * pageSize) = key := by
    unfold ptx pageSize
    omega
  have word : index * 2 ^ 22 + key * pageSize < 2 ^ 32 := by
    unfold pageSize
    omega
  have unlisted : (index, key) ∉
      (rangeEntries va pa perm count).map fun stored => (stored.1, stored.2.1) := by
    have covered := @key_mem_range va pa perm count _ virtualAligned inside word
    rw [directoryIndex, tableIndex] at covered
    rw [covered]
    omega
  have free : (boot.tableMap directory).root index = none := if_neg fun both => both.2 zero
  have entry := state.represents.sound.storeAll_lookup_of_notMem unlisted
  rw [TwoLevelMap.lookup_of_node held, TwoLevelMap.lookup_of_missing free] at entry
  rw [stored.node index frame held key below, entry]

omit state in
theorem Represents.extractAddress_table
    (held : ((boot.tableMap directory).storeAll (rangeEntries va pa perm count)).root index =
      some frame) :
    extractAddress (constructEntry (frame * pageSize) (permPresent ||| permWriteable).toNat) =
      frame * pageSize := by
  have below := stored.sound.below held
  have limit := stored.limit
  have frames : kernelFrames = 65536 := by decide
  refine extractAddress_constructEntry ?_ (by decide)
  unfold pageSize
  omega

end Stored

/-- What `boot_map_range` does to the page directory and to what it translates. -/
structure MapsRange (boot next : BootMemory) (directory va size pa perm : Nat) : Prop where
  mapped : ∀ offset < size, next.translate (frameVa directory) (va + offset) =
    some ((pa + offset) % 2 ^ 32, perm ||| permPresent.toNat)
  others : ∀ address < 2 ^ 32, address < va ∨ va + size ≤ address →
    next.translate (frameVa directory) address = boot.translate (frameVa directory) address
  kept : ∀ index < 1024, index ∉ rangeTables va (size / pageSize) ∨
    boot.directoryEntry (frameVa directory) index ≠ 0 →
      next.directoryEntry (frameVa directory) index = boot.directoryEntry (frameVa directory) index
  created : ∀ index ∈ rangeTables va (size / pageSize),
    boot.directoryEntry (frameVa directory) index = 0 → ∃ frame,
      next.directoryEntry (frameVa directory) index =
        constructEntry (frame * pageSize) (permPresent ||| permWriteable).toNat ∧
      boot.firstFree ≤ frame ∧
      frame < boot.firstFree + boot.missingTables directory va (size / pageSize) ∧
      ∀ key < 1024, index * 2 ^ 22 + key * pageSize < va ∨
        va + size ≤ index * 2 ^ 22 + key * pageSize → next.words (frame * 1024 + key) = 0
  disjoint : ∀ index ∈ rangeTables va (size / pageSize),
    ∀ other ∈ rangeTables va (size / pageSize),
    boot.directoryEntry (frameVa directory) index = 0 →
      boot.directoryEntry (frameVa directory) other = 0 → index ≠ other →
        extractAddress (next.directoryEntry (frameVa directory) index) ≠
          extractAddress (next.directoryEntry (frameVa directory) other)

/-- `boot_map_range` maps its range, for permissions that fit below the address of an entry. -/
theorem bootMapRange_maps (state : boot.DirectoryState directory)
    (virtualAligned : va % pageSize = 0) (sizeAligned : size % pageSize = 0)
    (physicalAligned : pa % pageSize = 0) (_signed : size < 2 ^ 31) (inside : va + size ≤ 2 ^ 32)
    (physical : pa < 2 ^ 32) (low : perm < pageSize)
    (reachable : boot.firstFree + boot.missingTables directory va (size / pageSize) ≤
      kernelFrames)
    (installed : boot.firstFree + boot.missingTables directory va (size / pageSize) ≤
      boot.numberOfFrames) :
    ∃ next, boot.bootMapRange (frameVa directory) va size pa perm = some next ∧
      boot.MapsRange next directory va size pa perm := by
  have rounds : (size + (pageSize - 1)) / pageSize = size / pageSize := by
    unfold pageSize at *
    omega
  have whole : size / pageSize * pageSize = size := by
    unfold pageSize at *
    omega
  have inside' : va + size / pageSize * pageSize ≤ 2 ^ 32 := by rwa [whole]
  have lacking : (boot.tableMap directory).missing
      ((rangeEntries va pa perm (size / pageSize)).map Prod.fst) =
        boot.missingTables directory va (size / pageSize) := by
    rw [rangeEntries_indices, state.missing]
  obtain ⟨next, run, stored⟩ := state.represents.bootMapPages physical
    (lacking.symm ▸ reachable) (lacking.symm ▸ installed)
  rw [bootMapRange, rounds]
  refine ⟨next, run, fun offset within => ?_, fun address word outside => ?_,
    fun index below cases => ?_, fun index listed zero => ?_,
    fun index listed other listed' zero zero' different => ?_⟩
  · rw [← whole] at within
    exact state.translate_inside stored virtualAligned physicalAligned inside' low within
  · rw [← whole] at outside
    exact state.translate_outside stored virtualAligned inside' word outside
  · rw [stored.entry index below]
    by_cases zero : boot.directoryEntry (frameVa directory) index = 0
    · have unlisted := cases.resolve_right fun nonzero => nonzero zero
      have free : (boot.tableMap directory).root index = none := if_neg fun both => both.2 zero
      rw [if_pos zero, TwoLevelMap.storeAll_root_of_notMem
        ((rangeEntries_indices va pa perm (size / pageSize)).symm ▸ unlisted), free, zero]
      rfl
    · rw [if_neg zero]
  · obtain ⟨frame, held, entry, fresh, limit⟩ := state.created_frame stored listed zero
    refine ⟨frame, entry, fresh, limit, fun key below outside => ?_⟩
    rw [← whole] at outside
    exact state.created_zero stored virtualAligned inside' listed zero held below outside
  · obtain ⟨frame, held, entry, -⟩ := state.created_frame stored listed zero
    obtain ⟨frame', held', entry', -⟩ := state.created_frame stored listed' zero'
    rw [entry, entry', stored.extractAddress_table held, stored.extractAddress_table held']
    intro same
    obtain rfl := Nat.eq_of_mul_eq_mul_right (by decide : 0 < pageSize) same
    exact different (stored.sound.separate held held')

/-- A page directory in frame 256, all of whose entries are 0, is the last allocation so far. -/
def oneDirectory : BootMemory :=
  ⟨fun _ => 0, 1024, frameVa 256, frameVa 257⟩

theorem oneDirectory_state : oneDirectory.DirectoryState 256 :=
  ⟨by decide, by decide, fun _ _ nonzero => absurd rfl nonzero, fun _ _ _ _ nonzero =>
    absurd rfl nonzero⟩

/-- A range of two pages in different page tables. -/
theorem bootMapRange_maps_twoTables :
    oneDirectory.missingTables 256 0x803FF000 (0x2000 / pageSize) = 2 ∧
    ∃ next, oneDirectory.bootMapRange (frameVa 256) 0x803FF000 0x2000 0x3000 2 = some next ∧
      oneDirectory.MapsRange next 256 0x803FF000 0x2000 0x3000 2 :=
  ⟨by decide, bootMapRange_maps oneDirectory_state (by decide) (by decide) (by decide) (by decide)
    (by decide) (by decide) (by decide) (by decide) (by decide)⟩

/-- Permissions that reach into the address of an entry map another frame. -/
theorem not_mapsRange_wide :
    oneDirectory.DirectoryState 256 ∧
    oneDirectory.firstFree + oneDirectory.missingTables 256 0 (0x1000 / pageSize) ≤ 1024 ∧
    ∃ next, oneDirectory.bootMapRange (frameVa 256) 0 0x1000 0 0x1000 = some next ∧
      next.translate (frameVa 256) 0 = some (0x1000, 1) ∧
        ¬ oneDirectory.MapsRange next 256 0 0x1000 0 0x1000 := by
  have translated : (oneDirectory.bootMapRange (frameVa 256) 0 0x1000 0 0x1000).map
      (fun next => next.translate (frameVa 256) 0) = some (some (0x1000, 1)) := by decide +kernel
  obtain ⟨next, run, translation⟩ := Option.map_eq_some_iff.mp translated
  refine ⟨oneDirectory_state, by decide, next, run, translation, fun maps => ?_⟩
  have mapped := maps.mapped 0 (by decide)
  rw [translation] at mapped
  exact absurd mapped (by decide)

end Range

end BootMemory

end FosKernel
