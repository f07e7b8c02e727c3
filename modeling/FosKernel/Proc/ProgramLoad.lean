import FosKernel.Proc.SegmentPages

/-!
# Programs in memory and in the page file

`env_create` loads the segments of a program one after the other and adds a stack
page. The environment then has a working set as page faults expect it, and every
access reads the program until it writes over it.
-/

namespace FosKernel

theorem isUserPage_stack : IsUserPage (uStackTop - pageSize) := ⟨rfl, by decide⟩

/-- The page of the first stack of a program. -/
def stackPage : UserPage := ⟨uStackTop - pageSize, isUserPage_stack⟩

namespace ProgramSegment

theorem allocatedPages_le (seg : ProgramSegment) (progName : String) (remainingWsPages : Nat) :
    seg.allocatedPages progName remainingWsPages ≤ remainingWsPages := by
  have fewer : seg.wsPages progName remainingWsPages ≤ remainingWsPages := by
    unfold wsPages
    dsimp only
    split <;> split <;> (try split) <;> omega
  exact (Nat.min_le_right ..).trans fewer

/-- The pages that get frames are pages of the segment. -/
theorem covers_of_allocated (seg : ProgramSegment) {progName : String} {remainingWsPages page : Nat}
    (user : seg.virtualAddress + seg.sizeInMemory ≤ userTop)
    (listed : page ∈ pagesFrom (roundDown seg.virtualAddress pageSize)
      (seg.allocatedPages progName remainingWsPages)) : seg.Covers page := by
  obtain ⟨index, less, rfl⟩ := mem_pagesFrom.mp listed
  have fits := seg.allocatedPages_fits progName remainingWsPages user
  unfold Covers
  unfold pageSize at *
  omega

/-- The segments are below the stack page, and no segment writes a page that an earlier one is
in. -/
structure Loadable (segments : List ProgramSegment) : Prop where
  fits : ∀ seg ∈ segments, seg.virtualAddress + seg.sizeInMemory ≤ uStackTop - pageSize
  file : ∀ seg ∈ segments, seg.sizeInFile ≤ seg.sizeInMemory
  apart : segments.Pairwise fun earlier later => ∀ page : UserPage,
    later.Covers page ∨ (later.storedPage page).isSome = true → ¬ earlier.Covers page

theorem Loadable.of_append {segments : List ProgramSegment} {seg : ProgramSegment}
    (loadable : Loadable (segments ++ [seg])) : Loadable segments ∧
      ∀ earlier ∈ segments, ∀ page : UserPage,
        seg.Covers page ∨ (seg.storedPage page).isSome = true → ¬ earlier.Covers page := by
  obtain ⟨pairs, -, across⟩ := List.pairwise_append.mp loadable.apart
  exact ⟨⟨fun other member => loadable.fits other (List.mem_append_left _ member),
    fun other member => loadable.file other (List.mem_append_left _ member), pairs⟩,
    fun earlier member => across earlier member seg (List.mem_singleton_self _)⟩

/-- Every page of a segment is written. -/
theorem storedPage_isSome {seg : ProgramSegment} {page : Nat} (aligned : page % pageSize = 0)
    (covers : seg.Covers page) : (seg.storedPage page).isSome = true := by
  obtain ⟨lower, upper⟩ := covers
  obtain ⟨firstAligned, firstLower, firstUpper⟩ := roundDown_spec seg.virtualAddress
  have aligned : page % 4096 = 0 := aligned
  unfold storedPage
  dsimp only
  rw [if_pos upper]
  split
  · rfl
  · split
    · rfl
    · split
      · rfl
      · rw [if_pos (by omega), Option.isSome_some]

end ProgramSegment

namespace PageMap

/-- The page file after loading segments. -/
def addSegments (map : PageMap) (env : Nat) (segments : List ProgramSegment) : PageMap :=
  segments.foldl (fun map seg => map.addAll env seg.storedPage) map

theorem addSegments_append (map : PageMap) (env : Nat) (segments : List ProgramSegment)
    (seg : ProgramSegment) : map.addSegments env (segments ++ [seg]) =
      (map.addSegments env segments).addAll env seg.storedPage := by
  rw [addSegments, List.foldl_append]
  rfl

/-- The pages of other environments stay. -/
theorem addSegments_of_ne (map : PageMap) {env : Nat} (segments : List ProgramSegment)
    {key : Nat × UserPage} (different : key.1 ≠ env) :
        map.addSegments env segments key = map key := by
  induction segments using List.reverseRecOn with
  | nil => rfl
  | append_singleton segments seg ih => rw [addSegments_append, addAll, if_neg different, ih]

/-- The pages of a segment are as its own steps wrote them. -/
theorem addSegments_of_covers {segments : List ProgramSegment}
    (loadable : ProgramSegment.Loadable segments) (map : PageMap) (env : Nat) {seg : ProgramSegment}
    (member : seg ∈ segments) (page : UserPage) (covers : seg.Covers page) :
    map.addSegments env segments (env, page) = (seg.storedPage page).map some := by
  induction segments using List.reverseRecOn with
  | nil => cases member
  | append_singleton segments last ih =>
      obtain ⟨loadable', apart⟩ := loadable.of_append
      rw [addSegments_append, addAll, if_pos rfl]
      rcases List.mem_append.mp member with earlier | same
      · have unwritten : last.storedPage page = none := by
          rw [← Option.not_isSome_iff_eq_none]
          exact fun written => apart seg earlier page (.inr written) covers
        rw [unwritten, Option.map_none, Option.none_or, ih loadable' earlier]
      · obtain rfl := List.mem_singleton.mp same
        obtain ⟨content, written⟩ := Option.isSome_iff_exists.mp
          (ProgramSegment.storedPage_isSome page.2.1 covers)
        rw [written, Option.map_some, Option.some_or]

end PageMap

namespace Kernel

variable {kernel before middle after : Kernel} {env : Nat} {free rest pages : List Nat}
  {managed : Set Nat} {map : PageMap}

/-- The contents of a page of the working set. -/
theorem WorkingSet.pageBytes_eq (ws : WorkingSet kernel env free) {page index : Nat} {value : UInt8}
    (member : page ∈ kernel.wsPages env) (less : index < pageSize)
    (holds : kernel.memory.byteAt (kernel.directory env) (page + index) = some value) :
    kernel.pageBytes env page index = value := by
  have user := ws.mapped.user page member
  have below := user.2
  have aligned := user.1
  have start : roundDown (page + index) pageSize = page := by
    unfold roundDown
    unfold pageSize at *
    omega
  have offset : pgoff (page + index) = index := by
    unfold pgoff
    unfold pageSize at *
    omega
  have inside : page + index < userTop := by
    unfold pageSize userTop at *
    omega
  have present : kernel.pagePresent env (page + index) = true := by
    rw [ws.mapped.present _ inside, start]
    exact member
  rw [byteAt_eq present, Option.some.injEq, offset] at holds
  rw [← holds, pageBytes, pageBytes, ← pageEntry_roundDown kernel env (page + index), start]

/-- The pages that were there keep their contents, when no other frame changes. -/
theorem Places.pageBytes_eq (places : Places env before free pages after rest)
    (ws : WorkingSet before env free)
    (others : ∀ frame, frame ∉ free → after.memory.bytes frame = before.memory.bytes frame)
    {page : Nat} (member : page ∈ before.wsPages env) :
    after.pageBytes env page = before.pageBytes env page := by
  rw [pageBytes, places.kept page member, others _ (ws.mapped.apart page member)]
  rfl

/-- An address of a page. -/
theorem page_add {page index : Nat} (user : IsUserPage page) (less : index < pageSize) :
    roundDown (page + index) pageSize = page ∧ pgoff (page + index) = index ∧
      page + index < userTop := by
  have below := user.2
  have aligned := user.1
  refine ⟨?_, ?_, ?_⟩
  · unfold roundDown
    unfold pageSize at *
    omega
  · unfold pgoff
    unfold pageSize at *
    omega
  · unfold pageSize userTop at *
    omega

/-- Clearing a new page clears its frame, which was free, and no other one. -/
theorem Places.clears {page : Nat} {copy : Nat → Nat → UInt8}
    (places : Places env before free pages after rest) (user : IsUserPage page)
    (listed : page ∈ pages)
    (cleared : after.memory.memset (after.directory env) page 0 pageSize =
      { after.memory with bytes := copy }) :
    (∀ frame, frame ∉ free → copy frame = after.memory.bytes frame) ∧
      ∀ index < pageSize, copy (after.pageEntry env page).frame index = 0 := by
  have word : userTop < 2 ^ 32 - pageSize := by decide
  have last : page + pageSize ≤ userTop := by
    have inside := (page_add user (show pageSize - 1 < pageSize by decide)).2.2
    unfold pageSize at *
    omega
  have translates : ∀ index < pageSize, ∃ frame ∈ free,
      after.memory.translate (after.directory env) (page + index) = some (frame, index) := by
    intro index less
    obtain ⟨start, offset, inside⟩ := page_add user less
    obtain ⟨frame, taken, translated⟩ := places.translate inside (by rwa [start])
    exact ⟨frame, taken, by rw [translated, offset]⟩
  have member : page ∈ after.wsPages env := by
    rw [places.wsPages]
    exact List.mem_append_right _ listed
  rw [Memory.memset_eq_storeBytes] at cleared
  refine ⟨fun frame outside => ?_, fun index less => ?_⟩
  · have elsewhere : ∀ va place, page ≤ va → va < page + pageSize →
        after.memory.translate (after.directory env) va = some place → place.1 ≠ frame := by
      intro va place lower upper translated here
      obtain ⟨taken, free, translated'⟩ := translates (va - page) (by omega)
      rw [Nat.add_sub_cancel' lower, translated, Option.some.injEq] at translated'
      rw [translated'] at here
      exact outside (here ▸ free)
    have same := after.memory.storeBytes_bytes_of_ne (fun _ => (0 : UInt8)) elsewhere (by omega)
    rwa [cleared] at same
  · have present : ∀ va, page ≤ va → va < page + pageSize →
        (after.memory.translate (after.directory env) va).isSome = true := by
      intro va lower upper
      obtain ⟨frame, -, translated⟩ := translates (va - page) (by omega)
      rw [Nat.add_sub_cancel' lower] at translated
      rw [translated, Option.isSome_some]
    have stored := places.workingSet.unshared.byteAt_storeBytes (fun _ => 0) present last
      (page_add user less).2.2
    rw [cleared, if_pos ⟨by omega, by omega⟩] at stored
    exact (places.setBytes copy).workingSet.pageBytes_eq member less stored

/-- The pages that were just mapped are not modified. -/
theorem Places.clearModified_eq (places : Places env before free pages after rest)
    (none : before.wsPages env = []) : after.clearModified env = .ok after := by
  have unchanged : Ends (after.clearModified env) (fun result => result = after)
      fun _ => False := by
    unfold clearModified
    refine Ends.foldlM (fun result => result = after) ?_ after rfl
    intro value element member same
    rw [same]
    have listed : after.elementVa element ∈ pages := by
      have page := WorkingSet.page_mem member
      rwa [places.wsPages, none, List.nil_append] at page
    obtain ⟨slot, located⟩ := exists_slot (places.workingSet.pagePresent member)
    obtain ⟨frame, -, entry⟩ := places.entries _ listed
    rw [pageEntry_eq located] at entry
    have perms : ((permUser ||| permWriteable ||| permPresent ||| 0) &&& ~~~permModified : Perm) =
        permUser ||| permWriteable ||| permPresent := by decide
    have clean : (after.memory.tables slot).setPerms 0 permModified = after.memory.tables slot := by
      rw [entry]
      exact congrArg (PageTableEntry.mk frame) perms
    rw [located]
    dsimp only
    rw [clean]
    refine .ok ?_
    rw [Memory.setEntry, Function.update_eq_self]
  obtain ⟨result, returned, rfl⟩ := unchanged.exists_ok
  exact returned

end Kernel

namespace Loading

variable {loading : Loading} {env activeListSize : Nat} {free : List Nat} {managed : Set Nat}
  {map : PageMap} {seg : ProgramSegment} {progName : String}

/-- What loading a segment does. -/
structure LoadsSegment (env : Nat) (managed : Set Nat) (map : PageMap) (loading : Loading)
    (free : List Nat) (seg : ProgramSegment) (next : Loading) (pages rest : List Nat) : Prop where
  places : Kernel.Places env loading.kernel free pages next.kernel rest
  covers : ∀ page ∈ pages, seg.Covers page
  remaining : pages.length + next.remainingWsPages = loading.remainingWsPages
  others : ∀ frame, frame ∉ free →
    next.kernel.memory.bytes frame = loading.kernel.memory.bytes frame
  copied : ∀ page ∈ pages, seg.Agrees page (next.kernel.pageBytes env page)
  stores : ∃ free, Kernel.Stores next.kernel managed free (map.addAll env seg.storedPage)

/-- A round of the loop over the segments loads its segment, unless memory, the page file or the
table working set is full. -/
theorem loadSegment_ends {diskFree : List Nat} (orderly : loading.kernel.Orderly)
    (ws : Kernel.WorkingSet loading.kernel env free)
    (stores : Kernel.Stores loading.kernel managed diskFree map) (nonzero : 0 ∉ managed)
    (lists : loading.kernel.pageRepAlgoType ≠ .lruListsApprox)
    (user : seg.virtualAddress + seg.sizeInMemory < userTop)
    (file : seg.sizeInFile ≤ seg.sizeInMemory)
    (absent : ∀ page, seg.Covers page → page ∉ loading.kernel.wsPages env)
    (room : (loading.kernel.envs env).pageWsList.length + loading.remainingWsPages ≤
      (loading.kernel.envs env).pageWsMaxSize)
    (word : loading.remainingWsPages < 2 ^ 32) :
    Ends (loading.loadSegment env activeListSize progName seg)
      (fun next => ∃ pages rest, LoadsSegment env managed map loading free seg next pages rest)
      fun halt => Kernel.Exhausted halt ∨ halt = .panic := by
  have fewer := seg.allocatedPages_le progName loading.remainingWsPages
  have covers : ∀ page ∈ pagesFrom (roundDown seg.virtualAddress pageSize)
      (seg.allocatedPages progName loading.remainingWsPages), seg.Covers page :=
    fun page => seg.covers_of_allocated (Nat.le_of_lt user)
  unfold loadSegment
  dsimp only
  generalize number : seg.allocatedPages progName loading.remainingWsPages = count at *
  refine ((programSegmentAllocMapCopyWorkingset_ends orderly ws lists number
    (Nat.le_of_lt user) file
    (fun page listed => absent page (covers page listed)) (by omega)).mono (fun _ ends => ends)
      fun halt stopped => ?_).bind ?_
  · exact stopped.imp_left .inl
  rintro placed ⟨remaining, others, copied, disk, rest, places⟩
  have writes : Ends (placed.kernel.writeSegment env seg) _ _ :=
    Kernel.writeSegment_ends (stores.of_sameDisk disk) nonzero user file
  refine (writes.mono (fun _ ends => ends) fun halt full => .inl (.inr full)).bind ?_
  rintro written ⟨stores', onDisk⟩
  have places' := places.onDisk onDisk
  have memory : written.memory = placed.kernel.memory := by
    obtain ⟨disk, directory, rfl⟩ := onDisk
    rfl
  have directory : written.directory env = placed.kernel.directory env := by
    obtain ⟨disk, directory, rfl⟩ := onDisk
    exact Kernel.withDisk_directory ..
  refine .ok ⟨_, rest, places', covers, ?_, fun frame outside => ?_,
      fun page listed index less started =>
    ?_, stores'⟩
  · rw [remaining, pagesFrom, List.length_map, List.length_range]
    unfold sub32
    dsimp only
    omega
  · dsimp only
    rw [memory]
    exact others frame outside
  · refine places'.workingSet.pageBytes_eq ?_ less ?_
    · rw [places'.wsPages]
      exact List.mem_append_right _ listed
    · rw [memory, directory]
      refine copied _ started ?_
      obtain ⟨earlier, fewer, rfl⟩ := mem_pagesFrom.mp listed
      unfold pageSize at *
      omega

/-- What loading the segments of a program does. -/
structure LoadsSegments (env : Nat) (managed : Set Nat) (map : PageMap) (loading : Loading)
    (free : List Nat) (segments : List ProgramSegment) (next : Loading) (pages rest : List Nat) :
    Prop where
  places : Kernel.Places env loading.kernel free pages next.kernel rest
  covers : ∀ page ∈ pages, ∃ seg ∈ segments, seg.Covers page
  remaining : pages.length + next.remainingWsPages = loading.remainingWsPages
  others : ∀ frame, frame ∉ free →
    next.kernel.memory.bytes frame = loading.kernel.memory.bytes frame
  copied : ∀ page ∈ pages, ∀ seg ∈ segments, seg.Covers page →
    seg.Agrees page (next.kernel.pageBytes env page)
  stores : ∃ free, Kernel.Stores next.kernel managed free (map.addSegments env segments)

/-- The loop over the segments. -/
theorem loadSegments_ends {segments : List ProgramSegment} {diskFree : List Nat}
    (loadable : ProgramSegment.Loadable segments) (orderly : loading.kernel.Orderly)
    (ws : Kernel.WorkingSet loading.kernel env free)
    (empty : (loading.kernel.envs env).pageWsList = [])
    (stores : Kernel.Stores loading.kernel managed diskFree map) (nonzero : 0 ∉ managed)
    (lists : loading.kernel.pageRepAlgoType ≠ .lruListsApprox)
    (room : loading.remainingWsPages ≤ (loading.kernel.envs env).pageWsMaxSize)
    (word : loading.remainingWsPages < 2 ^ 32) :
    Ends (segments.foldlM (loadSegment env activeListSize progName) loading)
      (fun next => ∃ pages rest,
        LoadsSegments env managed map loading free segments next pages rest)
      fun halt => Kernel.Exhausted halt ∨ halt = .panic := by
  have none : loading.kernel.wsPages env = [] := by rw [Kernel.wsPages, empty, List.map_nil]
  induction segments using List.reverseRecOn with
  | nil =>
      exact .ok ⟨[], free, .refl orderly ws, fun _ listed => absurd listed List.not_mem_nil,
        Nat.zero_add _, fun _ _ => rfl, fun _ listed => absurd listed List.not_mem_nil, diskFree,
        stores⟩
  | append_singleton segments seg ih =>
      obtain ⟨loadable', apart⟩ := loadable.of_append
      rw [List.foldlM_append]
      refine (ih loadable').bind ?_
      rintro middle ⟨pages, rest, loads⟩
      obtain ⟨diskFree', stores'⟩ := loads.stores
      have places := loads.places
      have listed : middle.kernel.wsPages env =
        pages := by rw [places.wsPages, none, List.nil_append]
      have length : (middle.kernel.envs env).pageWsList.length = pages.length := by
        rw [← listed, Kernel.wsPages, List.length_map]
      have remaining := loads.remaining
      have fits := loadable.fits seg (by simp)
      rw [List.foldlM_cons]
      refine (loadSegment_ends places.orderly places.workingSet stores' nonzero
        (by rw [places.leaves.algorithm]; exact lists)
          (by unfold uStackTop userTop pageSize at *; omega)
        (loadable.file seg (by simp)) (fun page covers member => ?_)
        (by rw [length, places.leaves.size]; omega) (by omega)).bind ?_
      · have user := places.workingSet.mapped.user page member
        rw [listed] at member
        obtain ⟨earlier, before, covers'⟩ := loads.covers page member
        exact apart earlier before ⟨page, user⟩ (.inl covers) covers'
      rintro next ⟨pages', rest', load⟩
      have kept : ∀ page ∈ pages,
          next.kernel.pageBytes env page = middle.kernel.pageBytes env page := fun page member =>
        load.places.pageBytes_eq places.workingSet load.others (listed ▸ member)
      have users : ∀ page ∈ pages ++ pages', IsUserPage page := by
        intro page member
        refine load.places.workingSet.mapped.user page ?_
        rwa [load.places.wsPages, listed]
      refine .ok ⟨pages ++ pages', rest', places.trans load.places, ?_, ?_, ?_, ?_, ?_⟩
      · intro page member
        rcases List.mem_append.mp member with old | new
        · obtain ⟨earlier, before, covers⟩ := loads.covers page old
          exact ⟨earlier, List.mem_append_left _ before, covers⟩
        · exact ⟨seg, by simp, load.covers page new⟩
      · have remaining' := load.remaining
        rw [List.length_append]
        omega
      · intro frame outside
        rw [load.others frame fun listed => outside (places.taken.subset listed)]
        exact loads.others frame outside
      · intro page member other among covers
        have user := users page member
        rcases List.mem_append.mp member with old | new <;>
          rcases List.mem_append.mp among with earlier | last
        · rw [kept page old]
          exact loads.copied page old other earlier covers
        · rw [List.mem_singleton.mp last] at covers
          obtain ⟨first, before, covers'⟩ := loads.covers page old
          exact absurd covers' (apart first before ⟨page, user⟩ (.inl covers))
        · exact absurd covers (apart other earlier ⟨page, user⟩ (.inl (load.covers page new)))
        · rw [List.mem_singleton.mp last]
          exact load.copied page new
      · rw [PageMap.addSegments_append]
        exact load.stores

/-- What adding the stack page does. -/
structure AddsStackPage (env : Nat) (managed : Set Nat) (map : PageMap) (loading : Loading)
    (free : List Nat) (next : Loading) (rest : List Nat) : Prop where
  places : Kernel.Places env loading.kernel free [stackPage.1] next.kernel rest
  others : ∀ frame, frame ∉ free →
    next.kernel.memory.bytes frame = loading.kernel.memory.bytes frame
  zero : ∀ index < pageSize, next.kernel.pageBytes env stackPage index = 0
  stores : ∃ free, Kernel.Stores next.kernel managed free
    (map.add (env, stackPage) fun _ => 0) ∨
    Kernel.Stores next.kernel managed free map

/-- The stack page is mapped and filled with 0, unless memory is full. -/
theorem placeStackPage_ends {diskFree : List Nat} (orderly : loading.kernel.Orderly)
    (ws : Kernel.WorkingSet loading.kernel env free)
    (stores : Kernel.Stores loading.kernel managed diskFree map) (nonzero : 0 ∉ managed)
    (lists : loading.kernel.pageRepAlgoType ≠ .lruListsApprox)
    (absent : stackPage.1 ∉ loading.kernel.wsPages env)
    (room : (loading.kernel.envs env).pageWsList.length < (loading.kernel.envs env).pageWsMaxSize) :
    Ends (loading.placeStackPage env activeListSize)
      (fun next => ∃ rest, AddsStackPage env managed map loading free next rest)
      fun halt => halt = .outOfMemory := by
  have absent' : loading.kernel.pagePresent env stackPage = false := by
    rw [← Bool.not_eq_true, ws.mapped.present _ stackPage.2.2, stackPage.2.roundDown_eq]
    exact absent
  unfold placeStackPage
  rw [show uStackTop - pageSize = stackPage.1 from rfl]
  dsimp only
  cases allocated : loading.kernel.memory.allocateFrame with
  | none => exact .error rfl
  | some taken =>
      obtain ⟨frame, memory⟩ := taken
      obtain ⟨rest, rfl, represents, -⟩ :=
        Memory.allocateFrame_cases ws.mapped.represents allocated
      have maps := ws.loadtimeMapFrame orderly allocated represents stackPage.2 absent'
        (permUser ||| permWriteable)
      have bytes := (Kernel.loadtimeMapFrame_bytes
        { loading.kernel with memory := memory } env frame
        stackPage (permUser ||| permWriteable)).trans (Memory.allocateFrame_spec allocated).2.2
      dsimp only
      generalize Kernel.loadtimeMapFrame { loading.kernel with memory := memory } env
        frame stackPage
        (permUser ||| permWriteable) = mapped at maps bytes ⊢
      obtain ⟨copy, cleared⟩ :=
        mapped.memory.memset_spec (mapped.directory env) stackPage 0 pageSize
      have algorithm : mapped.pageRepAlgoType ≠ .lruListsApprox := by
        obtain ⟨memory', nextTable, same⟩ := maps.same
        rw [same]
        exact lists
      have lists' : { mapped with memory := { mapped.memory with bytes := copy }
        }.pageRepAlgoType ≠
          PageRepAlgoType.lruListsApprox := algorithm
      have places := maps.places ws stackPage.2 absent' room
      have directory : (mapped.placed env stackPage).directory env = mapped.directory env :=
        Kernel.placed_directory ..
      have cleared' : (mapped.placed env stackPage).memory.memset
          ((mapped.placed env stackPage).directory env) stackPage 0 pageSize =
            { (mapped.placed env stackPage).memory with bytes := copy } := by
        rw [directory]
        exact cleared
      obtain ⟨others, zero⟩ := places.clears stackPage.2 (List.mem_singleton_self _) cleared'
      rw [cleared, Kernel.addStackElement_eq lists' stackPage.2.2]
      have disk := (maps.setBytes copy).sameDisk
      have added := (Kernel.pfAddEmptyEnvPageWith_spec
        (stores.of_sameDisk disk) nonzero env stackPage
        true).and (Kernel.pfAddEnvPage_onDisk _ env stackPage fun _ => 0)
      refine (added.mono (fun _ both => both) fun _ never => absurd never.1 id).bind ?_
      rintro ⟨found, next⟩ ⟨stores', onDisk⟩
      have memory' : next.memory = { mapped.memory with bytes := copy } := by
        obtain ⟨disk, directory, rfl⟩ := onDisk
        rfl
      refine .ok ⟨rest, (places.setBytes copy).onDisk onDisk, fun frame outside => ?_,
        fun index less => ?_, ?_⟩
      · dsimp only
        rw [memory']
        exact (others frame outside).trans (congrFun bytes frame)
      · have entry : next.pageEntry env stackPage =
            (mapped.placed env stackPage).pageEntry env stackPage := by
          apply Kernel.pageEntry_congr
          · rw [memory']
            rfl
          · rw [memory']
            rfl
          · obtain ⟨disk, diskDirectory, rfl⟩ := onDisk
            exact Kernel.withDisk_directory ..
        dsimp only
        rw [Kernel.pageBytes, entry, memory']
        exact zero index less
      · rcases stores' with ⟨-, free', stores'⟩ | ⟨-, -, stores'⟩
        · exact ⟨free', .inl stores'⟩
        · exact ⟨diskFree, .inr stores'⟩

end Loading

end FosKernel
