import FosKernel.Proc.ProgramLoad
import FosKernel.Trap.UserAccess

/-!
# Running a loaded program

After `env_create` has loaded a program, its pages are in memory, as far as there is
room, and in the page file. A segment is right in the page file exactly when its
first page is not written a second time with other data. Then every read of the
running program returns what it wrote last, or its own byte.
-/

namespace FosKernel

namespace Kernel

variable {kernel after : Kernel} {env activeListSize : Nat} {free diskFree : List Nat}
  {managed : Set Nat} {map : PageMap} {progName : String} {segments : List ProgramSegment}
  {next : Loading} {known : Contents}

/-- An environment that has no pages in memory yet. -/
structure Fresh (kernel : Kernel) (env : Nat) : Prop where
  running : Running kernel env
  empty : (kernel.envs env).pageWsList = []
  positive : 0 < (kernel.envs env).pageWsMaxSize
  word : (kernel.envs env).pageWsMaxSize < 2 ^ 32
  stores : ∃ managed free map, 0 ∉ managed ∧ Stores kernel managed free map
  unbuffered : kernel.enableBuffering = false
  stamps : ∀ element, (kernel.elements element).timeStamp < 2 ^ 32
  calm : kernel.lastFaultedEnv = some env → kernel.numRepeatedFault = 0

/-- What loading a program does. -/
structure LoadsProgram (env : Nat) (managed : Set Nat) (map : PageMap) (kernel : Kernel)
    (free : List Nat) (segments : List ProgramSegment) (after : Kernel) (pages rest : List Nat) :
    Prop where
  places : Places env kernel free (pages ++ [stackPage.1]) after rest
  covers : ∀ page ∈ pages, ∃ seg ∈ segments, seg.Covers page
  others : ∀ frame, frame ∉ free → after.memory.bytes frame = kernel.memory.bytes frame
  copied : ∀ page ∈ pages, ∀ seg ∈ segments, seg.Covers page →
    seg.Agrees page (after.pageBytes env page)
  zero : ∀ index < pageSize, after.pageBytes env stackPage index = 0
  stores : ∃ free map', Stores after managed free map' ∧
    ∀ key, key ≠ (env, stackPage) → map' key = map.addSegments env segments key

/-- Loading a program ends, or memory, the page file or the table working set is full. -/
theorem loadProgram_ends (running : Running kernel env) (ws : WorkingSet kernel env free)
    (empty : (kernel.envs env).pageWsList = []) (positive : 0 < (kernel.envs env).pageWsMaxSize)
    (word : (kernel.envs env).pageWsMaxSize < 2 ^ 32) (nonzero : 0 ∉ managed)
    (stores : Stores kernel managed diskFree map)
    (loadable : ProgramSegment.Loadable segments) :
    Ends (kernel.loadProgram env activeListSize progName segments)
      (fun next => ∃ pages rest, LoadsProgram env managed map kernel free segments
        next.kernel pages rest)
      fun halt => Exhausted halt ∨ halt = .panic := by
  have lists : kernel.pageRepAlgoType ≠ .lruListsApprox := by
    intro lists
    have replaces := running.replaces
    rw [lists] at replaces
    exact replaces
  have none : kernel.wsPages env = [] := by rw [wsPages, empty, List.map_nil]
  have remaining : sub32 (kernel.envs env).pageWsMaxSize 1 + 1 =
      (kernel.envs env).pageWsMaxSize := by
    unfold sub32
    omega
  unfold loadProgram
  dsimp only
  refine (Loading.loadSegments_ends loadable running.orderly ws empty stores nonzero lists
    (by dsimp only; omega) (by dsimp only; omega)).bind ?_
  rintro loaded ⟨pages, rest, loads⟩
  have places := loads.places
  have counted := loads.remaining
  have listed : loaded.kernel.wsPages env = pages := by rw [places.wsPages, none, List.nil_append]
  have length : (loaded.kernel.envs env).pageWsList.length = pages.length := by
    rw [← listed, wsPages, List.length_map]
  obtain ⟨diskFree', stores'⟩ := loads.stores
  have lists' : loaded.kernel.pageRepAlgoType ≠ .lruListsApprox := by
    rw [places.leaves.algorithm]
    exact lists
  rw [places.clearModified_eq none]
  refine (Loading.placeStackPage_ends places.orderly places.workingSet stores' nonzero lists'
    (fun member => ?_) ?_).mono (fun _ ends => ends) (fun _ full => .inl (.inl full)) |>.bind ?_
  · rw [listed] at member
    obtain ⟨seg, among, covers⟩ := loads.covers _ member
    exact absurd covers.2 (Nat.not_lt.mpr (loadable.fits seg among))
  · have size := places.leaves.size
    dsimp only at counted size ⊢
    omega
  rintro next ⟨last, adds⟩
  have lists'' : next.kernel.pageRepAlgoType ≠ .lruListsApprox := by
    rw [adds.places.leaves.algorithm]
    exact lists'
  rw [if_neg lists'']
  refine .ok ⟨pages, last, places.trans adds.places, loads.covers, fun frame outside => ?_,
    fun page member seg among covers => ?_, adds.zero, ?_⟩
  · rw [adds.others frame fun inside => outside (places.taken.subset inside)]
    exact loads.others frame outside
  · rw [adds.places.pageBytes_eq places.workingSet adds.others (listed ▸ member)]
    exact loads.copied page member seg among covers
  · obtain ⟨free', stored | unstored⟩ := adds.stores
    · exact ⟨free', _, stored, fun key different => Function.update_of_ne different ..⟩
    · exact ⟨free', _, unstored, fun _ _ => rfl⟩

namespace LoadsProgram

variable {pages rest : List Nat} {seg : ProgramSegment}

theorem ne_stackPage (loadable : ProgramSegment.Loadable segments) (member : seg ∈ segments)
    {page : UserPage} (covers : seg.Covers page) : page ≠ stackPage := by
  intro same
  rw [same] at covers
  exact absurd covers.2 (Nat.not_lt.mpr (loadable.fits seg member))

/-- The page file holds the pages of the segments as the loader wrote them. -/
theorem stored (loads : LoadsProgram env managed map kernel free segments after pages rest)
    (loadable : ProgramSegment.Loadable segments) (member : seg ∈ segments) (page : UserPage)
    (covers : seg.Covers page) : ∃ content, seg.storedPage page = some content ∧
      (after.store env).stored page = some content := by
  obtain ⟨content, written⟩ := Option.isSome_iff_exists.mp
    (ProgramSegment.storedPage_isSome page.2.1 covers)
  obtain ⟨free', map', stores, same⟩ := loads.stores
  refine ⟨content, written, stores.stored_eq ?_⟩
  have different : (env, page) ≠ (env, stackPage) := fun equal =>
    ne_stackPage loadable member covers (congrArg Prod.snd equal)
  rw [same _ different, PageMap.addSegments_of_covers loadable map env member page covers, written,
    Option.map_some]

/-- The pages in memory agree with the segments. -/
theorem resident (loads : LoadsProgram env managed map kernel free segments after pages rest)
    (empty : kernel.wsPages env = []) (loadable : ProgramSegment.Loadable segments)
    (member : seg ∈ segments) (page : UserPage) (covers : seg.Covers page)
    {content : Nat → UInt8}
    (held : (after.store env).resident page = some content) : seg.Agrees page content := by
  have present : after.pagePresent env page = true := by
    by_contra absent
    simp [store, absent] at held
  have listed : page.1 ∈ pages ++ [stackPage.1] := by
    rwa [loads.places.workingSet.mapped.present _ page.2.2, page.2.roundDown_eq,
      loads.places.wsPages,
      empty, List.nil_append] at present
  simp only [store, if_pos present, Option.some.injEq] at held
  rcases List.mem_append.mp listed with early | stack
  · rw [← held]
    exact loads.copied page early seg member covers
  · exact absurd (Subtype.ext (List.mem_singleton.mp stack))
      (ne_stackPage loadable member covers)

/-- The environment has what page faults expect. -/
theorem storing (loads : LoadsProgram env managed map kernel free segments after pages rest)
    (fresh : Fresh kernel env) (nonzero : 0 ∉ managed)
    (loadable : ProgramSegment.Loadable segments) : Storing after env ∧ after.Calm env := by
  have places := loads.places
  have leaves := places.leaves
  have empty : kernel.wsPages env = [] := by rw [wsPages, fresh.empty, List.map_nil]
  obtain ⟨free', map', stores, same⟩ := loads.stores
  refine ⟨⟨⟨places.orderly, ⟨rest, places.workingSet⟩, ?_, ?_⟩, ?_,
    ⟨free', stores.diskOwned nonzero env⟩,
    fun page resident => ?_, ?_, fun _ => places.hand (.inr (by simp)), fun element => ?_⟩,
    fun faulted => .inr ?_⟩
  · rw [leaves.active]
    exact fresh.running.active
  · rw [leaves.algorithm]
    exact fresh.running.replaces
  · rw [leaves.size]
    exact fresh.positive
  · have present : after.pagePresent env page = true := by
      by_contra absent
      simp [store, absent] at resident
    rw [places.workingSet.mapped.present _ page.2.2, page.2.roundDown_eq, places.wsPages, empty,
      List.nil_append] at present
    rcases List.mem_append.mp present with early | stack
    · obtain ⟨seg, member, covers⟩ := loads.covers page early
      obtain ⟨content, -, stored⟩ := loads.stored loadable member page covers
      exact .inl (by rw [stored, Option.isSome_some])
    · refine .inr ?_
      rw [Unbacked, List.mem_singleton.mp stack]
      decide
  · rw [leaves.guard.buffering]
    exact fresh.unbuffered
  · rcases leaves.stamps element with old | new
    · rw [old]
      exact fresh.stamps element
    · rw [new]
      decide
  · rw [leaves.guard.faulted] at faulted
    rw [leaves.guard.repeated]
    exact fresh.calm faulted

end LoadsProgram

/-- Loading a program into a fresh environment. -/
theorem Fresh.loads (fresh : Fresh kernel env) (loadable : ProgramSegment.Loadable segments)
    (returned : kernel.loadProgram env activeListSize progName segments = .ok next) :
    ∃ managed free map pages rest, 0 ∉ managed ∧
      LoadsProgram env managed map kernel free segments next.kernel pages rest := by
  obtain ⟨free, ws⟩ := fresh.running.workingSet
  obtain ⟨managed, diskFree, map, nonzero, stores⟩ := fresh.stores
  have ends : Ends (kernel.loadProgram env activeListSize progName segments) _ _ :=
    loadProgram_ends fresh.running ws fresh.empty fresh.positive fresh.word nonzero stores loadable
  obtain ⟨pages, rest, loads⟩ := ends.of_ok returned
  exact ⟨managed, free, map, pages, rest, nonzero, loads⟩

theorem isUserPage_of_covers {seg : ProgramSegment} {page : Nat} (aligned : page % pageSize = 0)
    (covers : seg.Covers page)
    (fits : seg.virtualAddress + seg.sizeInMemory ≤ uStackTop - pageSize) : IsUserPage page := by
  have upper := covers.2
  refine ⟨aligned, ?_⟩
  unfold uStackTop userTop pageSize at *
  omega

/-- A page file from which no disk frame is taken. -/
theorem stores_of_initialized (kernel : Kernel) (pages : Nat)
    (initialized : kernel.disk.freeFrameList = initializeDiskPageFile pages)
    (empty : ∀ env va, (kernel.envs env).diskFrame va = 0) :
    ∃ free, Stores kernel {dfn | 1 ≤ dfn ∧ dfn < pages} free fun _ => none := by
  obtain ⟨free, represents, mem⟩ := initializeDiskPageFile_represents pages
  have unheld : ∀ key dfn, (kernel.pagePool free).holder key ≠ some dfn := by
    intro key dfn held
    have none : kernel.heldFrame key = none := (heldFrame_eq_none ..).mpr (empty key.1 key.2)
    rw [show kernel.heldFrame key = some dfn from held] at none
    cases none
  refine ⟨free, initialized ▸ represents, ⟨represents.nodup,
    fun key _ dfn held => absurd held (unheld key dfn),
      fun key dfn held => absurd held (unheld key dfn),
    fun dfn => ?_⟩, ⟨fun key => ?_, fun key dfn _ held => absurd held (unheld key dfn)⟩⟩
  · exact (mem dfn).symm.trans ⟨.inl, fun either => either.resolve_right fun held =>
      absurd held.choose_spec (unheld held.choose dfn)⟩
  · cases held : (kernel.pagePool free).holder key with
    | none => rfl
    | some dfn => exact absurd held (unheld key dfn)

theorem blank_fresh (algorithm : PageRepAlgoType) (replaces : algorithm.Replaces) (env : Nat) :
    Fresh (blank algorithm 1) env where
  running := blank_running algorithm replaces 1 env
  empty := rfl
  positive := Nat.one_pos
  word := show 1 < 2 ^ 32 by decide
  stores := by
    obtain ⟨free, stores⟩ := stores_of_initialized (blank algorithm 1) 4 rfl fun _ _ => rfl
    exact ⟨_, free, _, fun listed => Nat.not_succ_le_zero 0 listed.1, stores⟩
  unbuffered := rfl
  stamps _ := show 0 < 2 ^ 32 by decide
  calm faulted := by cases faulted

/-- A segment of two pages whose data ends in the second one. -/
def shortSegment : ProgramSegment := ⟨fun index => UInt8.ofNat index, 5000, 6000, 0x800000⟩

theorem shortSegment_loadable : ProgramSegment.Loadable [shortSegment] where
  fits seg member := by
    rw [List.mem_singleton.mp member]
    decide
  file seg member := by
    rw [List.mem_singleton.mp member]
    decide
  apart := List.pairwise_singleton ..

theorem shortSegment_loads : ∃ next,
    (blank .clock 1).loadProgram 0 2 "fos_add" [shortSegment] = .ok next := by
  obtain ⟨next, returned, -⟩ := Returns.exists (show Returns
    ((blank .clock 1).loadProgram 0 2 "fos_add" [shortSegment]) (fun _ => true) = true by
      decide +kernel)
  exact ⟨next, returned⟩

/-- After loading, the pages of the program that are in memory are right, and those in the page file
are exactly when the segments are sound. -/
theorem program_stored_iff_sound (kernel : Kernel) (env activeListSize : Nat) (progName : String)
    (segments : List ProgramSegment) (next : Loading) (fresh : Fresh kernel env)
    (loadable : ProgramSegment.Loadable segments)
    (returned : kernel.loadProgram env activeListSize progName segments = .ok next) :
    (∀ seg ∈ segments, ∀ page : UserPage, seg.Covers page → ∀ content,
      (next.kernel.store env).resident page = some content → seg.Agrees page content) ∧
    ((∀ seg ∈ segments, ∀ page : UserPage, seg.Covers page → ∃ content,
      (next.kernel.store env).stored page = some content ∧ seg.Agrees page content) ↔
        ∀ seg ∈ segments, seg.Sound) := by
  obtain ⟨managed, free, map, pages, rest, nonzero, loads⟩ := fresh.loads loadable returned
  have empty : kernel.wsPages env = [] := by rw [wsPages, fresh.empty, List.map_nil]
  refine ⟨fun seg member page covers content => loads.resident empty loadable member page covers,
    fun right seg member => ?_, fun sound seg member page covers => ?_⟩
  · refine (seg.stored_iff_sound (loadable.file seg member)).mp fun page aligned covers => ?_
    have user := isUserPage_of_covers aligned covers (loadable.fits seg member)
    obtain ⟨content, stored, agrees⟩ := right seg member ⟨page, user⟩ covers
    obtain ⟨content', written, stored'⟩ := loads.stored loadable member ⟨page, user⟩ covers
    rw [stored, Option.some.injEq] at stored'
    exact ⟨content', written, stored' ▸ agrees⟩
  · obtain ⟨content, written, stored⟩ := loads.stored loadable member page covers
    obtain ⟨content', written', agrees⟩ :=
      (seg.stored_iff_sound (loadable.file seg member)).mpr (sound seg member) page page.2.1 covers
    rw [written, Option.some.injEq] at written'
    exact ⟨content, stored, written' ▸ agrees⟩

/-- A segment of two pages is right in the page file. -/
theorem program_stored_iff_sound_short : ∃ next,
    (blank .clock 1).loadProgram 0 2 "fos_add" [shortSegment] = .ok next ∧
      ∀ seg ∈ [shortSegment], ∀ page : UserPage, seg.Covers page → ∃ content,
        (next.kernel.store 0).stored page = some content ∧ seg.Agrees page content := by
  obtain ⟨next, returned⟩ := shortSegment_loads
  refine ⟨next, returned, (program_stored_iff_sound (blank .clock 1) 0 2 "fos_add"
    [shortSegment] next
    (blank_fresh .clock trivial 0) shortSegment_loadable returned).2.mpr fun seg member => ?_⟩
  rw [List.mem_singleton.mp member]
  exact .inl rfl

instance (seg : ProgramSegment) (page : Nat) : Decidable (seg.Covers page) :=
  inferInstanceAs (Decidable (_ ∧ _))

/-- The bytes of a program: those of its segments, from their start to the end of their last
page. -/
def programContents (segments : List ProgramSegment) : Contents := fun page index =>
  if index < pageSize then
    (segments.find? fun seg => seg.Covers page ∧ seg.virtualAddress ≤ page + index).map
      (·.byteAt (page + index))
  else none

theorem programContents_eq_some {page : UserPage} {index : Nat} {value : UInt8}
    (located : programContents segments page index = some value) :
    ∃ seg ∈ segments, seg.Covers page ∧ index < pageSize ∧
      seg.virtualAddress ≤ page + index ∧
      seg.byteAt (page + index) = value := by
  unfold programContents at located
  split at located
  · rename_i less
    obtain ⟨seg, found, byte⟩ := Option.map_eq_some_iff.mp located
    have holds := List.find?_some found
    obtain ⟨covers, started⟩ := of_decide_eq_true holds
    exact ⟨seg, List.mem_of_find?_eq_some found, covers, less, started, byte⟩
  · cases located

/-- What every step of a run keeps when only the known contents of a page agree with the stored
ones. -/
structure KeepsAt (kernel : Kernel) (env : Nat) (known : Contents) : Prop where
  storing : Storing kernel env
  calm : kernel.Calm env
  clean : (kernel.store env).CleanAt known
  holds : (kernel.store env).Holds known

theorem KeepsAt.moved (keeps : KeepsAt kernel env known) (storing : Storing after env)
    (calm : after.Calm env)
    (moves : Relation.ReflTransGen PagedStore.Move (kernel.store env) (after.store env)) :
    KeepsAt after env known := by
  obtain ⟨holds, clean⟩ := keeps.holds.of_moves_at keeps.clean moves
  exact ⟨storing, calm, clean, holds⟩

/-- A step under which LRU finds its victims loses no known value. -/
theorem UserMove.keepsAt {before after : Kernel × Contents} (keeps : KeepsAt before.1 env before.2)
    (move : UserMove env (fun kernel va => kernel.LeavesVictim env va) before after) :
    KeepsAt after.1 env after.2 := by
  cases move with
  | read va fuel rounds accessible met returned =>
      obtain ⟨storing, calm, moves, -⟩ :=
        (keeps.storing.userRead_ends keeps.calm accessible met fuel rounds).of_ok returned
      exact keeps.moved storing calm moves
  | write va value fuel rounds accessible met returned =>
      obtain ⟨storing, calm, moved, content, moves, resident, store⟩ :=
        (keeps.storing.userWrite_ends keeps.calm accessible met value fuel rounds).of_ok returned
      obtain ⟨holds, clean⟩ := keeps.holds.of_moves_at keeps.clean moves
      refine ⟨storing, calm, ?_, ?_⟩
      · rw [store]
        exact clean.write _ _ _ _
      · rw [store]
        exact holds.write resident (pgoff va) value
  | clockInterrupt stamped =>
      obtain ⟨storing, ticked, -⟩ := keeps.storing.stampLru_ends.of_ok stamped
      refine keeps.moved storing (ticked.calm keeps.calm) ?_
      rw [ticked.store]

/-- A loaded program is in its pages. -/
theorem Fresh.keepsAt (fresh : Fresh kernel env) (loadable : ProgramSegment.Loadable segments)
    (sound : ∀ seg ∈ segments, seg.Sound)
    (returned : kernel.loadProgram env activeListSize progName segments = .ok next) :
    KeepsAt next.kernel env (programContents segments) := by
  obtain ⟨managed, free, map, pages, rest, nonzero, loads⟩ := fresh.loads loadable returned
  have empty : kernel.wsPages env = [] := by rw [wsPages, fresh.empty, List.map_nil]
  obtain ⟨storing, calm⟩ := loads.storing fresh nonzero loadable
  have resident : ∀ seg ∈ segments, ∀ page : UserPage, seg.Covers page → ∀ content,
      (next.kernel.store env).resident page = some content → seg.Agrees page content :=
    fun seg member page covers content => loads.resident empty loadable member page covers
  have stored : ∀ seg ∈ segments, ∀ page : UserPage, seg.Covers page → ∃ content,
      (next.kernel.store env).stored page = some content ∧ seg.Agrees page content := by
    intro seg member page covers
    obtain ⟨content, written, stored⟩ := loads.stored loadable member page covers
    obtain ⟨content', written', agrees⟩ :=
      (seg.stored_iff_sound (loadable.file seg member)).mpr (sound seg member) page page.2.1 covers
    rw [written, Option.some.injEq] at written'
    exact ⟨content, stored, written' ▸ agrees⟩
  refine ⟨storing, calm, fun page index content old located held _ kept => ?_,
    fun page index value located => ?_⟩
  · obtain ⟨value, located⟩ := Option.isSome_iff_exists.mp located
    obtain ⟨seg, member, covers, less, started, -⟩ := programContents_eq_some located
    obtain ⟨content', kept', agrees⟩ := stored seg member page covers
    rw [kept, Option.some.injEq] at kept'
    rw [kept', agrees index less started]
    exact resident seg member page covers content held index less started
  · obtain ⟨seg, member, covers, less, started, byte⟩ := programContents_eq_some located
    obtain ⟨old, kept, agrees⟩ := stored seg member page covers
    refine ⟨.inl (by rw [kept, Option.isSome_some]), fun content held => ?_⟩
    rw [← byte]
    cases present : (next.kernel.store env).resident page with
    | none =>
        rw [PagedStore.value, present, kept, Option.none_or, Option.some.injEq] at held
        rw [← held]
        exact agrees index less started
    | some inMemory =>
        rw [PagedStore.value, present, Option.some_or, Option.some.injEq] at held
        rw [← held]
        exact resident seg member page covers inMemory present index less started

/-- The contents of all stored pages are known. -/
theorem Stores.exact (stores : Stores kernel managed free map) :
    Stores kernel managed free fun key => (kernel.heldFrame key).map fun dfn =>
      some (kernel.disk.frames dfn) where
  represents := stores.represents
  accounts := stores.accounts
  records := by
    refine ⟨fun key => Option.isSome_map, fun key dfn content held known => ?_⟩
    rw [show kernel.heldFrame key = some dfn from held, Option.map_some, Option.some.injEq,
      Option.some.injEq] at known
    exact known

/-- Loading a program into one environment leaves another one with page tables of its own as it is,
and gives the program no frame of it. -/
theorem loadProgram_isolates (kernel : Kernel) (env other activeListSize : Nat) (progName : String)
    (segments : List ProgramSegment) (fresh : Fresh kernel env)
    (loadable : ProgramSegment.Loadable segments) (running : Running kernel other)
    (different : other ≠ env) (apart : kernel.TablesApart env other) :
    Ends (kernel.loadProgram env activeListSize progName segments)
      (fun next => Running next.kernel other ∧ next.kernel.envs other = kernel.envs other ∧
        (∀ va, next.kernel.pageEntry other va = kernel.pageEntry other va) ∧
        next.kernel.store other = kernel.store other ∧
        ∀ page ∈ next.kernel.wsPages env, ∀ page' ∈ kernel.wsPages other,
          (next.kernel.pageEntry env page).frame ≠ (next.kernel.pageEntry other page').frame)
      fun halt => Exhausted halt ∨ halt = .panic := by
  obtain ⟨free, ws⟩ := fresh.running.workingSet
  obtain ⟨free', ws'⟩ := running.workingSet
  obtain rfl : free' = free := ws'.mapped.represents.unique ws.mapped.represents
  obtain ⟨managed, diskFree, map, nonzero, stores⟩ := fresh.stores
  have none : kernel.wsPages env = [] := by rw [wsPages, fresh.empty, List.map_nil]
  refine (loadProgram_ends fresh.running ws fresh.empty fresh.positive fresh.word nonzero
    stores.exact loadable).mono ?_ fun _ stopped => stopped
  rintro next ⟨pages, rest, loads⟩
  have places := loads.places
  have leaves := places.leaves
  obtain ⟨-, -, entries⟩ := leaves.foreign other apart
  have same := leaves.others other different
  have present : ∀ va, next.kernel.pagePresent other va = kernel.pagePresent other va := by
    intro va
    rw [← pageEntry_present, ← pageEntry_present, entries]
  have listed : next.kernel.wsPages other = kernel.wsPages other := by
    rw [wsPages, wsPages, same]
    refine List.map_congr_left fun element member => ?_
    rw [elementVa, leaves.elements.2 element (ws'.created element member)]
    rfl
  have mapped : Mapped next.kernel other (next.kernel.wsPages other) rest := by
    rw [listed]
    refine ⟨places.orderly.separateTables other, ws'.mapped.nodup, ws'.mapped.user,
      fun va user => ?_, fun page member page' member' => ?_, places.workingSet.mapped.represents,
      fun page member inside => ?_⟩
    · rw [present]
      exact ws'.mapped.present va user
    · rw [entries, entries]
      exact ws'.mapped.owns page member page' member'
    · rw [entries] at inside
      exact ws'.mapped.apart page member (places.taken.subset inside)
  refine ⟨⟨places.orderly, ⟨rest, mapped, ?_, ?_⟩, ?_, ?_⟩, same, entries, ?_,
    fun page member page' member' => ?_⟩
  · rw [same]
    exact fun element member => Nat.lt_of_lt_of_le (ws'.created element member) leaves.elements.1
  · rw [same]
    exact ws'.fits
  · rw [leaves.active]
    exact running.active
  · rw [leaves.algorithm]
    exact running.replaces
  · refine PagedStore.ext (funext fun page => ?_) (funext fun page => ?_) (funext fun page => ?_)
    · simp only [store, present, entries]
      by_cases held : kernel.pagePresent other page = true
      · have member : page.1 ∈ kernel.wsPages other := by
          rwa [ws'.mapped.present _ page.2.2, page.2.roundDown_eq] at held
        rw [if_pos held, if_pos held, loads.others _ (ws'.mapped.apart _ member)]
      · rw [if_neg held, if_neg held]
    · simp only [store, entries]
    · obtain ⟨free, map', stores', equal⟩ := loads.stores
      by_cases unstored : (kernel.envs other).diskFrame page = 0
      · simp only [store, same, if_pos unstored]
      · have key : map' (other, page) =
            some (some (kernel.disk.frames ((kernel.envs other).diskFrame page))) := by
          have another : (other, page) ≠ (env, stackPage) := fun here =>
            different (congrArg Prod.fst here)
          rw [equal _ another, PageMap.addSegments_of_ne _ _ different, heldFrame, if_neg unstored,
            Option.map_some]
        rw [stores'.stored_eq key]
        simp only [store, if_neg unstored]
  · rw [places.wsPages, none, List.nil_append] at member
    obtain ⟨frame, taken, entry⟩ := places.entries page member
    rw [entry, entries]
    intro shared
    exact ws'.mapped.apart page' member' (shared ▸ taken)

theorem blank_tablesApart (algorithm : PageRepAlgoType) (size : Nat) {env other : Nat}
    (different : other ≠ env) : (blank algorithm size).TablesApart env other := by
  refine ⟨different, fun first second table held held' => ?_⟩
  have directories : ∀ directory index,
    (blank algorithm size).memory.directories directory index =
      if directory < 2 ∧ index < 1024 then some (1024 * directory + index) else
        none := fun _ _ => rfl
  rw [show (blank algorithm size).directory env = env from rfl, directories] at held
  rw [show (blank algorithm size).directory other = other from rfl, directories] at held'
  rw [Option.ite_none_right_eq_some, Option.some.injEq] at held held'
  omega

/-- Loading into one of two environments. -/
theorem loadProgram_isolates_short :
    Ends ((blank .clock 1).loadProgram 0 2 "fos_add" [shortSegment])
      (fun next => Running next.kernel 1 ∧ next.kernel.envs 1 = (blank .clock 1).envs 1 ∧
        (∀ va, next.kernel.pageEntry 1 va = (blank .clock 1).pageEntry 1 va) ∧
        next.kernel.store 1 = (blank .clock 1).store 1 ∧
        ∀ page ∈ next.kernel.wsPages 0, ∀ page' ∈ (blank .clock 1).wsPages 1,
          (next.kernel.pageEntry 0 page).frame ≠ (next.kernel.pageEntry 1 page').frame)
      fun halt => Exhausted halt ∨ halt = .panic := by
  exact loadProgram_isolates (blank .clock 1) 0 1 2 "fos_add" [shortSegment]
    (blank_fresh .clock trivial 0) shortSegment_loadable (blank_running .clock trivial 1 1)
    (by decide) (blank_tablesApart .clock 1 (by decide))

end Kernel

end FosKernel
