import FosKernel.Trap.PrivateFrames

/-!
# Private memories

Environments with page tables of their own share the physical memory and the page file.
Their page faults, reads, writes and clock interrupts may come in any order: each
environment reads what it wrote last itself, or what its pages held before.
-/

namespace FosKernel

namespace Kernel

variable {kernel before after : Kernel} {env other va fuel : Nat} {live : Set Nat}
  {known : Contents}

theorem TablesApart.symm (apart : kernel.TablesApart env other) : kernel.TablesApart other env :=
  ⟨apart.1.symm, fun first second table held held' => apart.2 second first table held' held⟩

/-- The page of the last fault is present, or its table was created for it. -/
def Quiet (kernel : Kernel) (env : Nat) : Prop :=
  kernel.lastFaultedEnv = some env → kernel.pagePresent env kernel.lastFaultVa = true ∨
    kernel.numRepeatedFault = 0 ∧
      (kernel.memory.slot (kernel.directory env) kernel.lastFaultVa).isSome = true

theorem Quiet.calm (quiet : kernel.Quiet env) : kernel.Calm env :=
  fun faulted => (quiet faulted).imp_right And.left

/-- The page tables and frames of another environment are not those of the environment. -/
structure Separate (kernel : Kernel) (env other : Nat) : Prop where
  tables : kernel.TablesApart env other
  frames : ∀ page : UserPage, kernel.pagePresent other page = true →
    kernel.Beyond env (kernel.pageEntry other page).frame

theorem Separate.symm (separate : kernel.Separate env other) (running : Running kernel env) :
    kernel.Separate other env where
  tables := separate.tables.symm
  frames page present := by
    obtain ⟨listed, ws⟩ := running.workingSet
    have inside := (ws.mapped.present page page.2.2).mp present
    rw [page.2.roundDown_eq] at inside
    refine ⟨fun listed' represents => ?_, fun page' present' same => ?_⟩
    · rw [represents.unique ws.mapped.represents]
      exact ws.mapped.apart page inside
    · exact (separate.frames page' present').unmapped page present same.symm

/-- An empty environment has no frames. -/
theorem Fresh.separate (fresh : Fresh kernel env) (running : Running kernel other)
    (apart : kernel.TablesApart env other) : kernel.Separate env other where
  tables := apart
  frames page present := by
    obtain ⟨free, ws⟩ := fresh.running.workingSet
    obtain ⟨free', ws'⟩ := running.workingSet
    have inside := (ws'.mapped.present page page.2.2).mp present
    rw [page.2.roundDown_eq] at inside
    refine ⟨fun listed represents => ?_, fun page' present' => ?_⟩
    · rw [represents.unique ws'.mapped.represents]
      exact ws'.mapped.apart page inside
    · have none := (ws.mapped.present page' page'.2.2).mp present'
      rw [wsPages, fresh.empty, List.map_nil] at none
      exact absurd none List.not_mem_nil

/-- The page file is in order. -/
def StoresPages (kernel : Kernel) : Prop :=
  ∃ managed free map, 0 ∉ managed ∧ Stores kernel managed free map

/-- Environments that page faults can serve, with tables and frames of their own. -/
structure Coexist (kernel : Kernel) (live : Set Nat) : Prop where
  storing : ∀ env ∈ live, Storing kernel env
  quiet : ∀ env ∈ live, kernel.Quiet env
  separate : ∀ env ∈ live, ∀ other ∈ live, other ≠ env → kernel.Separate env other
  stores : kernel.StoresPages
  faulted : ∀ env, kernel.lastFaultedEnv = some env → env ∈ live

namespace Confined

theorem storesPages (confined : Confined env before after) (stores : before.StoresPages) :
    after.StoresPages := by
  obtain ⟨managed, free, map, nonzero, stores⟩ := stores
  obtain ⟨free', map', stores', -⟩ := confined.stored managed free map nonzero stores
  exact ⟨managed, free', map', nonzero, stores'⟩

/-- The pages of another environment stay. -/
theorem pageEntry (confined : Confined env before after) (apart : before.TablesApart env other)
    (va : Nat) : (before.pageEntry other va).Fades (after.pageEntry other va) :=
  (confined.foreign other apart).2.2 va

theorem pagePresent (confined : Confined env before after) (apart : before.TablesApart env other)
    (va : Nat) : after.pagePresent other va = before.pagePresent other va := by
  rw [← pageEntry_present, (confined.pageEntry apart va).present, pageEntry_present]

/-- The contents of another environment stay. -/
theorem store (confined : Confined env before after) (stores : before.StoresPages)
    (separate : before.Separate env other) (different : other ≠ env) :
    after.store other = before.store other := by
  have apart := separate.tables
  obtain ⟨managed, free, map, nonzero, stores⟩ := stores
  obtain ⟨free', map', stores', same⟩ := confined.stored managed free _ nonzero stores.exact
  have envs := confined.others other different
  refine PagedStore.ext (funext fun page => ?_) (funext fun page => ?_) (funext fun page => ?_)
  · simp only [Kernel.store, confined.pagePresent apart]
    split
    · rename_i present
      rw [(confined.pageEntry apart page).frame,
        (confined.frames _ (separate.frames page present)).2]
    · rfl
  · exact (confined.pageEntry apart page).has (by decide)
  · by_cases unstored : (before.envs other).diskFrame page = 0
    · simp only [Kernel.store, envs, if_pos unstored]
    · have key : map' (other, page) =
          some (some (before.disk.frames ((before.envs other).diskFrame page))) := by
        rw [same _ different, heldFrame, if_neg unstored, Option.map_some]
      rw [stores'.stored_eq key]
      simp only [Kernel.store, if_neg unstored]

/-- Another environment runs on. -/
theorem running (confined : Confined env before after) (separate : before.Separate env other)
    (different : other ≠ env) (own : Running after env) (running : Running before other) :
    Running after other := by
  have apart := separate.tables
  have envs := confined.others other different
  obtain ⟨listed, ws⟩ := running.workingSet
  obtain ⟨listed', ws'⟩ := own.workingSet
  have pages : after.wsPages other = before.wsPages other := by
    rw [wsPages, wsPages, envs]
    exact List.map_congr_left fun element held =>
      confined.elements.2 element (ws.created element held)
  have mapped : Mapped after other (after.wsPages other) listed' := by
    rw [pages]
    refine ⟨own.orderly.separateTables other, ws.mapped.nodup, ws.mapped.user, fun va user => ?_,
      fun page held page' held' => ?_, ws'.mapped.represents, fun page held => ?_⟩
    · rw [confined.pagePresent apart]
      exact ws.mapped.present va user
    · rw [(confined.pageEntry apart page).frame, (confined.pageEntry apart page').frame]
      exact ws.mapped.owns page held page' held'
    · have user := ws.mapped.user page held
      have present := (ws.mapped.present page user.2).mpr (by rwa [user.roundDown_eq])
      rw [(confined.pageEntry apart page).frame]
      exact (confined.frames _ (separate.frames ⟨page, user⟩ present)).1.unlisted listed'
        ws'.mapped.represents
  refine ⟨own.orderly, ⟨listed', mapped, ?_, ?_⟩, own.active, own.replaces⟩
  · rw [envs]
    exact fun element held => Nat.lt_of_lt_of_le (ws.created element held) confined.elements.1
  · rw [envs]
    exact ws.fits

/-- Another environment can be served as before. -/
theorem storing (confined : Confined env before after) (stores : before.StoresPages)
    (separate : before.Separate env other) (different : other ≠ env) (own : Storing after env)
    (storing : Storing before other) : Storing after other := by
  have envs := confined.others other different
  have store := confined.store stores separate different
  obtain ⟨managed, free', map', nonzero, stores'⟩ := confined.storesPages stores
  refine ⟨confined.running separate different own.running storing.running, ?_,
    ⟨free', stores'.diskOwned nonzero other⟩, ?_, own.unbuffered, ?_, own.stamps⟩
  · rw [envs]
    exact storing.positive
  · rw [store]
    exact storing.covered
  · rw [confined.algorithm]
    unfold HandValid HandListed
    rw [envs]
    exact storing.hand

/-- The guard of repeated faults does not take another environment for the faulted one. -/
theorem quiet (confined : Confined env before after) (apart : before.TablesApart env other)
    (different : other ≠ env) (quiet : before.Quiet other) : after.Quiet other := by
  intro faulted
  rcases confined.guard with own | same
  · rw [own, Option.some.injEq] at faulted
    exact absurd faulted.symm different
  · rw [same.va, same.repeated, confined.pagePresent apart]
    rw [Memory.slot, Memory.getPageTable, (confined.foreign other apart).2.1]
    exact quiet (same.faulted.symm.trans faulted)

/-- Another environment stays separate. -/
theorem separate (confined : Confined env before after) (separate : before.Separate env other) :
    after.Separate env other where
  tables := (confined.foreign other separate.tables).1
  frames page present := by
    rw [confined.pagePresent separate.tables] at present
    rw [(confined.pageEntry separate.tables page).frame]
    exact (confined.frames _ (separate.frames page present)).1

/-- Two other environments stay separate. -/
theorem separate_others {first second : Nat} (confined : Confined env before after)
    (own : first ≠ env) (own' : second ≠ env) (apart : before.Separate env first)
    (apart' : before.Separate env second) (separate : before.Separate first second) :
    after.Separate first second where
  tables := by
    have tables := separate.tables
    have directory := congrArg Env.envPageDirectory (confined.others first own)
    have directory' := congrArg Env.envPageDirectory (confined.others second own')
    refine ⟨fun same => tables.1 (directory'.symm.trans (same.trans directory)), ?_⟩
    rw [(confined.foreign first apart.tables).2.1, (confined.foreign second apart'.tables).2.1]
    exact tables.2
  frames page present := by
    have unlisted := ((confined.separate apart').frames page present).unlisted
    rw [confined.pagePresent apart'.tables] at present
    rw [(confined.pageEntry apart'.tables page).frame] at unlisted ⊢
    refine ⟨unlisted, fun page' shown => ?_⟩
    rw [confined.pagePresent apart.tables] at shown
    rw [(confined.pageEntry apart.tables page').frame]
    exact (separate.frames page present).unmapped page' shown

/-- **A confined step.** The environments coexist after a step of one of them, or of a new one, that
keeps what page faults expect of it. -/
theorem coexist (confined : Confined env before after) (coexist : before.Coexist live)
    (separate : ∀ other ∈ live, other ≠ env → before.Separate env other)
    (storing : Storing after env) (quiet : after.Quiet env) : after.Coexist (insert env live) := by
  have other : ∀ other ∈ insert env live, other ≠ env → other ∈ live :=
    fun _ member different => member.resolve_left different
  refine ⟨fun first held => ?_, fun first held => ?_, fun first held second held' different => ?_,
    confined.storesPages coexist.stores, fun first faulted => ?_⟩
  · by_cases own : first = env
    · rwa [own]
    · have held := other first held own
      exact confined.storing coexist.stores (separate first held own) own storing
        (coexist.storing first held)
  · by_cases own : first = env
    · rwa [own]
    · have held := other first held own
      exact confined.quiet (separate first held own).tables own (coexist.quiet first held)
  · by_cases own : first = env
    · rw [own] at different ⊢
      exact confined.separate (separate second (other second held' different) different)
    · have held := other first held own
      have apart := separate first held own
      by_cases own' : second = env
      · rw [own']
        exact (confined.separate apart).symm storing.running
      · have held' := other second held' own'
        exact confined.separate_others own own' apart (separate second held' own')
          (coexist.separate first held second held' different)
  · rcases confined.guard with noted | same
    · rw [noted, Option.some.injEq] at faulted
      exact .inl faulted.symm
    · exact .inr (coexist.faulted first (same.faulted.symm.trans faulted))

/-- Loading a program is confined to its environment. -/
theorem of_loadProgram {activeListSize : Nat} {progName : String} {segments : List ProgramSegment}
    {next : Loading} (fresh : Fresh before env) (loadable : ProgramSegment.Loadable segments)
    (returned : before.loadProgram env activeListSize progName segments = .ok next) :
    Confined env before next.kernel ∧ SameGuard before next.kernel := by
  obtain ⟨free, ws⟩ := fresh.running.workingSet
  have loads : ∀ managed diskFree map, 0 ∉ managed → Stores before managed diskFree map →
      ∃ pages rest, LoadsProgram env managed map before free segments next.kernel pages rest :=
    fun _ _ _ nonzero stores => (loadProgram_ends fresh.running ws fresh.empty fresh.positive
      fresh.word nonzero stores loadable).of_ok returned
  have stored : KeepsStored env before next.kernel := by
    intro managed diskFree map nonzero stores
    obtain ⟨pages, rest, loads⟩ := loads managed diskFree map nonzero stores
    obtain ⟨free', map', stores', same⟩ := loads.stores
    refine ⟨free', map', stores', fun key foreign => ?_⟩
    rw [same key fun stack => foreign (congrArg Prod.fst stack),
      PageMap.addSegments_of_ne map segments foreign]
  obtain ⟨managed, diskFree, map, nonzero, stores⟩ := fresh.stores
  obtain ⟨pages, rest, loads⟩ := loads managed diskFree map nonzero stores
  have places := loads.places
  have leaves := places.leaves
  have empty : before.wsPages env = [] := by rw [wsPages, fresh.empty, List.map_nil]
  refine ⟨⟨leaves.others, leaves.foreign.fades, fun frame beyond => ?_, stored,
    ⟨leaves.elements.1, fun element old => ?_⟩, leaves.algorithm, leaves.active,
    leaves.guard.buffering, .inr leaves.guard⟩, leaves.guard⟩
  · have outside := beyond.unlisted free ws.mapped.represents
    refine ⟨⟨fun listed represents => ?_, fun page present => ?_⟩,
      loads.others frame outside⟩
    · rw [represents.unique places.workingSet.mapped.represents]
      exact fun inside => outside (places.taken.subset inside)
    · rw [places.workingSet.mapped.present _ page.2.2, page.2.roundDown_eq, places.wsPages, empty,
        List.nil_append] at present
      obtain ⟨taken, member, entry⟩ := places.entries page present
      rw [entry]
      exact fun same => outside (same ▸ member)
  · rw [elementVa, elementVa, leaves.elements.2 element old]

end Confined

end Kernel

end FosKernel
