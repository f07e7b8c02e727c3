import FosKernel.Trap.OptimalRuns

/-!
# Two environments under OPTIMAL

The active working set is one for the whole kernel. A fault of another environment
writes no entry of an environment and records nothing in its reference stream. Its
later faults go as they would without the other's, if these leave the active working
set as it is.
-/

namespace FosKernel

namespace Kernel

variable {kernel left right before after : Kernel} {own other env va fuel : Nat} {slot : Slot}

/-- Two environments with page tables of their own for user pages. -/
structure Apart (kernel : Kernel) (own other : Nat) : Prop where
  distinct : kernel.directory own ≠ kernel.directory other
  tables : ∀ va va', va < userTop → va' < userTop → ∀ slot,
    kernel.memory.slot (kernel.directory own) va = some slot →
      kernel.memory.slot (kernel.directory other) va' ≠ some slot

namespace Apart

theorem symm (apart : kernel.Apart own other) : kernel.Apart other own :=
  ⟨apart.distinct.symm, fun va va' user user' slot held held' =>
    apart.tables va' va user' user slot held' held⟩

theorem ne (apart : kernel.Apart own other) : own ≠ other := fun same =>
  apart.distinct (congrArg kernel.directory same)

theorem congr (apart : before.Apart own other)
    (directories : after.memory.directories = before.memory.directories)
    (directory : ∀ env, after.directory env = before.directory env) : after.Apart own other where
  distinct := by
    rw [directory, directory]
    exact apart.distinct
  tables := by
    simp only [directory, Memory.slot_congr directories]
    exact apart.tables

/-- A new page table of one environment leaves the page tables of the other one alone. -/
theorem slot_createPageTable (apart : kernel.Apart own other) (va page : Nat) :
    (kernel.createPageTable other va).memory.slot ((kernel.createPageTable other va).directory own)
      page = kernel.memory.slot (kernel.directory own) page := by
  have same : (kernel.createPageTable other va).memory.directories (kernel.directory own) =
      kernel.memory.directories (kernel.directory own) := Function.update_of_ne apart.distinct ..
  unfold Memory.slot Memory.getPageTable
  change ((kernel.createPageTable other va).memory.directories (kernel.directory own) _).map _ = _
  rw [same]

theorem pageEntry_createPageTable (apart : kernel.Apart own other) (orderly : kernel.Orderly)
    (va page : Nat) :
    (kernel.createPageTable other va).pageEntry own page = kernel.pageEntry own page := by
  unfold pageEntry Memory.entry
  rw [apart.slot_createPageTable]
  cases located : kernel.memory.slot (kernel.directory own) page with
  | none => rfl
  | some slot =>
      obtain ⟨table, held, rfl⟩ := Option.map_eq_some_iff.mp located
      have old : (table, ptx page).1 ≠ kernel.nextTable := Nat.ne_of_lt (orderly.fresh _ _ _ held)
      exact congrArg (fun entry => (some entry).getD .zero) (if_neg old)

theorem createPageTable (apart : kernel.Apart own other) (orderly : kernel.Orderly) (va : Nat) :
    (kernel.createPageTable other va).Apart own other where
  distinct := apart.distinct
  tables page page' user user' slot held held' := by
    rw [apart.slot_createPageTable] at held
    rw [Memory.slot, Memory.getPageTable] at held'
    have tables : (kernel.createPageTable other va).memory.directories
        ((kernel.createPageTable other va).directory other) =
          Function.update (kernel.memory.directories (kernel.directory other)) (pdx va)
            (some kernel.nextTable) := Function.update_self ..
    rw [tables] at held'
    by_cases region : pdx page' = pdx va
    · rw [region, Function.update_self, Option.map_some, Option.some.injEq] at held'
      obtain ⟨table, old, rfl⟩ := Option.map_eq_some_iff.mp held
      exact Nat.ne_of_lt (orderly.fresh _ _ _ old) (congrArg Prod.fst held').symm
    · rw [Function.update_of_ne region] at held'
      exact apart.tables page page' user user' slot held held'

end Apart

/-- What a fault of another environment does to an environment and to what both share. -/
structure Foreign (own : Nat) (before after : Kernel) : Prop where
  algorithm : after.pageRepAlgoType = before.pageRepAlgoType
  buffering : after.enableBuffering = before.enableBuffering
  created : after.ActiveCreated
  kept : ∀ element < before.nextElement, after.elements element = before.elements element
  more : before.nextElement ≤ after.nextElement
  envEq : after.envs own = before.envs own
  slots : ∀ va, after.memory.slot (after.directory own) va =
    before.memory.slot (before.directory own) va
  entries : ∀ page : UserPage, after.pageEntry own page = before.pageEntry own page
  free : ∀ free, before.memory.freeFrameList.Represents free → ∃ dropped free',
    free = dropped ++ free' ∧ after.memory.freeFrameList.Represents free'

/-- A foreign fault that leaves the active working set alone is no change for the environment. -/
theorem Foreign.steady (foreign : Foreign own before after) (orderly : after.Orderly)
    (effective : after.effectiveVas own = before.effectiveVas own)
    (reserved : ∃ free, before.memory.freeFrameList.Represents free ∧ 0 ∉ free) :
    Steady own before after where
  orderly := orderly
  algorithm := foreign.algorithm
  created := foreign.created
  kept := foreign.kept
  more := foreign.more
  effective := effective
  envEq := foreign.envEq
  located va held := by rwa [foreign.slots]
  reserved := by
    obtain ⟨free, represents, absent⟩ := reserved
    obtain ⟨dropped, free', rfl, represents'⟩ := foreign.free free represents
    exact ⟨free', represents', fun listed => absent (List.mem_append_right _ listed)⟩
  present page := by rw [foreign.entries]
  frame page := by rw [foreign.entries]
  available page _ _ := by rw [foreign.entries]

theorem Apart.foreign_createPageTable (apart : kernel.Apart own other) (orderly : kernel.Orderly)
    (created : kernel.ActiveCreated) (va : Nat) :
    Foreign own kernel ((kernel.notedFault other va).createPageTable other va) := by
  have apart' : (kernel.notedFault other va).Apart own other := ⟨apart.distinct, apart.tables⟩
  exact ⟨rfl, rfl, created, fun _ _ => rfl, Nat.le_refl _, rfl, apart'.slot_createPageTable va,
    fun page => apart'.pageEntry_createPageTable (notedFault_orderly orderly) va page,
    fun free represents => ⟨[], free, rfl, represents⟩⟩

/-- A page that enters for another environment. -/
theorem Entered.foreign {entry : PageTableEntry} {memory : Memory}
    (entered : Entered (kernel.notedFault other va) other va slot entry memory after)
    (apart : kernel.Apart own other) (user : va < userTop)
    (users : ∀ active ∈ kernel.effectiveVas other, IsUserPage active)
    (located : kernel.memory.slot (kernel.directory other) va = some slot) :
    Foreign own kernel after := by
  have slots := entered.slot_eq own
  refine ⟨?_, ?_, entered.created, entered.kept, entered.more, entered.envs_of_ne apart.ne, slots,
    fun page => ?_, fun free represents => ?_⟩
  · obtain ⟨_, _, _, _, _, same⟩ := entered.shape
    rw [same]
    rfl
  · obtain ⟨_, _, _, _, _, same⟩ := entered.shape
    rw [same]
    rfl
  · cases held : kernel.memory.slot (kernel.directory own) page with
    | none =>
        unfold Kernel.pageEntry Memory.entry
        rw [slots, show (kernel.notedFault other va).memory.slot
          ((kernel.notedFault other va).directory
          own) page = none from held, held]
        rfl
    | some place =>
        have kept : ¬ (kernel.notedFault other va).Resets other va place := by
          rintro ⟨-, -, active, listed, same⟩
          exact apart.tables page active page.2.2 (users active listed).2 place held same
        have different : place ≠ slot := by
          rintro rfl
          exact apart.tables page va page.2.2 user place held located
        rw [pageEntry_eq held, pageEntry_eq ((slots page).trans held), entered.rest place kept,
          entered.presents.tables]
        exact Function.update_of_ne different ..
  · rw [entered.freeFrameList]
    cases held : (kernel.memory.tables slot).holdsFrame with
    | true =>
        rw [(entered.presents.kept held).2.2]
        exact ⟨[], free, rfl, represents⟩
    | false =>
        obtain ⟨rest, rfl, represents'⟩ := entered.presents.taken held free represents
        exact ⟨[entry.frame], rest, rfl, represents'⟩

/-- The pages of a working set when the page of a fault enters it as under OPTIMAL. -/
def joinedVas (kernel : Kernel) (env va : Nat) : List Nat :=
  if roundDown va pageSize ∈ kernel.wsPages env then kernel.wsPages env
  else if (kernel.wsPages env).length = (kernel.envs env).pageWsMaxSize then [roundDown va pageSize]
  else kernel.wsPages env ++ [roundDown va pageSize]

/-- The fault of another environment leaves the active working set alone: it creates a page table,
its page is active already, or at the first fault under OPTIMAL the other's working set becomes the
environment's own. -/
def Harmless (kernel : Kernel) (own other va : Nat) : Prop :=
  kernel.memory.slot (kernel.directory other) va = none ∨
    if kernel.optimalInitialized then roundDown va pageSize ∈ kernel.activeVas
    else kernel.joinedVas other va = kernel.wsPages own

theorem Entered.effective_of_harmless {entry : PageTableEntry} {memory : Memory}
    (entered : Entered (kernel.notedFault other va) other va slot entry memory after)
    (located : kernel.memory.slot (kernel.directory other) va = some slot)
    (harmless : kernel.Harmless own other va) :
        after.effectiveVas own = kernel.effectiveVas own := by
  have initialized : after.optimalInitialized = true := by
    obtain ⟨_, _, _, _, _, same⟩ := entered.shape
    rw [same]
  have active := entered.active
  rw [effectiveVas, if_pos initialized, active]
  unfold Harmless at harmless
  rw [located, or_iff_right (Option.some_ne_none slot)] at harmless
  unfold effectiveVas
  change (if roundDown va pageSize ∈ (if kernel.optimalInitialized then kernel.activeVas
      else kernel.wsPages other) then (if kernel.optimalInitialized then kernel.activeVas
      else kernel.wsPages other)
    else if (if kernel.optimalInitialized then kernel.activeVas else kernel.wsPages other).length =
        (kernel.envs other).pageWsMaxSize then [roundDown va pageSize]
    else (if kernel.optimalInitialized then kernel.activeVas else kernel.wsPages other) ++
      [roundDown va pageSize]) =
    if kernel.optimalInitialized then kernel.activeVas else kernel.wsPages own
  cases earlier : kernel.optimalInitialized with
  | true =>
      rw [earlier, if_pos rfl] at harmless
      simp only [if_true, if_pos harmless]
  | false =>
      rw [earlier, if_neg Bool.false_ne_true] at harmless
      simp only [Bool.false_eq_true, if_false]
      exact harmless

theorem effectiveVas_isUserPage (orderly : kernel.Orderly)
    (known : ∀ element ∈ (kernel.envs env).pageWsList,
      element < kernel.nextElement ∧ IsUserPage (kernel.elementVa element)) :
    ∀ active ∈ kernel.effectiveVas env, IsUserPage active := by
  intro active listed
  unfold effectiveVas at listed
  split at listed
  · obtain ⟨element, member, rfl⟩ := List.mem_map.mp listed
    exact orderly.activePages element member
  · obtain ⟨element, member, rfl⟩ := List.mem_map.mp listed
    exact (known element member).2

/-- A kernel that served the faults of both environments beside one that served only those of the
first. -/
structure Aligned (own other : Nat) (left right : Kernel) : Prop where
  optimal : Optimal left own
  optimal' : Optimal right own
  unbuffered : left.enableBuffering = false
  unbuffered' : right.enableBuffering = false
  guarded : right.Guarded own
  apart : left.Apart own other
  known : ∀ element ∈ (left.envs other).pageWsList,
    element < left.nextElement ∧ IsUserPage (left.elementVa element)
  same : ∃ stream, right.envs own = { left.envs own with referenceStreamList := stream }
  state : ∃ state, Views left own state ∧ Views right own state
  available : ∀ page : UserPage, ∀ mask, permAvailable &&& mask = mask →
    Perm.has (right.pageEntry own page).perm mask = Perm.has (left.pageEntry own page).perm mask
  tables : ∀ va, (right.memory.slot (right.directory own) va).isSome =
    (left.memory.slot (left.directory own) va).isSome
  room : ∃ free free', left.memory.freeFrameList.Represents free ∧
    right.memory.freeFrameList.Represents free' ∧ free.length ≤ free'.length

/-- The environment has the same pages present and the same reference stream. -/
def SameEffect (own : Nat) (left right : Kernel) : Prop :=
  (∀ page : UserPage, right.pagePresent own page = left.pagePresent own page) ∧
    (right.envs own).referenceStreamList = (left.envs own).referenceStreamList

theorem createPageTable_isSome (kernel : Kernel) (env va page : Nat) :
    ((kernel.createPageTable env va).memory.slot ((kernel.createPageTable env va).directory env)
      page).isSome = true ↔ pdx page = pdx va ∨
        (kernel.memory.slot (kernel.directory env) page).isSome = true := by
  have tables : (kernel.createPageTable env va).memory.directories
      ((kernel.createPageTable env va).directory env) =
        Function.update (kernel.memory.directories (kernel.directory env)) (pdx va)
          (some kernel.nextTable) := Function.update_self ..
  unfold Memory.slot Memory.getPageTable
  rw [tables]
  by_cases region : pdx page = pdx va
  · simp [region]
  · rw [Function.update_of_ne region, or_iff_right region]

namespace Aligned

variable (aligned : Aligned own other left right)

include aligned

theorem sameEffect : SameEffect own left right := by
  obtain ⟨state, views, views'⟩ := aligned.state
  refine ⟨fun page => ?_, ?_⟩
  · rw [Bool.eq_iff_iff, views.present, views'.present]
  · have same := views'.stream.trans views.stream.symm
    refine List.map_injective_iff.mpr ?_ same
    rintro ⟨va⟩ ⟨va'⟩ equal
    exact congrArg PageRefElement.mk equal

theorem accessible (accessible : left.Accessible own va) : right.Accessible own va where
  below := accessible.below
  marked start stop := by
    have same := aligned.available (.of va accessible.user) permUHPage (by decide)
    rw [UserPage.of, pageEntry_roundDown, pageEntry_roundDown] at same
    rw [same]
    exact accessible.marked start stop
  loadable := by
    obtain ⟨stream, same⟩ := aligned.same
    rw [same]
    exact accessible.loadable

theorem absent (user : va < userTop) (absent : left.pagePresent own va = false) :
    right.pagePresent own va = false := by
  have same := aligned.sameEffect.1 (.of va user)
  rwa [UserPage.of, pagePresent_roundDown, pagePresent_roundDown, absent] at same

/-- The page table of a fault of the environment is created in both kernels. -/
theorem ownTable (accessible : left.Accessible own va) (absent : left.pagePresent own va = false)
    (missing : left.memory.slot (left.directory own) va = none) :
    ∃ right', right.faultHandler own va fuel = .ok right' ∧
      Aligned own other ((left.notedFault own va).createPageTable own va) right' := by
  have missing' : right.memory.slot (right.directory own) va = none := by
    have same := aligned.tables va
    rwa [missing, Option.isSome_none, Option.isSome_eq_false_iff, Option.isNone_iff_eq_none] at same
  have absent' := aligned.absent accessible.user absent
  have handled := faultHandler_of_accessible (aligned.guarded.unrepeated absent')
    aligned.unbuffered'
    absent' (aligned.accessible accessible) fuel
  rw [missing', Option.isSome_none, if_neg Bool.false_ne_true] at handled
  have steady := @Steady.createPageTable _ _ va (aligned.optimal.notedFault va) missing
  have steady' := @Steady.createPageTable _ _ va (aligned.optimal'.notedFault va) missing'
  obtain ⟨state, views, views'⟩ := aligned.state
  have noted : (left.notedFault own va).Apart own other :=
    ⟨aligned.apart.distinct, aligned.apart.tables⟩
  refine ⟨_, handled, ⟨steady.optimal (aligned.optimal.notedFault va),
    steady'.optimal (aligned.optimal'.notedFault va), aligned.unbuffered, aligned.unbuffered',
    aligned.guarded.createPageTable accessible.user absent' missing',
    (noted.symm.createPageTable (notedFault_orderly aligned.optimal.orderly) va).symm,
      aligned.known,
    aligned.same, ⟨state, steady.views (views.notedFault va),
      steady'.views (views'.notedFault va)⟩,
    fun page mask inside => ?_, fun page => ?_, aligned.room⟩⟩
  · rw [steady.available page mask inside, steady'.available page mask inside]
    exact aligned.available page mask inside
  · rw [Bool.eq_iff_iff, createPageTable_isSome, createPageTable_isSome]
    exact or_congr_right (Bool.eq_iff_iff.mp (aligned.tables page))

/-- A page of the environment enters in both kernels. -/
theorem ownEntered {left' : Kernel} {entry : PageTableEntry} {memory : Memory}
    (accessible : left.Accessible own va) (absent : left.pagePresent own va = false)
    (located : left.memory.slot (left.directory own) va = some slot)
    (entered : Entered (left.notedFault own va) own va slot entry memory left')
    (positive : 0 < fuel) :
    ∃ right', right.faultHandler own va fuel = .ok right' ∧ Aligned own other left' right' := by
  have user := accessible.user
  have absent' := aligned.absent user absent
  obtain ⟨slot', located'⟩ : ∃ slot', right.memory.slot (right.directory own) va =
      some slot' := by
    have same := aligned.tables va
    rw [located, Option.isSome_some] at same
    exact Option.isSome_iff_exists.mp same
  obtain ⟨state, views, views'⟩ := aligned.state
  obtain ⟨stream, sameEnv⟩ := aligned.same
  -- Both kernels hold a frame for the page, or neither does.
  have held : (right.memory.tables slot').holdsFrame = (left.memory.tables slot).holdsFrame := by
    have resident := (views'.resident (.of va user)).trans (views.resident (.of va user)).symm
    rw [UserPage.of, pageEntry_roundDown, pageEntry_roundDown, pageEntry_eq located,
      pageEntry_eq located'] at resident
    exact Bool.eq_iff_iff.mpr resident
  obtain ⟨free, free', represents, represents', room⟩ := aligned.room
  have spec : Ends (right.faultHandler own va fuel)
      (fun after => ∃ entry memory,
        Entered (right.notedFault own va) own va slot' entry memory after)
      fun _ => False := by
    obtain ⟨fuel, rfl⟩ := Nat.exists_eq_succ_of_ne_zero (Nat.ne_of_gt positive)
    refine (aligned.optimal'.faultHandler_spec aligned.unbuffered'
      (aligned.guarded.unrepeated absent') (aligned.accessible accessible) absent' located'
        fuel).mono (fun _ holds => holds) ?_
    rintro halt ⟨-, exhausted, unheld⟩
    rw [held] at unheld
    obtain ⟨rest, rfl, -⟩ := entered.presents.taken unheld free represents
    have empty : free' = [] := by
      cases free' with
      | nil => rfl
      | cons head tail =>
          rw [represents'.first_eq] at exhausted
          cases exhausted
    rw [empty] at room
    exact absurd room (Nat.not_succ_le_zero _)
  cases handled : right.faultHandler own va fuel with
  | error halt =>
      rw [handled] at spec
      exact spec.elim
  | ok right' =>
      obtain ⟨entry', memory', entered'⟩ := spec.of_ok handled
      have optimal := aligned.optimal.notedFault va
      have optimal' := aligned.optimal'.notedFault va
      obtain ⟨recorded, env⟩ := entered.env_eq
      obtain ⟨recorded', env'⟩ := entered'.env_eq
      have unbuffered : left'.enableBuffering = false := by
        obtain ⟨_, _, _, _, _, same⟩ := entered.shape
        rw [same]
        exact aligned.unbuffered
      have unbuffered' : right'.enableBuffering = false := by
        obtain ⟨_, _, _, _, _, same⟩ := entered'.shape
        rw [same]
        exact aligned.unbuffered'
      have tableAbsent : (left.memory.tables slot).present = false :=
        (pagePresent_eq located).symm.trans absent
      have tableAbsent' : (right.memory.tables slot').present = false :=
        (pagePresent_eq located').symm.trans absent'
      have size : (right.envs own).pageWsMaxSize = (left.envs own).pageWsMaxSize := by rw [sameEnv]
      have next' := entered'.views (views'.notedFault va) optimal' user located'
      rw [show ((right.notedFault own va).envs own).pageWsMaxSize =
        ((left.notedFault own va).envs own).pageWsMaxSize from size] at next'
      refine ⟨right', rfl, entered.optimal optimal user located tableAbsent,
        entered'.optimal optimal' user located' tableAbsent', unbuffered, unbuffered',
        entered'.guarded aligned.optimal' user located',
        aligned.apart.congr entered.directories entered.directory_eq, ?_, ⟨recorded', ?_⟩,
        ⟨_, entered.views (views.notedFault va) optimal user located, next'⟩,
        fun page mask inside => ?_, fun page => ?_, ?_⟩
      · rw [entered.envs_of_ne aligned.apart.ne.symm]
        intro element member
        obtain ⟨old, page⟩ := aligned.known element member
        refine ⟨Nat.lt_of_lt_of_le old entered.more, ?_⟩
        rw [elementVa, entered.kept element old]
        exact page
      · rw [env, env']
        change { right.envs own with referenceStreamList := recorded' } =
          { left.envs own with referenceStreamList := recorded' }
        rw [sameEnv]
      · rw [entered.available optimal user located page inside,
          entered'.available optimal' user located' page inside]
        exact aligned.available page mask inside
      · rw [entered.slot_eq, entered'.slot_eq]
        exact aligned.tables page
      · rw [entered.freeFrameList, entered'.freeFrameList]
        cases frame : (left.memory.tables slot).holdsFrame with
        | true =>
            rw [frame] at held
            rw [(entered.presents.kept frame).2.2, (entered'.presents.kept held).2.2]
            exact ⟨free, free', represents, represents', room⟩
        | false =>
            rw [frame] at held
            obtain ⟨rest, rfl, left⟩ := entered.presents.taken frame free represents
            obtain ⟨rest', rfl, left'⟩ := entered'.presents.taken held free' represents'
            exact ⟨rest, rest', left, left', Nat.le_of_succ_le_succ room⟩

/-- A fault of the environment that the first kernel serves is served in the second one too. -/
theorem ownFault {left' : Kernel} (accessible : left.Accessible own va)
    (absent : left.pagePresent own va = false)
    (handled : left.faultHandler own va fuel = .ok left') :
    ∃ right', right.faultHandler own va fuel = .ok right' ∧ Aligned own other left' right' := by
  rcases faultHandler_optimal_cases aligned.optimal.algorithm aligned.unbuffered
    aligned.optimal.created aligned.optimal.known accessible absent handled with
    ⟨missing, rfl⟩ | ⟨slot, entry, memory, located, entered, positive⟩
  · exact aligned.ownTable accessible absent missing
  · exact aligned.ownEntered accessible absent located entered positive

/-- A fault of the other environment writes nothing of the environment. -/
theorem foreign {left' : Kernel} (accessible : left.Accessible other va)
    (absent : left.pagePresent other va = false)
    (handled : left.faultHandler other va fuel = .ok left') : Foreign own left left' := by
  rcases faultHandler_optimal_cases aligned.optimal.algorithm aligned.unbuffered
    aligned.optimal.created aligned.known accessible absent handled with
    ⟨-, rfl⟩ | ⟨slot, entry, memory, located, entered, -⟩
  · exact aligned.apart.foreign_createPageTable aligned.optimal.orderly aligned.optimal.created va
  · exact entered.foreign aligned.apart accessible.user
      (effectiveVas_isUserPage aligned.optimal.orderly aligned.known) located

/-- A harmless fault of the other environment keeps the kernels aligned. -/
theorem otherFault {left' : Kernel} (accessible : left.Accessible other va)
    (absent : left.pagePresent other va = false) (harmless : left.Harmless own other va)
    (handled : left.faultHandler other va fuel = .ok left') : Aligned own other left' right := by
  have foreign := aligned.foreign accessible absent handled
  have orderly := (faultHandler_orderly left other va fuel aligned.optimal.orderly).of_ok handled
  have shared : left'.effectiveVas own = left.effectiveVas own ∧ left'.Apart own other ∧
      ∃ stream, left'.envs other = { left.envs other with referenceStreamList := stream } := by
    rcases faultHandler_optimal_cases aligned.optimal.algorithm aligned.unbuffered
      aligned.optimal.created aligned.known accessible absent handled with
      ⟨-, rfl⟩ | ⟨slot, entry, memory, located, entered, -⟩
    · have noted : (left.notedFault other va).Apart own other :=
        ⟨aligned.apart.distinct, aligned.apart.tables⟩
      exact ⟨rfl, noted.createPageTable (notedFault_orderly aligned.optimal.orderly) va, _, rfl⟩
    · exact ⟨entered.effective_of_harmless located harmless,
        aligned.apart.congr entered.directories entered.directory_eq, entered.env_eq⟩
  obtain ⟨effective, apart, stream, sameEnv⟩ := shared
  have steady := foreign.steady orderly effective aligned.optimal.reserved
  obtain ⟨state, views, views'⟩ := aligned.state
  refine ⟨steady.optimal aligned.optimal, aligned.optimal',
    foreign.buffering.trans aligned.unbuffered,
    aligned.unbuffered', aligned.guarded, apart, ?_, ?_, ⟨state, steady.views views, views'⟩,
    fun page mask inside => ?_, fun page => ?_, ?_⟩
  · rw [sameEnv]
    intro element member
    obtain ⟨old, page⟩ := aligned.known element member
    refine ⟨Nat.lt_of_lt_of_le old foreign.more, ?_⟩
    rw [elementVa, foreign.kept element old]
    exact page
  · rw [foreign.envEq]
    exact aligned.same
  · rw [foreign.entries]
    exact aligned.available page mask inside
  · rw [foreign.slots]
    exact aligned.tables page
  · obtain ⟨free, free', represents, represents', room⟩ := aligned.room
    obtain ⟨dropped, rest, rfl, rest'⟩ := foreign.free free represents
    rw [List.length_append] at room
    exact ⟨rest, free', rest', represents', Nat.le_trans (Nat.le_add_left ..) room⟩

end Aligned

/-- A legal fault of one of two environments in a kernel, beside a kernel that only serves the
faults of the first one. Faults of the other one satisfy a condition. -/
inductive Interleaved (own other : Nat) (allowed : Kernel → Nat → Prop) :
    Kernel × Kernel → Kernel × Kernel → Prop
  | own {left right left' right' : Kernel} (va fuel : Nat) (accessible : left.Accessible own va)
      (absent : left.pagePresent own va = false)
      (handled : left.faultHandler own va fuel = .ok left')
      (handled' : right.faultHandler own va fuel = .ok right') :
      Interleaved own other allowed (left, right) (left', right')
  | other {left right left' : Kernel} (va fuel : Nat) (accessible : left.Accessible other va)
      (absent : left.pagePresent other va = false) (met : allowed left va)
      (handled : left.faultHandler other va fuel = .ok left') :
      Interleaved own other allowed (left, right) (left', right)

/-- The other environment's faults show nowhere: the environment has the same pages present and the
same reference stream, its next fault has the same effect, and a fault of the other environment
changes no entry of its pages and not its reference stream. -/
structure Undisturbed (own other : Nat) (left right : Kernel) : Prop where
  same : SameEffect own left right
  ownFault : ∀ va fuel left', left.Accessible own va → left.pagePresent own va = false →
    left.faultHandler own va fuel = .ok left' →
      ∃ right', right.faultHandler own va fuel = .ok right' ∧ SameEffect own left' right'
  otherFault : ∀ va fuel left', left.Accessible other va → left.pagePresent other va = false →
    left.faultHandler other va fuel = .ok left' →
      (∀ page : UserPage, left'.pageEntry own page = left.pageEntry own page) ∧
        (left'.envs own).referenceStreamList = (left.envs own).referenceStreamList

/-- Two environments under OPTIMAL with page tables of their own. -/
structure Paired (kernel : Kernel) (own other : Nat) : Prop where
  optimal : Optimal kernel own
  unbuffered : kernel.enableBuffering = false
  guarded : kernel.Guarded own
  apart : kernel.Apart own other
  known : ∀ element ∈ (kernel.envs other).pageWsList,
    element < kernel.nextElement ∧ IsUserPage (kernel.elementVa element)
  streamed : ∀ ref ∈ (kernel.envs own).referenceStreamList, IsUserPage ref.virtualAddress

/-- An environment's own view in terms of its user pages. -/
theorem Paired.aligned (paired : Paired kernel own other) : Aligned own other kernel kernel := by
  obtain ⟨free, represents, -⟩ := paired.optimal.reserved
  have user := effectiveVas_isUserPage paired.optimal.orderly paired.optimal.known
  have streamed : ∀ va ∈ (kernel.envs own).referenceStreamList.map
    PageRefElement.virtualAddress,
      IsUserPage va := by
    intro va listed
    obtain ⟨ref, member, rfl⟩ := List.mem_map.mp listed
    exact paired.streamed ref member
  have views : Views kernel own ⟨(kernel.effectiveVas own).attachWith IsUserPage user,
      {page | kernel.pagePresent own page = true},
        {page | (kernel.pageEntry own page).holdsFrame = true},
      ((kernel.envs own).referenceStreamList.map
        PageRefElement.virtualAddress).attachWith IsUserPage
        streamed⟩ := by
    refine ⟨?_, fun _ => .rfl, fun _ => .rfl, ?_⟩
    · rw [List.attachWith_map_subtype_val]
    · rw [List.attachWith_map_subtype_val]
  exact ⟨paired.optimal, paired.optimal, paired.unbuffered, paired.unbuffered, paired.guarded,
    paired.apart, paired.known, ⟨_, rfl⟩, ⟨_, views, views⟩, fun _ _ _ => rfl, fun _ => rfl,
    ⟨free, free, represents, represents, Nat.le_refl _⟩⟩

/-- In every run whose foreign faults leave the active working set alone, the environment is as in
the run without them. -/
theorem undisturbed_of_run (start left right : Kernel) (own other : Nat)
    (paired : Paired start own other)
    (run : Relation.ReflTransGen (Interleaved own other fun kernel => kernel.Harmless own other)
      (start, start) (left, right)) : Undisturbed own other left right := by
  have reached : ∀ state : Kernel × Kernel, Relation.ReflTransGen
      (Interleaved own other fun kernel => kernel.Harmless own other) (start, start) state →
        Aligned own other state.1 state.2 := by
    intro state run
    induction run with
    | refl => exact paired.aligned
    | tail _ move ih =>
        cases move with
        | own va fuel accessible absent handled handled' =>
            obtain ⟨after, same, aligned⟩ := ih.ownFault accessible absent handled
            obtain rfl := Except.ok.inj (same.symm.trans handled')
            exact aligned
        | other va fuel accessible absent harmless handled =>
            exact ih.otherFault accessible absent harmless handled
  have aligned := reached _ run
  refine ⟨aligned.sameEffect, fun va fuel left' accessible absent handled => ?_,
    fun va fuel left' accessible absent handled => ?_⟩
  · obtain ⟨right', handled', aligned'⟩ := aligned.ownFault accessible absent handled
    exact ⟨right', handled', aligned'.sameEffect⟩
  · have foreign := aligned.foreign accessible absent handled
    exact ⟨foreign.entries, by rw [foreign.envEq]⟩

theorem blank_paired {size : Nat} (positive : 0 < size) : Paired (blank .optimal size) 0 1 where
  optimal := (blank_optimalStart positive 0).inv.optimal
  unbuffered := rfl
  guarded := nofun
  apart := by
    refine ⟨Nat.zero_ne_one, fun va va' _ _ slot held held' => ?_⟩
    obtain ⟨table, first, rfl⟩ := Option.map_eq_some_iff.mp held
    obtain ⟨table', second, same⟩ := Option.map_eq_some_iff.mp held'
    obtain rfl : table' = table := congrArg Prod.fst same
    simp only [Memory.getPageTable, blank, directory, List.foldl_cons, List.foldl_nil,
      Memory.freeFrame_directories, Option.ite_none_right_eq_some,
        Option.some.injEq] at first second
    omega
  known := nofun
  streamed := nofun

/-- Both environments fault on the same stack page, which is active after the first fault. -/
theorem undisturbed_of_run_blank : ∃ first second,
    (blank .optimal 1).faultHandler 0 0xEEBFD000 1 = .ok first ∧
      first.faultHandler 1 0xEEBFD000 1 = .ok second ∧ Undisturbed 0 1 second first := by
  obtain ⟨first, handled, observed⟩ := Returns.exists (show Returns
    ((blank .optimal 1).faultHandler 0 0xEEBFD000 1) (fun first =>
      !first.pagePresent 1 0xEEBFD000 && first.optimalInitialized &&
        decide (roundDown 0xEEBFD000 pageSize ∈ first.activeVas) &&
        Returns (first.faultHandler 1 0xEEBFD000 1) fun _ => true) = true by decide +kernel)
  obtain ⟨ready, observed⟩ := Bool.and_eq_true_iff.mp observed
  obtain ⟨ready, active⟩ := Bool.and_eq_true_iff.mp ready
  obtain ⟨absent, initialized⟩ := Bool.and_eq_true_iff.mp ready
  obtain ⟨second, handled', -⟩ := Returns.exists observed
  have stack : ∀ (kernel : Kernel) (env : Nat), kernel.Accessible env 0xEEBFD000 :=
      fun kernel env =>
    accessible_of_stack kernel env (by decide) (by decide)
  have harmless : first.Harmless 0 1 0xEEBFD000 := by
    refine .inr ?_
    rw [if_pos initialized]
    exact of_decide_eq_true active
  have run : Relation.ReflTransGen (Interleaved 0 1 fun kernel => kernel.Harmless 0 1)
      (blank .optimal 1, blank .optimal 1) (second, first) :=
    (Relation.ReflTransGen.single (.own 0xEEBFD000 1 (stack _ 0) (blank_pagePresent ..) handled
      handled)).tail (.other 0xEEBFD000 1 (stack _ 1) ((Bool.not_eq_true' _).mp absent) harmless
        handled')
  exact ⟨first, second, handled, handled', undisturbed_of_run (blank .optimal 1) second first 0 1
    (blank_paired Nat.zero_lt_one) run⟩

/-- Environment 1 faults on another stack page, which replaces the active one. The page of
environment 0 then stays present at its next fault, where without that fault it does not. -/
theorem disturbed_by_fault : ¬ ∀ left right,
    Relation.ReflTransGen (Interleaved 0 1 fun _ _ => True) (blank .optimal 1, blank .optimal 1)
      (left, right) → Undisturbed 0 1 left right := by
  intro undisturbed
  obtain ⟨first, handled, observed⟩ := Returns.exists (show Returns
    ((blank .optimal 1).faultHandler 0 0xEEBFD000 1) (fun first =>
      !first.pagePresent 1 0xEEBFC000 && !first.pagePresent 0 0xEEBFB000 &&
        Returns (first.faultHandler 1 0xEEBFC000 1) (fun second =>
          !second.pagePresent 0 0xEEBFB000 &&
            Returns (second.faultHandler 0 0xEEBFB000 1) fun last =>
              last.pagePresent 0 0xEEBFD000) &&
        Returns (first.faultHandler 0 0xEEBFB000 1) fun last => !last.pagePresent 0 0xEEBFD000) =
      true by decide +kernel)
  obtain ⟨ready, alone⟩ := Bool.and_eq_true_iff.mp observed
  obtain ⟨ready, observed⟩ := Bool.and_eq_true_iff.mp ready
  obtain ⟨absent, -⟩ := Bool.and_eq_true_iff.mp ready
  obtain ⟨second, handled', observed⟩ := Returns.exists observed
  obtain ⟨absent', observed⟩ := Bool.and_eq_true_iff.mp observed
  obtain ⟨last, handled'', present⟩ := Returns.exists observed
  obtain ⟨last', aloneHandled, gone⟩ := Returns.exists alone
  have stack : ∀ (kernel : Kernel) (env va : Nat), uStackBottom ≤ va → va < uStackTop →
      kernel.Accessible env va := fun kernel env va above below =>
    accessible_of_stack kernel env above below
  have run : Relation.ReflTransGen (Interleaved 0 1 fun _ _ => True)
      (blank .optimal 1, blank .optimal 1) (second, first) :=
    (Relation.ReflTransGen.single (.own 0xEEBFD000 1 (stack _ 0 _ (by decide) (by decide))
      (blank_pagePresent ..) handled handled)).tail
        (.other 0xEEBFC000 1 (stack _ 1 _ (by decide) (by decide)) ((Bool.not_eq_true' _).mp absent)
          trivial handled')
  obtain ⟨after, same, effect⟩ := (undisturbed second first run).ownFault 0xEEBFB000 1 last
    (stack _ 0 _ (by decide) (by decide)) ((Bool.not_eq_true' _).mp absent') handled''
  obtain rfl := Except.ok.inj (same.symm.trans aloneHandled)
  have equal := effect.1 ⟨0xEEBFD000, by unfold IsUserPage; decide⟩
  change after.pagePresent 0 0xEEBFD000 = last.pagePresent 0 0xEEBFD000 at equal
  rw [present] at equal
  rw [equal] at gone
  cases gone

end Kernel

end FosKernel
