import FosKernel.Trap.Optimal

/-!
# Runs under OPTIMAL

User accesses of one environment under OPTIMAL. Its present pages are the active ones
after every fault, a resident page keeps its frame and is not read again, and the
reference stream records the faults whose pages entered the active working set.
-/

namespace FosKernel

namespace Kernel

variable {kernel before after : Kernel} {env va fuel : Nat} {slot : Slot}

/-- A change that leaves the pages of an environment and the active working set alone. -/
structure Steady (env : Nat) (before after : Kernel) : Prop where
  orderly : after.Orderly
  algorithm : after.pageRepAlgoType = before.pageRepAlgoType
  created : after.ActiveCreated
  kept : ∀ element < before.nextElement, after.elements element = before.elements element
  more : before.nextElement ≤ after.nextElement
  effective : after.effectiveVas env = before.effectiveVas env
  envEq : after.envs env = before.envs env
  located : ∀ va, (before.memory.slot (before.directory env) va).isSome = true →
    (after.memory.slot (after.directory env) va).isSome = true
  reserved : ∃ free, after.memory.freeFrameList.Represents free ∧ 0 ∉ free
  present : ∀ page : UserPage, (after.pageEntry env page).present =
    (before.pageEntry env page).present
  frame : ∀ page : UserPage, (after.pageEntry env page).frame = (before.pageEntry env page).frame
  available : ∀ page : UserPage, ∀ mask, permAvailable &&& mask = mask →
    Perm.has (after.pageEntry env page).perm mask = Perm.has (before.pageEntry env page).perm mask

namespace Steady

variable (steady : Steady env before after)

include steady

theorem lasting_iff (page : UserPage) :
    (after.pageEntry env page).Lasting ↔ (before.pageEntry env page).Lasting := by
  unfold PageTableEntry.Lasting
  rw [steady.frame, steady.available page permBuffered (by decide)]

theorem holdsFrame_eq (page : UserPage) :
    (after.pageEntry env page).holdsFrame = (before.pageEntry env page).holdsFrame := by
  have present := steady.present page
  unfold PageTableEntry.present at present
  unfold PageTableEntry.holdsFrame
  rw [Perm.has_mask_or, Perm.has_mask_or, steady.frame, present,
    steady.available page permBuffered (by decide)]

theorem optimal (optimal : Optimal before env) : Optimal after env where
  orderly := steady.orderly
  algorithm := steady.algorithm.trans optimal.algorithm
  created := steady.created
  known := by
    rw [steady.envEq]
    intro element member
    obtain ⟨old, user⟩ := optimal.known element member
    refine ⟨Nat.lt_of_lt_of_le old steady.more, ?_⟩
    rw [elementVa, steady.kept element old]
    exact user
  located active listed := by
    rw [steady.effective] at listed
    exact steady.located active (optimal.located active listed)
  lasting page present := by
    rw [steady.lasting_iff]
    rw [← pageEntry_present, steady.present, pageEntry_present] at present
    exact optimal.lasting page present
  reserved := steady.reserved

theorem views {state : ActiveSet UserPage} (views : Views before env state) :
    Views after env state where
  active := steady.effective.trans views.active
  present page := by
    rw [← pageEntry_present, steady.present, pageEntry_present]
    exact views.present page
  resident page := by
    rw [steady.holdsFrame_eq]
    exact views.resident page
  stream := by
    rw [steady.envEq]
    exact views.stream

end Steady

/-- Nothing but memory changed, and in it nothing but entries and bytes. -/
theorem Steady.of_memory {memory : Memory} (optimal : Optimal kernel env)
    (directories : memory.directories = kernel.memory.directories)
    (list : memory.freeFrameList = kernel.memory.freeFrameList)
    (present : ∀ page : UserPage,
      (({ kernel with memory := memory } : Kernel).pageEntry env page).present =
        (kernel.pageEntry env page).present)
    (frame : ∀ page : UserPage,
      (({ kernel with memory := memory } : Kernel).pageEntry env page).frame =
        (kernel.pageEntry env page).frame)
    (available : ∀ page : UserPage, ∀ mask, permAvailable &&& mask = mask →
      Perm.has (({ kernel with memory := memory } : Kernel).pageEntry env page).perm mask =
        Perm.has (kernel.pageEntry env page).perm mask) :
    Steady env kernel { kernel with memory := memory } where
  orderly := (Settles.of_memory directories).orderly optimal.orderly
  algorithm := rfl
  created := optimal.created
  kept _ _ := rfl
  more := Nat.le_refl _
  effective := rfl
  envEq := rfl
  located va held := by
    have same : memory.slot (kernel.directory env) va =
        kernel.memory.slot (kernel.directory env) va :=
      Memory.slot_congr directories ..
    exact (congrArg Option.isSome same).trans held
  reserved := by
    obtain ⟨free, represents, reserved⟩ := optimal.reserved
    exact ⟨free, (congrArg (IntrusiveList.Represents · free) list).mpr represents, reserved⟩
  present := present
  frame := frame
  available := available

theorem Optimal.notedFault (optimal : Optimal kernel env) (va : Nat) :
    Optimal (kernel.notedFault env va) env where
  orderly := notedFault_orderly optimal.orderly
  algorithm := optimal.algorithm
  created := optimal.created
  known := optimal.known
  located := optimal.located
  lasting := optimal.lasting
  reserved := optimal.reserved

theorem Views.notedFault {state : ActiveSet UserPage} (views : Views kernel env state) (va : Nat) :
    Views (kernel.notedFault env va) env state :=
  ⟨views.active, views.present, views.resident, views.stream⟩

/-- A new page table in a region that has none. -/
theorem Steady.createPageTable (optimal : Optimal kernel env)
    (missing : kernel.memory.slot (kernel.directory env) va = none) :
    Steady env kernel (kernel.createPageTable env va) := by
  rw [Memory.slot, Option.map_eq_none_iff] at missing
  have entries := createPageTable_pageEntry optimal.orderly missing
  refine ⟨optimal.orderly.createPageTable env va, rfl, optimal.created,
    fun _ _ => rfl, Nat.le_refl _,
    rfl, rfl, fun page held => ?_, optimal.reserved, fun page => ?_, fun page => ?_,
      fun page _ _ => ?_⟩
  · rw [Memory.slot, Option.isSome_map] at held ⊢
    have tables : (kernel.createPageTable env va).memory.directories (kernel.directory env) =
        Function.update (kernel.memory.directories (kernel.directory env)) (pdx va)
          (some kernel.nextTable) := Function.update_self ..
    rw [Memory.getPageTable, show (kernel.createPageTable env va).directory env =
      kernel.directory env from rfl, tables]
    by_cases region : pdx page = pdx va
    · rw [region, Function.update_self, Option.isSome_some]
    · rwa [Function.update_of_ne region]
  all_goals rw [entries]

/-- Bits other than the present and the available ones are set in the entry of a page. -/
theorem Steady.setPagePermissions (optimal : Optimal kernel env) (user : va < userTop) {set : Perm}
    (unset : set &&& permPresent = 0#12) (unset' : set &&& permAvailable = 0#12)
    (changed : kernel.setPagePermissions env va set 0 = .ok after) : Steady env kernel after := by
  cases located : kernel.memory.slot (kernel.directory env) va with
  | none =>
      rw [setPagePermissions_of_missing kernel located] at changed
      cases changed
  | some slot =>
      rw [setPagePermissions_eq kernel located] at changed
      obtain rfl := Except.ok.inj changed
      have entries : ∀ page : UserPage, ({ kernel with
          memory := kernel.memory.setEntry slot
            ((kernel.memory.tables slot).setPerms set 0) } : Kernel).pageEntry env page =
          if roundDown page pageSize = roundDown va pageSize then
            (kernel.memory.tables slot).setPerms set 0
          else kernel.pageEntry env page := fun page =>
        pageEntry_update (optimal.orderly.separateTables env) rfl (by rfl) located rfl
          (Nat.lt_trans user (by decide)) page.2.lt
      have own : ∀ page : UserPage, roundDown page.1 pageSize = roundDown va pageSize →
          kernel.pageEntry env page = kernel.memory.tables slot := by
        intro page same
        rw [← pageEntry_roundDown, same, pageEntry_roundDown, pageEntry_eq located]
      refine .of_memory optimal rfl rfl (fun page => ?_) (fun page => ?_) fun page mask inside => ?_
      · rw [entries]
        split
        · rename_i same
          rw [own page same]
          exact PageTableEntry.setPerms_has _ unset (by decide)
        · rfl
      · rw [entries]
        split
        · rename_i same
          rw [own page same, PageTableEntry.setPerms_frame]
        · rfl
      · rw [entries]
        split
        · rename_i same
          rw [own page same]
          exact PageTableEntry.setPerms_available _ inside unset' (by decide)
        · rfl

theorem Steady.writeByte (optimal : Optimal kernel env) (frame index : Nat) (value : UInt8) :
    Steady env kernel (kernel.writeByte frame index value) :=
  .of_memory optimal rfl rfl (fun _ => rfl) (fun _ => rfl) fun _ _ _ => rfl

/-- The kernel in a run under OPTIMAL, with the pages that entered the active working set and the
pages that were read from the page file so far. -/
structure OptimalTrace where
  kernel : Kernel
  entered : List UserPage
  loaded : List UserPage

/-- A legal user access: the fault of a page that is not present, which creates its page table or
serves it, or the read or write of a page that is. The handler reads the page file when it finds no
frame for the page. -/
inductive OptimalMove (env : Nat) (before : OptimalTrace) : OptimalTrace → Prop
  | table {after : Kernel} (va fuel : Nat) (accessible : before.kernel.Accessible env va)
      (absent : before.kernel.pagePresent env va = false)
      (missing : before.kernel.memory.slot (before.kernel.directory env) va = none)
      (handled : before.kernel.faultHandler env va fuel = .ok after) :
      OptimalMove env before { before with kernel := after }
  | fault {after : Kernel} (va fuel : Nat) (accessible : before.kernel.Accessible env va)
      (absent : before.kernel.pagePresent env va = false)
      (located : (before.kernel.memory.slot (before.kernel.directory env) va).isSome = true)
      (handled : before.kernel.faultHandler env va fuel = .ok after) :
      OptimalMove env before
        { kernel := after
          entered := before.entered ++
            if roundDown va pageSize ∈ before.kernel.effectiveVas env then []
            else [.of va accessible.user]
          loaded := before.loaded ++
            if (before.kernel.memory.getFrameInfo (before.kernel.directory env) va).isSome then []
            else [.of va accessible.user] }
  | read {after : Kernel} (va : Nat) (accessible : before.kernel.Accessible env va)
      (present : before.kernel.pagePresent env va = true)
      (marked : before.kernel.setPagePermissions env va permUsed 0 = .ok after) :
      OptimalMove env before { before with kernel := after }
  | write {after : Kernel} (va : Nat) (value : UInt8) (accessible : before.kernel.Accessible env va)
      (present : before.kernel.pagePresent env va = true)
      (marked : before.kernel.setPagePermissions env va (permUsed ||| permModified) 0 = .ok after) :
      OptimalMove env before
        { before with
          kernel := after.writeByte (after.pageEntry env va).frame (pgoff va) value }

/-- The last fault of the environment made its page present, or created its page table. -/
def Guarded (kernel : Kernel) (env : Nat) : Prop :=
  kernel.lastFaultedEnv = some env → kernel.lastFaultVa < userTop ∧
    (kernel.pagePresent env kernel.lastFaultVa = true ∨ kernel.numRepeatedFault = 0 ∧
      (kernel.memory.slot (kernel.directory env) kernel.lastFaultVa).isSome = true)

/-- An environment whose present pages are those of its working set, before the first fault under
OPTIMAL. -/
structure OptimalStart (kernel : Kernel) (env : Nat) : Prop where
  orderly : kernel.Orderly
  algorithm : kernel.pageRepAlgoType = .optimal
  unbuffered : kernel.enableBuffering = false
  uninitialized : kernel.optimalInitialized = false
  inactive : kernel.pageActiveWsList = []
  known : ∀ element ∈ (kernel.envs env).pageWsList,
    element < kernel.nextElement ∧ IsUserPage (kernel.elementVa element)
  nodup : (kernel.wsPages env).Nodup
  fits : (kernel.envs env).pageWsList.length ≤ (kernel.envs env).pageWsMaxSize
  positive : 0 < (kernel.envs env).pageWsMaxSize
  present : ∀ page : UserPage, kernel.pagePresent env page = true ↔
    page.1 ∈ kernel.wsPages env
  framed : ∀ page : UserPage, kernel.pagePresent env page = true →
    (kernel.pageEntry env page).frame ≠ 0
  reserved : ∃ free, kernel.memory.freeFrameList.Represents free ∧ 0 ∉ free
  unrecorded : (kernel.envs env).referenceStreamList = []
  guarded : kernel.Guarded env

/-- What every access keeps. -/
structure OptimalInv (kernel : Kernel) (env : Nat) (entered : List UserPage) : Prop where
  optimal : Optimal kernel env
  unbuffered : kernel.enableBuffering = false
  positive : 0 < (kernel.envs env).pageWsMaxSize
  guarded : kernel.Guarded env
  nonempty : entered ≠ [] → kernel.optimalInitialized = true ∧ kernel.activeVas ≠ []
  state : ∃ state, Views kernel env state ∧ state.Synced (kernel.envs env).pageWsMaxSize ∧
    state.Alternates ∧ state.stream = entered

/-- The fault of a legal page whose table exists. -/
theorem Optimal.faultHandler_spec (optimal : Optimal kernel env)
    (unbuffered : kernel.enableBuffering = false) (unrepeated : ¬ kernel.RepeatedThrice env va)
    (accessible : kernel.Accessible env va) (absent : kernel.pagePresent env va = false)
    (located : kernel.memory.slot (kernel.directory env) va = some slot) (fuel : Nat) :
    Ends (kernel.faultHandler env va (fuel + 1))
      (fun after => ∃ entry memory,
        Entered (kernel.notedFault env va) env va slot entry memory after)
      (fun halt => halt = .outOfMemory ∧ kernel.memory.freeFrameList.first = none ∧
        (kernel.memory.tables slot).holdsFrame = false) := by
  rw [faultHandler_of_accessible unrepeated unbuffered absent accessible, located,
    Option.isSome_some,
    if_pos rfl, pageFaultHandler]
  dsimp only
  rw [if_pos (show (kernel.notedFault env va).pageRepAlgoType = .optimal from optimal.algorithm)]
  have absent' : ((kernel.notedFault env va).memory.tables slot).present = false :=
    (pagePresent_eq located).symm.trans absent
  refine (optimalReplacement_spec (kernel.notedFault env va) env va accessible.user optimal.created
    optimal.known located absent').mono (fun _ holds => holds) fun halt stopped => ?_
  rcases stopped with exhausted | ⟨active, listed, missing⟩
  · exact exhausted
  · have held := optimal.located active listed
    change kernel.memory.slot (kernel.directory env) active = none at missing
    rw [missing] at held
    cases held

/-- How a legal fault returns: with a new page table, or with the page entered. -/
theorem faultHandler_optimal_cases (algorithm : kernel.pageRepAlgoType = .optimal)
    (unbuffered : kernel.enableBuffering = false) (created : kernel.ActiveCreated)
    (known : ∀ element ∈ (kernel.envs env).pageWsList,
      element < kernel.nextElement ∧ IsUserPage (kernel.elementVa element))
    (accessible : kernel.Accessible env va) (absent : kernel.pagePresent env va = false)
    (handled : kernel.faultHandler env va fuel = .ok after) :
    (kernel.memory.slot (kernel.directory env) va = none ∧
      after = (kernel.notedFault env va).createPageTable env va) ∨
    ∃ slot entry memory, kernel.memory.slot (kernel.directory env) va = some slot ∧
      Entered (kernel.notedFault env va) env va slot entry memory after ∧ 0 < fuel := by
  have unrepeated : ¬ kernel.RepeatedThrice env va := by
    intro repeated
    rw [faultHandler_of_repeated repeated] at handled
    cases handled
  rw [faultHandler_of_accessible unrepeated unbuffered absent accessible] at handled
  cases located : kernel.memory.slot (kernel.directory env) va with
  | none =>
      rw [located, Option.isSome_none, if_neg Bool.false_ne_true] at handled
      exact .inl ⟨rfl, (Except.ok.inj handled).symm⟩
  | some slot =>
      rw [located, Option.isSome_some, if_pos rfl] at handled
      cases fuel with
      | zero => cases handled
      | succ fuel =>
          rw [pageFaultHandler] at handled
          dsimp only at handled
          rw [if_pos (show (kernel.notedFault env va).pageRepAlgoType = .optimal from algorithm)]
            at handled
          have absent' : ((kernel.notedFault env va).memory.tables slot).present = false :=
            (pagePresent_eq located).symm.trans absent
          obtain ⟨entry, memory, entered⟩ :=
            (optimalReplacement_spec (kernel.notedFault env va) env va
            accessible.user created known located absent').of_ok handled
          exact .inr ⟨slot, entry, memory, rfl, entered, Nat.succ_pos fuel⟩

theorem Guarded.unrepeated (guarded : kernel.Guarded env)
    (absent : kernel.pagePresent env va = false) : ¬ kernel.RepeatedThrice env va := by
  rintro ⟨same, faulted, count⟩
  rcases (guarded faulted).2 with present | ⟨none, -⟩
  · rw [same, absent] at present
    cases present
  · rw [count] at none
    cases none

/-- Creating the page table of a fault that was not guarded against before. -/
theorem Guarded.createPageTable (guarded : kernel.Guarded env) (user : va < userTop)
    (absent : kernel.pagePresent env va = false)
    (missing : kernel.memory.slot (kernel.directory env) va = none) :
    ((kernel.notedFault env va).createPageTable env va).Guarded env := by
  refine fun _ => ⟨user, .inr ⟨if_neg ?_, ?_⟩⟩
  · rintro ⟨same, faulted⟩
    rcases (guarded faulted).2 with present | ⟨-, held⟩
    · rw [same, absent] at present
      cases present
    · rw [same, missing] at held
      cases held
  · rw [Memory.slot, Option.isSome_map]
    simp [Kernel.createPageTable, Memory.getPageTable, Kernel.directory, Kernel.notedFault]

/-- Serving a fault makes its page present. -/
theorem Entered.guarded {entry : PageTableEntry} {memory : Memory}
    (entered : Entered (kernel.notedFault env va) env va slot entry memory after)
    (optimal : Optimal kernel env) (user : va < userTop)
    (located : kernel.memory.slot (kernel.directory env) va = some slot) : after.Guarded env := by
  have faulted : after.lastFaultVa = va := by
    obtain ⟨_, _, _, _, _, same⟩ := entered.shape
    rw [same]
    rfl
  have kept := (entered.pageEntry (optimal.notedFault va) user located (.of va user)).2
    fun drops => drops.1 drops.2.2
  have present := congrArg PageTableEntry.present (kept.trans (if_pos rfl))
  rw [pageEntry_present, entered.presents.present] at present
  change after.pagePresent env (roundDown va pageSize) = true at present
  intro _
  rw [faulted, ← pagePresent_roundDown]
  exact ⟨user, .inl present⟩

/-- At the start no page has entered. -/
theorem OptimalStart.inv (start : OptimalStart kernel env) : OptimalInv kernel env [] where
  optimal := by
    refine ⟨start.orderly, start.algorithm, ?_, start.known, fun active listed => ?_,
        fun page present =>
      .inl (start.framed page present), start.reserved⟩
    · rw [ActiveCreated, start.inactive]
      intro element listed
      cases listed
    · rw [effectiveVas, start.uninitialized, if_neg Bool.false_ne_true] at listed
      obtain ⟨element, member, rfl⟩ := List.mem_map.mp listed
      obtain ⟨slot, located⟩ := exists_slot
        ((start.present ⟨_, (start.known element member).2⟩).mpr (List.mem_map_of_mem member))
      rw [located, Option.isSome_some]
  unbuffered := start.unbuffered
  positive := start.positive
  guarded := start.guarded
  nonempty some := absurd rfl some
  state := by
    have user : ∀ page ∈ kernel.wsPages env, IsUserPage page := by
      intro page listed
      obtain ⟨element, member, rfl⟩ := List.mem_map.mp listed
      exact (start.known element member).2
    have active : kernel.effectiveVas env = kernel.wsPages env := by
      rw [effectiveVas, start.uninitialized, if_neg Bool.false_ne_true]
      rfl
    have mem : ∀ page : UserPage, page ∈ (kernel.wsPages env).attachWith IsUserPage user ↔
        page.1 ∈ kernel.wsPages env := by
      intro page
      rw [List.mem_attachWith]
    refine ⟨⟨(kernel.wsPages env).attachWith IsUserPage user,
      {page | kernel.pagePresent env page = true},
        {page | (kernel.pageEntry env page).holdsFrame = true},
      []⟩, ⟨?_, fun _ => .rfl, fun _ => .rfl, ?_⟩, ⟨?_, ?_, fun page => ?_⟩,
      ⟨List.isChain_nil, fun _ listed => by cases listed⟩, rfl⟩
    · rw [active, List.attachWith_map_subtype_val]
    · rw [start.unrecorded]
      rfl
    · refine List.Nodup.of_map Subtype.val ?_
      rw [List.attachWith_map_subtype_val]
      exact start.nodup
    · rw [List.length_attachWith, wsPages, List.length_map]
      exact start.fits
    · rw [mem]
      exact start.present page

namespace OptimalInv

variable {log : List UserPage} (inv : OptimalInv kernel env log)

include inv

/-- The page table of a fault is created. -/
theorem table (accessible : kernel.Accessible env va) (absent : kernel.pagePresent env va = false)
    (missing : kernel.memory.slot (kernel.directory env) va = none) (fuel : Nat) :
    ∃ after, kernel.faultHandler env va fuel = .ok after ∧
      Steady env (kernel.notedFault env va) after ∧ OptimalInv after env log := by
  have handled := faultHandler_of_accessible (inv.guarded.unrepeated absent) inv.unbuffered absent
    accessible fuel
  rw [missing, Option.isSome_none, if_neg Bool.false_ne_true] at handled
  have steady : Steady env (kernel.notedFault env va)
      ((kernel.notedFault env va).createPageTable env va) :=
    .createPageTable (inv.optimal.notedFault va) missing
  obtain ⟨state, views, synced, alternates, stream⟩ := inv.state
  exact ⟨_, handled, steady, steady.optimal (inv.optimal.notedFault va),
    inv.unbuffered, inv.positive,
    inv.guarded.createPageTable accessible.user absent missing, inv.nonempty, state,
    steady.views (views.notedFault va), synced, alternates, stream⟩

/-- A page fault is served. -/
theorem fault (accessible : kernel.Accessible env va) (absent : kernel.pagePresent env va = false)
    (located : kernel.memory.slot (kernel.directory env) va = some slot)
    {entry : PageTableEntry} {memory : Memory}
    (entered : Entered (kernel.notedFault env va) env va slot entry memory after) :
    OptimalInv after env (log ++ [.of va accessible.user]) ∧
      roundDown va pageSize ∉ kernel.effectiveVas env := by
  have optimal := inv.optimal.notedFault va
  obtain ⟨state, views, synced, alternates, stream⟩ := inv.state
  have absent' : UserPage.of va accessible.user ∉ state.present := by
    rw [← views.present]
    change ¬ kernel.pagePresent env (roundDown va pageSize) = true
    rw [pagePresent_roundDown, absent]
    exact Bool.false_ne_true
  have inactive := synced.inactive absent'
  have tableAbsent : (kernel.memory.tables slot).present = false :=
    (pagePresent_eq located).symm.trans absent
  have size : (after.envs env).pageWsMaxSize = (kernel.envs env).pageWsMaxSize := by
    obtain ⟨_, envEq⟩ := entered.env_eq
    rw [envEq]
    rfl
  have views' := entered.views (views.notedFault va) optimal accessible.user located
  obtain ⟨_, _, list, tables, _, same⟩ := entered.shape
  have initialized : after.optimalInitialized = true := by rw [same]
  refine ⟨⟨entered.optimal optimal accessible.user located tableAbsent, ?_, ?_,
    entered.guarded inv.optimal accessible.user located, ?_, _, views', ?_,
      alternates.enter inactive, ?_⟩, ?_⟩
  · rw [same]
    exact inv.unbuffered
  · rw [size]
    exact inv.positive
  · refine fun _ => ⟨initialized, fun empty => ?_⟩
    have active := (views'.mem_active (.of va accessible.user)).mpr ActiveSet.mem_enter_active
    rw [effectiveVas, if_pos initialized, empty] at active
    cases active
  · rw [size]
    exact synced.enter inv.positive absent'
  · rw [ActiveSet.enter_stream inactive, stream]
  · rw [show roundDown va pageSize = (UserPage.of va accessible.user).1 from rfl, views.mem_active]
    exact inactive

/-- Changes that leave the pages and the record of the last fault alone. -/
theorem steady (steady : Steady env kernel after)
    (unbuffered : after.enableBuffering = kernel.enableBuffering)
    (lastVa : after.lastFaultVa = kernel.lastFaultVa)
    (lastEnv : after.lastFaultedEnv = kernel.lastFaultedEnv)
    (repeated : after.numRepeatedFault = kernel.numRepeatedFault)
    (initialized : after.optimalInitialized = kernel.optimalInitialized)
    (active : after.activeVas = kernel.activeVas) : OptimalInv after env log := by
  obtain ⟨state, views, synced, alternates, stream⟩ := inv.state
  refine ⟨steady.optimal inv.optimal, unbuffered.trans inv.unbuffered, ?_,
    fun faulted => ?_, ?_, state,
    steady.views views, ?_, alternates, stream⟩
  · rw [steady.envEq]
    exact inv.positive
  · rw [lastEnv] at faulted
    obtain ⟨user, resolved⟩ := inv.guarded faulted
    rw [lastVa, repeated]
    refine ⟨user, resolved.imp (fun present => ?_) fun ⟨once, held⟩ =>
      ⟨once, steady.located _ held⟩⟩
    have same := steady.present (.of _ user)
    rw [pageEntry_present, pageEntry_present] at same
    change after.pagePresent env (roundDown _ pageSize) =
      kernel.pagePresent env (roundDown _ pageSize)
      at same
    rw [← pagePresent_roundDown, same, pagePresent_roundDown, present]
  · rw [initialized, active]
    exact inv.nonempty
  · rw [steady.envEq]
    exact synced

/-- Setting bits of an entry other than the present and the available ones. -/
theorem setPagePermissions (user : va < userTop) {set : Perm} (unset : set &&& permPresent = 0#12)
    (unset' : set &&& permAvailable = 0#12)
    (changed : kernel.setPagePermissions env va set 0 = .ok after) : OptimalInv after env log := by
  have still := Steady.setPagePermissions inv.optimal user unset unset' changed
  cases located : kernel.memory.slot (kernel.directory env) va with
  | none =>
      rw [setPagePermissions_of_missing kernel located] at changed
      cases changed
  | some slot =>
      rw [setPagePermissions_eq kernel located] at changed
      obtain rfl := Except.ok.inj changed
      exact inv.steady still rfl rfl rfl rfl rfl rfl

theorem writeByte (frame index : Nat) (value : UInt8) :
    OptimalInv (kernel.writeByte frame index value) env log :=
  inv.steady (.writeByte inv.optimal frame index value) rfl rfl rfl rfl rfl rfl

end OptimalInv

/-- What a part of a run leaves: the frames of resident pages, which are not read again. -/
structure Lasts (env : Nat) (before after : OptimalTrace) : Prop where
  frame : ∀ page : UserPage, (before.kernel.pageEntry env page).holdsFrame = true →
    (after.kernel.pageEntry env page).holdsFrame = true ∧
      (after.kernel.pageEntry env page).frame = (before.kernel.pageEntry env page).frame
  loaded : ∃ more, after.loaded = before.loaded ++ more ∧ more.Nodup ∧ ∀ page ∈ more,
    (before.kernel.pageEntry env page).holdsFrame = false ∧
      (after.kernel.pageEntry env page).holdsFrame = true

namespace Lasts

theorem refl (trace : OptimalTrace) : Lasts env trace trace where
  frame _ held := ⟨held, rfl⟩
  loaded := ⟨[], (List.append_nil _).symm, List.nodup_nil, nofun⟩

theorem trans {before middle after : OptimalTrace} (first : Lasts env before middle)
    (second : Lasts env middle after) : Lasts env before after where
  frame page held := by
    obtain ⟨held', same⟩ := first.frame page held
    obtain ⟨held'', same'⟩ := second.frame page held'
    exact ⟨held'', same'.trans same⟩
  loaded := by
    obtain ⟨list, loaded, nodup, held⟩ := first.loaded
    obtain ⟨list', loaded', nodup', held'⟩ := second.loaded
    refine ⟨list ++ list', by rw [loaded', loaded, List.append_assoc], ?_,
      fun page member => ?_⟩
    · refine List.nodup_append.mpr ⟨nodup, nodup', ?_⟩
      rintro page member _ member' rfl
      exact Bool.false_ne_true ((held' page member').1.symm.trans (held page member).2)
    · rcases List.mem_append.mp member with early | late
      · exact ⟨(held page early).1, (second.frame page (held page early).2).1⟩
      · refine ⟨Bool.eq_false_iff.mpr fun resident => ?_, (held' page late).2⟩
        exact Bool.false_ne_true ((held' page late).1.symm.trans (first.frame page resident).1)

/-- A change that leaves the pages alone. -/
theorem of_steady {trace : OptimalTrace} (steady : Steady env trace.kernel after) :
    Lasts env trace { trace with kernel := after } where
  frame page held := ⟨(steady.holdsFrame_eq page).trans held, steady.frame page⟩
  loaded := ⟨[], (List.append_nil _).symm, List.nodup_nil, nofun⟩

end Lasts

/-- A move keeps the invariant and the frames of resident pages. -/
theorem OptimalMove.inv {before after : OptimalTrace} (move : OptimalMove env before after)
    (inv : OptimalInv before.kernel env before.entered) :
    OptimalInv after.kernel env after.entered ∧ Lasts env before after := by
  cases move with
  | table va fuel accessible absent missing handled =>
      obtain ⟨_, handled', steady, inv'⟩ := inv.table accessible absent missing fuel
      obtain rfl := Except.ok.inj (handled'.symm.trans handled)
      refine ⟨inv', fun page held =>
        ⟨(steady.holdsFrame_eq page).trans held, steady.frame page⟩, ?_⟩
      exact ⟨[], (List.append_nil _).symm, List.nodup_nil, nofun⟩
  | fault va fuel accessible absent located handled =>
      rcases faultHandler_optimal_cases inv.optimal.algorithm inv.unbuffered inv.optimal.created
        inv.optimal.known accessible absent handled with
        ⟨missing, -⟩ | ⟨slot, entry, memory, located, entered, -⟩
      · rw [missing] at located
        cases located
      · obtain ⟨inv', inactive⟩ := inv.fault accessible absent located entered
        have optimal := inv.optimal.notedFault va
        have resident := entered.holdsFrame_iff optimal accessible.user located
        refine ⟨?_, fun page held => ⟨(resident page).mpr (.inr held),
          entered.frame_eq optimal accessible.user located page held⟩, _, rfl, ?_,
            fun page new => ?_⟩
        · rw [if_neg inactive]
          exact inv'
        · split
          · exact List.nodup_nil
          · exact List.nodup_singleton _
        · rw [Memory.getFrameInfo_eq located] at new
          split at new
          · cases new
          · rename_i unheld
            obtain rfl := List.mem_singleton.mp new
            refine ⟨?_, (resident _).mpr (.inl rfl)⟩
            change (before.kernel.pageEntry env (roundDown va pageSize)).holdsFrame = false
            rw [pageEntry_roundDown, pageEntry_eq located]
            cases held : (before.kernel.memory.tables slot).holdsFrame with
            | false => rfl
            | true =>
                rw [held] at unheld
                exact absurd rfl unheld
  | read va accessible present marked =>
      exact ⟨inv.setPagePermissions accessible.user (by decide) (by decide) marked,
        .of_steady (.setPagePermissions inv.optimal accessible.user (by decide)
          (by decide) marked)⟩
  | write va value accessible present marked =>
      have marked' := inv.setPagePermissions accessible.user (by decide) (by decide) marked
      have first := Lasts.of_steady
        (.setPagePermissions inv.optimal accessible.user (by decide) (by decide) marked)
      exact ⟨marked'.writeByte _ _ value,
        first.trans (.of_steady (.writeByte marked'.optimal _ _ value))⟩

/-- What holds after two parts of a run: after the first page fault the active pages are distinct,
at least one and at most as many as the working set has places, and the present pages; the reference
stream lists the pages that entered; the second part moved no resident page to another frame and
read no page twice or that was resident before; and a fault is served if there is memory, without
reading a resident page. -/
structure OptimalHolds (env : Nat) (earlier later : OptimalTrace) : Prop where
  active : later.entered ≠ [] → later.kernel.activeVas.Nodup ∧
    1 ≤ later.kernel.activeVas.length ∧
    later.kernel.activeVas.length ≤ (later.kernel.envs env).pageWsMaxSize ∧
    ∀ page : UserPage, later.kernel.pagePresent env page = true ↔
      page.1 ∈ later.kernel.activeVas
  stream : (later.kernel.envs env).referenceStreamList.map PageRefElement.virtualAddress =
    later.entered.map Subtype.val
  alternates : later.entered.IsChain (· ≠ ·)
  lasts : Lasts env earlier later
  served : ∀ va fuel, ∀ accessible : later.kernel.Accessible env va,
    later.kernel.pagePresent env va = false →
      (later.kernel.memory.slot (later.kernel.directory env) va).isSome = true →
        Ends (later.kernel.faultHandler env va (fuel + 1))
          (fun after => OptimalInv after env (later.entered ++ [.of va accessible.user]) ∧
            ((later.kernel.pageEntry env va).holdsFrame = true →
              after.memory.bytes = later.kernel.memory.bytes))
          (fun halt => halt = .outOfMemory ∧ later.kernel.memory.freeFrameList.first = none)

/-- The next page fault. -/
theorem OptimalInv.served {entered : List UserPage} (inv : OptimalInv kernel env entered)
    (accessible : kernel.Accessible env va) (absent : kernel.pagePresent env va = false)
    (located : kernel.memory.slot (kernel.directory env) va = some slot) (fuel : Nat) :
    Ends (kernel.faultHandler env va (fuel + 1))
      (fun after => OptimalInv after env (entered ++ [.of va accessible.user]) ∧
        ((kernel.pageEntry env va).holdsFrame = true → after.memory.bytes = kernel.memory.bytes))
      (fun halt => halt = .outOfMemory ∧ kernel.memory.freeFrameList.first = none) := by
  refine (inv.optimal.faultHandler_spec inv.unbuffered
    (inv.guarded.unrepeated absent) accessible absent
    located fuel).mono ?_ fun _ ⟨halted, exhausted, _⟩ => ⟨halted, exhausted⟩
  rintro after ⟨entry, memory, effect⟩
  refine ⟨(inv.fault accessible absent located effect).1, fun held => ?_⟩
  rw [pageEntry_eq located] at held
  obtain ⟨_, _, _, _, _, same⟩ := effect.shape
  rw [same]
  exact (effect.presents.kept held).2.1

/-- In every run of legal accesses of an environment whose working set lists its present pages, the
present pages and the active working set stay in step. -/
theorem optimal_of_run (start : Kernel) (env : Nat) (earlier later : OptimalTrace)
    (initial : OptimalStart start env)
    (run : Relation.ReflTransGen (OptimalMove env) ⟨start, [], []⟩ earlier)
    (more : Relation.ReflTransGen (OptimalMove env) earlier later) :
    OptimalHolds env earlier later := by
  have reached : ∀ first trace : OptimalTrace, OptimalInv first.kernel env first.entered →
      Relation.ReflTransGen (OptimalMove env) first trace →
        OptimalInv trace.kernel env trace.entered ∧ Lasts env first trace := by
    intro first trace inv run
    induction run with
    | refl => exact ⟨inv, .refl first⟩
    | tail _ move ih =>
        obtain ⟨inv', lasts⟩ := move.inv ih.1
        exact ⟨inv', ih.2.trans lasts⟩
  obtain ⟨inv, -⟩ := reached _ _ initial.inv run
  obtain ⟨inv', lasts⟩ := reached _ _ inv more
  obtain ⟨state, views, synced, alternates, stream⟩ := inv'.state
  refine ⟨fun some => ?_, ?_, ?_, lasts, fun va fuel accessible absent located => ?_⟩
  · obtain ⟨initialized, nonempty⟩ := inv'.nonempty some
    have active : later.kernel.activeVas = state.active.map Subtype.val := by
      rw [← views.active, effectiveVas, if_pos initialized]
    refine ⟨?_, List.length_pos_iff.mpr nonempty, ?_, fun page => ?_⟩
    · rw [active]
      exact synced.nodup.map Subtype.val_injective
    · rw [active, List.length_map]
      exact synced.bounded
    · rw [views.present, synced.present, active, List.mem_map_of_injective Subtype.val_injective]
  · rw [views.stream, stream]
  · rw [← stream]
    exact alternates.chain
  · obtain ⟨slot, located⟩ := Option.isSome_iff_exists.mp located
    exact inv'.served accessible absent located fuel

/-- No page is present and the working set is empty. -/
theorem blank_optimalStart {size : Nat} (positive : 0 < size) (env : Nat) :
    OptimalStart (blank .optimal size) env where
  orderly := blank_orderly .optimal (.inl rfl) size
  algorithm := rfl
  unbuffered := rfl
  uninitialized := rfl
  inactive := rfl
  known := nofun
  nodup := List.nodup_nil
  fits := Nat.zero_le _
  positive := positive
  present page := by
    rw [blank_pagePresent]
    exact ⟨nofun, nofun⟩
  framed page present := by
    rw [blank_pagePresent] at present
    cases present
  reserved := ⟨[258, 257, 256], blank_represents .optimal size, by decide⟩
  unrecorded := rfl
  guarded faulted := by cases faulted

/-- A fault of a stack page, and another one that finds the active working set full. -/
theorem optimal_of_run_blank : ∃ earlier later : OptimalTrace,
    (blank .optimal 1).faultHandler 0 0xEEBFD000 1 = .ok earlier.kernel ∧
      earlier.kernel.faultHandler 0 0xEEBFC000 1 = .ok later.kernel ∧
      OptimalHolds 0 earlier later := by
  obtain ⟨first, handled, observed⟩ := Returns.exists (show Returns
    ((blank .optimal 1).faultHandler 0 0xEEBFD000 1) (fun first =>
      !first.pagePresent 0 0xEEBFC000 &&
        (first.memory.slot (first.directory 0) 0xEEBFC000).isSome &&
        Returns (first.faultHandler 0 0xEEBFC000 1) fun _ => true) = true by decide +kernel)
  obtain ⟨ready, observed⟩ := Bool.and_eq_true_iff.mp observed
  obtain ⟨absent, located⟩ := Bool.and_eq_true_iff.mp ready
  obtain ⟨second, handled', -⟩ := Returns.exists observed
  have stack : ∀ kernel : Kernel, kernel.Accessible 0 0xEEBFD000 := fun kernel =>
    accessible_of_stack kernel 0 (by decide) (by decide)
  have stack' : ∀ kernel : Kernel, kernel.Accessible 0 0xEEBFC000 := fun kernel =>
    accessible_of_stack kernel 0 (by decide) (by decide)
  have move : OptimalMove 0 ⟨blank .optimal 1, [], []⟩ _ :=
    .fault 0xEEBFD000 1 (stack _) (blank_pagePresent ..) (by decide +kernel) handled
  exact ⟨_, _, handled, handled', optimal_of_run (blank .optimal 1) 0 _ _
    (blank_optimalStart Nat.zero_lt_one 0) (.single move) (.single
      (.fault 0xEEBFC000 1 (stack' _) ((Bool.not_eq_true' _).mp absent) located handled'))⟩

end Kernel

end FosKernel
