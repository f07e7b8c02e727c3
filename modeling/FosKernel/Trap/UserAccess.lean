import FosKernel.Trap.NoLostWrite

/-!
# User accesses

Reads and writes of one environment, repeated until their page is present, with
clock interrupts between them. Under CLOCK, LRU and Modified CLOCK every read
returns the last value written to its location, or else the initial contents of the
page file. LRU finds no victim when the stamp of every page is the greatest one.
-/

namespace FosKernel

namespace Kernel

/-- What a clock interrupt and a page fault do to the time stamps under LRU. -/
def stampLru (kernel : Kernel) (env : Nat) : Except Stop Kernel :=
  if kernel.pageRepAlgoType = .lruTimeApprox then kernel.updateWsTimeStamps env else .ok kernel

/-- `trap_dispatch` for a page fault of the running environment. -/
def trapDispatch (kernel : Kernel) (env va fuel : Nat) : Except Stop Kernel := do
  let kernel ← kernel.stampLru env
  kernel.faultHandler env va fuel

/-- The processor repeats an access until its page is present. -/
def access (env va fuel : Nat) : Nat → Kernel → Except Stop Kernel
  | 0, _ => .error .hang
  | rounds + 1, kernel =>
      if kernel.pagePresent env va then .ok kernel
      else do
        let kernel ← kernel.trapDispatch env va fuel
        access env va fuel rounds kernel

/-- A user read. -/
def userRead (kernel : Kernel) (env va fuel rounds : Nat) : Except Stop (UInt8 × Kernel) := do
  let kernel ← access env va fuel rounds kernel
  let kernel ← kernel.setPagePermissions env va permUsed 0
  return (kernel.memory.bytes (kernel.pageEntry env va).frame (pgoff va), kernel)

/-- Change one byte of a frame. -/
def writeByte (kernel : Kernel) (frame index : Nat) (value : UInt8) : Kernel :=
  { kernel with
    memory := { kernel.memory with
      bytes := Function.update kernel.memory.bytes frame
        (Function.update (kernel.memory.bytes frame) index value) } }

/-- A user write. -/
def userWrite (kernel : Kernel) (env va : Nat) (value : UInt8) (fuel rounds : Nat) :
    Except Stop Kernel := do
  let kernel ← access env va fuel rounds kernel
  let kernel ← kernel.setPagePermissions env va (permUsed ||| permModified) 0
  return kernel.writeByte (kernel.pageEntry env va).frame (pgoff va) value

/-- The page is below the stack's end, it can be loaded, and in the heap it is marked. -/
structure Accessible (kernel : Kernel) (env va : Nat) : Prop where
  below : va < uStackTop
  marked : userHeapStart ≤ va → va < userHeapMax →
    Perm.has (kernel.pageEntry env va).perm permUHPage = true
  loadable : (kernel.envs env).diskFrame va ≠ 0 ∨ inHeapOrStack va = true

/-- LRU finds a victim for a fault of the page: some stamp will stay below the greatest one. -/
def LeavesVictim (kernel : Kernel) (env va : Nat) : Prop :=
  kernel.pageRepAlgoType = .lruTimeApprox → kernel.pagePresent env va = false →
    (kernel.memory.slot (kernel.directory env) va).isSome = true →
      (kernel.envs env).pageWsList.length = (kernel.envs env).pageWsMaxSize →
        ∃ element ∈ (kernel.envs env).pageWsList, kernel.nextStamp env element < 2 ^ 32 - 1

/-- An environment whose pages can all be written back. -/
structure Storing (kernel : Kernel) (env : Nat) : Prop where
  running : Running kernel env
  positive : 0 < (kernel.envs env).pageWsMaxSize
  owned : ∃ free, DiskOwned kernel.disk (kernel.envs env) free
  covered : (kernel.store env).Covered Unbacked
  unbuffered : kernel.enableBuffering = false
  hand : kernel.pageRepAlgoType ≠ .lruTimeApprox → kernel.HandValid env
  stamps : ∀ element, (kernel.elements element).timeStamp < 2 ^ 32

/-- The last fault of the environment was resolved, or it was not repeated. -/
def Calm (kernel : Kernel) (env : Nat) : Prop :=
  kernel.lastFaultedEnv = some env →
    kernel.pagePresent env kernel.lastFaultVa = true ∨ kernel.numRepeatedFault = 0

variable {kernel before after : Kernel} {env va fuel : Nat} {free : List Nat}

theorem Accessible.user (accessible : kernel.Accessible env va) : va < userTop := by
  have below := accessible.below
  unfold uStackTop at below
  omega

theorem Ticked.pagePresent (ticked : Ticked before after) (env va : Nat) :
    after.pagePresent env va = before.pagePresent env va := by
  rw [← pageEntry_present, ← pageEntry_present]
  exact (ticked.pageEntry_has env va (by decide)).1

theorem Ticked.accessible (ticked : Ticked before after) (accessible : before.Accessible env va) :
    after.Accessible env va where
  below := accessible.below
  marked start stop := by
    rw [(ticked.pageEntry_has env va (by decide)).1]
    exact accessible.marked start stop
  loadable := by
    rw [ticked.envs]
    exact accessible.loadable

theorem Ticked.calm (ticked : Ticked before after) (calm : before.Calm env) : after.Calm env := by
  obtain ⟨va, faulted, repeated, -⟩ := ticked.sameGuard
  unfold Calm
  rw [va, faulted, repeated, ticked.pagePresent]
  exact calm

/-- The stamping of LRU clears all used bits, and no stamp is above the next one. -/
theorem Storing.stampLru_ends (storing : Storing kernel env) :
    Ends (kernel.stampLru env)
      (fun after => Storing after env ∧ Ticked kernel after ∧
        (kernel.pageRepAlgoType = .lruTimeApprox → ∀ element ∈ (kernel.envs env).pageWsList,
          after.used env element = false ∧
            (after.elements element).timeStamp ≤ kernel.nextStamp env element))
      fun _ => False := by
  unfold stampLru
  by_cases lru : kernel.pageRepAlgoType = .lruTimeApprox
  · rw [if_pos lru]
    obtain ⟨free, ws⟩ := storing.running.workingSet
    obtain ⟨after, stamped, ticked, others, stamps⟩ := ws.updateWsTimeStamps_ends.exists_ok
    rw [stamped]
    have move : WsMove env (fun _ => True) kernel after := .tick env stamped
    have running := (move.steps storing.running fun notLru => absurd lru notLru).1
    refine .ok ⟨⟨running, ?_, ?_, ?_, ?_, fun notLru => ?_, fun element => ?_⟩, ticked,
      fun _ => stamps⟩
    · rw [ticked.envs]
      exact storing.positive
    · rw [ticked.disk, ticked.envs]
      exact storing.owned
    · rw [ticked.store]
      exact storing.covered
    · rw [ticked.sameGuard.buffering]
      exact storing.unbuffered
    · exact absurd (ticked.algorithm.trans lru) notLru
    · by_cases member : element ∈ (kernel.envs env).pageWsList
      · exact Nat.lt_of_le_of_lt (stamps element member).2 (nextStamp_lt (storing.stamps element))
      · rw [others element member]
        exact storing.stamps element
  · rw [if_neg lru]
    exact .ok ⟨storing, .refl kernel, fun same => absurd same lru⟩

/-- `fault_handler` on an accessible page that is not present: it creates the page table, or it
passes the fault on. -/
theorem faultHandler_of_accessible (calm : ¬ kernel.RepeatedThrice env va)
    (unbuffered : kernel.enableBuffering = false) (absent : kernel.pagePresent env va = false)
    (accessible : kernel.Accessible env va) (fuel : Nat) :
    kernel.faultHandler env va fuel =
      if (kernel.memory.slot (kernel.directory env) va).isSome then
        (kernel.notedFault env va).pageFaultHandler env va fuel
      else .ok ((kernel.notedFault env va).createPageTable env va) := by
  have below := accessible.below
  rw [faultHandler_eq calm, if_neg fun inside => absurd below (Nat.not_lt.mpr inside.1)]
  cases held : kernel.memory.getPageTable (kernel.directory env) va with
  | none =>
      rw [Memory.slot, held, Option.map_none]
      rfl
  | some table =>
      have located : kernel.memory.slot (kernel.directory env) va = some (table, ptx va) := by
        rw [Memory.slot, held, Option.map_some]
      have perms : (kernel.notedFault env va).pagePermissions env va =
          (kernel.pageEntry env va).perm := by
        rw [pageEntry_eq located]
        exact pagePermissions_eq located
      have absent' : Perm.has (kernel.pageEntry env va).perm permPresent = false := by
        rw [← pageEntry_present] at absent
        exact absent
      rw [located, Option.isSome_some, if_pos rfl]
      dsimp only
      unfold checkedFault
      dsimp only
      rw [perms, show (kernel.notedFault env va).enableBuffering = false from unbuffered, absent',
        if_neg (Nat.not_le.mpr below), if_neg (fun unmarked => unmarked.1
          (accessible.marked unmarked.2.1 unmarked.2.2)), if_neg (by simp), if_neg (by simp),
        if_neg (by simp)]

/-- The same address has faulted again at most the given number of times. -/
def Pending (kernel : Kernel) (env va count : Nat) : Prop :=
  kernel.lastFaultedEnv = some env → kernel.lastFaultVa = va → kernel.numRepeatedFault ≤ count

theorem Calm.pending (calm : kernel.Calm env) (absent : kernel.pagePresent env va = false) :
    kernel.Pending env va 0 := by
  intro faulted same
  rcases calm faulted with present | none
  · rw [same, absent] at present
    cases present
  · exact Nat.le_of_eq none

theorem Pending.unrepeated (pending : kernel.Pending env va 1) :
    ¬ kernel.RepeatedThrice env va := by
  intro ⟨same, faulted, count⟩
  have bound := pending faulted same
  omega

theorem Pending.noted (pending : kernel.Pending env va 0) :
    (kernel.notedFault env va).Pending env va 1 := by
  intro _ _
  change (if kernel.lastFaultVa = va ∧ kernel.lastFaultedEnv = some env then _ else 0) ≤ 1
  split
  · rename_i repeated
    exact Nat.succ_le_succ (pending repeated.2 repeated.1)
  · exact Nat.zero_le _

theorem Ticked.pending {count : Nat} (ticked : Ticked before after)
    (pending : before.Pending env va count) : after.Pending env va count := by
  obtain ⟨address, faulted, repeated, -⟩ := ticked.sameGuard
  unfold Pending
  rwa [address, faulted, repeated]

/-- The used bit of a listed element is that of its entry. -/
theorem WorkingSet.used_eq {element : Nat} (ws : WorkingSet kernel env free)
    (member : element ∈ (kernel.envs env).pageWsList) :
    kernel.used env element =
      Perm.has (kernel.pageEntry env (kernel.elementVa element)).perm permUsed := by
  obtain ⟨slot, located⟩ := ws.located element member
  rw [used, pagePermissions_eq located, pageEntry_eq located]

/-- A fault on a region without a page table moves no page. -/
theorem Storing.createPageTable (storing : Storing kernel env) (pending : kernel.Pending env va 0)
    (absent : kernel.pagePresent env va = false) (accessible : kernel.Accessible env va)
    (missing : kernel.memory.slot (kernel.directory env) va = none) (fuel : Nat) :
    ∃ after, kernel.faultHandler env va fuel = .ok after ∧ Storing after env ∧
      after.store env = kernel.store env ∧ after.pagePresent env va = false ∧
      after.Accessible env va ∧ after.Pending env va 1 ∧
      (after.memory.slot (after.directory env) va).isSome = true ∧
      after.pageRepAlgoType = kernel.pageRepAlgoType ∧ after.envs = kernel.envs ∧
      ∀ element ∈ (kernel.envs env).pageWsList,
        after.used env element = kernel.used env element := by
  have unrepeated : kernel.Pending env va 1 := fun faulted same =>
    Nat.le_succ_of_le (pending faulted same)
  have handled := faultHandler_of_accessible unrepeated.unrepeated storing.unbuffered absent
    accessible fuel
  rw [missing, Option.isSome_none, if_neg Bool.false_ne_true] at handled
  have missing' : kernel.memory.getPageTable (kernel.directory env) va = none := by
    rw [Memory.slot, Option.map_eq_none_iff] at missing
    exact missing
  have entries : ∀ page, ((kernel.notedFault env va).createPageTable env va).pageEntry env page =
      kernel.pageEntry env page :=
    createPageTable_pageEntry (notedFault_orderly storing.running.orderly) missing'
  have running := (storing.running.faultHandler (fun lru full => (storing.hand lru).listed full)
    handled).1
  have store : ((kernel.notedFault env va).createPageTable env va).store env =
      kernel.store env := by
    refine store_congr (fun page => ?_) rfl rfl rfl
    rw [entries]
    exact ⟨rfl, rfl, rfl⟩
  refine ⟨_, handled, ⟨running, storing.positive, storing.owned, ?_,
    storing.unbuffered, storing.hand,
    storing.stamps⟩, store, ?_, ⟨accessible.below, ?_, accessible.loadable⟩, ?_,
      ?_, rfl, rfl, ?_⟩
  · rw [store]
    exact storing.covered
  · rwa [← pageEntry_present, entries, pageEntry_present]
  · rw [entries]
    exact accessible.marked
  · exact pending.noted
  · rw [Memory.slot, Option.isSome_map]
    simp [Kernel.createPageTable, Memory.getPageTable, Kernel.directory]
  · intro element member
    obtain ⟨free, ws⟩ := storing.running.workingSet
    obtain ⟨free', ws'⟩ := running.workingSet
    rw [ws.used_eq member, ws'.used_eq member, entries]
    rfl

/-- A fault of an accessible page whose table exists serves the page. -/
theorem Storing.serve (storing : Storing kernel env) (pending : kernel.Pending env va 1)
    (absent : kernel.pagePresent env va = false) (accessible : kernel.Accessible env va)
    (located : (kernel.memory.slot (kernel.directory env) va).isSome = true)
    (stamped : kernel.pageRepAlgoType = .lruTimeApprox →
      (kernel.envs env).pageWsList.length = (kernel.envs env).pageWsMaxSize →
        ∃ element ∈ (kernel.envs env).pageWsList,
          (kernel.elements element).timeStamp < 2 ^ 32 - 1)
    (fuel : Nat) :
    Ends (kernel.faultHandler env va (fuel + 2))
      (fun after => Storing after env ∧ after.pagePresent env va = true ∧ after.Calm env ∧
        Relation.ReflTransGen PagedStore.Move (kernel.store env) (after.store env))
      Exhausted := by
  have handled := faultHandler_of_accessible pending.unrepeated storing.unbuffered absent accessible
    (fuel + 2)
  rw [if_pos located] at handled
  obtain ⟨free, ws⟩ := storing.running.workingSet
  obtain ⟨dfree, owned⟩ := storing.owned
  have ws' : WorkingSet (kernel.notedFault env va) env free :=
    ws.congr rfl rfl rfl rfl rfl rfl rfl fun _ => ⟨rfl, rfl⟩
  have listed : kernel.pageRepAlgoType ≠ .lruTimeApprox →
      (kernel.envs env).pageWsList.length = (kernel.envs env).pageWsMaxSize →
        kernel.HandListed env := fun lru full => (storing.hand lru).listed full
  have hasVictim : (kernel.envs env).pageWsList.length = (kernel.envs env).pageWsMaxSize →
      (kernel.notedFault env va).HasVictim env := by
    intro full
    unfold HasVictim
    split
    · rename_i lru
      exact stamped lru full
    · rename_i lru
      exact listed lru full
  have covered : ((kernel.notedFault env va).store env).Covered Unbacked := storing.covered
  have serves := pageFaultHandler_serves fuel ws' owned
    covered storing.running.replaces (not_skips_of_inactive storing.running.active env va)
    hasVictim accessible.user absent located accessible.loadable
  cases returned : (kernel.notedFault env va).pageFaultHandler env va (fuel + 2) with
  | error halt =>
      rw [handled, returned]
      exact .error (serves.of_error returned)
  | ok after =>
      rw [returned] at handled
      rw [handled]
      obtain ⟨served, stamps, owned'⟩ := serves.of_ok returned
      have kept := ws'.pageFaultHandler_served storing.running.replaces
        storing.running.active listed
        accessible.user absent returned
      have present : after.pagePresent env va = true := by
        have resident := served.resident
        rw [← pagePresent_roundDown]
        simp only [Kernel.store, UserPage.of] at resident
        split at resident
        · assumption
        · cases resident
      refine .ok ⟨⟨(storing.running.faultHandler listed handled).1, ?_, owned', ?_, ?_,
        ?_, ?_⟩, present,
        ?_, served.moves⟩
      · rw [kept.size]
        exact storing.positive
      · refine served.covered storing.covered ?_
        rcases accessible.loadable with stored | inside
        · left
          have diskFrame : ((kernel.notedFault env va).envs env).diskFrame
              (UserPage.of va accessible.user).1 = (kernel.envs env).diskFrame va :=
            Env.diskFrame_roundDown ..
          simp [Kernel.store, diskFrame, stored]
        · exact .inr ((inHeapOrStack_roundDown va).trans inside)
      · rw [kept.guard.buffering]
        exact storing.unbuffered
      · intro lru
        have lru' : kernel.pageRepAlgoType ≠ .lruTimeApprox := by
          rw [kept.algorithm] at lru
          exact lru
        have move : WsMove env (SparesHand env) kernel after :=
          .fault va (fuel + 2) (fun _ same => absurd same lru') handled
        exact (move.handValid storing.running (storing.hand lru')).2
      · intro element
        rcases stamps element with same | zero
        · rw [same]
          exact storing.stamps element
        · rw [zero]
          decide
      · intro _
        left
        rw [kept.guard.va]
        exact present

/-- What an access leaves before it reads or writes: its page is present, and nothing is lost. -/
structure Resolved (kernel : Kernel) (env va : Nat) (after : Kernel) : Prop where
  storing : Storing after env
  present : after.pagePresent env va = true
  calm : after.Calm env
  moves : Relation.ReflTransGen PagedStore.Move (kernel.store env) (after.store env)

/-- A page fault of an accessible page whose table exists. -/
theorem Storing.trapDispatch_serves (storing : Storing kernel env)
    (pending : kernel.Pending env va 1)
    (absent : kernel.pagePresent env va = false) (accessible : kernel.Accessible env va)
    (located : (kernel.memory.slot (kernel.directory env) va).isSome = true)
    (leaves : kernel.LeavesVictim env va) (fuel : Nat) :
    Ends (kernel.trapDispatch env va (fuel + 2)) (kernel.Resolved env va) Exhausted := by
  obtain ⟨middle, stamped, storing', ticked, stamps⟩ := storing.stampLru_ends.exists_ok
  have dispatch : kernel.trapDispatch env va (fuel + 2) =
      middle.faultHandler env va (fuel + 2) := by
    unfold trapDispatch
    rw [stamped]
    rfl
  rw [dispatch]
  have absent' := (ticked.pagePresent env va).trans absent
  have located' : (middle.memory.slot (middle.directory env) va).isSome = true := by
    rwa [ticked.slot_eq]
  have victim : middle.pageRepAlgoType = .lruTimeApprox →
      (middle.envs env).pageWsList.length = (middle.envs env).pageWsMaxSize →
        ∃ element ∈ (middle.envs env).pageWsList,
            (middle.elements element).timeStamp < 2 ^ 32 - 1 := by
    rw [ticked.algorithm, ticked.envs]
    intro lru full
    obtain ⟨element, member, less⟩ := leaves lru absent located full
    exact ⟨element, member, Nat.lt_of_le_of_lt (stamps lru element member).2 less⟩
  apply (storing'.serve (ticked.pending pending) absent' (ticked.accessible accessible) located'
    victim fuel).mono _ fun _ exhausted => exhausted
  intro after ⟨storing'', present, calm, moves⟩
  rw [ticked.store] at moves
  exact ⟨storing'', present, calm, moves⟩

/-- A page fault of an accessible page without a table creates it; the next fault finds a victim,
since the first one has cleared the used bits. -/
theorem Storing.trapDispatch_creates (storing : Storing kernel env)
    (pending : kernel.Pending env va 0) (absent : kernel.pagePresent env va = false)
    (accessible : kernel.Accessible env va)
    (missing : kernel.memory.slot (kernel.directory env) va = none) (fuel : Nat) :
    ∃ after, kernel.trapDispatch env va fuel = .ok after ∧ Storing after env ∧
      after.store env = kernel.store env ∧ after.pagePresent env va = false ∧
      after.Accessible env va ∧ after.Pending env va 1 ∧
      (after.memory.slot (after.directory env) va).isSome = true ∧ after.LeavesVictim env va := by
  obtain ⟨middle, stamped, storing', ticked, stamps⟩ := storing.stampLru_ends.exists_ok
  obtain ⟨after, handled, storing'', store, absent', accessible', pending', located, same, envs,
    used⟩ :=
    storing'.createPageTable (ticked.pending pending) ((ticked.pagePresent env va).trans absent)
      (ticked.accessible accessible) ((ticked.slot_eq env va).trans missing) fuel
  refine ⟨after, ?_, storing'', store.trans (ticked.store env), absent', accessible', pending',
    located, ?_⟩
  · unfold trapDispatch
    rw [stamped]
    exact handled
  · intro lru _ _ full
    have algorithm : kernel.pageRepAlgoType = .lruTimeApprox :=
      (same.trans ticked.algorithm).symm.trans lru
    rw [envs] at full ⊢
    have positive := storing'.positive
    rw [← full] at positive
    obtain ⟨element, member⟩ := List.exists_mem_of_length_pos positive
    refine ⟨element, member, ?_⟩
    have clear := used element member
    rw [ticked.envs] at member
    rw [nextStamp, clear, (stamps algorithm element member).1, if_neg Bool.false_ne_true]
    have bound := storing''.stamps element
    omega

/-- An access of an accessible page makes it present. -/
theorem Storing.access_ends (storing : Storing kernel env) (calm : kernel.Calm env)
    (accessible : kernel.Accessible env va) (leaves : kernel.LeavesVictim env va)
    (fuel rounds : Nat) :
    Ends (access env va (fuel + 2) (rounds + 3) kernel) (kernel.Resolved env va) Exhausted := by
  have done : ∀ after, kernel.Resolved env va after → ∀ rounds,
      Ends (access env va (fuel + 2) (rounds + 1) after) (kernel.Resolved env va) Exhausted := by
    intro after resolved rounds
    unfold access
    rw [if_pos resolved.present]
    exact .ok resolved
  unfold access
  cases present : kernel.pagePresent env va with
  | true => exact .ok ⟨storing, present, calm, .refl⟩
  | false =>
      rw [if_neg Bool.false_ne_true]
      have pending := calm.pending present
      cases located : kernel.memory.slot (kernel.directory env) va with
      | some slot =>
          have serves := storing.trapDispatch_serves (fun faulted same =>
            Nat.le_succ_of_le (pending faulted same)) present accessible
              (by rw [located, Option.isSome_some]) leaves fuel
          exact serves.bind fun after resolved => done after resolved (rounds + 1)
      | none =>
          obtain ⟨created, dispatched, storing', store, absent, accessible', pending', located',
            leaves'⟩ := storing.trapDispatch_creates pending present accessible located (fuel + 2)
          rw [dispatched]
          change Ends (access env va (fuel + 2) (rounds + 2) created) _ _
          unfold access
          rw [absent, if_neg Bool.false_ne_true]
          have serves := storing'.trapDispatch_serves pending' absent accessible'
            located' leaves' fuel
          refine (serves.mono (fun after resolved => ?_) fun _ exhausted => exhausted).bind
            fun after resolved => done after resolved rounds
          exact ⟨resolved.storing, resolved.present, resolved.calm, store ▸ resolved.moves⟩

/-- The bits that an access sets change nothing in the store but the modified bit of its page. -/
theorem Storing.mark (storing : Storing kernel env) (calm : kernel.Calm env) (user : va < userTop)
    (present : kernel.pagePresent env va = true) {set : Perm} (unset : set &&& permPresent = 0#12) :
    ∃ after, kernel.setPagePermissions env va set 0 = .ok after ∧ Storing after env ∧
      after.Calm env ∧
      after.pagePresent env va = true ∧
      after.store env = { kernel.store env with
        modified := fun page => (kernel.store env).modified page ||
          decide (page = .of va user) && Perm.has set permModified } := by
  obtain ⟨slot, located⟩ := exists_slot present
  obtain ⟨free, ws⟩ := storing.running.workingSet
  have changed := setPagePermissions_eq kernel located set 0
  generalize marked : ({ kernel with
    memory := kernel.memory.setEntry slot ((kernel.memory.tables slot).setPerms set 0) } : Kernel) =
      after at changed
  have move : WsMove env (fun _ => True) kernel after :=
    .permissions env va unset (by decide) changed
  have running := (move.steps storing.running fun lru full => (storing.hand lru).listed full).1
  have entries : ∀ page : UserPage, after.pageEntry env page =
      if page = .of va user then (kernel.pageEntry env page).setPerms set 0
      else kernel.pageEntry env page := by
    intro page
    have updated : after.pageEntry env page = if roundDown page pageSize =
      roundDown va pageSize then
        (kernel.memory.tables slot).setPerms set 0 else kernel.pageEntry env page := by
      subst marked
      exact pageEntry_update ws.mapped.separate rfl (by rfl) located rfl
        (Nat.lt_trans user (by decide)) page.2.lt
    rw [updated, page.2.roundDown_eq]
    by_cases here : page = .of va user
    · have there : page.1 = roundDown va pageSize := congrArg Subtype.val here
      rw [if_pos here, if_pos there, ← pageEntry_eq located, there, pageEntry_roundDown]
    · have there : page.1 ≠ roundDown va pageSize := fun equal => here (Subtype.ext equal)
      rw [if_neg here, if_neg there]
  have kept : ∀ page : UserPage,
      (after.pageEntry env page).present = (kernel.pageEntry env page).present ∧
        (after.pageEntry env page).frame = (kernel.pageEntry env page).frame := by
    intro page
    rw [entries]
    split
    · exact ⟨PageTableEntry.setPerms_has _ unset (by decide), rfl⟩
    · exact ⟨rfl, rfl⟩
  have presence : ∀ page, after.pagePresent env page = kernel.pagePresent env page :=
    ((setPagePermissions_present kernel env va unset (by decide)).of_ok changed).1 env
  have store : after.store env = { kernel.store env with
      modified := fun page => (kernel.store env).modified page ||
        decide (page = .of va user) && Perm.has set permModified } := by
    refine PagedStore.ext ?_ ?_ ?_
    · have bytes : after.memory.bytes = kernel.memory.bytes := by
        subst marked
        rfl
      funext page
      simp only [Kernel.store, ← pageEntry_present, (kept page).1, (kept page).2, bytes]
    · funext page
      change Perm.has (after.pageEntry env page).perm permModified =
        (Perm.has (kernel.pageEntry env page).perm permModified ||
          decide (page = .of va user) && Perm.has set permModified)
      rw [entries]
      by_cases here : page = .of va user
      · rw [if_pos here, decide_eq_true here, Bool.true_and, PageTableEntry.setPerms,
          Perm.has_clear_of_disjoint _ (by decide), Perm.has_or]
      · rw [if_neg here, decide_eq_false here, Bool.false_and, Bool.or_false]
    · subst marked
      rfl
  refine ⟨after, changed, ⟨running, ?_, ?_, ?_, ?_, ?_, ?_⟩, ?_, ?_, store⟩
  · subst marked
    exact storing.positive
  · subst marked
    exact storing.owned
  · rw [store]
    exact storing.covered
  · subst marked
    exact storing.unbuffered
  · subst marked
    exact storing.hand
  · subst marked
    exact storing.stamps
  · unfold Calm
    rw [presence]
    subst marked
    exact calm
  · rwa [presence]

/-- A read returns the contents of its page, of which nothing is lost. -/
theorem Storing.userRead_ends (storing : Storing kernel env) (calm : kernel.Calm env)
    (accessible : kernel.Accessible env va) (leaves : kernel.LeavesVictim env va)
    (fuel rounds : Nat) :
    Ends (kernel.userRead env va (fuel + 2) (rounds + 3))
      (fun (value, after) => Storing after env ∧ after.Calm env ∧
        Relation.ReflTransGen PagedStore.Move (kernel.store env) (after.store env) ∧
        ∃ content, (after.store env).resident (.of va accessible.user) = some content ∧
          value = content (pgoff va))
      Exhausted := by
  unfold userRead
  apply (storing.access_ends calm accessible leaves fuel rounds).bind
  intro loaded resolved
  obtain ⟨after, changed, storing', calm', present, store⟩ :=
    resolved.storing.mark resolved.calm
    accessible.user resolved.present (show permUsed &&& permPresent = 0#12 by decide)
  have same : after.store env = loaded.store env := by
    rw [store]
    refine PagedStore.ext rfl (funext fun page => ?_) rfl
    simp [show Perm.has permUsed permModified = false by decide]
  rw [changed]
  refine .ok ⟨storing', calm', ?_, _, ?_, rfl⟩
  · rw [same]
    exact resolved.moves
  · have listed : after.pagePresent env (UserPage.of va accessible.user).1 = true := by
      rwa [UserPage.of, pagePresent_roundDown]
    simp only [Kernel.store]
    rw [if_pos listed, UserPage.of, pageEntry_roundDown]

/-- A byte written to the frame of a present page changes that page only. -/
theorem writeByte_store (ws : WorkingSet kernel env free) (user : va < userTop)
    (present : kernel.pagePresent env va = true)
    (modified : Perm.has (kernel.pageEntry env va).perm permModified = true) (index : Nat)
    (value : UInt8) :
    (kernel.writeByte (kernel.pageEntry env va).frame index value).store env =
      (kernel.store env).write (.of va user)
        (Function.update (kernel.memory.bytes (kernel.pageEntry env va).frame) index value) := by
  have here : kernel.pageEntry env (UserPage.of va user).1 = kernel.pageEntry env va :=
    pageEntry_roundDown ..
  have listed : ∀ page : UserPage, kernel.pagePresent env page = true →
      page.1 ∈ kernel.wsPages env := by
    intro page shown
    have member := (ws.mapped.present page page.2.2).mp shown
    rwa [page.2.roundDown_eq] at member
  have present' : kernel.pagePresent env (UserPage.of va user).1 = true :=
    (pagePresent_roundDown ..).trans present
  refine PagedStore.ext ?_ ?_ rfl
  · funext page
    change (if kernel.pagePresent env page then some ((Function.update kernel.memory.bytes
      (kernel.pageEntry env va).frame _) (kernel.pageEntry env page).frame) else none) =
        Function.update (kernel.store env).resident (.of va user) _ page
    by_cases same : page = .of va user
    · subst same
      rw [if_pos present', here, Function.update_self, Function.update_self]
    · rw [Function.update_of_ne same]
      cases shown : kernel.pagePresent env page with
      | false => simp [Kernel.store, shown]
      | true =>
          have apart : (kernel.pageEntry env page).frame ≠ (kernel.pageEntry env va).frame := by
            intro equal
            rw [← here] at equal
            exact same (Subtype.ext
              (ws.mapped.owns page (listed page shown) _ (listed _ present') equal))
          rw [if_pos rfl, Function.update_of_ne apart]
          simp [Kernel.store, shown]
  · funext page
    change (kernel.store env).modified page =
      Function.update (kernel.store env).modified (.of va user) true page
    by_cases same : page = .of va user
    · subst same
      rw [Function.update_self]
      change Perm.has (kernel.pageEntry env (UserPage.of va user).1).perm permModified = true
      rw [here, modified]
    · rw [Function.update_of_ne same]

/-- A byte written to a present page keeps every page one that can be written back. -/
theorem Storing.writeByte (storing : Storing kernel env) (frame index : Nat) (value : UInt8) :
    Storing (kernel.writeByte frame index value) env where
  running := by
    obtain ⟨free, ws⟩ := storing.running.workingSet
    have settles : Settles kernel (kernel.writeByte frame index value) := .of_memory rfl
    exact ⟨settles.orderly storing.running.orderly,
      ⟨free, ws.congr rfl rfl rfl rfl rfl rfl rfl fun _ => ⟨rfl, rfl⟩⟩,
        storing.running.active,
      storing.running.replaces⟩
  positive := storing.positive
  owned := storing.owned
  covered page resident := by
    apply storing.covered page
    simp only [Kernel.store] at resident ⊢
    split at resident
    · rename_i present
      rw [if_pos (show kernel.pagePresent env page = true from present)]
      rfl
    · cases resident
  unbuffered := storing.unbuffered
  hand := storing.hand
  stamps := storing.stamps

/-- A write changes one byte of its page, and nothing else is lost. -/
theorem Storing.userWrite_ends (storing : Storing kernel env) (calm : kernel.Calm env)
    (accessible : kernel.Accessible env va) (leaves : kernel.LeavesVictim env va) (value : UInt8)
    (fuel rounds : Nat) :
    Ends (kernel.userWrite env va value (fuel + 2) (rounds + 3))
      (fun after => Storing after env ∧ after.Calm env ∧
        ∃ moved content, Relation.ReflTransGen PagedStore.Move (kernel.store env) moved ∧
          moved.resident (.of va accessible.user) = some content ∧
          after.store env = moved.write (.of va accessible.user)
            (Function.update content (pgoff va) value))
      Exhausted := by
  unfold userWrite
  apply (storing.access_ends calm accessible leaves fuel rounds).bind
  intro loaded resolved
  obtain ⟨marked, changed, storing', calm', present, store⟩ :=
    resolved.storing.mark resolved.calm
    accessible.user resolved.present
      (show (permUsed ||| permModified) &&& permPresent = 0#12 by decide)
  obtain ⟨free, ws⟩ := storing'.running.workingSet
  have here : marked.pageEntry env (UserPage.of va accessible.user).1 = marked.pageEntry env va :=
    pageEntry_roundDown ..
  have present' : marked.pagePresent env (UserPage.of va accessible.user).1 = true :=
    (pagePresent_roundDown ..).trans present
  have modified : Perm.has (marked.pageEntry env va).perm permModified = true := by
    have bit := congrFun (congrArg PagedStore.modified store) (.of va accessible.user)
    change Perm.has (marked.pageEntry env (UserPage.of va accessible.user).1).perm permModified =
      (_ || decide _ && Perm.has (permUsed ||| permModified) permModified) at bit
    rw [here] at bit
    simp [bit, show Perm.has permModified permModified = true by decide]
  rw [changed]
  refine .ok ⟨storing'.writeByte .., calm', loaded.store env,
    marked.memory.bytes (marked.pageEntry env va).frame, resolved.moves, ?_, ?_⟩
  · have resident := congrFun (congrArg PagedStore.resident store) (.of va accessible.user)
    rw [← resident]
    simp only [Kernel.store]
    rw [if_pos present', here]
  · rw [writeByte_store ws accessible.user present modified, store]
    refine PagedStore.ext rfl (funext fun page => ?_) rfl
    simp only [PagedStore.write]
    by_cases same : page = .of va accessible.user
    · rw [same, Function.update_self, Function.update_self]
    · rw [Function.update_of_ne same, Function.update_of_ne same, decide_eq_false same,
        Bool.false_and, Bool.or_false]

/-- The values of locations that a user can rely on. -/
abbrev Contents : Type := UserPage → Nat → Option UInt8

/-- The initial contents of the page file. -/
def storedContents (kernel : Kernel) (env : Nat) : Contents :=
  fun page index => ((kernel.store env).stored page).map (· index)

/-- The contents after a write. -/
def Contents.write (known : Contents) (page : UserPage) (index : Nat) (value : UInt8) : Contents :=
  Function.update known page (Function.update (known page) index (some value))

/-- A read or a write of an accessible page, which is subject to a condition, or a clock interrupt;
with what is known of the contents. -/
inductive UserMove (env : Nat) (condition : Kernel → Nat → Prop) (before : Kernel × Contents) :
    Kernel × Contents → Prop
  | read {value : UInt8} {after : Kernel} (va fuel rounds : Nat)
      (accessible : before.1.Accessible env va) (met : condition before.1 va)
      (returned : before.1.userRead env va (fuel + 2) (rounds + 3) = .ok (value, after)) :
      UserMove env condition before (after, before.2)
  | write {after : Kernel} (va : Nat) (value : UInt8) (fuel rounds : Nat)
      (accessible : before.1.Accessible env va) (met : condition before.1 va)
      (returned : before.1.userWrite env va value (fuel + 2) (rounds + 3) = .ok after) :
      UserMove env condition before
        (after, before.2.write (.of va accessible.user) (pgoff va) value)
  | clockInterrupt {after : Kernel} (stamped : before.1.stampLru env = .ok after) :
      UserMove env condition before (after, before.2)

/-- Every read of an accessible page that meets the condition returns the known value of its
location, unless memory or the page file runs out. -/
def ReadsBack (env : Nat) (condition : Kernel → Nat → Prop) (kernel : Kernel)
    (known : Contents) :
    Prop :=
  ∀ va fuel rounds, ∀ accessible : kernel.Accessible env va, condition kernel va →
    Ends (kernel.userRead env va (fuel + 2) (rounds + 3))
      (fun (value, _) => ∀ expected,
        known (.of va accessible.user) (pgoff va) = some expected → value = expected)
      Exhausted

/-- Every resident page has its contents of the page file. -/
def Faithful (kernel : Kernel) (env : Nat) : Prop :=
  ∀ page content, (kernel.store env).resident page = some content →
    (kernel.store env).stored page = some content

/-- What every step of a run keeps. -/
structure Keeps (kernel : Kernel) (env : Nat) (known : Contents) : Prop where
  storing : Storing kernel env
  calm : kernel.Calm env
  clean : (kernel.store env).Clean
  holds : (kernel.store env).Holds known

/-- At the start the contents of the page file are held. -/
theorem Keeps.of_faithful (storing : Storing kernel env) (calm : kernel.Calm env)
    (faithful : kernel.Faithful env) : Keeps kernel env (kernel.storedContents env) where
  storing := storing
  calm := calm
  clean page content old resident _ stored := by
    rw [faithful page content resident, Option.some.injEq] at stored
    exact stored
  holds page index value expected := by
    cases stored : (kernel.store env).stored page with
    | none => simp [storedContents, stored] at expected
    | some old =>
        simp only [storedContents, stored, Option.map_some, Option.some.injEq] at expected
        refine ⟨.inl (by rw [stored, Option.isSome_some]), fun content held => ?_⟩
        cases resident : (kernel.store env).resident page with
        | none =>
            rw [PagedStore.value, resident, stored, Option.none_or, Option.some.injEq] at held
            rw [← held, expected]
        | some present =>
            have same := faithful page present resident
            rw [stored, Option.some.injEq] at same
            rw [PagedStore.value, resident, Option.some_or, Option.some.injEq] at held
            rw [← held, ← same, expected]

theorem Keeps.moved {known : Contents} (keeps : Keeps kernel env known)
    (storing : Storing after env)
    (calm : after.Calm env)
    (moves : Relation.ReflTransGen PagedStore.Move (kernel.store env) (after.store env)) :
    Keeps after env known := by
  obtain ⟨holds, clean⟩ := keeps.holds.of_moves keeps.clean moves
  exact ⟨storing, calm, clean, holds⟩

/-- A step under which LRU finds its victims loses no known value. -/
theorem UserMove.keeps {before after : Kernel × Contents} (keeps : Keeps before.1 env before.2)
    (move : UserMove env (fun kernel va => kernel.LeavesVictim env va) before after) :
    Keeps after.1 env after.2 := by
  cases move with
  | read va fuel rounds accessible met returned =>
      obtain ⟨storing, calm, moves, -⟩ :=
        (keeps.storing.userRead_ends keeps.calm accessible met fuel rounds).of_ok returned
      exact keeps.moved storing calm moves
  | write va value fuel rounds accessible met returned =>
      obtain ⟨storing, calm, moved, content, moves, resident, store⟩ :=
        (keeps.storing.userWrite_ends keeps.calm accessible met value fuel rounds).of_ok returned
      obtain ⟨holds, clean⟩ := keeps.holds.of_moves keeps.clean moves
      refine ⟨storing, calm, ?_, ?_⟩
      · rw [store]
        exact PagedStore.write_clean clean
      · rw [store]
        exact holds.write resident (pgoff va) value
  | clockInterrupt stamped =>
      obtain ⟨storing, ticked, -⟩ := keeps.storing.stampLru_ends.of_ok stamped
      refine keeps.moved storing (ticked.calm keeps.calm) ?_
      rw [ticked.store]

/-- In every run of user accesses in which LRU finds its victims, every read returns the last value
written to its location, or the initial contents of the page file. -/
theorem readsBack_of_run (start kernel : Kernel) (env : Nat) (known : Contents)
    (storing : Storing start env) (calm : start.Calm env) (faithful : start.Faithful env)
    (run : Relation.ReflTransGen (UserMove env fun kernel va => kernel.LeavesVictim env va)
      (start, start.storedContents env) (kernel, known)) :
    ReadsBack env (fun kernel va => kernel.LeavesVictim env va) kernel known := by
  have keeps : ∀ state : Kernel × Contents,
      Relation.ReflTransGen (UserMove env fun kernel va => kernel.LeavesVictim env va)
        (start, start.storedContents env) state → Keeps state.1 env state.2 := by
    intro state run
    induction run with
    | refl => exact .of_faithful storing calm faithful
    | tail _ move ih => exact move.keeps ih
  obtain ⟨storing, calm, clean, holds⟩ := keeps _ run
  intro va fuel rounds accessible met
  apply (storing.userRead_ends calm accessible met fuel rounds).mono _ fun _ exhausted => exhausted
  intro (value, after) ⟨_, _, moves, content, resident, same⟩ expected is
  rw [same]
  exact (holds.of_moves clean moves).1.read resident is

/-- Stack pages are always accessible. -/
theorem accessible_of_stack (kernel : Kernel) (env : Nat) (above : uStackBottom ≤ va)
    (below : va < uStackTop) : kernel.Accessible env va where
  below := below
  marked _ stop := by
    have heap : userHeapMax ≤ uStackBottom := by decide
    omega
  loadable := .inr (decide_eq_true (.inr ⟨above, below⟩))

theorem blank_storing (algorithm : PageRepAlgoType) (replaces : algorithm.Replaces) {size : Nat}
    (positive : 0 < size) (env : Nat) : Storing (blank algorithm size) env where
  running := blank_running algorithm replaces size env
  positive := positive
  owned := by
    have empty : (⟨none, none, 0, fun _ => none, fun _ => none⟩ :
        IntrusiveList Nat).Represents [] :=
      ⟨List.nodup_nil, rfl, rfl, rfl, trivial⟩
    have frames := ((empty.insertHead (show 1 ∉ [] by simp)).insertHead
      (show 2 ∉ [1] by simp)).insertHead (show 3 ∉ [2, 1] by simp)
    refine ⟨[3, 2, 1],
      ⟨frames, by simp, fun _ _ stored => absurd rfl stored, fun page => ?_⟩⟩
    change 0 ∉ _
    simp
  covered page resident := by
    simp [Kernel.store, blank_pagePresent] at resident
  unbuffered := rfl
  hand _ := .inr ⟨positive, rfl⟩
  stamps _ := show 0 < 2 ^ 32 by decide

/-- A stack page that CLOCK has evicted for another one is read back. -/
theorem readsBack_of_run_blank : ∃ written replaced value,
    (blank .clock 1).userWrite 0 0xEEBFD000 7 2 3 = .ok written ∧
      written.userRead 0 0xEEBFC000 2 3 = .ok (value, replaced) ∧
      Ends (replaced.userRead 0 0xEEBFD000 2 3) (fun (value, _) => value = 7) Exhausted := by
  obtain ⟨written, wrote, observed⟩ := Returns.exists (show Returns
    ((blank .clock 1).userWrite 0 0xEEBFD000 7 2 3) (fun written =>
      decide (written.pageRepAlgoType = .clock) && Returns (written.userRead 0 0xEEBFC000 2 3)
        (fun replaced => decide (replaced.2.pageRepAlgoType = .clock))) = true by decide +kernel)
  obtain ⟨clock, observed⟩ := Bool.and_eq_true_iff.mp observed
  obtain ⟨⟨value, replaced⟩, read, clock'⟩ := Returns.exists observed
  have leaves : ∀ kernel : Kernel, kernel.pageRepAlgoType = .clock → ∀ va,
      kernel.LeavesVictim 0 va := by
    intro kernel same va lru
    rw [same] at lru
    cases lru
  have stack : ∀ kernel : Kernel, kernel.Accessible 0 0xEEBFD000 := fun kernel =>
    accessible_of_stack kernel 0 (by decide) (by decide)
  have run : Relation.ReflTransGen (UserMove 0 fun kernel va => kernel.LeavesVictim 0 va)
      (blank .clock 1, (blank .clock 1).storedContents 0) (replaced, _) :=
    (Relation.ReflTransGen.single (.write 0xEEBFD000 7 0 0 (stack _) (leaves _ rfl _) wrote)).tail
      (.read 0xEEBFC000 0 0 (accessible_of_stack _ 0 (by decide) (by decide))
        (leaves _ (of_decide_eq_true clock) _) read)
  refine ⟨written, replaced, value, wrote, read, ?_⟩
  apply (readsBack_of_run (blank .clock 1) replaced 0 _ (blank_storing .clock trivial (by decide) 0)
    (fun impossible => by cases impossible)
    (fun page content held => by simp [Kernel.store, blank_pagePresent] at held) run 0xEEBFD000
    0 0 (stack _) (leaves _ (of_decide_eq_true clock') _)).mono _ fun _ exhausted => exhausted
  rintro ⟨value, after⟩ same
  exact same 7 (by simp [Contents.write])

/-- A program that reads one location between successive clock interrupts. -/
def rereads (env va : Nat) : Nat → Kernel → Except Stop Kernel
  | 0, kernel => .ok kernel
  | rounds + 1, kernel => do
      let (_, kernel) ← kernel.userRead env va 2 3
      let kernel ← kernel.stampLru env
      rereads env va rounds kernel

theorem rereads_run {env va : Nat} (accessible : ∀ kernel : Kernel, kernel.Accessible env va)
    (known : Contents) (rounds : Nat) : ∀ kernel after : Kernel,
    rereads env va rounds kernel = .ok after →
      Relation.ReflTransGen (UserMove env fun _ _ => True) (kernel, known) (after, known) := by
  induction rounds with
  | zero =>
      intro kernel after returned
      obtain rfl := Except.ok.inj returned
      exact .refl
  | succ rounds ih =>
      intro kernel after returned
      obtain ⟨⟨value, first⟩, read, returned⟩ := bind_eq_ok.mp returned
      obtain ⟨second, stamped, returned⟩ := bind_eq_ok.mp returned
      exact ((Relation.ReflTransGen.single (.read va 0 0 (accessible kernel) trivial read)).tail
        (.clockInterrupt stamped)).trans (ih second after returned)

/-- LRU evicts a written page for a second one. When that has been read between 31 clock interrupts
and once more, a read of the first page finds no victim. -/
theorem not_readsBack_after_clockInterrupts : ∃ kernel known,
    Relation.ReflTransGen (UserMove 0 fun _ _ => True)
      (blank .lruTimeApprox 1, (blank .lruTimeApprox 1).storedContents 0) (kernel, known) ∧
    ¬ ReadsBack 0 (fun _ _ => True) kernel known := by
  obtain ⟨written, wrote, observed⟩ := Returns.exists (show Returns
    ((blank .lruTimeApprox 1).userWrite 0 0xEEBFD000 7 2 3) (fun written => Returns
      (rereads 0 0xEEBFC000 31 written) (fun stamped => Returns
        (stamped.userRead 0 0xEEBFC000 2 3) (fun last => Stops
          (last.2.userRead 0 0xEEBFD000 2 3) fun halt =>
            match halt with
            | .nullPointer => true
            | _ => false))) = true by decide +kernel)
  obtain ⟨stamped, reread, observed⟩ := Returns.exists observed
  obtain ⟨⟨value, last⟩, read, observed⟩ := Returns.exists observed
  obtain ⟨halt, stopped, null⟩ := Stops.exists observed
  have stack : ∀ kernel : Kernel, kernel.Accessible 0 0xEEBFC000 := fun kernel =>
    accessible_of_stack kernel 0 (by decide) (by decide)
  have stack' : ∀ kernel : Kernel, kernel.Accessible 0 0xEEBFD000 := fun kernel =>
    accessible_of_stack kernel 0 (by decide) (by decide)
  refine ⟨last, _, ((Relation.ReflTransGen.single
    (.write 0xEEBFD000 7 0 0 (stack' _) trivial wrote)).trans
      (rereads_run stack _ 31 written stamped reread)).tail
        (.read 0xEEBFC000 0 0 (stack _) trivial read), fun readsBack => ?_⟩
  rcases (readsBack 0xEEBFD000 0 0 (stack' _) trivial).of_error stopped with same | same <;>
    rw [same] at null <;> cases null

end Kernel

end FosKernel
