import FosKernel.Trap.PageLoad

/-!
# How page faults end

Under OPTIMAL the page becomes present. Under the other algorithms it becomes
present, or the fault is rejected, or the handler leaves it because the active
working set of OPTIMAL lists it.
-/

namespace FosKernel

namespace Kernel

variable {kernel middle after : Kernel} {env va element : Nat}

/-- Presence depends only on memory and the directory of the environment. -/
theorem pagePresent_congr (memory : after.memory = kernel.memory)
    (directory : after.directory env = kernel.directory env) (va : Nat) :
    after.pagePresent env va = kernel.pagePresent env va := by
  simp only [pagePresent, memory, directory]

/-- Changing an environment that keeps its page directory changes no presence. -/
theorem setEnv_pagePresent (kernel : Kernel) (env : Nat) (value : Env)
    (directory : value.envPageDirectory = (kernel.envs env).envPageDirectory) (other va : Nat) :
    (kernel.setEnv env value).pagePresent other va = kernel.pagePresent other va := by
  apply pagePresent_congr
  · rfl
  · exact kernel.setEnv_envs env value
      (fun changed old => changed.envPageDirectory = old.envPageDirectory) directory (fun _ => rfl)
      other

/-- A page that a withdrawal left present was present. -/
theorem Withdraws.absent (withdraws : Withdraws kernel after)
    (absent : kernel.pagePresent env va = false) : after.pagePresent env va = false := by
  cases located : kernel.memory.slot (kernel.directory env) va with
  | none =>
      have missing : after.memory.slot (after.directory env) va = none := by
        rw [withdraws.directory, Memory.slot_congr withdraws.directories, located]
      simp only [pagePresent, Memory.entry, missing, Option.map_none]
  | some slot =>
      have located' : after.memory.slot (after.directory env) va = some slot := by
        rw [withdraws.directory, Memory.slot_congr withdraws.directories, located]
      rw [pagePresent_eq located] at absent
      rw [pagePresent_eq located', Bool.eq_false_iff]
      intro present
      rw [withdraws.present slot present] at absent
      cases absent

/-- A withdrawal keeps the pages of the active working set. -/
theorem Withdraws.isPageInWs (withdraws : Withdraws kernel after) (pageVa : Nat) :
    after.isPageInWs after.pageActiveWsList pageVa =
      kernel.isPageInWs kernel.pageActiveWsList pageVa := by
  unfold Kernel.isPageInWs elementVa
  rw [withdraws.active, withdraws.elements]

theorem Withdraws.rejectedBy {halt : Stop} (withdraws : Withdraws kernel middle)
    (rejected : middle.RejectedBy halt) : kernel.RejectedBy halt := by
  intro stopped same
  obtain ⟨withdraws', looped⟩ := rejected stopped same
  exact ⟨withdraws.trans withdraws', looped⟩

/-- A new time stamp keeps the pages of the elements. -/
theorem elementVa_stamp (kernel : Kernel) (element timeStamp other : Nat) :
    (Function.update kernel.elements element
      { kernel.elements element with timeStamp := timeStamp } other).virtualAddress =
        kernel.elementVa other := by
  by_cases same : other = element
  · rw [same, Function.update_self]
    rfl
  · rw [Function.update_of_ne same]
    rfl

/-- An element is created at the start of a page and changes no memory and no environment. -/
theorem createElement_ends (kernel : Kernel) (va : Nat) : Ends (kernel.createElement va)
    (fun (element, after) => ∃ elements nextElement,
      after = { kernel with elements := elements, nextElement := nextElement } ∧
      element = kernel.nextElement ∧ va < userTop ∧
      elements = Function.update kernel.elements element ⟨roundDown va pageSize, 0⟩ ∧
      nextElement = kernel.nextElement + 1) Stop.Unrejected := by
  unfold createElement
  split
  · rename_i user
    exact .ok ⟨_, _, rfl, rfl, user, rfl, rfl⟩
  · exact .error trivial

/-- Creating an element keeps the pages of the active working set user pages. -/
theorem createElement_settles (kernel : Kernel) (va : Nat) : Ends (kernel.createElement va)
    (fun (element, after) => after.memory = kernel.memory ∧ after.envs = kernel.envs ∧
      after.pageActiveWsList = kernel.pageActiveWsList ∧ IsUserPage (after.elementVa element) ∧
      Settles kernel after) Stop.Unrejected := by
  apply (createElement_ends kernel va).mono _ fun _ unrejected => unrejected
  intro (element, after) ⟨elements, nextElement, same, _, user, updated, _⟩
  subst same
  have start : IsUserPage (roundDown va pageSize) := by
    unfold IsUserPage roundDown pageSize
    omega
  have created : IsUserPage (elements element).virtualAddress := by
    rw [updated, Function.update_self]
    exact start
  refine ⟨rfl, rfl, rfl, created, { Settles.refl kernel with activePages := ?_ }⟩
  intro pages other member
  change IsUserPage (elements other).virtualAddress
  by_cases same : other = element
  · rw [same]
    exact created
  · rw [updated, Function.update_of_ne same]
    exact pages other member

theorem appendElement_ends (kernel : Kernel) (env va : Nat) :
    Ends (kernel.appendElement env va)
      (fun after => (∀ page, after.pagePresent env page = kernel.pagePresent env page) ∧
        Settles kernel after) Stop.Unrejected := by
  unfold appendElement
  apply (createElement_settles kernel va).bind
  intro (element, created) ⟨memory, envs, _, _, settles⟩
  refine .ok ⟨fun page => ?_, settles.trans (.of_setEnv rfl)⟩
  rw [setEnv_pagePresent created env _ (by rfl) env page]
  exact pagePresent_congr memory (congrArg Env.envPageDirectory (congrFun envs env)) page

/-- Setting and clearing other bits changes no presence. -/
theorem setPagePermissions_present (kernel : Kernel) (env va : Nat) {set clear : Perm}
    (unset : set &&& permPresent = 0#12) (kept : ~~~clear &&& permPresent = permPresent) :
    Ends (kernel.setPagePermissions env va set clear)
      (fun after => (∀ other page, after.pagePresent other page =
        kernel.pagePresent other page) ∧
        Settles kernel after) Stop.Unrejected := by
  cases located : kernel.memory.slot (kernel.directory env) va with
  | none =>
      unfold setPagePermissions Memory.ptSetPagePermissions
      rw [located]
      exact .error trivial
  | some slot =>
      rw [setPagePermissions_eq kernel located]
      refine .ok ⟨fun other page => ?_, .of_memory rfl⟩
      have same : ∀ after : Kernel, after.memory.slot (after.directory other) page =
          kernel.memory.slot (kernel.directory other) page → after.memory.tables =
            Function.update kernel.memory.tables slot
              ((kernel.memory.tables slot).setPerms set clear) →
          after.pagePresent other page = kernel.pagePresent other page := by
        intro after slots tables
        cases found : kernel.memory.slot (kernel.directory other) page with
        | none =>
            simp only [pagePresent, Memory.entry, slots, found, Option.map_none]
        | some place =>
            rw [pagePresent_eq (slots.trans found), pagePresent_eq found, tables]
            by_cases here : place = slot
            · rw [here, Function.update_self, PageTableEntry.present,
                PageTableEntry.setPerms_has _ unset kept, PageTableEntry.present]
            · rw [Function.update_of_ne here]
      exact same _ rfl rfl

theorem touchHand_ends (kernel : Kernel) (env : Nat) : Ends (kernel.touchHand env)
    (fun after => (∀ page, after.pagePresent env page = kernel.pagePresent env page) ∧
      Settles kernel after) Stop.Unrejected := by
  unfold touchHand
  split
  · exact .error trivial
  · rename_i hand _
    exact (setPagePermissions_present kernel env (kernel.elementVa hand) (by decide)
      (by decide)).mono (fun _ kept => ⟨kept.1 env, kept.2⟩) fun _ unrejected => unrejected

/-- What the handler does not handle: CLOCK and Modified CLOCK on a full working set leave a page
that is in the active working set. -/
def Skips (kernel : Kernel) (env va : Nat) : Prop :=
  (kernel.pageRepAlgoType = .clock ∨ kernel.pageRepAlgoType = .modifiedClock) ∧
    (kernel.envs env).pageWsMaxSize ≤ (kernel.envs env).pageWsList.length ∧
    kernel.isPageInWs kernel.pageActiveWsList (roundDown va pageSize) = true

end Kernel

/-- The algorithms that `page_fault_handler` has a branch for besides OPTIMAL. -/
def PageRepAlgoType.Replaces : PageRepAlgoType → Prop
  | .clock | .lruTimeApprox | .modifiedClock => True
  | _ => False

namespace Kernel

variable {kernel middle after : Kernel} {env va : Nat}

theorem placement_ends (kernel : Kernel) (absent : kernel.pagePresent env va = false) :
    Ends (kernel.placement env va)
      (fun after => after.pagePresent env va = true ∧ Settles kernel after)
      kernel.RejectedBy := by
  unfold placement
  apply (loadPage_ends _ absent).bind
  intro loaded ⟨present, settles⟩
  apply ((appendElement_ends loaded env va).mono (fun _ kept => kept) fun _ unrejected =>
    RejectedBy.of_unrejected unrejected).bind
  intro appended ⟨kept, settles'⟩
  refine .ok ⟨?_, (settles.trans settles').trans (.of_setEnv rfl)⟩
  rw [← present, ← kept va]
  exact setEnv_pagePresent appended env _ (by rfl) env va

theorem lruReplacement_ends (kernel : Kernel) (absent : kernel.pagePresent env va = false) :
    Ends (kernel.lruReplacement env va)
      (fun after => after.pagePresent env va = true ∧ Settles kernel after)
      kernel.RejectedBy := by
  unfold lruReplacement
  split
  · exact .error (RejectedBy.of_unrejected trivial)
  · rename_i victim _
    apply ((evict_withdraws kernel env victim).mono (fun _ withdraws => withdraws)
        fun _ unrejected =>
      RejectedBy.of_unrejected unrejected).bind
    intro evicted withdraws
    dsimp only
    have erased : Withdraws kernel (evicted.setEnv env
        { evicted.envs env with pageWsList := (evicted.envs env).pageWsList.erase victim }) :=
      withdraws.trans (.of_setEnv rfl rfl fun _ member => List.mem_of_mem_erase member)
    apply ((loadPage_ends _ (erased.absent absent)).mono (fun _ loaded => loaded) fun _ rejected =>
      erased.rejectedBy rejected).bind
    intro loaded ⟨present, settles⟩
    apply (appendElement_ends loaded env va).mono _ fun _ unrejected =>
      RejectedBy.of_unrejected unrejected
    intro appended ⟨kept, settles'⟩
    exact ⟨by rw [kept va, present], (erased.settles.trans settles).trans settles'⟩

/-- A fault of a page that is not present makes it present exactly when CLOCK or Modified CLOCK
do not skip it. -/
theorem pageFaultHandler_ends (env va fuel : Nat) : ∀ kernel : Kernel,
    kernel.pageRepAlgoType.Replaces → kernel.pagePresent env va = false →
      Ends (kernel.pageFaultHandler env va fuel)
        (fun after => (after.pagePresent env va = true ↔ ¬ kernel.Skips env va) ∧
          Settles kernel after)
        kernel.RejectedBy := by
  induction fuel with
  | zero => exact fun kernel _ _ => .error (RejectedBy.of_unrejected trivial)
  | succ fuel ih =>
      intro kernel replaces absent
      have notOptimal : kernel.pageRepAlgoType ≠ .optimal := by
        intro same
        rw [same] at replaces
        exact replaces
      unfold pageFaultHandler
      dsimp only
      rw [if_neg notOptimal]
      by_cases room : (kernel.envs env).pageWsList.length < (kernel.envs env).pageWsMaxSize
      · rw [if_pos room]
        have handled : ¬ kernel.Skips env va := fun skips => absurd room (Nat.not_lt.mpr skips.2.1)
        simpa only [handled, not_false_eq_true, iff_true] using placement_ends kernel absent
      · rw [if_neg room]
        -- after an eviction the handler starts again on the same active working set
        have again : ∀ next : Kernel, Withdraws kernel next →
            kernel.isPageInWs kernel.pageActiveWsList (roundDown va pageSize) = false →
              Ends (next.pageFaultHandler env va fuel)
                (fun after => (after.pagePresent env va = true ↔ ¬ kernel.Skips env va) ∧
                  Settles kernel after)
                kernel.RejectedBy := by
          intro next withdraws miss
          have miss' : next.isPageInWs next.pageActiveWsList (roundDown va pageSize) = false :=
            (withdraws.isPageInWs _).trans miss
          have handled : ¬ kernel.Skips env va := fun skips => by
            rw [skips.2.2] at miss
            cases miss
          have handled' : ¬ next.Skips env va := fun skips => by
            rw [skips.2.2] at miss'
            cases miss'
          have ends := ih next (by rwa [withdraws.algorithm]) (withdraws.absent absent)
          simp only [handled', not_false_eq_true, iff_true] at ends
          simp only [handled, not_false_eq_true, iff_true]
          exact ends.mono (fun _ ended => ⟨ended.1, withdraws.settles.trans ended.2⟩)
            fun _ rejected => withdraws.rejectedBy rejected
        have evicts : ∀ next victim, Withdraws kernel next →
            kernel.isPageInWs kernel.pageActiveWsList (roundDown va pageSize) = false →
              Ends (do
                  let next ← next.evict env victim
                  let next ← next.removeRotated env victim
                  next.pageFaultHandler env va fuel)
                (fun after => (after.pagePresent env va = true ↔ ¬ kernel.Skips env va) ∧
                  Settles kernel after)
                kernel.RejectedBy := by
          intro next victim withdraws miss
          apply ((evict_withdraws next env victim).mono (fun _ first => withdraws.trans first)
            fun _ unrejected => RejectedBy.of_unrejected unrejected).bind
          intro evicted first
          apply ((removeRotated_withdraws evicted env victim).mono (fun _ second =>
            first.trans second) fun _ unrejected => RejectedBy.of_unrejected unrejected).bind
          exact fun removed second => again removed second miss
        -- a skipped page stays as it is
        have skipped : kernel.Skips env va → Ends (kernel.touchHand env)
            (fun after => (after.pagePresent env va = true ↔ ¬ kernel.Skips env va) ∧
              Settles kernel after)
            kernel.RejectedBy := by
          intro skips
          apply (touchHand_ends kernel env).mono _ fun _ unrejected =>
            RejectedBy.of_unrejected unrejected
          intro after ⟨kept, settles⟩
          exact ⟨by simp [kept va, absent, skips], settles⟩
        cases algorithm : kernel.pageRepAlgoType with
        | clock =>
            cases hit : kernel.isPageInWs kernel.pageActiveWsList (roundDown va pageSize) with
            | true => exact skipped ⟨.inl algorithm, Nat.le_of_not_lt room, hit⟩
            | false =>
                apply ((clockVictim_searched env _ kernel).mono (fun _ searched => searched)
                  fun _ unrejected => RejectedBy.of_unrejected unrejected).bind
                exact fun (victim, searched) search => evicts searched victim search.withdraws hit
        | lruTimeApprox =>
            have handled : ¬ kernel.Skips env va := fun skips => by
              rcases skips.1 with same | same <;> rw [algorithm] at same <;> cases same
            simpa only [handled, not_false_eq_true, iff_true] using lruReplacement_ends kernel
              absent
        | modifiedClock =>
            cases hit : kernel.isPageInWs kernel.pageActiveWsList (roundDown va pageSize) with
            | true => exact skipped ⟨.inr algorithm, Nat.le_of_not_lt room, hit⟩
            | false =>
                apply ((modifiedClockVictim_searched env _ kernel).mono (fun _ searched => searched)
                  fun _ unrejected => RejectedBy.of_unrejected unrejected).bind
                intro (victim, searched) search
                exact evicts _ victim (search.withdraws.trans (.setHand ..)) hit
        | _ => rw [algorithm] at replaces; exact replaces.elim

end Kernel

/-- The page directory of an environment gives every region a table of its own. -/
def Kernel.SeparateTables (kernel : Kernel) (env : Nat) : Prop :=
  ∀ first second table, kernel.memory.directories (kernel.directory env) first = some table →
    kernel.memory.directories (kernel.directory env) second = some table → first = second

namespace Kernel

variable {kernel middle after : Kernel} {env va va' : Nat} {slot : Slot}

/-- With separate tables an entry belongs to one page. -/
theorem SeparateTables.page_unique (separate : kernel.SeparateTables env)
    (first : kernel.memory.slot (kernel.directory env) va = some slot)
    (second : kernel.memory.slot (kernel.directory env) va' = some slot)
    (bound : va < 2 ^ 32) (bound' : va' < 2 ^ 32) : vpn va = vpn va' := by
  obtain ⟨table, held, same⟩ := Option.map_eq_some_iff.mp first
  obtain ⟨table', held', same'⟩ := Option.map_eq_some_iff.mp second
  rw [← same] at same'
  obtain ⟨tables, indices⟩ := Prod.mk.inj same'
  subst tables
  have regions := separate _ _ _ held held'
  unfold pdx at regions
  unfold ptx at indices
  unfold vpn pageSize
  omega

/-- Adding an element for a user page to the active working set keeps it a set of user pages. -/
theorem ActivePages.append {element : Nat} (pages : kernel.ActivePages)
    (user : IsUserPage (kernel.elementVa element)) :
    ({ kernel with pageActiveWsList := kernel.pageActiveWsList ++ [element] } :
        Kernel).ActivePages := by
  intro other member
  rcases List.mem_append.mp member with old | new
  · exact pages other old
  · rw [List.mem_singleton.mp new]
    exact user

theorem initializeActive_ends (kernel : Kernel) (env : Nat) :
    Ends (kernel.initializeActive env)
      (fun after => after.memory = kernel.memory ∧ after.envs = kernel.envs ∧
        Settles kernel after) Stop.Unrejected := by
  unfold initializeActive
  split
  · exact .ok ⟨rfl, rfl, .refl kernel⟩
  · refine (Ends.foldlM (fun copied : Kernel => copied.memory = kernel.memory ∧
      copied.envs = kernel.envs ∧ copied.nextTable = kernel.nextTable ∧
      copied.pageRepAlgoType = kernel.pageRepAlgoType ∧ copied.ActivePages) ?_ _ ?_).mono ?_
      fun _ unrejected => unrejected
    · intro copied element _ ⟨memory, envs, nextTable, algorithm, pages⟩
      apply (createElement_settles copied _).bind
      intro (copy, created) ⟨memory', envs', active, user, settles⟩
      refine .ok ⟨memory'.trans memory, envs'.trans envs, settles.nextTable.trans nextTable,
        settles.algorithm.trans algorithm, ?_⟩
      exact (settles.activePages pages).append user
    · exact ⟨rfl, rfl, rfl, rfl, fun _ member => absurd member List.not_mem_nil⟩
    · intro after ⟨memory, envs, nextTable, algorithm, pages⟩
      refine ⟨memory, envs, ?_⟩
      exact {
        directories := congrArg Memory.directories memory
        directory := fun env => congrArg Env.envPageDirectory (congrFun envs env)
        nextTable := nextTable
        algorithm := algorithm
        activePages := fun _ => pages }

/-- OPTIMAL makes the page present if its table exists. -/
theorem makePresent_ends (kernel : Kernel) (env va : Nat) :
    Ends (kernel.makePresent env va)
      (fun after => ((kernel.memory.slot (kernel.directory env) va).isSome = true →
          after.pagePresent env va = true) ∧
        after.pageActiveWsList = kernel.pageActiveWsList ∧ after.elements = kernel.elements ∧
        Settles kernel after) Stop.Unrejected := by
  unfold makePresent
  dsimp only
  cases located : kernel.memory.slot (kernel.directory env) va with
  | none =>
      have unknown : kernel.pagePermissions env va = BitVec.allOnes 12 := by
        simp only [pagePermissions, Memory.ptGetPagePermissions, Memory.entry, located,
          Option.map_none, Option.getD_none]
      rw [unknown, if_pos (by decide)]
      exact .ok ⟨(fun located => by cases located), rfl, rfl, .refl kernel⟩
  | some slot =>
      have located' : kernel.memory.slot (kernel.directory env) (roundDown va pageSize) =
          some slot := by rw [Memory.slot_roundDown, located]
      rw [pagePermissions_eq located]
      cases present : Perm.has (kernel.memory.tables slot).perm permPresent with
      | true =>
          rw [if_pos rfl]
          exact .ok ⟨fun _ => (pagePresent_eq located).trans present, rfl, rfl, .refl kernel⟩
      | false =>
          rw [if_neg Bool.false_ne_true]
          split
          · rw [setPagePermissions_eq kernel located']
            refine .ok ⟨fun _ => ?_, rfl, rfl, .of_memory rfl⟩
            rw [setEntry_pagePresent located, PageTableEntry.present, PageTableEntry.setPerms,
              Perm.has_clear_of_disjoint _ (by decide), Perm.has_or,
              show Perm.has permPresent permPresent = true by decide, Bool.or_true]
          · cases allocated : kernel.memory.allocateFrame with
            | none => exact .error trivial
            | some result =>
              obtain ⟨frame, taken⟩ := result
              have fetch : Fetch kernel env va slot frame taken := ⟨located, present, allocated⟩
              obtain ⟨-, directories, -⟩ := Memory.allocateFrame_spec allocated
              simp only [fetch.mapFrame_eq]
              by_cases unstored : (kernel.envs env).diskFrame va = 0
              · rw [pfReadEnvPage_of_unstored unstored]
                exact .ok ⟨fun _ => fetch.installed_present _, rfl, rfl, .of_memory directories⟩
              · rw [fetch.pfReadEnvPage_of_stored _ unstored]
                exact .ok ⟨fun _ => fetch.filled_present _, rfl, rfl, .of_memory directories⟩

/-- Emptying the active working set changes the entries of its pages only. -/
theorem clearActive_ends (kernel : Kernel) (env : Nat) :
    Ends (kernel.clearActive env)
      (fun after => (∀ slot, (∀ element ∈ kernel.pageActiveWsList,
          kernel.memory.slot (kernel.directory env) (kernel.elementVa element) ≠ some slot) →
            after.memory.tables slot = kernel.memory.tables slot) ∧
        Settles kernel after) Stop.Unrejected := by
  unfold clearActive
  refine ((Ends.foldlM (fun cleared : Kernel =>
      (∃ memory : Memory, cleared = { kernel with memory := memory }) ∧
      cleared.memory.directories = kernel.memory.directories ∧
      ∀ slot, (∀ element ∈ kernel.pageActiveWsList,
          kernel.memory.slot (kernel.directory env) (kernel.elementVa element) ≠ some slot) →
        cleared.memory.tables slot = kernel.memory.tables slot) ?_ kernel ?_)).bind ?_
  · intro cleared element member ⟨⟨memory, same⟩, directories, kept⟩
    subst same
    change Ends (({ kernel with memory := memory } : Kernel).setPagePermissions env
      (kernel.elementVa element) 0 permPresent) _ _
    have located : memory.slot (kernel.directory env) (kernel.elementVa element) =
        kernel.memory.slot (kernel.directory env) (kernel.elementVa element) :=
      Memory.slot_congr directories ..
    cases place : kernel.memory.slot (kernel.directory env) (kernel.elementVa element) with
    | none =>
        rw [setPagePermissions_of_missing { kernel with memory := memory } (located.trans place)]
        exact .error trivial
    | some cleared =>
        rw [setPagePermissions_eq { kernel with memory := memory } (located.trans place)]
        refine .ok ⟨⟨_, rfl⟩, directories, fun slot apart => ?_⟩
        have different : slot ≠ cleared := fun same => apart element member (same ▸ place)
        exact (Function.update_of_ne different ..).trans (kept slot apart)
  · exact ⟨⟨kernel.memory, rfl⟩, rfl, fun _ _ => rfl⟩
  · intro cleared ⟨⟨memory, same⟩, directories, kept⟩
    subst same
    refine .ok ⟨kept, ?_⟩
    exact { Settles.of_memory directories with
      activePages := fun _ _ member => absurd member List.not_mem_nil }

/-- The pages keep their entries' places. -/
theorem Settles.slot_eq (settles : Settles kernel after) (env va : Nat) :
    after.memory.slot (after.directory env) va = kernel.memory.slot (kernel.directory env) va := by
  rw [settles.directory, Memory.slot_congr settles.directories]

theorem Settles.separateTables (settles : Settles kernel after)
    (separate : kernel.SeparateTables env) : after.SeparateTables env := by
  unfold SeparateTables
  rw [settles.directory, settles.directories]
  exact separate

/-- Emptying the active working set leaves a page alone that it does not list. -/
theorem clearActive_present (settles : Settles kernel after)
    (kept : ∀ slot, (∀ element ∈ kernel.pageActiveWsList,
      kernel.memory.slot (kernel.directory env) (kernel.elementVa element) ≠ some slot) →
        after.memory.tables slot = kernel.memory.tables slot)
    (separate : kernel.SeparateTables env) (pages : kernel.ActivePages)
    (miss : kernel.isPageInWs kernel.pageActiveWsList (roundDown va pageSize) = false)
    (bound : va < 2 ^ 32) (located : kernel.memory.slot (kernel.directory env) va = some slot) :
    after.pagePresent env va = kernel.pagePresent env va := by
  rw [pagePresent_eq located, pagePresent_eq ((settles.slot_eq env va).trans located), kept slot]
  intro element member listed
  have user := pages element member
  have different : kernel.elementVa element ≠ roundDown va pageSize := by
    simpa using List.any_eq_false.mp miss element member
  have same := separate.page_unique listed located (by
    have below := user.2
    unfold userTop at below
    omega) bound
  have start := user.1
  unfold vpn pageSize at same
  unfold roundDown pageSize at different
  unfold pageSize at start
  omega

/-- The kernel after `fault_handler` has noted the fault. -/
def notedFault (kernel : Kernel) (env va : Nat) : Kernel :=
  { kernel with
    numRepeatedFault :=
      if kernel.lastFaultVa = va ∧ kernel.lastFaultedEnv = some env then
        kernel.numRepeatedFault + 1
      else 0
    lastFaultVa := va
    lastFaultedEnv := some env }

/-- The part of `fault_handler` for a user access whose page table exists. -/
def checkedFault (kernel : Kernel) (env va fuel : Nat) : Except Stop Kernel :=
  let perms := kernel.pagePermissions env va
  if uStackTop ≤ va then .error (.envExit kernel)
  else if ¬ Perm.has perms permUHPage ∧ userHeapStart ≤ va ∧ va < userHeapMax then
    .error (.envExit kernel)
  else if Perm.has perms permPresent ∧ ¬ Perm.has perms permWriteable then
    .error (.envExit kernel)
  else if Perm.has perms permPresent then .error .panic
  else if kernel.enableBuffering then .error .panic
  else kernel.pageFaultHandler env va fuel

/-- The same address faulted for the third successive time after its first fault. -/
def RepeatedThrice (kernel : Kernel) (env va : Nat) : Prop :=
  kernel.lastFaultVa = va ∧ kernel.lastFaultedEnv = some env ∧ kernel.numRepeatedFault = 2

theorem faultHandler_of_repeated (repeated : kernel.RepeatedThrice env va) (fuel : Nat) :
    kernel.faultHandler env va fuel = .error .panic := by
  obtain ⟨address, faulted, count⟩ := repeated
  unfold faultHandler
  simp only [address, faulted, count, and_self, ↓reduceIte]

theorem not_third_of_calm (calm : ¬ kernel.RepeatedThrice env va) :
    ¬ ((kernel.lastFaultVa = va ∧ kernel.lastFaultedEnv = some env) ∧
      (if kernel.lastFaultVa = va ∧ kernel.lastFaultedEnv = some env then
        kernel.numRepeatedFault + 1 else 0) = 3) := by
  rintro ⟨same, count⟩
  rw [if_pos same] at count
  exact calm ⟨same.1, same.2, Nat.succ.inj count⟩

theorem faultHandler_eq (calm : ¬ kernel.RepeatedThrice env va) (fuel : Nat) :
    kernel.faultHandler env va fuel =
      if uStackTop ≤ va ∧ va < userTop then .error .panic
      else
        match kernel.memory.getPageTable (kernel.directory env) va with
        | none => .ok ((kernel.notedFault env va).createPageTable env va)
        | some _ => (kernel.notedFault env va).checkedFault env va fuel := by
  unfold faultHandler
  dsimp only
  rw [if_neg (not_third_of_calm calm)]
  rfl

/-- The rule of `fault_handler`: it panics, ends the environment, creates a page table, or handles
the fault of a page that is not present. -/
theorem faultHandler_ends {returns : Kernel → Prop} {stops : Stop → Prop} (kernel : Kernel)
    (env va fuel : Nat) (panic : stops .panic) (exit : stops (.envExit (kernel.notedFault env va)))
    (table : kernel.memory.getPageTable (kernel.directory env) va = none →
      returns ((kernel.notedFault env va).createPageTable env va))
    (page : va < uStackTop → (kernel.memory.slot (kernel.directory env) va).isSome = true →
      kernel.pagePresent env va = false →
        Ends ((kernel.notedFault env va).pageFaultHandler env va fuel) returns stops) :
    Ends (kernel.faultHandler env va fuel) returns stops := by
  by_cases repeated : kernel.RepeatedThrice env va
  · rw [faultHandler_of_repeated repeated]
    exact .error panic
  · rw [faultHandler_eq repeated]
    split
    · exact .error panic
    · cases held : kernel.memory.getPageTable (kernel.directory env) va with
      | none => exact .ok (table held)
      | some number =>
          have located : kernel.memory.slot (kernel.directory env) va = some (number, ptx va) := by
            rw [Memory.slot, held, Option.map_some]
          have perms : (kernel.notedFault env va).pagePermissions env va =
              (kernel.memory.tables (number, ptx va)).perm := pagePermissions_eq located
          dsimp only
          unfold checkedFault
          dsimp only
          rw [perms]
          split
          · exact .error exit
          · rename_i below
            split
            · exact .error exit
            · split
              · exact .error exit
              · split
                · exact .error panic
                · rename_i nonpresent
                  split
                  · exact .error panic
                  · apply page (Nat.lt_of_not_le below) (by rw [located, Option.isSome_some])
                    rw [pagePresent_eq located]
                    exact Bool.eq_false_iff.mpr nonpresent

/-- OPTIMAL makes the page present. -/
theorem optimalReplacement_ends (kernel : Kernel) (env va : Nat) :
    Ends (kernel.optimalReplacement env va)
      (fun after => ((kernel.memory.slot (kernel.directory env) va).isSome = true →
          kernel.SeparateTables env → kernel.ActivePages → va < 2 ^ 32 →
            after.pagePresent env va = true) ∧
        Settles kernel after) Stop.Unrejected := by
  unfold optimalReplacement
  apply (initializeActive_ends kernel env).bind
  intro copied ⟨memory, envs, settles⟩
  apply (makePresent_ends copied env va).bind
  intro made ⟨present, active, elements, settles'⟩
  dsimp only
  have directory : copied.directory env = kernel.directory env :=
    congrArg Env.envPageDirectory (congrFun envs env)
  rw [memory, directory] at present
  cases hit : made.isPageInWs made.pageActiveWsList (roundDown va pageSize) with
  | true => exact .ok ⟨fun located _ _ _ => present located, settles.trans settles'⟩
  | false =>
      have finish : ∀ emptied : Kernel,
          ((kernel.memory.slot (kernel.directory env) va).isSome = true →
            kernel.SeparateTables env → kernel.ActivePages → va < 2 ^ 32 →
              emptied.pagePresent env va = true) → Settles kernel emptied →
          Ends (do
              let (element, emptied) ← emptied.createElement va
              let emptied := { emptied with
                pageActiveWsList := emptied.pageActiveWsList ++ [element] }
              let faultedEnv := emptied.envs env
              let ref : PageRefElement := ⟨roundDown va pageSize⟩
              return emptied.setEnv env { faultedEnv with
                referenceStreamList := faultedEnv.referenceStreamList ++ [ref] })
            (fun after => ((kernel.memory.slot (kernel.directory env) va).isSome = true →
                kernel.SeparateTables env → kernel.ActivePages → va < 2 ^ 32 →
                  after.pagePresent env va = true) ∧
              Settles kernel after) Stop.Unrejected := by
        intro emptied present settles
        apply (createElement_settles emptied va).bind
        intro (element, created) ⟨memory, envs, _, user, settles'⟩
        have appended : Settles created { created with
            pageActiveWsList := created.pageActiveWsList ++ [element] } :=
          { Settles.refl created with activePages := fun pages => pages.append user }
        refine .ok ⟨fun located separate pages bound => ?_,
          ((settles.trans settles').trans appended).trans (.of_setEnv rfl)⟩
        rw [setEnv_pagePresent _ env _ (by rfl), ← present located separate pages bound]
        apply pagePresent_congr memory
        exact congrArg Env.envPageDirectory (congrFun envs env)
      rw [if_neg Bool.false_ne_true]
      split
      · apply (clearActive_ends made env).bind
        intro emptied ⟨kept, settles''⟩
        have settled := settles.trans settles'
        refine finish emptied (fun exists_table separate pages bound => ?_)
          (settled.trans settles'')
        obtain ⟨slot, located⟩ := Option.isSome_iff_exists.mp exists_table
        rw [clearActive_present settles'' kept (settled.separateTables separate)
          (settled.activePages pages) hit bound ((settled.slot_eq env va).trans located)]
        exact present exists_table
      · exact finish made (fun located _ _ _ => present located) (settles.trans settles')

end Kernel

end FosKernel
