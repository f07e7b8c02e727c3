import Mathlib.Logic.Relation
import FosKernel.Trap.PageFaults

/-!
# Progress after page faults

Runs of page faults by any environments under algorithms that change between
them. After a fault the page is present, except where CLOCK or Modified CLOCK
find it in the active working set, which only OPTIMAL fills and which belongs to
no environment in particular.
-/

namespace FosKernel

/-- The algorithms that `page_fault_handler` implements. -/
def PageRepAlgoType.Implemented (algorithm : PageRepAlgoType) : Prop :=
  algorithm = .optimal ∨ algorithm.Replaces

namespace Kernel

/-- The active working set holds user pages, every table belongs to one entry of a directory, and
new tables are not in use. -/
structure Orderly (kernel : Kernel) : Prop where
  activePages : kernel.ActivePages
  separate : ∀ directory first second table,
    kernel.memory.directories directory first = some table →
      kernel.memory.directories directory second = some table → first = second
  fresh : ∀ directory index table,
    kernel.memory.directories directory index = some table → table < kernel.nextTable
  implemented : kernel.pageRepAlgoType.Implemented

/-- A step of the kernel between two page faults, or one of them: the processor and the system
calls on the user heap change permissions, and the clock updates time stamps. -/
inductive Move (before : Kernel) : Kernel → Prop
  | fault {after : Kernel} (env va fuel : Nat)
      (handled : before.faultHandler env va fuel = .ok after) : Move before after
  | setPageReplacmentAlgorithm (algorithm : PageRepAlgoType) (implemented : algorithm.Implemented) :
      Move before { before with pageRepAlgoType := algorithm }
  | permissions {after : Kernel} (env va : Nat) (set clear : Perm)
      (changed : before.setPagePermissions env va set clear = .ok after) : Move before after
  | tick {after : Kernel} (env : Nat) (stamped : before.updateWsTimeStamps env = .ok after) :
      Move before after

/-- The page is in the page file, in the stack, or marked in the heap. -/
def Legal (kernel : Kernel) (env va : Nat) : Prop :=
  (kernel.envs env).diskFrame va ≠ 0 ∨ uStackBottom ≤ va ∧ va < uStackTop ∨
    userHeapStart ≤ va ∧ va < userHeapMax ∧
      Perm.has (kernel.pagePermissions env va) permUHPage = true

variable {kernel before after start : Kernel} {env va fuel : Nat}

theorem Orderly.separateTables (orderly : kernel.Orderly) (env : Nat) :
    kernel.SeparateTables env :=
  orderly.separate (kernel.directory env)

theorem Settles.orderly (settles : Settles before after) (orderly : before.Orderly) :
    after.Orderly where
  activePages := settles.activePages orderly.activePages
  separate := by
    rw [settles.directories]
    exact orderly.separate
  fresh := by
    rw [settles.directories, settles.nextTable]
    exact orderly.fresh
  implemented := by
    rw [settles.algorithm]
    exact orderly.implemented

theorem setPagePermissions_settles (kernel : Kernel) (env va : Nat) (set clear : Perm) :
    Ends (kernel.setPagePermissions env va set clear) (Settles kernel) Stop.Unrejected := by
  cases located : kernel.memory.slot (kernel.directory env) va with
  | none =>
      rw [setPagePermissions_of_missing kernel located]
      exact .error trivial
  | some slot =>
      rw [setPagePermissions_eq kernel located]
      exact .ok (.of_memory rfl)

/-- A new time stamp leaves the pages of the active working set the same. -/
theorem stamp_settles (kernel : Kernel) (element timeStamp : Nat) :
    Settles kernel { kernel with
      elements := Function.update kernel.elements element
        { kernel.elements element with timeStamp := timeStamp } } :=
  { Settles.refl kernel with
    activePages := by
      intro pages other member
      have kept := kernel.elementVa_stamp element timeStamp other
      exact (congrArg IsUserPage kept).mpr (pages other member) }

theorem updateWsTimeStamps_settles (kernel : Kernel) (env : Nat) :
    Ends (kernel.updateWsTimeStamps env) (Settles kernel) Stop.Unrejected := by
  unfold updateWsTimeStamps
  refine Ends.foldlM (Settles kernel) ?_ kernel (.refl kernel)
  intro stamped element _ settles
  dsimp only
  split
  · exact (setPagePermissions_settles _ env _ 0 permUsed).mono
      (fun _ cleared => (settles.trans (stamp_settles stamped element
        ((stamped.elements element).timeStamp / 2 ||| 2 ^ 31))).trans cleared)
      fun _ unrejected => unrejected
  · exact .ok (settles.trans (stamp_settles stamped element _))

theorem pageFaultHandler_settles (kernel : Kernel) (env va fuel : Nat)
    (implemented : kernel.pageRepAlgoType.Implemented)
    (absent : kernel.pagePresent env va = false) :
    Ends (kernel.pageFaultHandler env va fuel) (Settles kernel) fun _ => True := by
  rcases implemented with optimal | replaces
  · cases fuel with
    | zero => exact .error trivial
    | succ fuel =>
        unfold pageFaultHandler
        rw [if_pos optimal]
        exact (optimalReplacement_ends kernel env va).mono (fun _ ended => ended.2)
          fun _ _ => trivial
  · exact (pageFaultHandler_ends env va fuel kernel replaces absent).mono (fun _ ended => ended.2)
      fun _ _ => trivial

/-- A new page table takes an unused number. -/
theorem Orderly.createPageTable (orderly : kernel.Orderly) (env va : Nat) :
    (kernel.createPageTable env va).Orderly where
  activePages := orderly.activePages
  separate directory first second table held held' := by
    by_cases same : directory = kernel.directory env
    · subst same
      have unused : ∀ index,
          kernel.memory.directories (kernel.directory env) index ≠ some kernel.nextTable :=
        fun index held => Nat.lt_irrefl _ (orderly.fresh _ _ _ held)
      simp only [Kernel.createPageTable, Function.update_self] at held held'
      by_cases here : first = pdx va <;> by_cases here' : second = pdx va
      · rw [here, here']
      · rw [here, Function.update_self] at held
        rw [Function.update_of_ne here', ← held] at held'
        exact absurd held' (unused second)
      · rw [here', Function.update_self] at held'
        rw [Function.update_of_ne here, ← held'] at held
        exact absurd held (unused first)
      · rw [Function.update_of_ne here] at held
        rw [Function.update_of_ne here'] at held'
        exact orderly.separate _ _ _ _ held held'
    · simp only [Kernel.createPageTable, Function.update_of_ne same] at held held'
      exact orderly.separate _ _ _ _ held held'
  fresh directory index table held := by
    have bound : directory = kernel.directory env ∧ index = pdx va ∧
      table = kernel.nextTable ∨
        kernel.memory.directories directory index = some table := by
      by_cases same : directory = kernel.directory env
      · subst same
        simp only [Kernel.createPageTable, Function.update_self] at held
        by_cases here : index = pdx va
        · rw [here, Function.update_self] at held
          exact .inl ⟨rfl, here, (Option.some.inj held).symm⟩
        · rw [Function.update_of_ne here] at held
          exact .inr held
      · simp only [Kernel.createPageTable, Function.update_of_ne same] at held
        exact .inr held
    rcases bound with ⟨_, _, new⟩ | old
    · exact Nat.lt_succ_of_le (Nat.le_of_eq new)
    · exact Nat.lt_succ_of_lt (orderly.fresh _ _ _ old)
  implemented := orderly.implemented

theorem notedFault_orderly (orderly : kernel.Orderly) : (kernel.notedFault env va).Orderly :=
  Settles.orderly { Settles.refl kernel with } orderly

theorem faultHandler_orderly (kernel : Kernel) (env va fuel : Nat) (orderly : kernel.Orderly) :
    Ends (kernel.faultHandler env va fuel) Orderly fun _ => True := by
  have noted : (kernel.notedFault env va).Orderly := notedFault_orderly orderly
  apply faultHandler_ends
  · trivial
  · trivial
  · exact fun _ => noted.createPageTable env va
  · intro _ _ absent
    exact (pageFaultHandler_settles (kernel.notedFault env va) env va fuel orderly.implemented
      absent).mono (fun _ settles => settles.orderly noted) fun _ _ => trivial

/-- Every step keeps the kernel orderly. -/
theorem Move.orderly (move : Move before after) (orderly : before.Orderly) : after.Orderly := by
  cases move with
  | fault env va fuel handled =>
      exact (faultHandler_orderly before env va fuel orderly).of_ok handled
  | setPageReplacmentAlgorithm algorithm implemented =>
    exact { orderly with implemented := implemented }
  | permissions env va set clear changed =>
      exact ((setPagePermissions_settles before env va set clear).of_ok changed).orderly orderly
  | tick env stamped =>
      exact ((updateWsTimeStamps_settles before env).of_ok stamped).orderly orderly

/-- The kernel stays orderly in every run. -/
theorem Orderly.of_run (orderly : start.Orderly) (run : Relation.ReflTransGen Move start kernel) :
    kernel.Orderly := by
  induction run with
  | refl => exact orderly
  | tail _ move ih => exact move.orderly ih

/-- In every run from an orderly start, a fault of a page that is not present and whose page table
exists makes the page present exactly when it is not skipped. -/
theorem present_iff_of_run (start kernel after : Kernel) (env va fuel : Nat)
    (orderly : start.Orderly) (run : Relation.ReflTransGen Move start kernel)
    (bound : va < 2 ^ 32)
    (located : (kernel.memory.slot (kernel.directory env) va).isSome = true)
    (absent : kernel.pagePresent env va = false)
    (returned : kernel.pageFaultHandler env va fuel = .ok after) :
    after.pagePresent env va = true ↔ ¬ kernel.Skips env va := by
  have orderly := orderly.of_run run
  rcases orderly.implemented with optimal | replaces
  · have handled : ¬ kernel.Skips env va := fun skips => by
      rcases skips.1 with same | same <;> rw [optimal] at same <;> cases same
    have present : after.pagePresent env va = true := by
      cases fuel with
      | zero => cases returned
      | succ fuel =>
          unfold pageFaultHandler at returned
          rw [if_pos optimal] at returned
          exact ((optimalReplacement_ends kernel env va).of_ok returned).1 located
            (orderly.separateTables env) orderly.activePages bound
    simp only [present, handled, not_false_eq_true]
  · exact ((pageFaultHandler_ends env va fuel kernel replaces absent).of_ok returned).1

theorem blank_orderly (algorithm : PageRepAlgoType) (implemented : algorithm.Implemented)
    (pageWsMaxSize : Nat) : (blank algorithm pageWsMaxSize).Orderly where
  activePages _ member := absurd member List.not_mem_nil
  separate directory first second table held held' := by
    simp only [blank, List.foldl_cons, List.foldl_nil, Memory.freeFrame_directories,
      Option.ite_none_right_eq_some, Option.some.injEq] at held held'
    omega
  fresh directory index table held := by
    simp only [blank, List.foldl_cons, List.foldl_nil, Memory.freeFrame_directories,
      Option.ite_none_right_eq_some, Option.some.injEq] at held ⊢
    omega
  implemented := implemented

/-- After two stack pages in a working set of one page, a third fault replaces the second page. -/
theorem present_iff_of_run_blank : ∃ kernel after : Kernel,
    ((kernel.envs 0).pageWsList.map kernel.elementVa = [0xEEBFC000] ∧
      (after.envs 0).pageWsList.map after.elementVa = [0xEEBFB000]) ∧
      (after.pagePresent 0 0xEEBFB000 = true ↔ ¬ kernel.Skips 0 0xEEBFB000) := by
  obtain ⟨first, faulted, observed⟩ := Returns.exists (show Returns
    ((blank .clock 1).faultHandler 0 0xEEBFD000 2) (fun first => Returns
      (first.faultHandler 0 0xEEBFC000 2) (fun second =>
        ((second.envs 0).pageWsList.map second.elementVa ==
          [0xEEBFC000] && !second.pagePresent 0 0xEEBFB000 &&
          (second.memory.slot (second.directory 0) 0xEEBFB000).isSome) &&
        Returns (second.pageFaultHandler 0 0xEEBFB000 2)
          (fun third => (third.envs 0).pageWsList.map third.elementVa == [0xEEBFB000]))) = true by
        decide +kernel)
  obtain ⟨second, faulted', observed⟩ := Returns.exists observed
  simp only [Bool.and_eq_true, beq_iff_eq, Bool.not_eq_true'] at observed
  obtain ⟨⟨⟨pages, absent⟩, located⟩, observed⟩ := observed
  obtain ⟨third, returned, pages'⟩ := Returns.exists observed
  exact ⟨second, third, ⟨pages, beq_iff_eq.mp pages'⟩,
    present_iff_of_run (blank .clock 1) second third 0 0xEEBFB000 2
      (blank_orderly .clock (.inr trivial) 1)
      ((Relation.ReflTransGen.single (.fault 0 _ 2 faulted)).tail (.fault 0 _ 2 faulted'))
      (by decide) located absent returned⟩

/-- OPTIMAL puts a stack page of environment 0 into the active working set. Under CLOCK the fault
of environment 1 on its own stack page at that address then leaves the page absent. -/
theorem absent_after_switch : ∃ kernel after,
    Relation.ReflTransGen Move (blank .optimal 1) kernel ∧ kernel.Legal 1 0xEEBFD000 ∧
      kernel.pagePresent 1 0xEEBFD000 = false ∧
      kernel.pageFaultHandler 1 0xEEBFD000 1 = .ok after ∧
      after.pagePresent 1 0xEEBFD000 = false := by
  obtain ⟨first, faulted, observed⟩ := Returns.exists (show Returns
    ((blank .optimal 1).faultHandler 0 0xEEBFD000 1) (fun first => Returns
      (({ first with pageRepAlgoType := .clock } : Kernel).faultHandler 1 0xEEBFC000 1)
        (fun second => !second.pagePresent 1 0xEEBFD000 && Returns
          (second.pageFaultHandler 1 0xEEBFD000 1)
            (fun last => !last.pagePresent 1 0xEEBFD000))) = true by decide +kernel)
  obtain ⟨second, faulted', observed⟩ := Returns.exists observed
  obtain ⟨absent, observed⟩ := Bool.and_eq_true_iff.mp observed
  obtain ⟨last, returned, observed⟩ := Returns.exists observed
  refine ⟨second, last, ?_, .inr (.inl (by decide)), by simpa using absent, returned,
    by simpa using observed⟩
  exact ((Relation.ReflTransGen.single (.fault 0 _ 1 faulted)).tail
    (.setPageReplacmentAlgorithm .clock (.inr trivial))).tail (.fault 1 _ 1 faulted')

end Kernel

end FosKernel
