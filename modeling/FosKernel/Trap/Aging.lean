import FosKernel.Trap.ClockReplacement
import FosKernel.Trap.TimeStamps

/-!
# Replacement by time stamps

`page_fault_handler` under LRU by time stamps, after any number of clock interrupts
with any pages used between them. The search starts from `UINT_MAX`, so it finds no
victim exactly when every stamp has aged up to that value.
-/

namespace FosKernel

open ClockRing

namespace Kernel

variable {kernel before after start : Kernel} {env va fuel : Nat}

/-- A page is used, perhaps written, or a clock interrupt updates the time stamps. -/
inductive AgeStep (env : Nat) (before : Kernel) : Kernel → Prop
  | use {after : Kernel} (va : Nat) (set : Perm)
      (bits : set = permUsed ∨ set = permUsed ||| permModified)
      (marked : before.setPagePermissions env va set 0 = .ok after) : AgeStep env before after
  | tick {after : Kernel} (stamped : before.updateWsTimeStamps env = .ok after) :
      AgeStep env before after

/-- The fault evicts the earliest element of the least time stamp and nothing else, and appends the
faulted page. -/
def LruReplaces (kernel : Kernel) (env va fuel : Nat) : Prop :=
  ∃ front victim back,
    FirstLeast (fun element => (kernel.elements element).timeStamp) (kernel.envs env).pageWsList
      front victim back ∧
    Ends (kernel.pageFaultHandler env va (fuel + 1))
      (Replaced kernel env va victim [] (front ++ back))
      (kernel.ReplaceStops env victim)

/-- A permission change of the processor keeps the resident pages and the environments. -/
theorem Resident.of_use {set : Perm} (resident : Resident kernel env)
    (unset : set &&& permPresent = 0#12)
    (marked : kernel.setPagePermissions env va set 0 = .ok after) :
    Resident after env ∧ after.envs = kernel.envs ∧
      after.pageRepAlgoType = kernel.pageRepAlgoType := by
  cases located : kernel.memory.slot (kernel.directory env) va with
  | none =>
      rw [setPagePermissions_of_missing kernel located] at marked
      cases marked
  | some slot =>
      rw [setPagePermissions_eq kernel located] at marked
      obtain rfl := Except.ok.inj marked
      refine ⟨resident.congr rfl rfl rfl rfl rfl rfl fun place => ?_, rfl, rfl⟩
      by_cases same : place = slot
      · subst same
        rw [Memory.setEntry_tables, Function.update_self, PageTableEntry.present,
          PageTableEntry.setPerms_has _ unset (by decide)]
        rfl
      · rw [Memory.setEntry_tables, Function.update_of_ne same]

theorem Resident.of_ticked (resident : Resident before env) (ticked : Ticked before after) :
    Resident after env := by
  have next : after.nextElement = before.nextElement := by
    obtain ⟨_, _, rfl⟩ := ticked.shape
    rfl
  refine resident.congr (by rw [ticked.envs]) (by rw [ticked.envs]) ticked.vas next
    ticked.directories (by rw [directory, ticked.envs]; rfl) fun slot => ?_
  rcases ticked.entries slot with same | cleared
  · rw [same]
  · rw [cleared, PageTableEntry.present, PageTableEntry.setPerms_has _ (by decide) (by decide)]
    rfl

/-- Using pages and aging them keeps the resident pages, the environments and the algorithm. -/
theorem AgeStep.keeps (step : AgeStep env before after) (resident : Resident before env) :
    Resident after env ∧ after.envs = before.envs ∧
      after.pageRepAlgoType = before.pageRepAlgoType := by
  cases step with
  | use va set bits marked =>
      refine resident.of_use ?_ marked
      rcases bits with rfl | rfl <;> decide
  | tick stamped =>
      have ends := stampElements_ends env (before.envs env).pageWsList before resident.nodup
        resident.located
      obtain ⟨ticked, -⟩ := ends.of_ok stamped
      exact ⟨resident.of_ticked ticked, ticked.envs, ticked.algorithm⟩

theorem Resident.of_aging (resident : Resident start env)
    (run : Relation.ReflTransGen (AgeStep env) start kernel) :
    Resident kernel env ∧ kernel.envs = start.envs ∧
      kernel.pageRepAlgoType = start.pageRepAlgoType := by
  induction run with
  | refl => exact ⟨resident, rfl, rfl⟩
  | tail _ step ih =>
      obtain ⟨resident', envs, algorithm⟩ := ih
      obtain ⟨resident'', envs', algorithm'⟩ := step.keeps resident'
      exact ⟨resident'', envs'.trans envs, algorithm'.trans algorithm⟩

/-- On a full working set the handler takes its LRU branch. -/
theorem pageFaultHandler_lru (lru : kernel.pageRepAlgoType = .lruTimeApprox)
    (full : (kernel.envs env).pageWsList.length = (kernel.envs env).pageWsMaxSize) :
    kernel.pageFaultHandler env va (fuel + 1) = kernel.lruReplacement env va := by
  unfold pageFaultHandler
  dsimp only
  rw [lru, if_neg (by decide), if_neg (by omega)]

/-- With a stamp below the greatest one, LRU replaces the oldest page. -/
theorem lruReplaces_of_less (resident : Resident kernel env)
    (lru : kernel.pageRepAlgoType = .lruTimeApprox)
    (full : (kernel.envs env).pageWsList.length = (kernel.envs env).pageWsMaxSize)
    (legal : LegalFault kernel env va)
    (less : ∃ element ∈ (kernel.envs env).pageWsList,
      (kernel.elements element).timeStamp < 2 ^ 32 - 1) : kernel.LruReplaces env va fuel := by
  rcases kernel.lruVictim_cases env with
    ⟨_, least⟩ | ⟨victim, found, front, back, split, oldest⟩
  · obtain ⟨element, member, below⟩ := less
    exact absurd below (Nat.not_lt.mpr (least element member))
  · refine ⟨front, victim, back, ⟨split, oldest.2.1, oldest.2.2⟩, ?_⟩
    rw [pageFaultHandler_lru lru full, lruReplacement_eq lru resident found split]
    apply (replace_replaced resident full (.refl kernel env) split (.refl _) legal).mono
    · exact fun after returned => returned.1
    · exact fun halt stops => stops

/-- Without one, LRU dereferences a null pointer. -/
theorem pageFaultHandler_of_greatest (lru : kernel.pageRepAlgoType = .lruTimeApprox)
    (full : (kernel.envs env).pageWsList.length = (kernel.envs env).pageWsMaxSize)
    (greatest : ∀ element ∈ (kernel.envs env).pageWsList,
      2 ^ 32 - 1 ≤ (kernel.elements element).timeStamp) :
    kernel.pageFaultHandler env va (fuel + 1) = .error .nullPointer := by
  rw [pageFaultHandler_lru lru full, lruReplacement]
  rcases kernel.lruVictim_cases env with
    ⟨none, _⟩ | ⟨victim, _, front, back, split, less, _⟩
  · rw [none]
  · exact absurd less (Nat.not_lt.mpr (greatest victim (by simp [split])))

/-- **After any uses and clock interrupts, LRU replaces the oldest page exactly when some time
stamp is below `UINT_MAX`.** -/
theorem lruReplaces_iff_of_run (start kernel : Kernel) (env va fuel : Nat)
    (resident : Resident start env) (lru : start.pageRepAlgoType = .lruTimeApprox)
    (full : (start.envs env).pageWsList.length = (start.envs env).pageWsMaxSize)
    (run : Relation.ReflTransGen (AgeStep env) start kernel) (legal : LegalFault kernel env va) :
    kernel.LruReplaces env va fuel ↔ ∃ element ∈ (kernel.envs env).pageWsList,
      (kernel.elements element).timeStamp < 2 ^ 32 - 1 := by
  obtain ⟨resident, envs, algorithm⟩ := resident.of_aging run
  rw [← envs] at full
  rw [← algorithm] at lru
  refine ⟨fun ⟨_, victim, _, _, ends⟩ => ?_, lruReplaces_of_less resident lru full legal⟩
  by_contra none
  have greatest : ∀ element ∈ (kernel.envs env).pageWsList,
      2 ^ 32 - 1 ≤ (kernel.elements element).timeStamp := by
    simpa using none
  rw [pageFaultHandler_of_greatest lru full greatest] at ends
  rcases ends.of_error rfl with (impossible | ⟨impossible, _⟩) | impossible <;> cases impossible

/-- A working set of two stack pages, of which the first one was used before the clock interrupt. -/
theorem lruReplaces_iff_of_run_stack : ∃ start kernel, StackPair .lruTimeApprox start ∧
    start.updateWsTimeStamps 0 = .ok kernel ∧
    (kernel.LruReplaces 0 0xEEBFB000 0 ↔ ∃ element ∈ (kernel.envs 0).pageWsList,
      (kernel.elements element).timeStamp < 2 ^ 32 - 1) := by
  obtain ⟨start, pair, observed⟩ := @exists_stackPair .lruTimeApprox (fun start =>
    Returns (start.updateWsTimeStamps 0) fun kernel =>
      decide (kernel.pagePresent 0 0xEEBFB000 = false ∧
        (kernel.memory.slot (kernel.directory 0) 0xEEBFB000).isSome)) trivial (by decide +kernel)
  obtain ⟨kernel, stamped, observed⟩ := Returns.exists observed
  obtain ⟨absent, table⟩ := of_decide_eq_true observed
  exact ⟨start, kernel, pair, stamped, lruReplaces_iff_of_run start kernel 0 0xEEBFB000 0
    pair.resident pair.algorithm pair.full (.single (.tick stamped))
    ⟨by decide, absent, Option.isSome_iff_exists.mp table, .inr (.inl (by decide))⟩⟩

/-- A page is used before each of a number of clock interrupts. -/
def useAndTick (kernel : Kernel) (env va : Nat) : Nat → Except Stop Kernel
  | 0 => .ok kernel
  | count + 1 => do
      let used ← kernel.setPagePermissions env va permUsed 0
      let stamped ← used.updateWsTimeStamps env
      stamped.useAndTick env va count

theorem run_of_useAndTick (count : Nat) : ∀ kernel : Kernel,
    kernel.useAndTick env va count = .ok after →
      Relation.ReflTransGen (AgeStep env) kernel after := by
  induction count with
  | zero =>
      intro kernel returned
      obtain rfl := Except.ok.inj returned
      exact .refl
  | succ count ih =>
      intro kernel returned
      obtain ⟨used, marked, returned⟩ := bind_eq_ok.mp returned
      obtain ⟨stamped, ticked, returned⟩ := bind_eq_ok.mp returned
      exact .head (.use va permUsed (.inl rfl) marked) (.head (.tick ticked) (ih stamped returned))

/-- A kernel whose working set one stack page fills, at the next fault in the stack. -/
structure StackFilled (algorithm : PageRepAlgoType) (kernel : Kernel) : Prop where
  algorithm : kernel.pageRepAlgoType = algorithm
  resident : Resident kernel 0
  full : (kernel.envs 0).pageWsList.length = (kernel.envs 0).pageWsMaxSize
  inactive : kernel.pageActiveWsList = []
  list : (kernel.envs 0).pageWsList = [0]
  legal : LegalFault kernel 0 0xEEBFC000

/-- The first stack page of an environment with room for one page fills its working set. -/
theorem stackFilled_of_fault {algorithm : PageRepAlgoType} (replaces : algorithm.Replaces)
    (handled : (blank algorithm 1).pageFaultHandler 0 0xEEBFD000 1 = .ok kernel)
    (observed : (decide ((kernel.envs 0).pageWsList = [0]) &&
      !kernel.pagePresent 0 0xEEBFC000 &&
      (kernel.memory.slot (kernel.directory 0) 0xEEBFC000).isSome) = true) :
    StackFilled algorithm kernel := by
  rw [Bool.and_eq_true, Bool.and_eq_true, decide_eq_true_eq, Bool.not_eq_true'] at observed
  obtain ⟨⟨list, absent⟩, table⟩ := observed
  obtain ⟨free, ws⟩ := (blank_running algorithm replaces 1 0).workingSet
  have served := ws.pageFaultHandler_served replaces rfl
    (fun _ full => absurd (show 0 = 1 from full) (by decide))
    (show 0xEEBFD000 < userTop by decide) (blank_pagePresent ..) handled
  obtain ⟨free', ws'⟩ := served.workingSet
  exact {
    algorithm := served.algorithm
    resident := ws'.resident
    full := by
      rw [list, served.size]
      rfl
    inactive := served.active
    list := list
    legal := ⟨by decide, absent, Option.isSome_iff_exists.mp table, .inr (.inl (by decide))⟩ }

/-- A page that was used before each of 32 clock interrupts has the greatest stamp. -/
theorem not_lruReplaces_after_32_ticks : ∃ start kernel, StackFilled .lruTimeApprox start ∧
    Relation.ReflTransGen (AgeStep 0) start kernel ∧ LegalFault kernel 0 0xEEBFC000 ∧
      ¬ kernel.LruReplaces 0 0xEEBFC000 0 := by
  obtain ⟨start, handled, observed⟩ := Returns.exists (show Returns
    ((blank .lruTimeApprox 1).pageFaultHandler 0 0xEEBFD000 1) (fun start =>
      Returns (start.useAndTick 0 0xEEBFD000 32) (fun kernel =>
        decide (kernel.pagePresent 0 0xEEBFC000 = false ∧
          (kernel.memory.slot (kernel.directory 0) 0xEEBFC000).isSome) &&
        Stops (kernel.pageFaultHandler 0 0xEEBFC000 1) fun halt => halt matches .nullPointer) &&
      (decide ((start.envs 0).pageWsList = [0]) && !start.pagePresent 0 0xEEBFC000 &&
        (start.memory.slot (start.directory 0) 0xEEBFC000).isSome)) = true by decide +kernel)
  obtain ⟨aged, observed⟩ := Bool.and_eq_true_iff.mp observed
  obtain ⟨kernel, ticked, observed'⟩ := Returns.exists aged
  obtain ⟨legal, stopped⟩ := Bool.and_eq_true_iff.mp observed'
  obtain ⟨absent, table⟩ := of_decide_eq_true legal
  refine ⟨start, kernel, stackFilled_of_fault trivial handled observed,
    run_of_useAndTick 32 start ticked,
    ⟨by decide, absent, Option.isSome_iff_exists.mp table, .inr (.inl (by decide))⟩, ?_⟩
  rintro ⟨_, victim, _, _, ends⟩
  obtain ⟨halt, same, isNull⟩ := Stops.exists stopped
  rcases ends.of_error same with (rfl | ⟨rfl, _⟩) | rfl <;> cases isNull

end Kernel

end FosKernel
