import FosKernel.Trap.ClockChoices
import FosKernel.Trap.Replaced
import FosKernel.Trap.WorkingSetRuns

/-!
# Replacement by clocks

`page_fault_handler` under CLOCK and Modified CLOCK on a full working set: which
page it evicts, which used bits it clears, and the circular sequence it leaves.
-/

namespace FosKernel

open ClockRing

namespace Kernel

variable {kernel searched : Kernel} {env va victim hand fuel : Nat}
  {ring passed rest cleared : List Nat}

/-- The handler after a search that leaves its victim at the hand. -/
theorem replaced_of_search (resident : Resident kernel env)
    (full : (kernel.envs env).pageWsList.length = (kernel.envs env).pageWsMaxSize)
    (clock : kernel.pageRepAlgoType = .clock ∨ kernel.pageRepAlgoType = .modifiedClock)
    (kept : Cleared env kernel searched cleared)
    (isRing : ∃ hand, RingOf (kernel.envs env).pageWsList hand (victim :: rest))
    (legal : LegalFault kernel env va) :
    Ends (do
        let next ← searched.evict env victim
        let next ← next.removeRotated env victim
        next.pageFaultHandler env va (fuel + 1))
      (fun after => Replaced kernel env va victim cleared rest after ∧
        (after.envs env).pageLastWsElement = (after.envs env).pageWsList.head?)
      (kernel.ReplaceStops env victim) := by
  obtain ⟨hand, front, back, split, same⟩ := isRing
  obtain ⟨rfl, rfl⟩ := List.cons.inj same
  have algorithm := kept.search.withdraws.algorithm
  have notLru : kernel.pageRepAlgoType ≠ .lruTimeApprox := by
    rcases clock with same | same <;> rw [same] <;> nofun
  have replaces : kernel.pageRepAlgoType.Replaces := by
    rcases clock with same | same <;> rw [same] <;> trivial
  rw [evictThenHandle_eq fuel (algorithm ▸ replaces) (algorithm ▸ notLru)
    (resident.of_searched kept.search) (kept.search.pageWsList.trans split)]
  apply (replace_replaced resident full kept split List.perm_append_comm legal).mono
  · exact fun after ⟨replaced, first⟩ => ⟨replaced, first notLru⟩
  · exact fun halt stops => stops

/-- A kernel whose working set two stack pages fill, the first one used and at the hand, at the next
fault in the stack. -/
structure StackPair (algorithm : PageRepAlgoType) (kernel : Kernel) : Prop where
  algorithm : kernel.pageRepAlgoType = algorithm
  resident : Resident kernel 0
  full : (kernel.envs 0).pageWsList.length = (kernel.envs 0).pageWsMaxSize
  inactive : kernel.pageActiveWsList = []
  list : (kernel.envs 0).pageWsList = [0, 1]
  pointed : (kernel.envs 0).pageLastWsElement = some 0
  used : kernel.used 0 0 = true ∧ kernel.used 0 1 = false
  legal : LegalFault kernel 0 0xEEBFB000

/-- What is computed of the kernel after two stack pages have faulted and the first one is used. -/
def fillsStack (algorithm : PageRepAlgoType) (test : Kernel → Bool) : Bool :=
  Returns ((blank algorithm 2).faultHandler 0 0xEEBFD000 1) fun first =>
    decide (first.SparesAny 0) && Returns (first.faultHandler 0 0xEEBFC000 1) fun second =>
      Returns (second.setPagePermissions 0 0xEEBFD000 permUsed 0) fun kernel =>
        decide (kernel.pageRepAlgoType = algorithm ∧ (kernel.envs 0).pageWsMaxSize = 2 ∧
          (kernel.envs 0).pageWsList = [0, 1] ∧ (kernel.envs 0).pageLastWsElement = some 0 ∧
          (kernel.used 0 0 = true ∧ kernel.used 0 1 = false) ∧
          kernel.pagePresent 0 0xEEBFB000 = false ∧
          (kernel.memory.slot (kernel.directory 0) 0xEEBFB000).isSome = true) && test kernel

theorem exists_stackPair {algorithm : PageRepAlgoType} {test : Kernel → Bool}
    (replaces : algorithm.Replaces) (computed : fillsStack algorithm test = true) :
    ∃ kernel, StackPair algorithm kernel ∧ test kernel = true := by
  obtain ⟨first, handled, observed⟩ := Returns.exists computed
  obtain ⟨spares, observed⟩ := Bool.and_eq_true_iff.mp observed
  obtain ⟨second, handled', observed⟩ := Returns.exists observed
  obtain ⟨kernel, accessed, observed⟩ := Returns.exists observed
  obtain ⟨shows', tested⟩ := Bool.and_eq_true_iff.mp observed
  obtain ⟨algorithm', size, list, pointed, used, absent, table⟩ := of_decide_eq_true shows'
  have start : (blank algorithm 2).SparesAny 0 := fun full =>
    absurd (show 0 = 2 from full) (by decide)
  obtain ⟨running₁, valid₁⟩ := WsMove.handValid (blank_running algorithm replaces 2 0)
    (.inr ⟨show 0 < 2 by decide, rfl⟩) (.fault _ 1 (fun _ => start.sparesHand) handled)
  obtain ⟨running₂, valid₂⟩ := WsMove.handValid running₁ valid₁
    (.fault _ 1 (fun _ => (of_decide_eq_true spares).sparesHand) handled')
  obtain ⟨running, -⟩ := WsMove.handValid running₂ valid₂
    (.permissions 0 _ (by decide) (by decide) accessed)
  obtain ⟨free, ws⟩ := running.workingSet
  exact ⟨kernel, {
    algorithm := algorithm'
    resident := ws.resident
    full := by
      rw [list, size]
      rfl
    inactive := running.active
    list := list
    pointed := pointed
    used := used
    legal := ⟨by decide, absent, Option.isSome_iff_exists.mp table, .inr (.inl (by decide))⟩ },
    tested⟩

/-- **CLOCK is the clock on the circular sequence from the hand on.** -/
theorem clock_replaces (kernel : Kernel) (env va fuel hand : Nat)
    (clock : kernel.pageRepAlgoType = .clock) (resident : Resident kernel env)
    (full : (kernel.envs env).pageWsList.length = (kernel.envs env).pageWsMaxSize)
    (pointed : (kernel.envs env).pageLastWsElement = some hand)
    (listed : hand ∈ (kernel.envs env).pageWsList) (inactive : kernel.pageActiveWsList = [])
    (legal : LegalFault kernel env va) :
    ∃ victim cleared rest,
      ClockChoice (kernel.used env) (ringFrom (kernel.envs env).pageWsList hand)
        victim cleared rest ∧
      Ends (kernel.pageFaultHandler env va (fuel + 2))
        (fun after => Replaced kernel env va victim cleared rest after ∧
          (after.envs env).pageLastWsElement = (after.envs env).pageWsList.head?)
        (kernel.ReplaceStops env victim) := by
  have isRing : kernel.RingAt env (ringFrom (kernel.envs env).pageWsList hand) :=
    ⟨hand, pointed, ringOf_ringFrom listed⟩
  obtain ⟨victim, cleared, rest, choice⟩ := exists_clockChoice (kernel.used env)
    (List.ne_nil_of_mem (isRing.mem_iff.mpr listed))
  refine ⟨victim, cleared, rest, choice, ?_⟩
  obtain ⟨searched, found, kept, _, _, around⟩ := clockVictim_chooses resident isRing choice 1
  have length : (ringFrom (kernel.envs env).pageWsList hand).length + (1 + 1) =
      (kernel.envs env).pageWsList.length + 2 := by rw [ringFrom, List.length_rotate]
  rw [kept.search.pageWsList] at around
  unfold pageFaultHandler
  dsimp only
  rw [clock, if_neg (by decide), if_neg (by omega), isPageInWs_of_inactive inactive]
  dsimp only
  rw [if_neg Bool.false_ne_true, ← length, found]
  exact replaced_of_search resident full (.inl clock) kept ⟨_, around⟩ legal

/-- The third stack page of an environment with room for two pages, of which the first one is
used. -/
theorem clock_replaces_stack : ∃ kernel, StackPair .clock kernel ∧ ∃ victim cleared rest,
    ClockChoice (kernel.used 0) (ringFrom (kernel.envs 0).pageWsList 0) victim cleared rest ∧
    Ends (kernel.pageFaultHandler 0 0xEEBFB000 2)
      (fun after => Replaced kernel 0 0xEEBFB000 victim cleared rest after ∧
        (after.envs 0).pageLastWsElement = (after.envs 0).pageWsList.head?)
      (kernel.ReplaceStops 0 victim) := by
  obtain ⟨kernel, pair, -⟩ := @exists_stackPair .clock (fun _ => true) trivial
    (by decide +kernel)
  exact ⟨kernel, pair, clock_replaces kernel 0 0xEEBFB000 0 0 pair.algorithm pair.resident
    pair.full pair.pointed (by simp [pair.list]) pair.inactive pair.legal⟩

/-- **Modified CLOCK evicts the first page of the lowest class in the circular sequence from the
hand on, after two pairs of tries at most.** -/
theorem modifiedClock_replaces (kernel : Kernel) (env va fuel hand : Nat)
    (modifiedClock : kernel.pageRepAlgoType = .modifiedClock) (resident : Resident kernel env)
    (full : (kernel.envs env).pageWsList.length = (kernel.envs env).pageWsMaxSize)
    (pointed : (kernel.envs env).pageLastWsElement = some hand)
    (listed : hand ∈ (kernel.envs env).pageWsList) (inactive : kernel.pageActiveWsList = [])
    (legal : LegalFault kernel env va) :
    ∃ passed victim rest,
      FirstLeast (kernel.pageClass env) (ringFrom (kernel.envs env).pageWsList hand) passed victim
        rest ∧
      (∃ searched, kernel.modifiedClockVictim env 2 = .ok (victim, searched)) ∧
      Ends (kernel.pageFaultHandler env va (fuel + 2))
        (fun after => Replaced kernel env va victim
            (kernel.clearedBy env victim (ringFrom (kernel.envs env).pageWsList hand) passed)
            (rest ++ passed) after ∧
          (after.envs env).pageLastWsElement = (after.envs env).pageWsList.head?)
        (kernel.ReplaceStops env victim) := by
  have isRing : kernel.RingAt env (ringFrom (kernel.envs env).pageWsList hand) :=
    ⟨hand, pointed, ringOf_ringFrom listed⟩
  have size : (kernel.envs env).pageWsMaxSize =
      (ringFrom (kernel.envs env).pageWsList hand).length := by
    rw [ringFrom, List.length_rotate, full]
  obtain ⟨passed, victim, rest, choice⟩ := exists_firstLeast (kernel.pageClass env)
    (List.ne_nil_of_mem (isRing.mem_iff.mpr listed))
  refine ⟨passed, victim, rest, choice, ?_, ?_⟩
  · obtain ⟨searched, found, -⟩ := modifiedClockVictim_chooses resident isRing size choice 0
    exact ⟨searched, found⟩
  · obtain ⟨searched, found, kept, _, _, around⟩ :=
      modifiedClockVictim_chooses resident isRing size
      choice (kernel.envs env).pageWsList.length
    rw [kept.search.pageWsList] at around
    have moved := kept.trans (.setHand searched env
      (nextOrFirst (searched.envs env).pageWsList victim))
    rw [List.append_nil] at moved
    unfold pageFaultHandler
    dsimp only
    rw [modifiedClock, if_neg (by decide), if_neg (by omega), isPageInWs_of_inactive inactive]
    dsimp only
    rw [if_neg Bool.false_ne_true, found]
    exact replaced_of_search resident full (.inr modifiedClock) moved ⟨_, around⟩ legal

/-- The third stack page of an environment with room for two pages, of which the first one is
used. -/
theorem modifiedClock_replaces_stack : ∃ kernel, StackPair .modifiedClock kernel ∧
    ∃ passed victim rest,
      FirstLeast (kernel.pageClass 0) (ringFrom (kernel.envs 0).pageWsList 0) passed victim rest ∧
      (∃ searched, kernel.modifiedClockVictim 0 2 = .ok (victim, searched)) ∧
      Ends (kernel.pageFaultHandler 0 0xEEBFB000 2)
        (fun after => Replaced kernel 0 0xEEBFB000 victim
            (kernel.clearedBy 0 victim (ringFrom (kernel.envs 0).pageWsList 0) passed)
            (rest ++ passed) after ∧
          (after.envs 0).pageLastWsElement = (after.envs 0).pageWsList.head?)
        (kernel.ReplaceStops 0 victim) := by
  obtain ⟨kernel, pair, -⟩ := @exists_stackPair .modifiedClock (fun _ => true) trivial
    (by decide +kernel)
  exact ⟨kernel, pair, modifiedClock_replaces kernel 0 0xEEBFB000 0 0 pair.algorithm pair.resident
    pair.full pair.pointed (by simp [pair.list]) pair.inactive pair.legal⟩

end Kernel

end FosKernel
