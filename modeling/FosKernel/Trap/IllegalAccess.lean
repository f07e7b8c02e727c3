import FosKernel.Trap.WorkingSetRuns

/-!
# Illegal accesses

A user access to a page that is neither in the page file, nor in the stack, nor
marked in the heap. Placement, CLOCK, LRU and Modified CLOCK end the environment
without a trace of the page; OPTIMAL does not look at the page's legality.
-/

namespace FosKernel

namespace Kernel

variable {kernel before after : Kernel} {env va fuel : Nat} {free : List Nat}

/-- The page is not present, and it is neither in the page file, nor in the stack, nor marked in the
heap. -/
structure Illegal (kernel : Kernel) (env va : Nat) : Prop where
  absent : kernel.pagePresent env va = false
  illegal : ¬ kernel.Legal env va

/-- What a rejected access leaves: the page is not present, the working set has no element for it,
and no list has a new one. -/
structure Denied (before : Kernel) (env va : Nat) (after : Kernel) : Prop where
  absent : after.pagePresent env va = false
  unlisted : ∀ element ∈ (after.envs env).pageWsList,
    after.elementVa element ≠ roundDown va pageSize
  withdraws : Withdraws before after

/-- Every page of the working set can be written back: it is in the page file, the heap or the
stack. -/
def Backed (kernel : Kernel) (env : Nat) : Prop :=
  ∀ element ∈ (kernel.envs env).pageWsList,
    (kernel.envs env).diskFrame (kernel.elementVa element) ≠ 0 ∨
      inHeapOrStack (kernel.elementVa element) = true

/-- How an illegal access ends: `env_exit` ends the environment and no trace of the page is left,
unless memory or the page file runs out. -/
def DeniedBy (kernel : Kernel) (env va : Nat) (halt : Stop) : Prop :=
  halt = .outOfMemory ∨ halt = .outOfPageFile ∨
    ∃ stopped, halt = .envExit stopped ∧ Denied kernel env va stopped

/-- The access ends the environment and leaves no trace of the page. For the third repetition of a
fault and above the stack `fault_handler` panics before it does anything, and `_panic` ends the
environment with `env_exit`. -/
def Denies (kernel : Kernel) (env va : Nat) (handled : Except Stop Kernel) : Prop :=
  Ends handled (fun _ => False) fun halt => DeniedBy kernel env va halt ∨
    halt = .panic ∧ Denied kernel env va kernel ∧
      (kernel.RepeatedThrice env va ∨ uStackTop ≤ va ∧ va < userTop)

/-- What withdraws a page that is not present leaves no trace of it. -/
theorem WorkingSet.denied (ws : WorkingSet kernel env free)
    (absent : kernel.pagePresent env va = false) (withdraws : Withdraws kernel after) :
    Denied kernel env va after where
  absent := withdraws.absent absent
  unlisted element member same := by
    have listed := withdraws.members env element member
    rw [elementVa, withdraws.elements] at same
    have present := ws.pagePresent listed
    rw [show kernel.elementVa element = roundDown va pageSize from same, pagePresent_roundDown,
      absent] at present
    cases present
  withdraws := withdraws

/-- A page that lies in neither the page file, the heap nor the stack is not loaded. -/
theorem not_loads {perm : Perm} {slot : Slot} {frame : Nat} {memory : Memory}
    (unstored : (kernel.envs env).diskFrame va = 0) (outside : inHeapOrStack va = false)
    (loads : Loads kernel env va perm slot frame memory) : False := by
  cases loads with
  | stored _ stored => exact stored unstored
  | unstored _ _ inside =>
      rw [outside] at inside
      cases inside

/-- How the load of an illegal page stops. -/
theorem LoadStops.denies {loading : Kernel} {halt : Stop} (ws : WorkingSet kernel env free)
    (absent : kernel.pagePresent env va = false)
    (located : (kernel.memory.slot (kernel.directory env) va).isSome = true)
    (withdraws : Withdraws kernel loading) (stops : loading.LoadStops env va halt) :
    DeniedBy kernel env va halt := by
  rcases stops with same | ⟨missing, -⟩ | ⟨-, -, stopped, same, rejected⟩
  · exact .inl same
  · rw [withdraws.directory, Memory.slot_congr withdraws.directories] at missing
    rw [missing] at located
    cases located
  · exact .inr (.inr ⟨stopped, same, ws.denied absent (withdraws.trans rejected.withdraws)⟩)

/-- Placement and the three replacement algorithms deny an illegal access. -/
theorem pageFaultHandler_denies (fuel : Nat) (ws : WorkingSet kernel env free)
    (replaces : kernel.pageRepAlgoType.Replaces)
    (handles : ¬ kernel.Skips env va)
    (hasVictim : (kernel.envs env).pageWsList.length = (kernel.envs env).pageWsMaxSize →
      kernel.HasVictim env)
    (backed : kernel.Backed env) (user : va < userTop) (absent : kernel.pagePresent env va = false)
    (located : (kernel.memory.slot (kernel.directory env) va).isSome = true)
    (unstored : (kernel.envs env).diskFrame va = 0) (outside : inHeapOrStack va = false) :
    Ends (kernel.pageFaultHandler env va (fuel + 2)) (fun _ => False) (DeniedBy kernel env va) := by
  by_cases room : (kernel.envs env).pageWsList.length < (kernel.envs env).pageWsMaxSize
  · rw [pageFaultHandler_of_room (fuel + 1) replaces room]
    apply (placement_returns user absent).mono
    · rintro after ⟨slot, frame, memory, loads, -⟩
      exact not_loads unstored outside loads
    · exact fun halt stops => stops.denies ws absent located (.refl kernel)
  · have full := Nat.le_antisymm ws.fits (Nat.le_of_not_lt room)
    obtain ⟨searched, victim, front, back, list, chosen, handled⟩ :=
      pageFaultHandler_of_full fuel replaces ws handles full (hasVictim full)
    rw [handled]
    have search := chosen.search.withdraws
    have ws' := ws.of_searched chosen.search
    have member := chosen.mem
    have diskFrames := Env.diskFrame_congr chosen.search.disk.2
    apply (replace_returns ws'.resident member user (search.absent absent)).mono
    · rintro after ⟨evicted, evicts, perm, slot, frame, memory, -, loads, -⟩
      refine not_loads ?_ outside loads
      rw [evicts.diskFrame_of_absent ws'.resident member user (search.absent absent),
        diskFrames, unstored]
    · rintro halt ((same | ⟨-, lacking, outside'⟩) | ⟨evicted, evicts, stops⟩)
      · exact .inr (.inl same)
      · have element := backed victim (by rwa [← chosen.search.pageWsList])
        rw [diskFrames] at lacking
        rw [elementVa, search.elements] at lacking outside'
        rcases element with stored | inside
        · exact absurd lacking stored
        · rw [elementVa, outside'] at inside
          cases inside
      · exact stops.denies ws absent located (search.trans (evicts.withdraws chosen.members))

/-- Placement, CLOCK, LRU and Modified CLOCK deny every illegal access to a page whose page table
exists, unless CLOCK or Modified CLOCK skip the page. -/
theorem faultHandler_denies (kernel : Kernel) (env va fuel : Nat) (free : List Nat)
    (ws : WorkingSet kernel env free) (replaces : kernel.pageRepAlgoType.Replaces)
    (unbuffered : kernel.enableBuffering = false) (handles : ¬ kernel.Skips env va)
    (hasVictim : (kernel.envs env).pageWsList.length = (kernel.envs env).pageWsMaxSize →
      kernel.HasVictim env)
    (backed : kernel.Backed env)
    (located : (kernel.memory.slot (kernel.directory env) va).isSome = true)
    (illegal : kernel.Illegal env va) :
    Denies kernel env va (kernel.faultHandler env va (fuel + 2)) := by
  obtain ⟨absent, illegal⟩ := illegal
  obtain ⟨slot, place⟩ := Option.isSome_iff_exists.mp located
  have noted : Withdraws kernel (kernel.notedFault env va) := { Withdraws.refl kernel with }
  have ws' : WorkingSet (kernel.notedFault env va) env free :=
    ws.congr rfl rfl rfl rfl rfl rfl rfl fun _ => ⟨rfl, rfl⟩
  have exit : Denies kernel env va (.error (.envExit (kernel.notedFault env va))) :=
    .error (.inl (.inr (.inr ⟨_, rfl, ws.denied absent noted⟩)))
  have unchanged := ws.denied absent (.refl kernel)
  have absent' : Perm.has (kernel.pagePermissions env va) permPresent = false := by
    rw [pagePermissions_eq place]
    rw [pagePresent_eq place] at absent
    exact absent
  by_cases repeated : kernel.RepeatedThrice env va
  · rw [faultHandler_of_repeated repeated]
    exact .error (.inr ⟨rfl, unchanged, .inl repeated⟩)
  rw [faultHandler_eq repeated]
  by_cases underflow : uStackTop ≤ va ∧ va < userTop
  · rw [if_pos underflow]
    exact .error (.inr ⟨rfl, unchanged, .inr underflow⟩)
  rw [if_neg underflow]
  cases held : kernel.memory.getPageTable (kernel.directory env) va with
  | none =>
      rw [Memory.slot, held] at place
      cases place
  | some table =>
      dsimp only
      unfold checkedFault
      dsimp only
      rw [show (kernel.notedFault env va).pagePermissions env va =
        kernel.pagePermissions env va from rfl,
        show (kernel.notedFault env va).enableBuffering = false from unbuffered, absent']
      by_cases above : uStackTop ≤ va
      · rw [if_pos above]
        exact exit
      · rw [if_neg above]
        by_cases unmarked : ¬ Perm.has (kernel.pagePermissions env va) permUHPage = true ∧
            userHeapStart ≤ va ∧ va < userHeapMax
        · rw [if_pos unmarked]
          exact exit
        · rw [if_neg unmarked, if_neg (by simp), if_neg (by simp), if_neg (by simp)]
          have below : va < uStackTop := Nat.lt_of_not_le above
          have unstored : (kernel.envs env).diskFrame va = 0 := by
            by_contra stored
            exact illegal (.inl stored)
          have outside : inHeapOrStack va = false := by
            rw [Bool.eq_false_iff]
            intro inside
            rcases of_decide_eq_true inside with heap | stack
            · apply unmarked
              refine ⟨fun marked => ?_, heap⟩
              exact illegal (.inr (.inr ⟨heap.1, heap.2, marked⟩))
            · exact illegal (.inr (.inl stack))
          have user : va < userTop := by
            unfold uStackTop at below
            omega
          apply (pageFaultHandler_denies fuel ws' replaces handles hasVictim backed
            user absent located
            unstored outside).mono fun _ never => never
          rintro halt (same | same | ⟨stopped, same, denied⟩)
          · exact .inl (.inl same)
          · exact .inl (.inr (.inl same))
          · exact .inl (.inr (.inr ⟨stopped, same, denied.absent, denied.unlisted,
              noted.trans denied.withdraws⟩))

/-- A wild access under CLOCK. -/
theorem faultHandler_denies_blank :
    Denies (blank .clock 1) 0 0x800000 ((blank .clock 1).faultHandler 0 0x800000 2) := by
  obtain ⟨free, ws⟩ := (blank_running .clock trivial 1 0).workingSet
  have illegal : (blank .clock 1).Illegal 0 0x800000 := by
    refine ⟨blank_pagePresent .., ?_⟩
    rintro (stored | stack | heap)
    · exact stored rfl
    · exact absurd stack (by decide)
    · exact absurd heap.1 (by decide)
  exact faultHandler_denies (blank .clock 1) 0 0x800000 0 free ws trivial rfl
    (not_skips_of_inactive rfl 0 0x800000) (fun full => absurd full (by decide)) nofun
    (by decide +kernel) illegal

/-- CLOCK with environments that have no page tables. -/
def untabled : Kernel :=
  { blank .clock 1 with
    memory := { (blank .clock 1).memory with directories := fun _ _ => none } }

/-- OPTIMAL maps the page of a wild access. Where the page table is missing, the handler creates it
and returns, and the access faults again. -/
theorem illegal_mapped : ((blank .optimal 1).Illegal 0 0x800000 ∧
    ∃ after, (blank .optimal 1).faultHandler 0 0x800000 2 = .ok after ∧
      after.pagePresent 0 0x800000 = true) ∧
    (untabled.Illegal 0 0x800000 ∧ ∃ after,
        untabled.faultHandler 0 0x800000 2 = .ok after) := by
  have outside : ∀ {kernel : Kernel}, (kernel.envs 0).diskFrame 0x800000 = 0 →
      ¬ kernel.Legal 0 0x800000 := by
    intro kernel unstored legal
    rcases legal with stored | stack | heap
    · exact stored unstored
    · exact absurd stack (by decide)
    · exact absurd heap.1 (by decide)
  obtain ⟨after, handled, present⟩ := Returns.exists (show Returns
    ((blank .optimal 1).faultHandler 0 0x800000 2) (fun after => after.pagePresent 0 0x800000) =
      true by decide +kernel)
  refine ⟨⟨⟨blank_pagePresent .., outside rfl⟩, after, handled, present⟩,
    ⟨rfl, outside rfl⟩, ?_⟩
  exact ⟨(untabled.notedFault 0 0x800000).createPageTable 0 0x800000, rfl⟩

end Kernel

end FosKernel
