import FosKernel.Trap.WorkingSet

/-!
# Placement and replacement

How `page_fault_handler` serves a fault in a well-formed working set: by placement
while there is room, else by evicting a victim and loading the page in its stead.
-/

namespace FosKernel

namespace Kernel

variable {kernel before after : Kernel} {env va page victim : Nat} {slot : Slot}

/-- The algorithm finds a victim: LRU an element whose time stamp is not the greatest one, the
others an element at the hand. -/
def HasVictim (kernel : Kernel) (env : Nat) : Prop :=
  if kernel.pageRepAlgoType = .lruTimeApprox then
    ∃ element ∈ (kernel.envs env).pageWsList, (kernel.elements element).timeStamp < 2 ^ 32 - 1
  else kernel.HandListed env

/-- The victim of a fault on a full working set, with the elements before and after it, and the
working set after its removal. -/
structure Victim (env : Nat) (kernel searched : Kernel) (victim : Nat)
    (front back list : List Nat) :
    Prop where
  search : Searched env kernel searched
  split : (kernel.envs env).pageWsList = front ++ victim :: back
  rotated : kernel.pageRepAlgoType ≠ .lruTimeApprox → list = back ++ front
  erased : kernel.pageRepAlgoType = .lruTimeApprox → list = front ++ back
  oldest : kernel.pageRepAlgoType = .lruTimeApprox → searched = kernel ∧
    kernel.Oldest env victim

theorem Victim.perm {searched : Kernel} {front back list : List Nat}
    (chosen : Victim env kernel searched victim front back list) : list.Perm (front ++ back) := by
  by_cases lru : kernel.pageRepAlgoType = .lruTimeApprox
  · rw [chosen.erased lru]
  · rw [chosen.rotated lru]
    exact List.perm_append_comm

/-- After a fault handler has found its victim it evicts it and serves the fault. -/
def replace (searched : Kernel) (env va victim : Nat) (list : List Nat) : Except Stop Kernel := do
  let evicted ← searched.evict env victim
  (evicted.withList env list).serve env va

theorem pageFaultHandler_of_room (fuel : Nat) (replaces : kernel.pageRepAlgoType.Replaces)
    (room : (kernel.envs env).pageWsList.length < (kernel.envs env).pageWsMaxSize) :
    kernel.pageFaultHandler env va (fuel + 1) = kernel.placement env va := by
  have notOptimal : kernel.pageRepAlgoType ≠ .optimal := by
    intro same
    rw [same] at replaces
    exact replaces
  unfold pageFaultHandler
  dsimp only
  rw [if_neg notOptimal, if_pos room]

/-- The eviction of an element of the working set. -/
theorem Resident.evict_ends (resident : Resident kernel env)
    (member : victim ∈ (kernel.envs env).pageWsList) :
    Ends (kernel.evict env victim)
      (fun after => ∃ slot disk directory,
        kernel.memory.slot (kernel.directory env) (kernel.elementVa victim) = some slot ∧
        WritesBack kernel env (kernel.elementVa victim) slot disk directory ∧
        after = { kernel.withDisk env disk directory with
          memory := kernel.memory.unmapFrame (kernel.directory env) (kernel.elementVa victim) })
      (kernel.EvictStops env (kernel.elementVa victim)) := by
  have present := resident.present victim member
  obtain ⟨slot, located⟩ := exists_slot present
  rw [pagePresent_eq located] at present
  have user : kernel.elementVa victim < kernelBase :=
    Nat.lt_trans (resident.user victim member).2 (by decide)
  apply (Kernel.evict_ends kernel env victim located present user).mono _ fun _ stopped => stopped
  rintro after ⟨disk, directory, writes, same⟩
  exact ⟨slot, disk, directory, located, writes, same⟩

/-- The end of CLOCK and Modified CLOCK: with the victim evicted and removed, the fault is served
by placement. -/
theorem evictThenHandle_eq {searched : Kernel} {front back : List Nat} (fuel : Nat)
    (replaces : searched.pageRepAlgoType.Replaces)
    (lru : searched.pageRepAlgoType ≠ .lruTimeApprox) (resident : Resident searched env)
    (split : (searched.envs env).pageWsList = front ++ victim :: back) :
    (do
      let next ← searched.evict env victim
      let next ← next.removeRotated env victim
      next.pageFaultHandler env va (fuel + 1)) =
          searched.replace env va victim (back ++ front) := by
  have member : victim ∈ (searched.envs env).pageWsList := by simp [split]
  unfold replace
  cases evicts : searched.evict env victim with
  | error halt => rfl
  | ok evicted =>
      obtain ⟨slot, disk, directory, -, -, same⟩ := (resident.evict_ends member).of_ok evicts
      have envEq : evicted.envs env = { searched.envs env with diskEnvPgdir := directory } := by
        rw [same]
        exact withDisk_self ..
      have list : (evicted.envs env).pageWsList = front ++ victim :: back := by
        rw [envEq]
        exact split
      have size : (evicted.envs env).pageWsMaxSize = (searched.envs env).pageWsMaxSize := by
        rw [envEq]
      have algorithm : evicted.pageRepAlgoType = searched.pageRepAlgoType := by rw [same]; rfl
      have nodup := resident.nodup
      rw [split] at nodup
      have outside : victim ∉ front := fun inside =>
        (List.nodup_append.mp nodup).2.2 victim inside victim (List.mem_cons_self ..) rfl
      have removed : evicted.removeRotated env victim =
          .ok (evicted.withList env (back ++ front)) := by
        unfold removeRotated
        dsimp only
        rw [list, rotateTo_append victim front back _ outside (by
          rw [List.length_append]
          omega)]
        rfl
      have room : ((evicted.withList env (back ++ front)).envs env).pageWsList.length <
          ((evicted.withList env (back ++ front)).envs env).pageWsMaxSize := by
        have fits := resident.fits
        rw [split, List.length_append, List.length_cons] at fits
        rw [withList, setEnv_self]
        change (back ++ front).length < (evicted.envs env).pageWsMaxSize
        rw [size, List.length_append]
        omega
      change (evicted.removeRotated env victim >>= fun next =>
        next.pageFaultHandler env va (fuel + 1)) = _
      rw [removed]
      change (evicted.withList env (back ++ front)).pageFaultHandler env va (fuel + 1) =
        (evicted.withList env (back ++ front)).serve env va
      rw [pageFaultHandler_of_room fuel (by rw [withList]; exact algorithm ▸ replaces) room,
        serve,
        if_neg (by rw [withList]; exact algorithm ▸ lru)]

/-- LRU evicts its victim and serves the fault. -/
theorem lruReplacement_eq {front back : List Nat}
    (lru : kernel.pageRepAlgoType = .lruTimeApprox) (resident : Resident kernel env)
    (found : kernel.lruVictim env = some victim)
    (split : (kernel.envs env).pageWsList = front ++ victim :: back) :
    kernel.lruReplacement env va = kernel.replace env va victim (front ++ back) := by
  have member : victim ∈ (kernel.envs env).pageWsList := by simp [split]
  unfold lruReplacement replace
  rw [found]
  dsimp only
  cases evicts : kernel.evict env victim with
  | error halt => rfl
  | ok evicted =>
      obtain ⟨slot, disk, directory, -, -, same⟩ := (resident.evict_ends member).of_ok evicts
      have envEq : evicted.envs env = { kernel.envs env with diskEnvPgdir := directory } := by
        rw [same]
        exact withDisk_self ..
      have list : (evicted.envs env).pageWsList = front ++ victim :: back := by
        rw [envEq]
        exact split
      have algorithm : evicted.pageRepAlgoType = .lruTimeApprox := by rw [same]; exact lru
      have nodup := resident.nodup
      rw [split] at nodup
      have outside : victim ∉ front := fun inside =>
        (List.nodup_append.mp nodup).2.2 victim inside victim (List.mem_cons_self ..) rfl
      have erased : (evicted.envs env).pageWsList.erase victim = front ++ back := by
        rw [list, List.erase_append_right _ outside, List.erase_cons_head]
      change (do
        let loaded ← (evicted.withList env ((evicted.envs env).pageWsList.erase victim)).loadPage
          env va
          (permUser ||| permPresent ||| permWriteable ||| permUsed)
        loaded.appendElement env va) = (evicted.withList env (front ++ back)).serve env va
      rw [erased, serve, if_pos (show (evicted.withList env (front ++ back)).pageRepAlgoType =
        .lruTimeApprox from algorithm)]

theorem isPageInWs_of_inactive (active : kernel.pageActiveWsList = []) (va : Nat) :
    kernel.isPageInWs kernel.pageActiveWsList (roundDown va pageSize) = false := by
  rw [active]
  rfl

theorem not_skips_of_inactive (active : kernel.pageActiveWsList = []) (env va : Nat) :
    ¬ kernel.Skips env va := by
  intro skips
  exact Bool.false_ne_true ((isPageInWs_of_inactive active va).symm.trans skips.2.2)

/-- CLOCK and Modified CLOCK handle a page on a full working set only if it is not in the active
working set. -/
theorem miss_of_handled (handles : ¬ kernel.Skips env va)
    (clock : kernel.pageRepAlgoType = .clock ∨ kernel.pageRepAlgoType = .modifiedClock)
    (full : (kernel.envs env).pageWsMaxSize ≤ (kernel.envs env).pageWsList.length) :
    kernel.isPageInWs kernel.pageActiveWsList (roundDown va pageSize) = false := by
  rw [← Bool.not_eq_true]
  exact fun listed => handles ⟨clock, full, listed⟩

/-- A fault on a full working set: the handler finds a victim and replaces it. -/
theorem pageFaultHandler_of_full {free : List Nat} (fuel : Nat)
    (replaces : kernel.pageRepAlgoType.Replaces) (ws : WorkingSet kernel env free)
    (handles : ¬ kernel.Skips env va)
    (full : (kernel.envs env).pageWsList.length = (kernel.envs env).pageWsMaxSize)
    (hasVictim : kernel.HasVictim env) :
    ∃ searched victim front back list, Victim env kernel searched victim front back list ∧
      kernel.pageFaultHandler env va (fuel + 2) = searched.replace env va victim list := by
  have notOptimal : kernel.pageRepAlgoType ≠ .optimal := by
    intro same
    rw [same] at replaces
    exact replaces
  unfold pageFaultHandler
  dsimp only
  rw [if_neg notOptimal, if_neg (by omega)]
  -- after the search of CLOCK or Modified CLOCK the hand may move on before the eviction
  have clock : ∀ search : Except Stop (Nat × Kernel), kernel.FindsVictim env search →
      kernel.pageRepAlgoType ≠ .lruTimeApprox → ∀ move : Nat → Kernel → Kernel,
        (∀ victim searched, Searched env searched (move victim searched)) →
        ∃ searched victim front back list, Victim env kernel searched victim front back list ∧
          (search >>= fun found => do
            let next ← (move found.1 found.2).evict env found.1
            let next ← next.removeRotated env found.1
            next.pageFaultHandler env va (fuel + 1)) = searched.replace env va victim list := by
    intro search finds lru move moves
    obtain ⟨result, found, member, search⟩ := finds.exists_ok
    obtain ⟨victim, searched⟩ := result
    subst found
    have search := search.trans (moves victim searched)
    obtain ⟨front, back, split⟩ := List.append_of_mem member
    have algorithm := search.withdraws.algorithm
    refine ⟨move victim searched, victim, front, back, back ++ front,
      ⟨search, split, fun _ => rfl, fun same => absurd same lru, fun same => absurd same lru⟩,
        ?_⟩
    exact evictThenHandle_eq fuel (algorithm ▸ replaces) (algorithm ▸ lru)
      (ws.of_searched search).resident (search.pageWsList.trans split)
  cases algorithm : kernel.pageRepAlgoType with
  | clock =>
      have listed : kernel.HandListed env := by
        rw [HasVictim, algorithm] at hasVictim
        exact hasVictim
      have finds := clockVictim_ends env ((kernel.envs env).pageWsList.length + 2) kernel
        ⟨listed, ws.located⟩ (Nat.lt_of_le_of_lt (kernel.usedCount_le env) (by omega))
      rw [miss_of_handled handles (.inl algorithm) (Nat.le_of_eq full.symm)]
      exact clock _ finds (by rw [algorithm]; decide) (fun _ searched => searched)
        fun _ searched => .refl searched env
  | lruTimeApprox =>
      have stamped : ∃ element ∈ (kernel.envs env).pageWsList,
          (kernel.elements element).timeStamp < 2 ^ 32 - 1 := by
        rw [HasVictim, algorithm] at hasVictim
        exact hasVictim
      rcases kernel.lruVictim_cases env with ⟨_, least⟩ | ⟨victim, found, oldest⟩
      · obtain ⟨element, member, less⟩ := stamped
        exact absurd less (Nat.not_lt.mpr (least element member))
      · have oldest' := oldest
        obtain ⟨front, back, split, -⟩ := oldest'
        refine ⟨kernel, victim, front, back, front ++ back,
          ⟨.refl kernel env, split, fun lru => absurd algorithm lru, fun _ => rfl,
            fun _ => ⟨rfl, oldest⟩⟩, ?_⟩
        exact lruReplacement_eq algorithm ws.resident found split
  | modifiedClock =>
      have listed : kernel.HandListed env := by
        rw [HasVictim, algorithm] at hasVictim
        exact hasVictim
      have finds := modifiedClockVictim_ends env (kernel.envs env).pageWsList.length kernel
        ⟨listed, ws.located⟩ full.symm
      rw [miss_of_handled handles (.inr algorithm) (Nat.le_of_eq full.symm)]
      exact clock _ finds (by rw [algorithm]; decide)
        (fun victim searched => searched.setHand env
          (nextOrFirst (searched.envs env).pageWsList victim))
        fun _ searched => .setHand searched env _
  | _ => rw [algorithm] at replaces; exact replaces.elim

/-- More rounds do not change what the handler returns. -/
theorem pageFaultHandler_succ (env va fuel : Nat) : ∀ kernel after : Kernel,
    kernel.pageFaultHandler env va fuel = .ok after →
      kernel.pageFaultHandler env va (fuel + 1) = .ok after := by
  induction fuel with
  | zero =>
      intro kernel after returned
      cases returned
  | succ fuel ih =>
      intro kernel after returned
      unfold pageFaultHandler at returned ⊢
      dsimp only at returned ⊢
      split
      · rename_i optimal
        rwa [if_pos optimal] at returned
      · rename_i optimal
        rw [if_neg optimal] at returned
        split
        · rename_i room
          rwa [if_pos room] at returned
        · rename_i full
          rw [if_neg full] at returned
          cases algorithm : kernel.pageRepAlgoType with
          | clock =>
              rw [algorithm] at returned
              dsimp only at returned ⊢
              split
              · rename_i hit
                rwa [if_pos hit] at returned
              · rename_i miss
                rw [if_neg miss] at returned
                refine bind_ok_mono (fun found _ => ?_) returned
                obtain ⟨victim, searched⟩ := found
                refine bind_ok_mono fun evicted _ => ?_
                exact bind_ok_mono fun removed _ => ih removed _
          | modifiedClock =>
              rw [algorithm] at returned
              dsimp only at returned ⊢
              split
              · rename_i hit
                rwa [if_pos hit] at returned
              · rename_i miss
                rw [if_neg miss] at returned
                refine bind_ok_mono (fun found _ => ?_) returned
                obtain ⟨victim, searched⟩ := found
                refine bind_ok_mono fun evicted _ => ?_
                exact bind_ok_mono fun removed _ => ih removed _
          | _ => rw [algorithm] at returned; exact returned

theorem pageFaultHandler_add (kernel after : Kernel) (env va fuel more : Nat)
    (returned : kernel.pageFaultHandler env va fuel = .ok after) :
    kernel.pageFaultHandler env va (fuel + more) = .ok after := by
  induction more with
  | zero => exact returned
  | succ more ih => exact pageFaultHandler_succ env va (fuel + more) kernel after ih

/-- How the load of a page that is not present stops. -/
def LoadStops (kernel : Kernel) (env va : Nat) (halt : Stop) : Prop :=
  halt = .outOfMemory ∨
    kernel.memory.slot (kernel.directory env) va = none ∧ halt = .panic ∨
    (kernel.envs env).diskFrame va = 0 ∧ inHeapOrStack va = false ∧
      ∃ stopped, halt = .envExit stopped ∧ Rejected kernel stopped

/-- A placement loads the page, appends its element and sets the hand. -/
theorem placement_returns (user : va < userTop) (absent : kernel.pagePresent env va = false) :
    Ends (kernel.placement env va)
      (fun after => ∃ slot frame memory,
        Loads kernel env va (permUser ||| permPresent ||| permWriteable) slot frame memory ∧
        after = ({ kernel with memory := memory } : Kernel).placed env va)
      (kernel.LoadStops env va) := by
  rw [placement_eq env user]
  apply (loadPage_cases kernel env va _ absent).bind
  rintro loaded ⟨slot, frame, memory, loads, rfl⟩
  exact .ok ⟨slot, frame, memory, loads, rfl⟩

/-- The kernel after a fault was served in a working set with room. -/
def served (kernel : Kernel) (env va : Nat) : Kernel :=
  if kernel.pageRepAlgoType = .lruTimeApprox then kernel.appended env va else kernel.placed env va

theorem serve_returns (user : va < userTop) (absent : kernel.pagePresent env va = false) :
    Ends (kernel.serve env va)
      (fun after => ∃ perm slot frame memory, Perm.has perm permModified = false ∧
        Loads kernel env va perm slot frame memory ∧
        after = ({ kernel with memory := memory } : Kernel).served env va)
      (kernel.LoadStops env va) := by
  unfold serve
  split
  · rename_i lru
    apply (loadPage_cases kernel env va _ absent).bind
    rintro loaded ⟨slot, frame, memory, loads, rfl⟩
    rw [appendElement_eq env user]
    exact .ok ⟨_, slot, frame, memory, by decide, loads, (if_pos lru).symm⟩
  · rename_i lru
    apply (placement_returns user absent).mono _ fun _ stops => stops
    rintro after ⟨slot, frame, memory, loads, same⟩
    exact ⟨_, slot, frame, memory, by decide, loads, same.trans (if_neg lru).symm⟩

/-- A write-back stores no page but its own. -/
theorem WritesBack.diskFrame_eq {disk : Disk} {directory : Option (Nat → Option (Nat → Nat))}
    (writes : WritesBack kernel env page slot disk directory)
    (different : roundDown va pageSize ≠ roundDown page pageSize) (bound : va < 2 ^ 32)
    (bound' : page < 2 ^ 32) :
    ({ kernel.envs env with diskEnvPgdir := directory } : Env).diskFrame va =
      (kernel.envs env).diskFrame va := by
  cases writes with
  | clean => rfl
  | update => rfl
  | add => exact Env.diskFrame_setDiskFrame_of_ne _ _ different bound bound'

/-- The kernel after the write-back, the eviction and the removal of a victim. -/
def Evicts (searched : Kernel) (env victim : Nat) (list : List Nat) (evicted : Kernel) : Prop :=
  ∃ slot disk directory,
    searched.memory.slot (searched.directory env) (searched.elementVa victim) = some slot ∧
    WritesBack searched env (searched.elementVa victim) slot disk directory ∧
    evicted = searched.evicted env (searched.elementVa victim) disk directory list

/-- An eviction withdraws its victim. -/
theorem Evicts.withdraws {searched evicted : Kernel} {list : List Nat}
    (evicts : searched.Evicts env victim list evicted)
    (members : ∀ element ∈ list, element ∈ (searched.envs env).pageWsList) :
    Withdraws searched evicted := by
  obtain ⟨slot, disk, directory, -, -, rfl⟩ := evicts
  have unmapped := unmapFrame_withdraws searched env (searched.elementVa victim)
  have written : Withdraws searched { searched with disk := disk } :=
    { Withdraws.refl searched with }
  have stored : Withdraws searched (searched.withDisk env disk directory) := by
    rw [withDisk]
    exact written.trans (.of_setEnv rfl rfl fun _ member => member)
  have unmapped' : Withdraws (searched.withDisk env disk directory)
      { searched.withDisk env disk directory with
        memory := searched.memory.unmapFrame (searched.directory env)
            (searched.elementVa victim) } :=
    .of_memory unmapped.directories unmapped.present
  refine (stored.trans unmapped').trans (.of_setEnv rfl rfl fun element member => ?_)
  change element ∈ ((searched.withDisk env disk directory).envs env).pageWsList
  rw [withDisk_self]
  exact members element member

/-- A page that was not present is not present after an eviction. -/
theorem Evicts.absent {searched evicted : Kernel} {list : List Nat}
    (evicts : searched.Evicts env victim list evicted)
    (absent : searched.pagePresent env va = false) :
    evicted.pagePresent env va = false := by
  obtain ⟨slot, disk, directory, -, -, rfl⟩ := evicts
  rw [← (unmapFrame_withdraws searched env (searched.elementVa victim)).absent absent]
  simp only [pagePresent, evicted_directory]
  rfl

/-- An eviction stores no page that was not present. -/
theorem Evicts.diskFrame_of_absent {searched evicted : Kernel} {list : List Nat}
    (resident : Resident searched env) (member : victim ∈ (searched.envs env).pageWsList)
    (user : va < userTop) (absent : searched.pagePresent env va = false)
    (evicts : searched.Evicts env victim list evicted) :
    (evicted.envs env).diskFrame va = (searched.envs env).diskFrame va := by
  obtain ⟨slot, disk, directory, -, writes, rfl⟩ := evicts
  have apart : roundDown va pageSize ≠ roundDown (searched.elementVa victim) pageSize := by
    intro same
    have present := resident.present victim member
    rw [← pagePresent_roundDown, ← same, pagePresent_roundDown, absent] at present
    cases present
  rw [evicted_self]
  exact writes.diskFrame_eq apart (Nat.lt_trans user (by decide)) (resident.user victim member).lt

/-- The victim is in the working set before and after the search. -/
theorem Victim.mem {searched : Kernel} {front back list : List Nat}
    (chosen : Victim env kernel searched victim front back list) :
    victim ∈ (searched.envs env).pageWsList := by
  rw [chosen.search.pageWsList, chosen.split]
  simp

/-- The elements that stay were there. -/
theorem Victim.members {searched : Kernel} {front back list : List Nat}
    (chosen : Victim env kernel searched victim front back list) :
    ∀ element ∈ list, element ∈ (searched.envs env).pageWsList := by
  intro element inside
  have old := chosen.perm.mem_iff.mp inside
  rw [List.mem_append] at old
  rw [chosen.search.pageWsList, chosen.split, List.mem_append, List.mem_cons]
  tauto

/-- A search reads and writes no disk frame. -/
theorem Searched.disk {searched : Kernel} (search : Searched env kernel searched) :
    searched.disk = kernel.disk ∧
      (searched.envs env).diskEnvPgdir = (kernel.envs env).diskEnvPgdir := by
  obtain ⟨⟨tables, hand, rfl⟩, -⟩ := search
  exact ⟨rfl, by rw [Kernel.setHand, setEnv_self]⟩

/-- A replacement evicts its victim, then loads the page and appends its element. -/
theorem replace_returns {searched : Kernel} {list : List Nat}
    (resident : Resident searched env) (member : victim ∈ (searched.envs env).pageWsList)
    (user : va < userTop) (absent : searched.pagePresent env va = false) :
    Ends (searched.replace env va victim list)
      (fun after => ∃ evicted, searched.Evicts env victim list evicted ∧
        ∃ perm slot frame memory, Perm.has perm permModified = false ∧
          Loads evicted env va perm slot frame memory ∧
          after = ({ evicted with memory := memory } : Kernel).served env va)
      (fun halt => searched.EvictStops env (searched.elementVa victim) halt ∨
        ∃ evicted, searched.Evicts env victim list evicted ∧
            evicted.LoadStops env va halt) := by
  unfold replace
  apply ((resident.evict_ends member).mono (fun _ holds => holds) fun halt stops => .inl stops).bind
  rintro after ⟨slot, disk, directory, located, writes, rfl⟩
  have evicts : searched.Evicts env victim list
      (searched.evicted env (searched.elementVa victim) disk directory list) :=
    ⟨slot, disk, directory, located, writes, rfl⟩
  apply (serve_returns user (evicts.absent absent)).mono
  · exact fun after returned => ⟨_, evicts, returned⟩
  · exact fun halt stops => .inr ⟨_, evicts, stops⟩

/-- What a handled fault leaves of the list and of the hand. -/
inductive Rearranged (kernel : Kernel) (env : Nat) (value : Env) : Prop
  | placement (room : (kernel.envs env).pageWsList.length < (kernel.envs env).pageWsMaxSize)
      (list : value.pageWsList = (kernel.envs env).pageWsList ++ [kernel.nextElement])
      (hand : value.pageLastWsElement =
        if value.pageWsList.length = value.pageWsMaxSize then value.pageWsList.head? else none)
  | clock (full : (kernel.envs env).pageWsList.length = (kernel.envs env).pageWsMaxSize)
      (filled : value.pageWsList.length = value.pageWsMaxSize)
      (hand : value.pageLastWsElement = value.pageWsList.head?)
  | lru {front back : List Nat} {victim : Nat}
      (algorithm : kernel.pageRepAlgoType = .lruTimeApprox)
      (full : (kernel.envs env).pageWsList.length = (kernel.envs env).pageWsMaxSize)
      (oldest : kernel.Oldest env victim)
      (split : (kernel.envs env).pageWsList = front ++ victim :: back)
      (list : value.pageWsList = front ++ back ++ [kernel.nextElement])
      (hand : value.pageLastWsElement = (kernel.envs env).pageLastWsElement)

/-- What `fault_handler` reads before it handles a page. -/
structure SameGuard (before after : Kernel) : Prop where
  va : after.lastFaultVa = before.lastFaultVa
  faulted : after.lastFaultedEnv = before.lastFaultedEnv
  repeated : after.numRepeatedFault = before.numRepeatedFault
  buffering : after.enableBuffering = before.enableBuffering

theorem SameGuard.trans {middle : Kernel} (first : SameGuard before middle)
    (second : SameGuard middle after) : SameGuard before after where
  va := second.va.trans first.va
  faulted := second.faulted.trans first.faulted
  repeated := second.repeated.trans first.repeated
  buffering := second.buffering.trans first.buffering

theorem Searched.sameGuard (search : Searched env before after) : SameGuard before after := by
  obtain ⟨⟨tables, hand, rfl⟩, -⟩ := search
  exact ⟨rfl, rfl, rfl, rfl⟩

/-- What a handled fault keeps, and that the working set is well formed after it. -/
structure Served (kernel : Kernel) (env : Nat) (after : Kernel) : Prop where
  workingSet : ∃ free, WorkingSet after env free
  guard : SameGuard kernel after
  active : after.pageActiveWsList = kernel.pageActiveWsList
  algorithm : after.pageRepAlgoType = kernel.pageRepAlgoType
  size : (after.envs env).pageWsMaxSize = (kernel.envs env).pageWsMaxSize
  rearranged : Rearranged kernel env (after.envs env)

@[simp] theorem placed_self (kernel : Kernel) (env va : Nat) : (kernel.placed env va).envs env =
    { kernel.envs env with
      pageWsList := (kernel.envs env).pageWsList ++ [kernel.nextElement]
      pageLastWsElement :=
        if (kernel.envs env).pageWsList.length + 1 = (kernel.envs env).pageWsMaxSize then
          ((kernel.envs env).pageWsList ++ [kernel.nextElement]).head?
        else none } := by
  simp [placed, setHand]

theorem WorkingSet.of_placed {free : List Nat} (ws : WorkingSet (kernel.appended env va) env free) :
    WorkingSet (kernel.placed env va) env free :=
  ws.of_searched (.setHand ..)

/-- A fault that is served by placement. -/
theorem WorkingSet.placement_served {free : List Nat} (ws : WorkingSet kernel env free)
    (user : va < userTop) (absent : kernel.pagePresent env va = false)
    (room : (kernel.envs env).pageWsList.length < (kernel.envs env).pageWsMaxSize)
    (returned : kernel.placement env va = .ok after) : Served kernel env after := by
  obtain ⟨slot, frame, memory, loads, rfl⟩ := (placement_returns user absent).of_ok returned
  obtain ⟨rest, -, ws'⟩ := ws.of_loads loads user room
  refine ⟨⟨rest, ws'.of_placed⟩, ⟨rfl, rfl, rfl, rfl⟩, rfl, rfl, ?_, ?_⟩
  · rw [placed_self]
  · rw [placed_self]
    exact .placement room rfl (by simp)

/-- A fault that is served by replacement. -/
theorem WorkingSet.replace_served {searched : Kernel} {free front back list : List Nat}
    (ws : WorkingSet kernel env free) (chosen : Victim env kernel searched victim front back list)
    (user : va < userTop) (absent : kernel.pagePresent env va = false)
    (full : (kernel.envs env).pageWsList.length = (kernel.envs env).pageWsMaxSize)
    (returned : searched.replace env va victim list = .ok after) : Served kernel env after := by
  have ws' := ws.of_searched chosen.search
  have split := chosen.search.pageWsList.trans chosen.split
  have member : victim ∈ (searched.envs env).pageWsList := by simp [split]
  obtain ⟨evicted, ⟨slot, disk, directory, located, writes, same⟩, perm, slot', frame,
    memory, -, loads,
    rfl⟩ := (replace_returns ws'.resident member user
      (chosen.search.withdraws.absent absent)).of_ok returned
  obtain ⟨free', ws'', -⟩ := ws'.of_evicted disk directory split chosen.perm
  rw [← same] at ws''
  have envEq : evicted.envs env =
      { searched.envs env with diskEnvPgdir := directory, pageWsList := list } := by
    rw [same, evicted_self]
  have size : (evicted.envs env).pageWsMaxSize = (kernel.envs env).pageWsMaxSize := by
    rw [envEq]
    exact chosen.search.pageWsMaxSize
  have count : (evicted.envs env).pageWsList.length + 1 = (evicted.envs env).pageWsMaxSize := by
    rw [size, ← full, envEq, chosen.split, List.length_append, List.length_cons,
      ← Nat.add_assoc,
      ← List.length_append, ← chosen.perm.length_eq]
  obtain ⟨rest, -, appended⟩ := ws''.of_loads loads user (by omega)
  have algorithm : evicted.pageRepAlgoType = kernel.pageRepAlgoType := by
    rw [same]
    exact chosen.search.withdraws.algorithm
  have active : evicted.pageActiveWsList = kernel.pageActiveWsList := by
    rw [same]
    exact chosen.search.withdraws.active
  have guard : SameGuard kernel evicted := by
    obtain ⟨va, faulted, repeated, buffering⟩ := chosen.search.sameGuard
    rw [same]
    exact ⟨va, faulted, repeated, buffering⟩
  by_cases lru : kernel.pageRepAlgoType = .lruTimeApprox
  · rw [served, if_pos (show ({ evicted with memory := memory } : Kernel).pageRepAlgoType =
      .lruTimeApprox from algorithm.trans lru)]
    refine ⟨⟨rest, appended⟩, guard.trans ⟨rfl, rfl, rfl, rfl⟩, active,
      algorithm, by rwa [appended_self], ?_⟩
    obtain ⟨unchanged, oldest⟩ := chosen.oldest lru
    subst unchanged
    rw [appended_self]
    refine .lru lru full oldest chosen.split ?_ ?_
    · change (evicted.envs env).pageWsList ++ [evicted.nextElement] = _
      rw [envEq, chosen.erased lru, same]
      rfl
    · change (evicted.envs env).pageLastWsElement = _
      rw [envEq]
  · rw [served, if_neg (show ({ evicted with memory := memory } : Kernel).pageRepAlgoType ≠
      .lruTimeApprox from algorithm ▸ lru)]
    refine ⟨⟨rest, appended.of_placed⟩, guard.trans ⟨rfl, rfl, rfl, rfl⟩, active,
      algorithm, by rwa [placed_self], ?_⟩
    rw [placed_self]
    refine .clock full ?_ ?_
    · exact (List.length_append ..).trans count
    · exact if_pos count

/-- A handler that returns from a fault on a full working set has found a victim. -/
theorem hasVictim_of_returned {fuel : Nat}
    (full : (kernel.envs env).pageWsList.length = (kernel.envs env).pageWsMaxSize)
    (hand : kernel.pageRepAlgoType ≠ .lruTimeApprox → kernel.HandListed env)
    (returned : kernel.pageFaultHandler env va (fuel + 1) = .ok after) : kernel.HasVictim env := by
  unfold HasVictim
  split
  · rename_i lru
    rcases kernel.lruVictim_cases env with
      ⟨none, -⟩ | ⟨victim, -, front, back, split, less, -⟩
    · unfold pageFaultHandler at returned
      rw [lru, if_neg (by decide)] at returned
      dsimp only at returned
      rw [if_neg (by omega), lruReplacement, none] at returned
      cases returned
    · exact ⟨victim, by simp [split], less⟩
  · rename_i lru
    exact hand lru

/-- A handled fault leaves a well-formed working set. -/
theorem WorkingSet.pageFaultHandler_served {free : List Nat} {fuel : Nat}
    (ws : WorkingSet kernel env free) (replaces : kernel.pageRepAlgoType.Replaces)
    (active : kernel.pageActiveWsList = [])
    (hand : kernel.pageRepAlgoType ≠ .lruTimeApprox →
      (kernel.envs env).pageWsList.length = (kernel.envs env).pageWsMaxSize →
        kernel.HandListed env)
    (user : va < userTop) (absent : kernel.pagePresent env va = false)
    (returned : kernel.pageFaultHandler env va fuel = .ok after) : Served kernel env after := by
  have returned := pageFaultHandler_add kernel after env va fuel 2 returned
  by_cases room : (kernel.envs env).pageWsList.length < (kernel.envs env).pageWsMaxSize
  · rw [pageFaultHandler_of_room _ replaces room] at returned
    exact ws.placement_served user absent room returned
  · have full := Nat.le_antisymm ws.fits (Nat.le_of_not_lt room)
    obtain ⟨searched, victim, front, back, list, chosen, handled⟩ :=
      pageFaultHandler_of_full fuel replaces ws (not_skips_of_inactive active env va) full
        (hasVictim_of_returned full (fun lru => hand lru full) returned)
    rw [handled] at returned
    exact ws.replace_served chosen user absent full returned

end Kernel

end FosKernel
