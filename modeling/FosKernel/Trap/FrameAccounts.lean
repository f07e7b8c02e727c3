import FosKernel.Trap.WorkingSetRuns

/-!
# Where the frames of an environment are

The frames that page faults of an environment can place: each is free, without
references, or it is mapped by one page of the working set, with one reference.
What a search, an eviction, a load and a handled fault do to these accounts.
-/

namespace FosKernel

namespace Kernel

variable {kernel before after : Kernel} {env va victim fuel : Nat} {slot : Slot} {pool : Set Nat}
  {free list front back : List Nat}

/-- A working set whose pages map, together with the free frames, exactly the frames of a pool. A
free frame has no references, and that of a page has one. -/
structure Accounted (kernel : Kernel) (env : Nat) (pool : Set Nat) (free : List Nat) : Prop where
  workingSet : WorkingSet kernel env free
  mem_pool : ∀ frame, frame ∈ pool ↔
    frame ∈ free ∨ ∃ page ∈ kernel.wsPages env, (kernel.pageEntry env page).frame = frame
  idle : ∀ frame ∈ free, (kernel.memory.frames frame).references = 0
  held : ∀ page ∈ kernel.wsPages env,
    (kernel.memory.frames (kernel.pageEntry env page).frame).references = 1

/-- The load of a page gives its frame one reference and leaves the others alone. -/
theorem Loads.references {perm : Perm} {frame : Nat} {memory : Memory}
    (loads : Loads kernel env va perm slot frame memory)
    (represents : kernel.memory.freeFrameList.Represents free) (other : Nat) :
    (memory.frames other).references =
      if other = frame then 1 else (kernel.memory.frames other).references := by
  have installed : ∀ taken, Fetch kernel env va slot frame taken →
      ((taken.installFrame slot frame va perm).frames other).references =
        if other = frame then 1 else (kernel.memory.frames other).references := by
    intro taken fetch
    obtain ⟨rest, -, -, frames⟩ := Memory.allocateFrame_cases represents fetch.allocated
    rw [Memory.installFrame_references]
    by_cases same : other = frame
    · rw [if_pos same, if_pos same, frames, Function.update_self]
      rfl
    · rw [if_neg same, if_neg same, frames, Function.update_of_ne same]
  cases loads with
  | stored fetch _ => exact installed _ fetch
  | unstored fetch _ _ => exact installed _ fetch

/-- A placement appends the page of the fault. -/
theorem placed_wsPages (created : ∀ element ∈ (kernel.envs env).pageWsList,
    element < kernel.nextElement) :
    (kernel.placed env va).wsPages env = kernel.wsPages env ++ [roundDown va pageSize] := by
  have vas : (kernel.placed env va).elementVa = (kernel.appended env va).elementVa := rfl
  rw [wsPages, placed_self, vas, List.map_append, List.map_singleton]
  congr 1
  · apply List.map_congr_left
    intro element member
    exact congrArg WorkingSetElement.virtualAddress
      (Function.update_of_ne (Nat.ne_of_lt (created element member)) ..)
  · exact congrArg (fun element => [element.virtualAddress])
      (Function.update_self kernel.nextElement _ kernel.elements)

@[simp] theorem placed_directory (kernel : Kernel) (env va other : Nat) :
    (kernel.placed env va).directory other = kernel.directory other := by
  rw [placed]
  exact (setHand_directory ..).trans (appended_directory ..)

namespace Accounted

/-- The accounts depend only on the frames of the pages in the working set and on the references. -/
theorem congr (accounted : Accounted before env pool free) (workingSet : WorkingSet after env free)
    (pages : after.wsPages env = before.wsPages env)
    (entries : ∀ page ∈ before.wsPages env,
      (after.pageEntry env page).frame = (before.pageEntry env page).frame)
    (references : ∀ frame,
      (after.memory.frames frame).references = (before.memory.frames frame).references) :
    Accounted after env pool free where
  workingSet := workingSet
  mem_pool frame := by
    rw [accounted.mem_pool frame, pages]
    refine or_congr_right (exists_congr fun page => and_congr_right fun member => ?_)
    rw [entries page member]
  idle frame member := (references frame).trans (accounted.idle frame member)
  held page member := by
    rw [pages] at member
    rw [entries page member, references]
    exact accounted.held page member

theorem of_searched (accounted : Accounted before env pool free)
    (searched : Searched env before after) : Accounted after env pool free := by
  have withdraws := searched.withdraws
  refine accounted.congr (accounted.workingSet.of_searched searched) ?_ (fun page _ => ?_)
    fun frame => ?_
  · unfold wsPages elementVa
    rw [searched.pageWsList, withdraws.elements]
  · unfold pageEntry Memory.entry
    rw [withdraws.directory, Memory.slot_congr withdraws.directories]
    cases before.memory.slot (before.directory env) page with
    | none => rfl
    | some slot =>
        change (after.memory.tables slot).frame = (before.memory.tables slot).frame
        rcases searched.entries slot with same | cleared
        · rw [same]
        · rw [cleared, PageTableEntry.setPerms_frame]
  · obtain ⟨⟨tables, hand, rfl⟩, _⟩ := searched
    rfl

/-- Unmapping a page of the working set frees its frame. -/
theorem unmapFrame_eq (accounted : Accounted kernel env pool free)
    (member : victim ∈ (kernel.envs env).pageWsList) :
    ∃ slot, kernel.memory.unmapFrame (kernel.directory env) (kernel.elementVa victim) =
      (kernel.memory.freeFrame (kernel.pageEntry env (kernel.elementVa victim)).frame).setEntry slot
        (kernel.pageEntry env (kernel.elementVa victim)).unmapped := by
  have present := accounted.workingSet.pagePresent member
  obtain ⟨slot, located⟩ := exists_slot present
  have here := pageEntry_eq located
  have holds : (kernel.memory.tables slot).holdsFrame = true :=
    PageTableEntry.holdsFrame_of_present (by rwa [← here, pageEntry_present])
  have last := accounted.held _ (WorkingSet.page_mem member)
  refine ⟨slot, ?_⟩
  rw [Memory.unmapFrame_of_holdsFrame located holds, ← here,
    Memory.decrementReferences_of_one last]

/-- An eviction makes the victim's frame free. -/
theorem of_evicted (accounted : Accounted kernel env pool free) (disk : Disk)
    (directory : Option (Nat → Option (Nat → Nat)))
    (split : (kernel.envs env).pageWsList = front ++ victim :: back)
    (rest : list.Perm (front ++ back)) :
    Accounted (kernel.evicted env (kernel.elementVa victim) disk directory list) env pool
      ((kernel.pageEntry env (kernel.elementVa victim)).frame :: free) := by
  have ws := accounted.workingSet
  have member : victim ∈ (kernel.envs env).pageWsList := by simp [split]
  obtain ⟨free', ws', -⟩ := ws.of_evicted disk directory split rest
  obtain ⟨slot, unmapped⟩ := accounted.unmapFrame_eq member
  have memory : (kernel.evicted env (kernel.elementVa victim) disk directory list).memory =
      kernel.memory.unmapFrame (kernel.directory env) (kernel.elementVa victim) := rfl
  have apart := ws.mapped.apart _ (WorkingSet.page_mem member)
  have freed : free' = (kernel.pageEntry env (kernel.elementVa victim)).frame :: free := by
    have represents := ws'.mapped.represents
    rw [memory, unmapped] at represents
    exact represents.unique (Memory.freeFrame_represents ws.mapped.represents apart)
  subst freed
  have perm : (kernel.wsPages env).Perm (kernel.elementVa victim :: list.map kernel.elementVa) := by
    unfold wsPages
    rw [split]
    exact (List.perm_middle.trans (rest.symm.cons victim)).map kernel.elementVa
  obtain ⟨outside, -⟩ := List.nodup_cons.mp (perm.nodup_iff.mp ws.mapped.nodup)
  have pages : (kernel.evicted env (kernel.elementVa victim) disk directory list).wsPages env =
      list.map kernel.elementVa := by
    rw [wsPages, evicted_self]
    rfl
  have kept : ∀ page ∈ list.map kernel.elementVa, page ∈ kernel.wsPages env ∧
      (kernel.pageEntry env page).frame ≠
        (kernel.pageEntry env (kernel.elementVa victim)).frame ∧
      (kernel.evicted env (kernel.elementVa victim) disk directory list).pageEntry env page =
        kernel.pageEntry env page := by
    intro page inside
    have old : page ∈ kernel.wsPages env := perm.mem_iff.mpr (List.mem_cons_of_mem _ inside)
    have different : page ≠ kernel.elementVa victim := fun same => outside (same ▸ inside)
    have user := ws.mapped.user page old
    refine ⟨old, fun same => different ?_, ?_⟩
    · exact ws.mapped.owns page old _ (WorkingSet.page_mem member) same
    · rw [ws.mapped.unmap_pageEntry (WorkingSet.page_mem member) memory
        (evicted_directory ..) user.2,
        user.roundDown_eq, if_neg different]
  have references : ∀ frame, (((kernel.evicted env (kernel.elementVa victim) disk directory
      list).memory).frames frame).references =
        if frame = (kernel.pageEntry env (kernel.elementVa victim)).frame then 0
        else (kernel.memory.frames frame).references := by
    intro frame
    rw [memory, unmapped]
    by_cases same : frame = (kernel.pageEntry env (kernel.elementVa victim)).frame <;>
      simp [Memory.freeFrame, Memory.initializeFrameInfo, same]
  refine ⟨ws', fun frame => ?_, fun frame listed => ?_, fun page inside => ?_⟩
  · rw [accounted.mem_pool frame, pages, List.mem_cons]
    constructor
    · rintro (listed | ⟨page, inside, maps⟩)
      · exact .inl (.inr listed)
      · obtain rfl | inside := List.mem_cons.mp (perm.mem_iff.mp inside)
        · exact .inl (.inl maps.symm)
        · exact .inr ⟨page, inside, by rw [(kept page inside).2.2, maps]⟩
    · rintro ((same | listed) | ⟨page, inside, maps⟩)
      · exact .inr ⟨_, WorkingSet.page_mem member, same.symm⟩
      · exact .inl listed
      · rw [(kept page inside).2.2] at maps
        exact .inr ⟨page, (kept page inside).1, maps⟩
  · rw [references]
    split
    · rfl
    · rename_i different
      exact accounted.idle frame ((List.mem_cons.mp listed).resolve_left different)
  · rw [pages] at inside
    obtain ⟨old, different, same⟩ := kept page inside
    rw [references, same, if_neg different]
    exact accounted.held page old

/-- The load of a page and its element take the first free frame. -/
theorem of_loads (accounted : Accounted kernel env pool free) {perm : Perm} {frame : Nat}
    {memory : Memory} (loads : Loads kernel env va perm slot frame memory) (user : va < userTop)
    (room : (kernel.envs env).pageWsList.length < (kernel.envs env).pageWsMaxSize) :
    ∃ rest, free = frame :: rest ∧
      Accounted (({ kernel with memory := memory } : Kernel).placed env va) env pool rest := by
  have ws := accounted.workingSet
  obtain ⟨rest, rfl, appended⟩ := ws.of_loads loads user room
  refine ⟨rest, rfl, ?_⟩
  have references := loads.references ws.mapped.represents
  obtain ⟨entry, directories, tables, present, holds⟩ := loads.tables
  obtain ⟨taken, fetch⟩ := loads.fetch
  have directory : (({ kernel with memory := memory } : Kernel).placed env va).directory env =
      kernel.directory env := placed_directory ..
  have start := roundDown_isUserPage user
  have entries : ∀ page < userTop,
      (({ kernel with memory := memory } : Kernel).placed env va).pageEntry env page =
        if roundDown page pageSize = roundDown va pageSize then entry else
            kernel.pageEntry env page :=
    fun page below => pageEntry_update ws.mapped.separate directories directory fetch.located tables
      (Nat.lt_trans user (by decide)) (Nat.lt_trans below (by decide))
  have new : (({ kernel with memory := memory } : Kernel).placed env va).pageEntry env
      (roundDown va pageSize) = entry := by
    rw [entries _ start.2, start.roundDown_eq, if_pos rfl]
  have outside := ws.not_mem_of_absent user ((pagePresent_eq fetch.located).trans fetch.absent)
  have kept : ∀ page ∈ kernel.wsPages env, (kernel.pageEntry env page).frame ≠ frame ∧
      (({ kernel with memory := memory } : Kernel).placed env va).pageEntry env page =
        kernel.pageEntry env page := by
    intro page member
    have user' := ws.mapped.user page member
    constructor
    · exact fun same => ws.mapped.apart page member (same ▸ List.mem_cons_self)
    · rw [entries page user'.2, user'.roundDown_eq, if_neg]
      exact fun same => outside (same ▸ member)
  have pages : (({ kernel with memory := memory } : Kernel).placed env va).wsPages env =
      kernel.wsPages env ++ [roundDown va pageSize] :=
    @placed_wsPages { kernel with memory := memory } env va ws.created
  refine ⟨appended.of_placed, fun other => ?_, fun other listed => ?_, fun page inside => ?_⟩
  · rw [accounted.mem_pool other, pages, List.mem_cons]
    constructor
    · rintro ((same | listed) | ⟨page, member, maps⟩)
      · exact .inr ⟨_, List.mem_append_right _ List.mem_cons_self, by rw [new, holds, same]⟩
      · exact .inl listed
      · exact .inr ⟨page, List.mem_append_left _ member, by rw [(kept page member).2, maps]⟩
    · rintro (listed | ⟨page, member, maps⟩)
      · exact .inl (.inr listed)
      · obtain old | fresh := List.mem_append.mp member
        · rw [(kept page old).2] at maps
          exact .inr ⟨page, old, maps⟩
        · rw [List.mem_singleton.mp fresh, new, holds] at maps
          exact .inl (.inl maps.symm)
  · have different : other ≠ frame := fun same =>
      (List.nodup_cons.mp ws.mapped.represents.nodup).1 (same ▸ listed)
    exact (references other).trans ((if_neg different).trans
      (accounted.idle other (List.mem_cons_of_mem _ listed)))
  · rw [pages] at inside
    obtain old | fresh := List.mem_append.mp inside
    · obtain ⟨different, same⟩ := kept page old
      rw [same]
      exact (references _).trans ((if_neg different).trans (accounted.held page old))
    · rw [List.mem_singleton.mp fresh, new, holds]
      exact (references frame).trans (if_pos rfl)

/-- A fault that is served by placement. -/
theorem placement (accounted : Accounted kernel env pool free) (user : va < userTop)
    (absent : kernel.pagePresent env va = false)
    (room : (kernel.envs env).pageWsList.length < (kernel.envs env).pageWsMaxSize)
    (returned : kernel.placement env va = .ok after) : ∃ rest, Accounted after env pool rest := by
  obtain ⟨slot, frame, memory, loads, rfl⟩ := (placement_returns user absent).of_ok returned
  obtain ⟨rest, -, accounted'⟩ := accounted.of_loads loads user room
  exact ⟨rest, accounted'⟩

/-- A fault that is served by replacement under CLOCK or Modified CLOCK. -/
theorem replace {searched : Kernel} (accounted : Accounted kernel env pool free)
    (lru : kernel.pageRepAlgoType ≠ .lruTimeApprox)
    (chosen : Victim env kernel searched victim front back list) (user : va < userTop)
    (absent : kernel.pagePresent env va = false)
    (returned : searched.replace env va victim list = .ok after) :
    ∃ rest, Accounted after env pool rest := by
  have found := accounted.of_searched chosen.search
  have split := chosen.search.pageWsList.trans chosen.split
  obtain ⟨evicted, ⟨slot, disk, directory, -, -, same⟩, perm, slot', frame, memory,
      -, loads, rfl⟩ :=
    (replace_returns found.workingSet.resident chosen.mem user
      (chosen.search.withdraws.absent absent)).of_ok returned
  have emptied := found.of_evicted disk directory split chosen.perm
  rw [← same] at emptied
  have room : (evicted.envs env).pageWsList.length < (evicted.envs env).pageWsMaxSize := by
    have fits := found.workingSet.fits
    have shorter := chosen.perm.length_eq
    rw [split, List.length_append, List.length_cons] at fits
    rw [List.length_append] at shorter
    rw [same, evicted_self]
    change list.length < (searched.envs env).pageWsMaxSize
    omega
  obtain ⟨rest, -, accounted'⟩ := emptied.of_loads loads user room
  have algorithm : ({ evicted with memory := memory } : Kernel).pageRepAlgoType ≠
      .lruTimeApprox := by
    change evicted.pageRepAlgoType ≠ _
    rw [same]
    exact chosen.search.withdraws.algorithm ▸ lru
  rw [served, if_neg algorithm]
  exact ⟨rest, accounted'⟩

/-- A handled fault keeps the accounts. -/
theorem pageFaultHandler (accounted : Accounted kernel env pool free) (clocks : Clocks kernel)
    (active : kernel.pageActiveWsList = [])
    (hand : (kernel.envs env).pageWsList.length = (kernel.envs env).pageWsMaxSize →
      kernel.HandListed env)
    (user : va < userTop) (absent : kernel.pagePresent env va = false)
    (returned : kernel.pageFaultHandler env va fuel = .ok after) :
    ∃ rest, Accounted after env pool rest := by
  have returned := pageFaultHandler_add kernel after env va fuel 2 returned
  have ws := accounted.workingSet
  have lru : kernel.pageRepAlgoType ≠ .lruTimeApprox := by
    rcases clocks with same | same <;> rw [same] <;> nofun
  have replaces : kernel.pageRepAlgoType.Replaces := by
    rcases clocks with same | same <;> rw [same] <;> trivial
  by_cases room : (kernel.envs env).pageWsList.length < (kernel.envs env).pageWsMaxSize
  · rw [pageFaultHandler_of_room _ replaces room] at returned
    exact accounted.placement user absent room returned
  · have full := Nat.le_antisymm ws.fits (Nat.le_of_not_lt room)
    obtain ⟨searched, victim, front, back, list, chosen, handled⟩ :=
      pageFaultHandler_of_full fuel replaces ws (not_skips_of_inactive active env va) full
        (hasVictim_of_returned full (fun _ => hand full) returned)
    rw [handled] at returned
    exact accounted.replace lru chosen user absent returned

/-- An invalidation makes the frame of its page free. -/
theorem envPageWsInvalidate (accounted : Accounted kernel env pool free) (va : Nat) :
    ∃ free', Accounted (kernel.envPageWsInvalidate env va) env pool free' := by
  rcases envPageWsInvalidate_cases kernel env va with same | ⟨front, wse, back, split, same⟩
  · rw [same]
    exact ⟨free, accounted⟩
  · rw [same]
    exact ⟨_, (accounted.of_evicted kernel.disk (kernel.envs env).diskEnvPgdir split
      (List.Perm.refl (front ++ back))).of_searched (.setHand ..)⟩

end Accounted

end Kernel

end FosKernel
