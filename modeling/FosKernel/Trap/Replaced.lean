import FosKernel.Trap.ClockWalk
import FosKernel.Trap.Progress

/-!
# What a replacement leaves

The state after a legal fault on a full working set was served by replacement: the
victim's page is written back and unmapped, the faulted page is loaded and appended,
and of all other pages only used bits that the search cleared have changed.
-/

namespace FosKernel

namespace Kernel

variable {kernel searched evicted after : Kernel} {env va victim element : Nat}
  {front back list cleared : List Nat}

/-- A legal fault on a user page that is not present, where the page table exists. -/
structure LegalFault (kernel : Kernel) (env va : Nat) : Prop where
  user : va < userTop
  absent : kernel.pagePresent env va = false
  table : ∃ slot, kernel.memory.slot (kernel.directory env) va = some slot
  legal : kernel.Legal env va

/-- The effect of a replacement, given the elements that stay in their new order and those whose
used bits the search cleared. -/
structure Replaced (kernel : Kernel) (env va victim : Nat) (cleared list : List Nat)
    (after : Kernel) : Prop where
  arranged : (after.envs env).pageWsList = list ++ [kernel.nextElement]
  newest : after.elementVa kernel.nextElement = roundDown va pageSize
  pages : ∀ element ∈ list, after.elementVa element = kernel.elementVa element
  loaded : after.pagePresent env va = true
  unmapped : after.pagePresent env (kernel.elementVa victim) = false
  entries : ∀ page < 2 ^ 32, roundDown page pageSize ≠ roundDown va pageSize →
    roundDown page pageSize ≠ kernel.elementVa victim →
      after.pageEntry env page = if roundDown page pageSize ∈ cleared.map kernel.elementVa then
        (kernel.pageEntry env page).setPerms 0 permUsed
      else kernel.pageEntry env page
  saved : kernel.modified env victim = true →
    after.disk.frames ((after.envs env).diskFrame (kernel.elementVa victim)) =
      kernel.memory.bytes (kernel.pageEntry env (kernel.elementVa victim)).frame

/-- How the replacement of a victim stops: no disk frame for its write-back, a modified page
outside the page file, the heap and the stack, or no frame for the faulted page. -/
def ReplaceStops (kernel : Kernel) (env victim : Nat) (halt : Stop) : Prop :=
  kernel.EvictStops env (kernel.elementVa victim) halt ∨ halt = .outOfMemory

/-- The fields of a kernel that served a fault. -/
theorem served_fields (kernel : Kernel) (env va : Nat) :
    (kernel.served env va).memory = kernel.memory ∧ (kernel.served env va).disk = kernel.disk ∧
      (kernel.served env va).directory env = kernel.directory env ∧
      (kernel.served env va).elements =
        Function.update kernel.elements kernel.nextElement ⟨roundDown va pageSize, 0⟩ ∧
      ((kernel.served env va).envs env).pageWsList =
        (kernel.envs env).pageWsList ++ [kernel.nextElement] ∧
      ((kernel.served env va).envs env).diskEnvPgdir = (kernel.envs env).diskEnvPgdir := by
  unfold served
  split
  · refine ⟨rfl, rfl, appended_directory .., rfl, ?_, ?_⟩
    · rw [appended_self]
    · rw [appended_self]
  · refine ⟨rfl, rfl, ?_, rfl, ?_, ?_⟩
    · rw [placed, setHand_directory, appended_directory]
    · rw [placed_self]
    · rw [placed_self]

/-- The page file holds a modified victim, as it was before it was unmapped. -/
theorem Evicts.saved (evicts : searched.Evicts env victim list evicted)
    (modified : searched.modified env victim = true) :
    evicted.disk.frames ((evicted.envs env).diskFrame (searched.elementVa victim)) =
      searched.memory.bytes (searched.pageEntry env (searched.elementVa victim)).frame := by
  obtain ⟨slot, disk, directory, place, writes, rfl⟩ := evicts
  rw [Kernel.modified, pagePermissions_eq place] at modified
  rw [evicted_self, pageEntry_eq place]
  change disk.frames _ = _
  cases writes with
  | clean unmodified =>
      rw [unmodified] at modified
      cases modified
  | update _ stored => exact Function.update_self ..
  | add _ unstored inside allocated =>
      rw [show ({ searched.envs env with
          diskEnvPgdir := ((searched.envs env).setDiskFrame (searched.elementVa victim)
            _).diskEnvPgdir, pageWsList := list } : Env).diskFrame (searched.elementVa victim) = _
        from Env.diskFrame_setDiskFrame ..]
      exact Function.update_self ..

/-- An eviction changes the victim's entry alone, and no page table moves. -/
theorem Evicts.pageEntry (evicts : searched.Evicts env victim list evicted)
    (resident : Resident searched env) (member : victim ∈ (searched.envs env).pageWsList)
    {page : Nat} (bound : page < 2 ^ 32) :
    evicted.SeparateTables env ∧
      evicted.pageEntry env page = if roundDown page pageSize = searched.elementVa victim then
        (searched.pageEntry env (searched.elementVa victim)).unmapped
      else searched.pageEntry env page := by
  obtain ⟨slot, disk, directory, -, -, rfl⟩ := evicts
  constructor
  · have tables : (searched.evicted env (searched.elementVa victim) disk directory
        list).memory.directories = searched.memory.directories := Memory.unmapFrame_directories ..
    unfold SeparateTables
    rw [tables, evicted_directory]
    exact resident.separate
  · exact unmapFrame_pageEntry resident.separate (resident.user victim member)
      (resident.present victim member) rfl (evicted_directory ..) bound

/-- A legal fault is not rejected. -/
theorem LegalFault.not_rejected (legal : LegalFault kernel env va) :
    ¬ ((kernel.envs env).diskFrame va = 0 ∧ inHeapOrStack va = false) := by
  intro ⟨unstored, outside⟩
  rcases legal.legal with stored | ⟨above, below⟩ | ⟨above, below, _⟩
  · exact stored unstored
  · have inside : inHeapOrStack va = true := by simp [inHeapOrStack, above, below]
    rw [inside] at outside
    cases outside
  · have inside : inHeapOrStack va = true := by simp [inHeapOrStack, above, below]
    rw [inside] at outside
    cases outside

/-- What the eviction of a victim and the load of the faulted page leave. -/
theorem Evicts.replaced {perm : Perm} {slot : Slot} {frame : Nat} {memory : Memory}
    (evicts : searched.Evicts env victim list evicted) (resident : Resident kernel env)
    (kept : Cleared env kernel searched cleared)
    (member : victim ∈ (kernel.envs env).pageWsList)
    (stay : ∀ element ∈ list, element ∈ (kernel.envs env).pageWsList)
    (legal : LegalFault kernel env va) (loads : Loads evicted env va perm slot frame memory) :
    Replaced kernel env va victim cleared list
      (({ evicted with memory := memory } : Kernel).served env va) := by
  have vas := kept.elementVa
  have resident' := resident.of_searched kept.search
  have withdraws := kept.search.withdraws
  have member' : victim ∈ (searched.envs env).pageWsList := by rwa [kept.search.pageWsList]
  have start := resident.user victim member
  have saved := evicts.saved
  have unmapped : ∀ page < 2 ^ 32, evicted.pageEntry env page =
      if roundDown page pageSize = kernel.elementVa victim then
        (searched.pageEntry env (kernel.elementVa victim)).unmapped
      else searched.pageEntry env page := by
    intro page bound
    rw [← vas]
    exact (evicts.pageEntry resident' member' bound).2
  have separate := (evicts.pageEntry resident' member' start.lt).1
  obtain ⟨place, disk, directory, located, writes, same⟩ := evicts
  obtain ⟨entry, directories, tables, present, -⟩ := loads.tables
  obtain ⟨taken, fetch⟩ := loads.fetch
  obtain ⟨servedMemory, servedDisk, servedDirectory, servedElements, servedList, servedDisks⟩ :=
    ({ evicted with memory := memory } : Kernel).served_fields env va
  have bound : va < 2 ^ 32 := Nat.lt_trans legal.user (by decide)
  have entries : ∀ page < 2 ^ 32,
      (({ evicted with memory := memory } : Kernel).served env va).pageEntry env page =
        if roundDown page pageSize = roundDown va pageSize then entry
        else evicted.pageEntry env page := by
    intro page below
    refine pageEntry_update separate ?_ ?_ fetch.located ?_ bound below
    · rw [servedMemory]
      exact directories
    · rw [servedDirectory]
      rfl
    · rw [servedMemory]
      exact tables
  have elements : evicted.elements = kernel.elements := by
    rw [same]
    exact withdraws.elements
  have next : evicted.nextElement = kernel.nextElement := by
    obtain ⟨⟨_, _, moved⟩, _⟩ := kept.search
    rw [same, moved]
    rfl
  have outside : kernel.elementVa victim ≠ roundDown va pageSize := by
    intro equal
    have held := resident.present victim member
    rw [equal, pagePresent_roundDown, legal.absent] at held
    cases held
  refine ⟨?_, ?_, ?_, ?_, ?_, ?_, ?_⟩
  · rw [servedList]
    change (evicted.envs env).pageWsList ++ [evicted.nextElement] = _
    rw [next, same, evicted_self]
  · rw [Kernel.elementVa, servedElements]
    change (Function.update evicted.elements evicted.nextElement _ _).virtualAddress = _
    rw [next, Function.update_self]
  · intro element inside
    have older := resident.created element (stay element inside)
    rw [Kernel.elementVa, servedElements]
    change (Function.update evicted.elements evicted.nextElement _ _).virtualAddress = _
    rw [next, Function.update_of_ne (Nat.ne_of_lt older), elements]
    rfl
  · rw [← pageEntry_present, entries va bound, if_pos rfl]
    exact present
  · rw [← pageEntry_present, entries _ start.lt, start.roundDown_eq, if_neg outside,
      unmapped _ start.lt, start.roundDown_eq, if_pos rfl, PageTableEntry.unmapped_not_present]
  · intro page below notVa notVictim
    rw [entries page below, if_neg notVa, unmapped page below, if_neg notVictim,
      kept.entries page below]
  · intro modified
    obtain ⟨modified', frame'⟩ := kept.modified resident member
    have bytes : searched.memory.bytes = kernel.memory.bytes := by
      obtain ⟨⟨_, _, moved⟩, _⟩ := kept.search
      rw [moved]
      rfl
    have held := saved (modified'.trans modified)
    rw [vas, bytes, frame'] at held
    rw [servedDisk, ← held]
    congr 1
    unfold Env.diskFrame
    rw [servedDisks]

/-- After a search, a legal fault ends with its victim replaced, or for lack of frames or disk
frames. -/
theorem replace_replaced (resident : Resident kernel env)
    (full : (kernel.envs env).pageWsList.length = (kernel.envs env).pageWsMaxSize)
    (kept : Cleared env kernel searched cleared)
    (split : (kernel.envs env).pageWsList = front ++ victim :: back)
    (rest : list.Perm (front ++ back)) (legal : LegalFault kernel env va) :
    Ends (searched.replace env va victim list)
      (fun after => Replaced kernel env va victim cleared list after ∧
        (kernel.pageRepAlgoType ≠ .lruTimeApprox →
          (after.envs env).pageLastWsElement = (after.envs env).pageWsList.head?))
      (kernel.ReplaceStops env victim) := by
  have search := kept.search
  have withdraws := search.withdraws
  have resident' := resident.of_searched search
  have member : victim ∈ (kernel.envs env).pageWsList := by simp [split]
  have member' : victim ∈ (searched.envs env).pageWsList := by rwa [search.pageWsList]
  have stay : ∀ element ∈ list, element ∈ (kernel.envs env).pageWsList := by
    intro element inside
    rw [split, List.mem_append, List.mem_cons]
    have old := List.mem_append.mp (rest.mem_iff.mp inside)
    exact old.imp_right .inr
  have absent := withdraws.absent legal.absent
  obtain ⟨disk, directory⟩ := search.disk
  have diskFrame : ∀ page, (searched.envs env).diskFrame page =
      (kernel.envs env).diskFrame page := by
    intro page
    unfold Env.diskFrame
    rw [directory]
  apply (replace_returns resident' member' legal.user absent).mono
  · rintro after ⟨evicted, evicts, perm, slot, frame, memory, -, loads, rfl⟩
    refine ⟨evicts.replaced resident kept member stay legal loads, fun lru => ?_⟩
    obtain ⟨place, disk, directory, -, -, same⟩ := evicts
    have algorithm : ({ evicted with memory := memory } : Kernel).pageRepAlgoType ≠
        .lruTimeApprox := by
      rw [same]
      exact withdraws.algorithm ▸ lru
    have room : (evicted.envs env).pageWsList.length + 1 = (evicted.envs env).pageWsMaxSize := by
      rw [same, evicted_self]
      change list.length + 1 = (searched.envs env).pageWsMaxSize
      rw [search.pageWsMaxSize, ← full, split, rest.length_eq]
      simp only [List.length_append, List.length_cons]
      omega
    rw [served, if_neg algorithm, placed_self]
    exact if_pos room
  · rintro halt (stops | ⟨evicted, evicts, stops⟩)
    · left
      rw [EvictStops, kept.elementVa, diskFrame] at stops
      exact stops
    · rcases stops with memory | ⟨missing, -⟩ | ⟨unstored, outside, -⟩
      · exact .inr memory
      · obtain ⟨slot, place⟩ := legal.table
        have evicting := evicts.withdraws fun element inside => by
          rw [search.pageWsList]
          exact stay element inside
        rw [evicting.directory, withdraws.directory, Memory.slot_congr evicting.directories,
          Memory.slot_congr withdraws.directories, place] at missing
        cases missing
      · rw [evicts.diskFrame_of_absent resident' member' legal.user absent, diskFrame] at unstored
        exact absurd ⟨unstored, outside⟩ legal.not_rejected

end Kernel

end FosKernel
