import FosKernel.Trap.UserHeap

/-!
# Handling a page keeps the marks

The available bits of page-table entries, which mark the pages of the user heap, and
the guard of `fault_handler` are not for `page_fault_handler` to change. It sets and
clears other bits, maps and unmaps frames, which keeps the available ones, and changes
the page file and the working sets. It ends the environment at no page of the heap or
the stack.
-/

namespace FosKernel

namespace PageTableEntry

theorem setPerms_and_available (entry : PageTableEntry) {set clear : Perm}
    (unset : set &&& permAvailable = 0#12) (kept : ~~~clear &&& permAvailable = permAvailable) :
    (entry.setPerms set clear).perm &&& permAvailable = entry.perm &&& permAvailable := by
  unfold setPerms
  dsimp only
  rw [BitVec.and_assoc, kept, BitVec.and_or_distrib_right, unset, BitVec.or_zero]

theorem unmapped_and_available (entry : PageTableEntry) :
    entry.unmapped.perm &&& permAvailable = entry.perm &&& permAvailable := by
  unfold unmapped
  dsimp only
  rw [BitVec.and_assoc, BitVec.and_self]

end PageTableEntry

namespace Memory

variable {before middle after memory next : Memory} {directory frame va : Nat} {slot : Slot}

/-- The page tables and the available bits of all entries are the same. -/
structure KeepsAvailable (before after : Memory) : Prop where
  directories : after.directories = before.directories
  available : ∀ slot, (after.tables slot).perm &&& permAvailable =
    (before.tables slot).perm &&& permAvailable

namespace KeepsAvailable

theorem refl (memory : Memory) : KeepsAvailable memory memory := ⟨rfl, fun _ => rfl⟩

theorem trans (first : KeepsAvailable before middle) (second : KeepsAvailable middle after) :
    KeepsAvailable before after where
  directories := second.directories.trans first.directories
  available slot := (second.available slot).trans (first.available slot)

theorem of_tables (directories : after.directories = before.directories)
    (tables : after.tables = before.tables) : KeepsAvailable before after :=
  ⟨directories, fun _ => by rw [tables]⟩

theorem of_setEntry {entry : PageTableEntry} (directories : after.directories = before.directories)
    (tables : after.tables = Function.update before.tables slot entry)
    (available : entry.perm &&& permAvailable = (before.tables slot).perm &&& permAvailable) :
    KeepsAvailable before after := by
  refine ⟨directories, fun other => ?_⟩
  rw [tables]
  by_cases same : other = slot
  · rw [same, Function.update_self, available]
  · rw [Function.update_of_ne same]

theorem slot_eq (keeps : KeepsAvailable before after) (directory va : Nat) :
    after.slot directory va = before.slot directory va := by
  unfold Memory.slot getPageTable
  rw [keeps.directories]

theorem allocateFrame (allocated : memory.allocateFrame = some (frame, next)) :
    KeepsAvailable memory next := by
  obtain ⟨tables, directories, _⟩ := allocateFrame_spec allocated
  exact of_tables directories tables

theorem unmapFrame (memory : Memory) (directory va : Nat) :
    KeepsAvailable memory (memory.unmapFrame directory va) := by
  cases located : memory.slot directory va with
  | none =>
      rw [unmapFrame_of_not_located located]
      exact refl memory
  | some slot =>
      refine of_setEntry (unmapFrame_directories ..) (unmapFrame_tables located) ?_
      split
      · exact PageTableEntry.unmapped_and_available _
      · rfl

theorem installFrame (memory : Memory) (slot : Slot) (frame va : Nat) {perm : Perm}
    (outside : perm &&& permAvailable = 0#12) :
    KeepsAvailable memory (memory.installFrame slot frame va perm) := by
  refine of_setEntry rfl (installFrame_tables ..) ?_
  dsimp only
  rw [BitVec.and_or_distrib_right, BitVec.and_or_distrib_right, BitVec.and_assoc, BitVec.and_self,
    outside, BitVec.or_zero, show permPresent &&& permAvailable = 0#12 by decide, BitVec.or_zero]

theorem mapFrame {perm : Perm} (outside : perm &&& permAvailable = 0#12)
    (mapped : memory.mapFrame directory frame va perm = some next) :
    KeepsAvailable memory next := by
  obtain ⟨slot, _, ⟨_, _, same⟩ | ⟨_, _, same⟩ | ⟨_, same⟩⟩ := mapFrame_cases mapped
  · rw [same]
    exact refl memory
  · rw [same]
    exact (unmapFrame memory directory va).trans (installFrame _ slot frame va outside)
  · rw [same]
    exact installFrame memory slot frame va outside

end KeepsAvailable

end Memory

namespace Kernel

variable {kernel before middle after : Kernel} {env va fuel : Nat}

/-- The available bits of all entries, the page tables and what `fault_handler` reads first are the
same. -/
structure KeepsMarks (before after : Kernel) : Prop where
  memory : before.memory.KeepsAvailable after.memory
  directory : ∀ env, after.directory env = before.directory env
  nextTable : after.nextTable = before.nextTable
  guard : SameGuard before after

theorem SameGuard.refl (kernel : Kernel) : SameGuard kernel kernel := ⟨rfl, rfl, rfl, rfl⟩

namespace KeepsMarks

theorem refl (kernel : Kernel) : KeepsMarks kernel kernel :=
  ⟨.refl kernel.memory, fun _ => rfl, rfl, .refl kernel⟩

theorem trans (first : KeepsMarks before middle) (second : KeepsMarks middle after) :
    KeepsMarks before after where
  memory := first.memory.trans second.memory
  directory env := (second.directory env).trans (first.directory env)
  nextTable := second.nextTable.trans first.nextTable
  guard := first.guard.trans second.guard

theorem of_memory {memory : Memory} (keeps : kernel.memory.KeepsAvailable memory) :
    KeepsMarks kernel { kernel with memory := memory } :=
  ⟨keeps, fun _ => rfl, rfl, ⟨rfl, rfl, rfl, rfl⟩⟩

/-- Changes outside the memory and the environments. -/
theorem of_rest (memory : after.memory = before.memory) (envs : after.envs = before.envs)
    (nextTable : after.nextTable = before.nextTable) (guard : SameGuard before after) :
    KeepsMarks before after where
  memory := by
    rw [memory]
    exact .refl _
  directory env := by
    unfold Kernel.directory
    rw [envs]
  nextTable := nextTable
  guard := guard

/-- Changes of an environment other than of its page directory. -/
theorem of_setEnv {value : Env}
    (directory : value.envPageDirectory = (kernel.envs env).envPageDirectory) :
    KeepsMarks kernel (kernel.setEnv env value) where
  memory := .refl _
  directory := kernel.setEnv_envs env value
    (fun changed old => changed.envPageDirectory = old.envPageDirectory) directory fun _ => rfl
  nextTable := rfl
  guard := ⟨rfl, rfl, rfl, rfl⟩

theorem slot_eq (keeps : KeepsMarks before after) (env va : Nat) :
    after.memory.slot (after.directory env) va = before.memory.slot (before.directory env) va := by
  rw [keeps.directory, keeps.memory.slot_eq]

end KeepsMarks

theorem Searched.keepsMarks (searched : Searched env before after) : KeepsMarks before after := by
  obtain ⟨⟨tables, hand, rfl⟩, entries⟩ := searched
  have cleared : KeepsMarks before
      { before with memory := { before.memory with tables := tables } } := by
    refine .of_memory ⟨rfl, fun slot => ?_⟩
    rcases entries slot with same | cleared
    · exact congrArg (fun entry => entry.perm &&& permAvailable) same
    · exact (congrArg (fun entry => entry.perm &&& permAvailable) cleared).trans
        (PageTableEntry.setPerms_and_available _ (by decide) (by decide))
  exact cleared.trans (.of_setEnv rfl)

/-- Where the call returns, it has kept the marks. It does not reject a page of the heap or the
stack. -/
def MarksKept (va : Nat) (kernel : Kernel) (call : Except Stop Kernel) : Prop :=
  Ends call (KeepsMarks kernel) fun stop => inHeapOrStack va = true → stop.Unrejected

namespace MarksKept

variable {call : Except Stop Kernel}

theorem ok (keeps : KeepsMarks kernel after) : MarksKept va kernel (.ok after) := keeps

theorem error {halt : Stop} (unrejected : halt.Unrejected) : MarksKept va kernel (.error halt) :=
  fun _ => unrejected

theorem trans (keeps : KeepsMarks before middle) (kept : MarksKept va middle call) :
    MarksKept va before call :=
  kept.mono (fun _ keeps' => keeps.trans keeps') fun _ unrejected => unrejected

/-- The rule of sequences. -/
theorem bind {rest : Kernel → Except Stop Kernel} (kept : MarksKept va kernel call)
    (next : ∀ middle, MarksKept va middle (rest middle)) : MarksKept va kernel (call >>= rest) :=
  Ends.bind kept fun middle keeps => trans keeps (next middle)

/-- The rule of sequences for calls with another result. -/
theorem bind_pair {α : Type} {first : Except Stop (α × Kernel)}
    {rest : α × Kernel → Except Stop Kernel}
    (kept : Ends first (fun result => KeepsMarks kernel result.2) Stop.Unrejected)
    (next : ∀ result, MarksKept va result.2 (rest result)) :
    MarksKept va kernel (first >>= rest) :=
  Ends.bind (kept.mono (fun _ keeps => keeps) fun _ unrejected _ => unrejected)
    fun result keeps => trans keeps (next result)

theorem foldlM {α : Type} {round : Kernel → α → Except Stop Kernel}
    (step : ∀ middle item, MarksKept va middle (round middle item)) (items : List α)
    (start : Kernel) : MarksKept va start (items.foldlM round start) :=
  Ends.foldlM (KeepsMarks start) (fun middle item _ keeps => trans keeps (step middle item)) start
    (.refl start)

end MarksKept

theorem setPagePermissions_keepsMarks (kernel : Kernel) (env va : Nat) {set clear : Perm}
    (unset : set &&& permAvailable = 0#12) (kept : ~~~clear &&& permAvailable = permAvailable) :
    Ends (kernel.setPagePermissions env va set clear) (KeepsMarks kernel) Stop.Unrejected := by
  unfold setPagePermissions Memory.ptSetPagePermissions
  cases kernel.memory.slot (kernel.directory env) va with
  | none => exact .error trivial
  | some slot =>
      refine .ok (.of_memory (.of_setEntry rfl (Memory.setEntry_tables ..) ?_))
      exact PageTableEntry.setPerms_and_available _ unset kept

theorem setPagePermissions_marksKept (kernel : Kernel) (env page va : Nat) {set clear : Perm}
    (unset : set &&& permAvailable = 0#12) (kept : ~~~clear &&& permAvailable = permAvailable) :
    MarksKept va kernel (kernel.setPagePermissions env page set clear) :=
  (setPagePermissions_keepsMarks kernel env page unset kept).mono (fun _ keeps => keeps)
    fun _ unrejected _ => unrejected

theorem pfReadEnvPage_keepsMarks (kernel : Kernel) (env va : Nat) :
    Ends (kernel.pfReadEnvPage env va) (fun result => KeepsMarks kernel result.2)
      Stop.Unrejected := by
  unfold pfReadEnvPage
  dsimp only
  split
  · exact .ok (.refl kernel)
  · split
    · exact .error trivial
    · refine Ends.bind (setPagePermissions_keepsMarks _ env _ (by decide) (by decide))
        fun cleared keeps => ?_
      refine .ok (KeepsMarks.trans ?_ keeps)
      exact .of_memory (.of_tables rfl rfl)

theorem loadPage_marksKept (kernel : Kernel) (env va : Nat) {perm : Perm}
    (outside : perm &&& permAvailable = 0#12) :
    MarksKept va kernel (kernel.loadPage env va perm) := by
  unfold loadPage
  split
  · exact .error trivial
  · rename_i frame memory allocated
    split
    · exact .error trivial
    · rename_i mapped installed
      refine .trans (.of_memory (.trans (.allocateFrame allocated) (.mapFrame outside installed)))
        ?_
      refine .bind_pair (pfReadEnvPage_keepsMarks _ env va) fun (found, read) => ?_
      dsimp only
      split
      · exact .ok (.refl read)
      · rename_i missing
        exact fun heap => absurd (.inr heap) missing

theorem createElement_keepsMarks (kernel : Kernel) (va : Nat) :
    Ends (kernel.createElement va) (fun result => KeepsMarks kernel result.2) Stop.Unrejected := by
  refine (createElement_ends kernel va).mono ?_ fun _ unrejected => unrejected
  intro (element, created) ⟨elements, nextElement, same, _⟩
  subst same
  exact .of_rest rfl rfl rfl ⟨rfl, rfl, rfl, rfl⟩

theorem appendElement_marksKept (kernel : Kernel) (env page va : Nat) :
    MarksKept va kernel (kernel.appendElement env page) :=
  .bind_pair (createElement_keepsMarks kernel page) fun _ => .ok (.of_setEnv rfl)

theorem placement_marksKept (kernel : Kernel) (env va : Nat) :
    MarksKept va kernel (kernel.placement env va) :=
  (loadPage_marksKept kernel env va (by decide)).bind fun loaded =>
    (appendElement_marksKept loaded env va va).bind fun _ => .ok (.of_setEnv rfl)

theorem writeDiskPage_marksKept (kernel : Kernel) (env page va : Nat) :
    MarksKept va kernel (kernel.writeDiskPage env page) := by
  unfold writeDiskPage
  split
  · exact .error trivial
  · refine .ok ⟨.of_setEntry rfl (Memory.setEntry_tables ..) ?_, fun _ => rfl, rfl,
      ⟨rfl, rfl, rfl, rfl⟩⟩
    exact PageTableEntry.setPerms_and_available _ (by decide) (by decide)

theorem pfAddEmptyEnvPage_marksKept (kernel : Kernel) (env page va : Nat) :
    MarksKept va kernel (kernel.pfAddEmptyEnvPage env page) := by
  unfold pfAddEmptyEnvPage
  split
  · exact .error trivial
  · split
    · split
      · exact .error trivial
      · rename_i disk _
        have taken : KeepsMarks kernel { kernel with disk := disk } :=
          .of_rest rfl rfl rfl ⟨rfl, rfl, rfl, rfl⟩
        exact .ok (taken.trans (.of_setEnv rfl))
    · exact .ok (.refl kernel)

theorem pfUpdateEnvPage_marksKept (kernel : Kernel) (env page va : Nat) :
    MarksKept va kernel (kernel.pfUpdateEnvPage env page) := by
  unfold pfUpdateEnvPage
  split
  · exact .error trivial
  · split
    · split
      · exact (pfAddEmptyEnvPage_marksKept kernel env page va).bind fun added =>
          writeDiskPage_marksKept added env page va
      · exact .error trivial
    · exact writeDiskPage_marksKept kernel env page va

theorem evict_marksKept (kernel : Kernel) (env victim va : Nat) :
    MarksKept va kernel (kernel.evict env victim) := by
  have written : MarksKept va kernel (kernel.writeBack env victim) := by
    unfold writeBack
    dsimp only
    split
    · exact pfUpdateEnvPage_marksKept kernel env _ va
    · exact .ok (.refl kernel)
  exact written.bind fun _ => .ok (.of_memory (.unmapFrame ..))

theorem removeRotated_marksKept (kernel : Kernel) (env victim va : Nat) :
    MarksKept va kernel (kernel.removeRotated env victim) := by
  unfold removeRotated
  refine Ends.bind (rotateTo_mem victim _ (kernel.envs env).pageWsList |>.mono (fun _ _ => trivial)
    fun _ unrejected _ => unrejected) fun list _ => ?_
  exact .ok (.of_setEnv rfl)

theorem touchHand_marksKept (kernel : Kernel) (env va : Nat) :
    MarksKept va kernel (kernel.touchHand env) := by
  unfold touchHand
  split
  · exact .error trivial
  · exact setPagePermissions_marksKept kernel env _ va (by decide) (by decide)

theorem lruReplacement_marksKept (kernel : Kernel) (env va : Nat) :
    MarksKept va kernel (kernel.lruReplacement env va) := by
  unfold lruReplacement
  split
  · exact .error trivial
  · rename_i victim _
    refine (evict_marksKept kernel env victim va).bind fun evicted => ?_
    dsimp only
    refine .trans ?_ ((loadPage_marksKept _ env va (by decide)).bind fun loaded =>
      appendElement_marksKept loaded env va va)
    exact .of_setEnv rfl

theorem initializeActive_marksKept (kernel : Kernel) (env va : Nat) :
    MarksKept va kernel (kernel.initializeActive env) := by
  unfold initializeActive
  split
  · exact .ok (.refl kernel)
  · refine .trans ?_ (.foldlM (fun copied element => ?_) _ _)
    · exact .of_rest rfl rfl rfl ⟨rfl, rfl, rfl, rfl⟩
    · exact .bind_pair (createElement_keepsMarks copied _) fun _ =>
        .ok (.of_rest rfl rfl rfl ⟨rfl, rfl, rfl, rfl⟩)

theorem makePresent_marksKept (kernel : Kernel) (env page va : Nat) :
    MarksKept va kernel (kernel.makePresent env page) := by
  unfold makePresent
  dsimp only
  split
  · exact .ok (.refl kernel)
  · split
    · exact setPagePermissions_marksKept kernel env _ va (by decide) (by decide)
    · split
      · exact .error trivial
      · rename_i frame memory allocated
        split
        · exact .error trivial
        · rename_i mapped installed
          refine .trans (.of_memory (.trans (.allocateFrame allocated)
            (.mapFrame (by decide) installed))) ?_
          exact .bind_pair (pfReadEnvPage_keepsMarks _ env page) fun (_, read) => .ok (.refl read)

theorem clearActive_marksKept (kernel : Kernel) (env va : Nat) :
    MarksKept va kernel (kernel.clearActive env) := by
  unfold clearActive
  refine (MarksKept.foldlM (fun cleared element => ?_) _ kernel).bind fun _ =>
    .ok (.of_rest rfl rfl rfl ⟨rfl, rfl, rfl, rfl⟩)
  exact setPagePermissions_marksKept cleared env _ va (by decide) (by decide)

theorem optimalReplacement_marksKept (kernel : Kernel) (env page va : Nat) :
    MarksKept va kernel (kernel.optimalReplacement env page) := by
  unfold optimalReplacement
  refine (initializeActive_marksKept kernel env va).bind fun copied => ?_
  refine (makePresent_marksKept copied env page va).bind fun made => ?_
  dsimp only
  split
  · exact .ok (.refl made)
  · have entered : ∀ emptied : Kernel, MarksKept va emptied (do
        let created ← emptied.createElement page
        let emptied := { created.2 with
          pageActiveWsList := created.2.pageActiveWsList ++ [created.1] }
        let faultedEnv := emptied.envs env
        let ref : PageRefElement := ⟨roundDown page pageSize⟩
        return emptied.setEnv env { faultedEnv with
          referenceStreamList := faultedEnv.referenceStreamList ++ [ref] }) := by
      intro emptied
      refine .bind_pair (createElement_keepsMarks emptied page) fun created => ?_
      have appended : KeepsMarks created.2 { created.2 with
          pageActiveWsList := created.2.pageActiveWsList ++ [created.1] } :=
        .of_rest rfl rfl rfl ⟨rfl, rfl, rfl, rfl⟩
      exact .ok (appended.trans (.of_setEnv rfl))
    split
    · exact (clearActive_marksKept made env va).bind entered
    · exact entered made

/-- Handling a page keeps the marks. The induction is on the rounds of the handler's recursion. -/
theorem pageFaultHandler_marksKept (env va fuel : Nat) : ∀ kernel : Kernel,
    MarksKept va kernel (kernel.pageFaultHandler env va fuel) := by
  induction fuel with
  | zero => exact fun _ => .error trivial
  | succ fuel ih =>
      intro kernel
      have evicts : ∀ searched victim, MarksKept va searched (do
          let evicted ← searched.evict env victim
          let removed ← evicted.removeRotated env victim
          removed.pageFaultHandler env va fuel) := fun searched victim =>
        (evict_marksKept searched env victim va).bind fun evicted =>
          (removeRotated_marksKept evicted env victim va).bind ih
      unfold pageFaultHandler
      dsimp only
      split
      · exact optimalReplacement_marksKept kernel env va va
      · split
        · exact placement_marksKept kernel env va
        · split
          · split
            · exact touchHand_marksKept kernel env va
            · refine .bind_pair ((clockVictim_searched env _ kernel).mono
                (fun _ searched => searched.keepsMarks) fun _ unrejected => unrejected) ?_
              exact fun (victim, searched) => evicts searched victim
          · exact lruReplacement_marksKept kernel env va
          · split
            · exact touchHand_marksKept kernel env va
            · refine .bind_pair ((modifiedClockVictim_searched env _ kernel).mono
                (fun _ searched => searched.keepsMarks) fun _ unrejected => unrejected) ?_
              intro (victim, searched)
              refine .trans ?_ (evicts _ victim)
              exact .of_setEnv rfl
          · exact .ok (.refl kernel)

theorem updateWsTimeStamps_marksKept (kernel : Kernel) (env va : Nat) :
    MarksKept va kernel (kernel.updateWsTimeStamps env) := by
  refine .foldlM (fun stamped element => ?_) _ kernel
  dsimp only
  split
  · refine .trans ?_ (setPagePermissions_marksKept _ env _ va (by decide) (by decide))
    exact .of_rest rfl rfl rfl ⟨rfl, rfl, rfl, rfl⟩
  · exact .ok (.of_rest rfl rfl rfl ⟨rfl, rfl, rfl, rfl⟩)

theorem stampLru_marksKept (kernel : Kernel) (env va : Nat) :
    MarksKept va kernel (kernel.stampLru env) := by
  unfold stampLru
  split
  · exact updateWsTimeStamps_marksKept kernel env va
  · exact .ok (.refl kernel)

theorem pfRemoveEnvPage_keepsMarks (kernel : Kernel) (env va : Nat) :
    KeepsMarks kernel (kernel.pfRemoveEnvPage env va) := by
  unfold pfRemoveEnvPage
  split
  · exact .refl kernel
  · split
    · exact .refl kernel
    · rename_i table _
      have freed : KeepsMarks kernel
          { kernel with disk := kernel.disk.freeDiskFrame (table (ptx va)) } :=
        .of_rest rfl rfl rfl ⟨rfl, rfl, rfl, rfl⟩
      exact freed.trans (.of_setEnv rfl)

theorem envPageWsInvalidate_keepsMarks (kernel : Kernel) (env va : Nat) :
    KeepsMarks kernel (kernel.envPageWsInvalidate env va) := by
  unfold envPageWsInvalidate
  dsimp only
  split
  · exact .refl kernel
  · exact .trans (.of_memory (.unmapFrame ..)) (.of_setEnv rfl)

theorem dropUserPage_marksKept (kernel : Kernel) (env curr va : Nat) :
    MarksKept va kernel (kernel.dropUserPage env curr) := by
  have invalidated : ∀ kept : Kernel, KeepsMarks kept
      (if kept.pageRepAlgoType = .lruListsApprox then kept
      else kept.envPageWsInvalidate env curr) := by
    intro kept
    split
    · exact .refl kept
    · exact envPageWsInvalidate_keepsMarks kept env curr
  refine .bind_pair (pfReadEnvPage_keepsMarks kernel env curr) fun (found, read) => ?_
  cases found with
  | false => exact .ok (invalidated read)
  | true => exact .ok ((pfRemoveEnvPage_keepsMarks read env curr).trans (invalidated _))

end Kernel

end FosKernel
