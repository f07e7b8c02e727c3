import FosKernel.Lib.ActiveSet
import FosKernel.Trap.UserAccess

/-!
# Faults under OPTIMAL

What the OPTIMAL branch of `page_fault_handler` does to one environment. Its present
and resident pages, the active working set and the reference stream are an active set
that the page of the fault enters.
-/

namespace FosKernel

namespace Perm

/-- Bits that are not available ones meet no mask of available ones. -/
theorem and_eq_zero_of_available {set mask : Perm} (inside : permAvailable &&& mask = mask)
    (outside : set &&& permAvailable = 0#12) : set &&& mask = 0#12 := by
  rw [← inside, ← BitVec.and_assoc, outside, BitVec.zero_and]

end Perm

namespace PageTableEntry

/-- Setting and clearing other bits leaves the available ones alone. -/
theorem setPerms_available (entry : PageTableEntry) {set clear mask : Perm}
    (inside : permAvailable &&& mask = mask) (unset : set &&& permAvailable = 0#12)
    (kept : ~~~clear &&& permAvailable = permAvailable) :
    Perm.has (entry.setPerms set clear).perm mask = Perm.has entry.perm mask := by
  refine entry.setPerms_has (Perm.and_eq_zero_of_available inside unset) ?_
  rw [← inside, ← BitVec.and_assoc, kept]

/-- The entry holds a frame also when its present bit is cleared. -/
def Lasting (entry : PageTableEntry) : Prop :=
  entry.frame ≠ 0 ∨ Perm.has entry.perm permBuffered = true

/-- Resetting the present bit takes the frame from no entry that keeps one. -/
theorem holdsFrame_of_reset {entry : PageTableEntry}
    (lasting : entry.present = true → entry.Lasting) :
    (entry.setPerms 0 permPresent).holdsFrame = true ↔ entry.holdsFrame = true := by
  have reset : Perm.has (entry.setPerms 0 permPresent).perm permPresent = false := by
    rw [setPerms_clear_perm]
    exact Perm.has_clear_of_subset _ (by decide)
  have buffered : Perm.has (entry.setPerms 0 permPresent).perm permBuffered =
      Perm.has entry.perm permBuffered :=
        entry.setPerms_available (by decide) (by decide) (by decide)
  unfold Lasting at lasting
  simp only [holdsFrame, Perm.has_mask_or, setPerms_frame, reset, buffered, Bool.false_or,
    Bool.or_eq_true, bne_iff_ne, ne_eq]
  unfold PageTableEntry.present at lasting
  tauto

end PageTableEntry

namespace Kernel

variable {kernel before after : Kernel} {env va : Nat} {slot : Slot}

/-- What making a page present does to memory: its entry is written, with the frame it had, or with
the first free one. -/
structure Presents (before : Memory) (slot : Slot) (entry : PageTableEntry) (after : Memory) :
    Prop where
  tables : after.tables = Function.update before.tables slot entry
  directories : after.directories = before.directories
  present : entry.present = true
  available : ∀ mask, permAvailable &&& mask = mask →
    Perm.has entry.perm mask = Perm.has (before.tables slot).perm mask
  kept : (before.tables slot).holdsFrame = true →
    entry.frame = (before.tables slot).frame ∧ after.bytes = before.bytes ∧
      after.freeFrameList = before.freeFrameList
  taken : (before.tables slot).holdsFrame = false → ∀ free,
    before.freeFrameList.Represents free →
    ∃ rest, free = entry.frame :: rest ∧ after.freeFrameList.Represents rest

theorem installedEntry_available (kernel : Kernel) (slot : Slot) (frame : Nat) {perm : Perm}
    (outside : perm &&& permAvailable = 0#12) (mask : Perm)
    (inside : permAvailable &&& mask = mask) :
    Perm.has (kernel.installedEntry slot frame perm).perm mask =
      Perm.has (kernel.memory.tables slot).perm mask := by
  have unset : Perm.has perm mask = false := by
    rw [Perm.has, Perm.and_eq_zero_of_available inside outside]
    rfl
  have unset' : Perm.has permPresent mask = false := by
    rw [Perm.has, Perm.and_eq_zero_of_available inside (by decide)]
    rfl
  rw [installedEntry, Perm.has_or, Perm.has_or, Perm.has_and, inside, unset, unset', Bool.or_false,
    Bool.or_false]

/-- A page that is not present becomes present, if there is a frame for it. -/
theorem makePresent_spec (kernel : Kernel) (env va : Nat)
    (located : kernel.memory.slot (kernel.directory env) va = some slot)
    (absent : (kernel.memory.tables slot).present = false) :
    Ends (kernel.makePresent env va)
      (fun after => ∃ memory entry, after = { kernel with memory := memory } ∧
        Presents kernel.memory slot entry memory)
      (fun halt => halt = .outOfMemory ∧ kernel.memory.freeFrameList.first = none ∧
        (kernel.memory.tables slot).holdsFrame = false) := by
  have located' : kernel.memory.slot (kernel.directory env) (roundDown va pageSize) =
      some slot := by
    rw [Memory.slot_roundDown, located]
  unfold makePresent
  dsimp only
  rw [pagePermissions_eq located, ← PageTableEntry.present, absent, if_neg Bool.false_ne_true,
    Memory.getFrameInfo_eq located']
  cases held : (kernel.memory.tables slot).holdsFrame with
  | true =>
      rw [if_pos rfl]
      dsimp only
      rw [setPagePermissions_eq kernel located']
      refine .ok ⟨_, (kernel.memory.tables slot).setPerms permPresent 0, rfl, rfl, rfl,
        ?_, ?_, ?_, ?_⟩
      · rw [PageTableEntry.present, PageTableEntry.setPerms,
          Perm.has_clear_of_disjoint _ (by decide),
          Perm.has_or, show Perm.has permPresent permPresent = true by decide, Bool.or_true]
      · exact fun mask inside => PageTableEntry.setPerms_available _ inside (by decide) (by decide)
      · exact fun _ => ⟨rfl, rfl, rfl⟩
      · rw [held]
        intro unheld
        cases unheld
  | false =>
      rw [if_neg Bool.false_ne_true]
      dsimp only
      cases allocated : kernel.memory.allocateFrame with
      | none =>
          refine .error ⟨rfl, ?_, rfl⟩
          rw [Memory.allocateFrame] at allocated
          split at allocated
          · assumption
          · cases allocated
      | some result =>
          obtain ⟨frame, taken⟩ := result
          have fetch : Fetch kernel env va slot frame taken := ⟨located, absent, allocated⟩
          obtain ⟨-, directories, -⟩ := Memory.allocateFrame_spec allocated
          have represents : ∀ free, kernel.memory.freeFrameList.Represents free →
              ∃ rest, free = frame :: rest ∧ taken.freeFrameList.Represents rest := by
            intro free represents
            obtain ⟨rest, same, represents', -⟩ :=
              Memory.allocateFrame_cases represents allocated
            exact ⟨rest, same, represents'⟩
          have available := kernel.installedEntry_available slot frame
            (show (permUser ||| permPresent ||| permWriteable) &&& permAvailable = 0#12 by decide)
          simp only [fetch.mapFrame_eq]
          by_cases unstored : (kernel.envs env).diskFrame va = 0
          · rw [pfReadEnvPage_of_unstored unstored]
            refine .ok ⟨_, kernel.installedEntry slot frame (permUser ||| permPresent |||
              permWriteable), rfl, fetch.installed_tables _, directories, installedEntry_present ..,
              available, ?_, fun _ => represents⟩
            rw [held]
            intro unheld
            cases unheld
          · rw [fetch.pfReadEnvPage_of_stored _ unstored]
            refine .ok ⟨_, (kernel.installedEntry slot frame (permUser ||| permPresent |||
              permWriteable)).setPerms 0 permModified, rfl, fetch.filled_tables _,
                directories, ?_, ?_,
              ?_, fun _ => represents⟩
            · rw [PageTableEntry.present, PageTableEntry.setPerms_has _ (by decide) (by decide)]
              exact installedEntry_present ..
            · intro mask inside
              rw [PageTableEntry.setPerms_available _ inside (by decide) (by decide)]
              exact available mask inside
            · rw [held]
              intro unheld
              cases unheld

/-- New elements were created, and the active working set changed. -/
structure Grown (before after : Kernel) : Prop where
  shape : ∃ elements next list, after =
    { before with elements := elements, nextElement := next, pageActiveWsList := list }
  kept : ∀ element < before.nextElement, after.elements element = before.elements element
  more : before.nextElement ≤ after.nextElement

/-- The pages of the active working set. -/
def activeVas (kernel : Kernel) : List Nat := kernel.pageActiveWsList.map kernel.elementVa

/-- The elements of the active working set are allocated. -/
def ActiveCreated (kernel : Kernel) : Prop :=
  ∀ element ∈ kernel.pageActiveWsList, element < kernel.nextElement

namespace Grown

theorem refl (kernel : Kernel) : Grown kernel kernel :=
    ⟨⟨_, _, _, rfl⟩, fun _ _ => rfl, Nat.le_refl _⟩

theorem trans {middle : Kernel} (first : Grown before middle) (second : Grown middle after) :
    Grown before after where
  shape := by
    obtain ⟨elements, next, list, rfl⟩ := first.shape
    obtain ⟨elements', next', list', rfl⟩ := second.shape
    exact ⟨elements', next', list', rfl⟩
  kept element created :=
    (second.kept element (Nat.lt_of_lt_of_le created first.more)).trans (first.kept element created)
  more := Nat.le_trans first.more second.more

end Grown

/-- Append an element for a page to the active working set. -/
def appendActive (kernel : Kernel) (va : Nat) : Except Stop Kernel := do
  let (element, kernel) ← kernel.createElement va
  return { kernel with pageActiveWsList := kernel.pageActiveWsList ++ [element] }

theorem appendActive_spec (kernel : Kernel) (va : Nat) (user : va < userTop)
    (created : kernel.ActiveCreated) :
    Ends (kernel.appendActive va)
      (fun after => Grown kernel after ∧ after.ActiveCreated ∧
        after.activeVas = kernel.activeVas ++ [roundDown va pageSize])
      fun _ => False := by
  unfold appendActive createElement
  rw [if_pos user]
  refine .ok ⟨⟨⟨_, _, _, rfl⟩, fun element old =>
    Function.update_of_ne (Nat.ne_of_lt old) ..,
    Nat.le_succ _⟩, fun element member => ?_, ?_⟩
  · rcases List.mem_append.mp member with old | new
    · exact Nat.lt_succ_of_lt (created element old)
    · rw [List.mem_singleton.mp new]
      exact Nat.lt_succ_self _
  · change List.map _ (kernel.pageActiveWsList ++ [kernel.nextElement]) = _
    rw [List.map_append, List.map_singleton]
    congr 1
    · refine List.map_congr_left fun element member => ?_
      exact congrArg WorkingSetElement.virtualAddress
        (Function.update_of_ne (Nat.ne_of_lt (created element member)) ..)
    · have new : Function.update kernel.elements kernel.nextElement ⟨roundDown va pageSize, 0⟩
          kernel.nextElement = ⟨roundDown va pageSize, 0⟩ := Function.update_self ..
      exact congrArg (fun element : WorkingSetElement => [element.virtualAddress]) new

/-- Copying elements into the active working set. -/
theorem copyActive_spec (list : List Nat) : ∀ kernel : Kernel,
    (∀ element ∈ list, element < kernel.nextElement ∧
      IsUserPage (kernel.elementVa element)) →
    kernel.ActiveCreated →
    Ends (list.foldlM (fun kernel element => kernel.appendActive (kernel.elementVa element)) kernel)
      (fun after => Grown kernel after ∧ after.ActiveCreated ∧
        after.activeVas = kernel.activeVas ++ list.map kernel.elementVa)
      fun _ => False := by
  induction list with
  | nil =>
      intro kernel _ created
      exact .ok ⟨.refl kernel, created, by rw [List.map_nil, List.append_nil]⟩
  | cons head rest ih =>
      intro kernel known created
      obtain ⟨_, user⟩ := known head (List.mem_cons_self ..)
      rw [List.foldlM_cons]
      apply (kernel.appendActive_spec _ user.2 created).bind
      intro first ⟨grown, created', vas⟩
      have same : ∀ element ∈ rest, first.elementVa element = kernel.elementVa element :=
        fun element member => congrArg WorkingSetElement.virtualAddress
          (grown.kept element (known element (List.mem_cons_of_mem _ member)).1)
      have known' : ∀ element ∈ rest,
          element < first.nextElement ∧ IsUserPage (first.elementVa element) := by
        intro element member
        obtain ⟨old, user⟩ := known element (List.mem_cons_of_mem _ member)
        rw [same element member]
        exact ⟨Nat.lt_of_lt_of_le old grown.more, user⟩
      apply (ih first known' created').mono _ fun _ never => never
      intro after ⟨grown', created'', vas'⟩
      refine ⟨grown.trans grown', created'', ?_⟩
      rw [vas', vas, user.roundDown_eq, List.map_congr_left same, List.map_cons, List.append_assoc,
        List.singleton_append]

/-- The active working set that the next fault of an environment works on: that of the kernel, or at
the first fault under OPTIMAL the environment's own. -/
def effectiveVas (kernel : Kernel) (env : Nat) : List Nat :=
  if kernel.optimalInitialized then kernel.activeVas
  else (kernel.envs env).pageWsList.map kernel.elementVa

theorem initializeActive_spec (kernel : Kernel) (env : Nat) (created : kernel.ActiveCreated)
    (known : ∀ element ∈ (kernel.envs env).pageWsList,
      element < kernel.nextElement ∧ IsUserPage (kernel.elementVa element)) :
    Ends (kernel.initializeActive env)
      (fun after => Grown { kernel with optimalInitialized := true } after ∧
        after.ActiveCreated ∧
        after.activeVas = kernel.effectiveVas env)
      fun _ => False := by
  unfold initializeActive effectiveVas
  cases initialized : kernel.optimalInitialized with
  | true =>
      rw [if_pos rfl, if_pos rfl]
      have same : { kernel with optimalInitialized := true } = kernel := by
        rw [← initialized]
      rw [same]
      exact .ok ⟨.refl kernel, created, rfl⟩
  | false =>
      rw [if_neg Bool.false_ne_true, if_neg Bool.false_ne_true]
      have copied := copyActive_spec (kernel.envs env).pageWsList
        { kernel with optimalInitialized := true, pageActiveWsList := [] } known nofun
      apply copied.mono _ fun _ never => never
      intro after ⟨grown, created', vas⟩
      refine ⟨⟨?_, grown.kept, grown.more⟩, created', vas⟩
      obtain ⟨elements, next, list, same⟩ := grown.shape
      exact ⟨elements, next, list, same⟩

/-- Clearing the present bits of listed pages, which stops at a page without a page table. -/
theorem clearPresent_spec (env : Nat) (list : List Nat) : ∀ kernel : Kernel,
    Ends (list.foldlM (fun kernel element =>
        kernel.setPagePermissions env (kernel.elementVa element) 0 permPresent) kernel)
      (fun after => ∃ tables, after =
        { kernel with memory := { kernel.memory with tables := tables } } ∧
        (∀ slot, (∃ element ∈ list,
            kernel.memory.slot (kernel.directory env) (kernel.elementVa element) = some slot) →
          tables slot = (kernel.memory.tables slot).setPerms 0 permPresent) ∧
        ∀ slot, (∀ element ∈ list,
            kernel.memory.slot (kernel.directory env) (kernel.elementVa element) ≠ some slot) →
          tables slot = kernel.memory.tables slot)
      fun _ => ∃ element ∈ list,
        kernel.memory.slot (kernel.directory env) (kernel.elementVa element) = none := by
  induction list with
  | nil => exact fun kernel => .ok ⟨_, rfl, nofun, fun _ _ => rfl⟩
  | cons head rest ih =>
      intro kernel
      rw [List.foldlM_cons]
      cases held : kernel.memory.slot (kernel.directory env) (kernel.elementVa head) with
      | none =>
          rw [setPagePermissions_of_missing kernel held]
          exact .error ⟨head, List.mem_cons_self .., held⟩
      | some place =>
          rw [setPagePermissions_eq kernel held]
          apply (ih
            { kernel with
              memory := kernel.memory.setEntry place
                ((kernel.memory.tables place).setPerms 0 permPresent) }).mono
          · rintro after ⟨tables, rfl, cleared, kept⟩
            have first : ∀ slot, (kernel.memory.setEntry place
                ((kernel.memory.tables place).setPerms 0 permPresent)).tables slot =
                  if slot = place then (kernel.memory.tables slot).setPerms 0 permPresent
                  else kernel.memory.tables slot := by
              intro slot
              split
              · rename_i here
                rw [here]
                exact Function.update_self ..
              · rename_i elsewhere
                exact Function.update_of_ne elsewhere ..
            refine ⟨tables, rfl, fun slot listed => ?_, fun slot apart => ?_⟩
            · by_cases later : ∃ element ∈ rest,
                  kernel.memory.slot (kernel.directory env) (kernel.elementVa element) = some slot
              · rw [cleared slot later, first]
                split
                · exact PageTableEntry.setPerms_clear_clear ..
                · rfl
              · have here : slot = place := by
                  obtain ⟨element, member, same⟩ := listed
                  rcases List.mem_cons.mp member with rfl | inside
                  · exact Option.some.inj (same.symm.trans held)
                  · exact absurd ⟨element, inside, same⟩ later
                rw [kept slot fun element member same => later ⟨element, member, same⟩, first,
                  if_pos here]
            · have elsewhere : slot ≠ place := fun here =>
                apart head (List.mem_cons_self ..) (by rw [here, held])
              rw [kept slot fun element member =>
                apart element (List.mem_cons_of_mem _ member), first,
                if_neg elsewhere]
          · rintro halt ⟨element, member, missing⟩
            exact ⟨element, List.mem_cons_of_mem _ member, missing⟩

/-- Emptying the active working set. -/
theorem clearActive_spec (kernel : Kernel) (env : Nat) :
    Ends (kernel.clearActive env)
      (fun after => ∃ tables, after =
          { kernel with
            memory := { kernel.memory with tables := tables }
            pageActiveWsList := [] } ∧
        (∀ slot, (∃ active ∈ kernel.activeVas,
            kernel.memory.slot (kernel.directory env) active = some slot) →
          tables slot = (kernel.memory.tables slot).setPerms 0 permPresent) ∧
        ∀ slot, (¬ ∃ active ∈ kernel.activeVas,
            kernel.memory.slot (kernel.directory env) active = some slot) →
          tables slot = kernel.memory.tables slot)
      fun _ => ∃ active ∈ kernel.activeVas,
        kernel.memory.slot (kernel.directory env) active = none := by
  unfold clearActive
  apply ((clearPresent_spec env kernel.pageActiveWsList kernel).mono (fun _ holds => holds)
    fun halt ⟨element, member, missing⟩ => ⟨_, List.mem_map_of_mem member, missing⟩).bind
  rintro after ⟨tables, rfl, cleared, kept⟩
  refine .ok ⟨tables, rfl, fun slot listed => ?_, fun slot apart => ?_⟩
  · obtain ⟨active, member, held⟩ := listed
    obtain ⟨element, inside, rfl⟩ := List.mem_map.mp member
    exact cleared slot ⟨element, inside, held⟩
  · exact kept slot fun element inside held => apart ⟨_, List.mem_map_of_mem inside, held⟩

/-- The entries whose present bit the fault of a page resets: those of a full active working set
that does not list the page. -/
def Resets (kernel : Kernel) (env va : Nat) (slot : Slot) : Prop :=
  roundDown va pageSize ∉ kernel.effectiveVas env ∧
    (kernel.effectiveVas env).length = (kernel.envs env).pageWsMaxSize ∧
    ∃ active ∈ kernel.effectiveVas env,
      kernel.memory.slot (kernel.directory env) active = some slot

/-- What a fault under OPTIMAL makes of the kernel, when it writes an entry and memory with it. -/
structure Entered (kernel : Kernel) (env va : Nat) (slot : Slot) (entry : PageTableEntry)
    (memory : Memory) (after : Kernel) : Prop where
  shape : ∃ elements next list tables stream, after =
    { kernel with
      memory := { memory with tables := tables }
      elements := elements
      nextElement := next
      pageActiveWsList := list
      optimalInitialized := true
      envs := Function.update kernel.envs env
        { kernel.envs env with referenceStreamList := stream } }
  presents : Presents kernel.memory slot entry memory
  kept : ∀ element < kernel.nextElement, after.elements element = kernel.elements element
  more : kernel.nextElement ≤ after.nextElement
  created : after.ActiveCreated
  active : after.activeVas =
    if roundDown va pageSize ∈ kernel.effectiveVas env then kernel.effectiveVas env
    else if (kernel.effectiveVas env).length = (kernel.envs env).pageWsMaxSize then
      [roundDown va pageSize]
    else kernel.effectiveVas env ++ [roundDown va pageSize]
  stream : (after.envs env).referenceStreamList = (kernel.envs env).referenceStreamList ++
    if roundDown va pageSize ∈ kernel.effectiveVas env then [] else [⟨roundDown va pageSize⟩]
  reset : ∀ other, kernel.Resets env va other →
    after.memory.tables other = (memory.tables other).setPerms 0 permPresent
  rest : ∀ other, ¬ kernel.Resets env va other →
    after.memory.tables other = memory.tables other

/-- The end of the OPTIMAL branch for a page that is not active. -/
theorem enterActive_spec (kernel : Kernel) (env va : Nat) (user : va < userTop)
    (created : kernel.ActiveCreated) :
    Ends (do
        let (element, kernel) ← kernel.createElement va
        let kernel := { kernel with pageActiveWsList := kernel.pageActiveWsList ++ [element] }
        let faultedEnv := kernel.envs env
        let ref : PageRefElement := ⟨roundDown va pageSize⟩
        return kernel.setEnv env
          { faultedEnv with referenceStreamList := faultedEnv.referenceStreamList ++ [ref] })
      (fun after => ∃ grown, Grown kernel grown ∧ grown.ActiveCreated ∧
        grown.activeVas = kernel.activeVas ++ [roundDown va pageSize] ∧
        after = grown.setEnv env
          { kernel.envs env with
            referenceStreamList :=
              (kernel.envs env).referenceStreamList ++ [⟨roundDown va pageSize⟩] })
      fun _ => False := by
  have appended := kernel.appendActive_spec va user created
  unfold appendActive at appended
  cases returned : kernel.createElement va with
  | error halt =>
      rw [returned] at appended
      exact appended
  | ok result =>
      obtain ⟨element, next⟩ := result
      rw [returned] at appended
      obtain ⟨grown, created', vas⟩ := appended
      refine .ok ⟨_, grown, created', vas, ?_⟩
      obtain ⟨elements, nextElement, list, same⟩ := grown.shape
      have envs := congrArg Kernel.envs same
      change Kernel.setEnv _ env { next.envs env with
        referenceStreamList := (next.envs env).referenceStreamList ++ _ } = _
      rw [show next.envs = kernel.envs from envs]

theorem isPageInWs_iff (kernel : Kernel) (pageVa : Nat) :
    kernel.isPageInWs kernel.pageActiveWsList pageVa = true ↔ pageVa ∈ kernel.activeVas := by
  simp only [isPageInWs, activeVas, List.any_eq_true, decide_eq_true_eq, List.mem_map]

/-- How the OPTIMAL branch stops: without a free frame for the page, or at an active page without a
page table. -/
def OptimalHalts (kernel : Kernel) (env : Nat) (slot : Slot) (halt : Stop) : Prop :=
  (halt = .outOfMemory ∧ kernel.memory.freeFrameList.first = none ∧
      (kernel.memory.tables slot).holdsFrame = false) ∨
    ∃ active ∈ kernel.effectiveVas env,
      kernel.memory.slot (kernel.directory env) active = none

/-- The OPTIMAL branch. -/
theorem optimalReplacement_spec (kernel : Kernel) (env va : Nat) (user : va < userTop)
    (created : kernel.ActiveCreated)
    (known : ∀ element ∈ (kernel.envs env).pageWsList,
      element < kernel.nextElement ∧ IsUserPage (kernel.elementVa element))
    (located : kernel.memory.slot (kernel.directory env) va = some slot)
    (absent : (kernel.memory.tables slot).present = false) :
    Ends (kernel.optimalReplacement env va)
      (fun after => ∃ entry memory, Entered kernel env va slot entry memory after)
      (kernel.OptimalHalts env slot) := by
  unfold optimalReplacement
  apply ((kernel.initializeActive_spec env created known).mono (fun _ holds => holds)
    fun _ never => never.elim).bind
  intro copied ⟨grown, created', vas⟩
  obtain ⟨elements, next, list, same⟩ := grown.shape
  have memoryEq : copied.memory = kernel.memory := by rw [same]
  have envsEq : copied.envs = kernel.envs := by rw [same]
  have directoryEq : copied.directory env = kernel.directory env := by rw [same]; rfl
  have absent' : (copied.memory.tables slot).present = false := by rw [memoryEq, absent]
  apply ((copied.makePresent_spec env va (by rw [memoryEq, directoryEq, located]) absent').mono
    (fun _ holds => holds) fun halt stopped => .inl (memoryEq ▸ stopped)).bind
  rintro made ⟨memory, entry, rfl, presents⟩
  rw [memoryEq] at presents
  have directories := presents.directories
  dsimp only
  have active : ({ copied with memory := memory } : Kernel).activeVas =
    kernel.effectiveVas env := vas
  by_cases hit : roundDown va pageSize ∈ kernel.effectiveVas env
  · rw [if_pos ((isPageInWs_iff _ _).mpr (active ▸ hit))]
    refine .ok ⟨entry, memory, ⟨elements, next, list, memory.tables,
      (kernel.envs env).referenceStreamList, ?_⟩, presents, grown.kept, grown.more,
        created', ?_, ?_, ?_,
      fun _ _ => rfl⟩
    · rw [same, Function.update_eq_self]
    · rw [active, if_pos hit]
    · rw [if_pos hit, List.append_nil]
      exact congrArg (fun envs : Nat → Env => (envs env).referenceStreamList) envsEq
    · exact fun other resets => absurd hit resets.1
  · rw [if_neg fun listed => hit (active ▸ (isPageInWs_iff _ _).mp listed)]
    have entered : ∀ cleared : Kernel, ∀ tables, cleared = { copied with
        memory := { memory with tables := tables }
        pageActiveWsList := cleared.pageActiveWsList } →
      cleared.ActiveCreated →
      (cleared.activeVas = if (kernel.effectiveVas env).length =
        (kernel.envs env).pageWsMaxSize then []
        else kernel.effectiveVas env) →
      (∀ other, kernel.Resets env va other →
        tables other = (memory.tables other).setPerms 0 permPresent) →
      (∀ other, ¬ kernel.Resets env va other → tables other = memory.tables other) →
      Ends (do
          let (element, kernel) ← cleared.createElement va
          let kernel := { kernel with pageActiveWsList := kernel.pageActiveWsList ++ [element] }
          let faultedEnv := kernel.envs env
          let ref : PageRefElement := ⟨roundDown va pageSize⟩
          return kernel.setEnv env
            { faultedEnv with referenceStreamList := faultedEnv.referenceStreamList ++ [ref] })
        (fun after => ∃ entry memory, Entered kernel env va slot entry memory after)
        (kernel.OptimalHalts env slot) := by
      intro cleared tables shape created' active reset rest
      apply (cleared.enterActive_spec env va user created').mono _ fun _ never => never.elim
      rintro after ⟨grown', more, created'', vas', rfl⟩
      have envsEq' : cleared.envs = kernel.envs := by rw [shape, ← envsEq]
      obtain ⟨elements', next', list', same'⟩ := more.shape
      have nextEq : cleared.nextElement = copied.nextElement := by rw [shape]
      have elementsEq : cleared.elements = copied.elements := by rw [shape]
      refine ⟨entry, memory, ⟨elements', next', list', tables,
        (kernel.envs env).referenceStreamList ++ [⟨roundDown va pageSize⟩], ?_⟩, presents,
        fun element old => ?_, ?_, created'', ?_, ?_, fun other resets => ?_,
          fun other kept => ?_⟩
      · rw [same', shape, same]
        rfl
      · rw [← grown.kept element old, ← elementsEq]
        exact more.kept element (nextEq ▸ Nat.lt_of_lt_of_le old grown.more)
      · exact Nat.le_trans grown.more (nextEq ▸ more.more)
      · rw [if_neg hit]
        refine (show _ = grown'.activeVas from rfl).trans (vas'.trans ?_)
        rw [active]
        split <;> rfl
      · rw [if_neg hit, setEnv_self, envsEq']
      · rw [← reset other resets, setEnv_memory, same', shape]
      · rw [← rest other kept, setEnv_memory, same', shape]
    change Ends (if copied.pageActiveWsList.length = (copied.envs env).pageWsMaxSize then _ else _)
      _ _
    have length : copied.pageActiveWsList.length = (kernel.effectiveVas env).length := by
      rw [← vas, activeVas, List.length_map]
    have size : (copied.envs env).pageWsMaxSize = (kernel.envs env).pageWsMaxSize := by rw [envsEq]
    rw [length, size]
    split
    · rename_i full
      have slots : ∀ page, ({ copied with memory := memory } : Kernel).memory.slot
          (({ copied with memory := memory } : Kernel).directory env) page =
            kernel.memory.slot (kernel.directory env) page := by
        intro page
        rw [← directoryEq]
        exact Memory.slot_congr directories ..
      have cleared := clearActive_spec { copied with memory := memory } env
      rw [active] at cleared
      simp only [slots] at cleared
      apply (cleared.mono (fun _ holds => holds) fun _ missing => .inr missing).bind
      rintro emptied ⟨tables, rfl, reset, rest⟩
      refine entered _ tables rfl nofun (if_pos full).symm (fun other resets => ?_)
        fun other kept => ?_
      · exact reset other resets.2.2
      · exact rest other fun listed => kept ⟨hit, full, listed⟩
    · rename_i room
      refine entered { copied with memory := memory } memory.tables rfl created' ?_ ?_
        fun _ _ => rfl
      · rw [active, if_neg room]
      · exact fun other resets => absurd resets.2.1 room

/-- What OPTIMAL relies on: the active pages are user pages with page tables, a page that is present
keeps a frame when its present bit is reset, and frame 0 is not free. -/
structure Optimal (kernel : Kernel) (env : Nat) : Prop where
  orderly : kernel.Orderly
  algorithm : kernel.pageRepAlgoType = .optimal
  created : kernel.ActiveCreated
  known : ∀ element ∈ (kernel.envs env).pageWsList,
    element < kernel.nextElement ∧ IsUserPage (kernel.elementVa element)
  located : ∀ active ∈ kernel.effectiveVas env,
    (kernel.memory.slot (kernel.directory env) active).isSome = true
  lasting : ∀ page : UserPage, kernel.pagePresent env page = true →
    (kernel.pageEntry env page).Lasting
  reserved : ∃ free, kernel.memory.freeFrameList.Represents free ∧ 0 ∉ free

/-- The pages, the active working set and the reference stream of an environment as an active
set. -/
structure Views (kernel : Kernel) (env : Nat) (state : ActiveSet UserPage) : Prop where
  active : kernel.effectiveVas env = state.active.map Subtype.val
  present : ∀ page : UserPage, kernel.pagePresent env page = true ↔ page ∈ state.present
  resident : ∀ page : UserPage,
    (kernel.pageEntry env page).holdsFrame = true ↔ page ∈ state.resident
  stream : (kernel.envs env).referenceStreamList.map PageRefElement.virtualAddress =
    state.stream.map Subtype.val

/-- The pages whose present bit a fault resets. -/
def Drops (kernel : Kernel) (env va page : Nat) : Prop :=
  roundDown va pageSize ∉ kernel.effectiveVas env ∧
    (kernel.effectiveVas env).length = (kernel.envs env).pageWsMaxSize ∧
    page ∈ kernel.effectiveVas env

theorem Optimal.effective_user (optimal : Optimal kernel env) {page : Nat}
    (active : page ∈ kernel.effectiveVas env) : IsUserPage page := by
  unfold effectiveVas at active
  split at active
  · obtain ⟨element, member, rfl⟩ := List.mem_map.mp active
    exact optimal.orderly.activePages element member
  · obtain ⟨element, member, rfl⟩ := List.mem_map.mp active
    exact (optimal.known element member).2

theorem Views.mem_active {state : ActiveSet UserPage} (views : Views kernel env state)
    (page : UserPage) : page.1 ∈ kernel.effectiveVas env ↔ page ∈ state.active := by
  rw [views.active]
  exact List.mem_map_of_injective Subtype.val_injective

namespace Entered

variable {entry : PageTableEntry} {memory : Memory}
  (entered : Entered kernel env va slot entry memory after)

include entered

theorem directories : after.memory.directories = kernel.memory.directories := by
  obtain ⟨_, _, _, _, _, same⟩ := entered.shape
  rw [same]
  exact entered.presents.directories

theorem freeFrameList : after.memory.freeFrameList = memory.freeFrameList := by
  obtain ⟨_, _, _, _, _, same⟩ := entered.shape
  rw [same]

theorem env_eq : ∃ stream, after.envs env =
    { kernel.envs env with referenceStreamList := stream } := by
  obtain ⟨_, _, _, _, stream, same⟩ := entered.shape
  rw [same]
  exact ⟨stream, Function.update_self ..⟩

theorem envs_of_ne {other : Nat} (different : other ≠ env) :
    after.envs other = kernel.envs other := by
  obtain ⟨_, _, _, _, _, same⟩ := entered.shape
  rw [same]
  exact Function.update_of_ne different ..

theorem directory_eq (other : Nat) : after.directory other = kernel.directory other := by
  unfold directory
  by_cases same : other = env
  · obtain ⟨stream, envEq⟩ := entered.env_eq
    rw [same, envEq]
  · rw [entered.envs_of_ne same]

theorem slot_eq (other page : Nat) : after.memory.slot (after.directory other) page =
    kernel.memory.slot (kernel.directory other) page := by
  rw [entered.directory_eq, Memory.slot_congr entered.directories]

/-- The entry of a page after the fault. -/
theorem pageEntry (optimal : Optimal kernel env) (user : va < userTop)
    (located : kernel.memory.slot (kernel.directory env) va = some slot) (page : UserPage) :
    (kernel.Drops env va page → after.pageEntry env page =
      (kernel.pageEntry env page).setPerms 0 permPresent) ∧
    (¬ kernel.Drops env va page → after.pageEntry env page =
      if page.1 = roundDown va pageSize then entry else kernel.pageEntry env page) := by
  have separate := optimal.orderly.separateTables env
  have bound : va < 2 ^ 32 := by
    unfold userTop at user
    omega
  have round := page.2.roundDown_eq
  have base : ∀ place, kernel.memory.slot (kernel.directory env) page = some place →
      memory.tables place =
        if page.1 = roundDown va pageSize then entry else kernel.pageEntry env page := by
    intro place held
    rw [entered.presents.tables, pageEntry_eq held]
    by_cases here : place = slot
    · subst here
      have same := vpn_eq_iff.mp (separate.page_unique held located (page.2.lt) bound)
      rw [round] at same
      rw [Function.update_self, if_pos same]
    · have different : page.1 ≠ roundDown va pageSize := by
        intro same
        rw [same, Memory.slot_roundDown, located] at held
        exact here (Option.some.inj held).symm
      rw [Function.update_of_ne here, if_neg different]
  have resets : ∀ place, kernel.memory.slot (kernel.directory env) page = some place →
      (kernel.Resets env va place ↔ kernel.Drops env va page) := by
    intro place held
    refine and_congr_right fun _ => and_congr_right fun _ =>
      ⟨?_, fun active => ⟨page, active, held⟩⟩
    rintro ⟨active, listed, same⟩
    have activeUser := optimal.effective_user listed
    have equal := vpn_eq_iff.mp (separate.page_unique same held activeUser.lt page.2.lt)
    rw [activeUser.roundDown_eq, round] at equal
    rwa [← equal]
  cases held : kernel.memory.slot (kernel.directory env) page with
  | none =>
      refine ⟨fun drops => ?_, fun _ => ?_⟩
      · have exists_table := optimal.located page drops.2.2
        rw [held] at exists_table
        cases exists_table
      · have different : page.1 ≠ roundDown va pageSize := by
          intro same
          rw [same, Memory.slot_roundDown, located] at held
          cases held
        rw [if_neg different]
        unfold Kernel.pageEntry Memory.entry
        rw [entered.slot_eq, held]
        rfl
  | some place =>
      rw [pageEntry_eq ((entered.slot_eq env page).trans held)]
      refine ⟨fun drops => ?_, fun kept => ?_⟩
      · have different : page.1 ≠ roundDown va pageSize :=
          fun same => drops.1 (same ▸ drops.2.2)
        rw [entered.reset place ((resets place held).mpr drops), base place held, if_neg different]
      · rw [entered.rest place (mt (resets place held).mp kept), base place held]

/-- The active pages after the fault are among those before and the page of the fault. -/
theorem effective_mem {page : Nat} (active : page ∈ after.effectiveVas env) :
    page ∈ kernel.effectiveVas env ∨ page = roundDown va pageSize := by
  have initialized : after.optimalInitialized = true := by
    obtain ⟨_, _, _, _, _, same⟩ := entered.shape
    rw [same]
  rw [effectiveVas, if_pos initialized, entered.active] at active
  split at active
  · exact .inl active
  · split at active
    · exact .inr (List.mem_singleton.mp active)
    · exact (List.mem_append.mp active).imp_right List.mem_singleton.mp

/-- A frame that holds a page keeps it. -/
theorem frame_eq (optimal : Optimal kernel env) (user : va < userTop)
    (located : kernel.memory.slot (kernel.directory env) va = some slot) (page : UserPage)
    (held : (kernel.pageEntry env page).holdsFrame = true) :
    (after.pageEntry env page).frame = (kernel.pageEntry env page).frame := by
  obtain ⟨drops, kept⟩ := entered.pageEntry optimal user located page
  by_cases dropped : kernel.Drops env va page
  · rw [drops dropped, PageTableEntry.setPerms_frame]
  · rw [kept dropped]
    split
    · rename_i same
      rw [same, pageEntry_roundDown, pageEntry_eq located] at held ⊢
      exact (entered.presents.kept held).1
    · rfl

/-- The resident pages and the page of the fault are resident. -/
theorem holdsFrame_iff (optimal : Optimal kernel env) (user : va < userTop)
    (located : kernel.memory.slot (kernel.directory env) va = some slot) (page : UserPage) :
    (after.pageEntry env page).holdsFrame = true ↔
      page.1 = roundDown va pageSize ∨ (kernel.pageEntry env page).holdsFrame = true := by
  obtain ⟨dropped, kept⟩ := entered.pageEntry optimal user located page
  by_cases drop : kernel.Drops env va page
  · have different : page.1 ≠ roundDown va pageSize := fun same => drop.1 (same ▸ drop.2.2)
    rw [dropped drop, or_iff_right different]
    exact PageTableEntry.holdsFrame_of_reset fun present =>
      optimal.lasting page ((pageEntry_present ..).symm.trans present)
  · rw [kept drop]
    split
    · rename_i here
      simp only [here, true_or, iff_true]
      exact PageTableEntry.holdsFrame_of_present entered.presents.present
    · rename_i here
      rw [or_iff_right here]

/-- Available bits stay as they are. -/
theorem available (optimal : Optimal kernel env) (user : va < userTop)
    (located : kernel.memory.slot (kernel.directory env) va = some slot) (page : UserPage)
    {mask : Perm} (inside : permAvailable &&& mask = mask) :
    Perm.has (after.pageEntry env page).perm mask =
        Perm.has (kernel.pageEntry env page).perm mask := by
  obtain ⟨drops, kept⟩ := entered.pageEntry optimal user located page
  by_cases dropped : kernel.Drops env va page
  · rw [drops dropped]
    exact PageTableEntry.setPerms_available _ inside (by decide) (by decide)
  · rw [kept dropped]
    split
    · rename_i same
      rw [same, pageEntry_roundDown, pageEntry_eq located]
      exact entered.presents.available mask inside
    · rfl

/-- The page of the fault keeps a frame when its present bit is reset. -/
theorem entry_lasting (optimal : Optimal kernel env)
    (absent : (kernel.memory.tables slot).present = false) : entry.Lasting := by
  cases held : (kernel.memory.tables slot).holdsFrame with
  | true =>
      unfold PageTableEntry.Lasting
      rw [(entered.presents.kept held).1, entered.presents.available _ (by decide)]
      rw [PageTableEntry.holdsFrame, Perm.has_mask_or, ← PageTableEntry.present, absent,
        Bool.false_or, Bool.or_eq_true, bne_iff_ne] at held
      exact held
  | false =>
      obtain ⟨free, represents, reserved⟩ := optimal.reserved
      obtain ⟨rest, rfl, -⟩ := entered.presents.taken held free represents
      exact .inl fun zero => reserved (by rw [← zero]; exact List.mem_cons_self ..)

/-- OPTIMAL can go on after a fault. -/
theorem optimal (optimal : Optimal kernel env) (user : va < userTop)
    (located : kernel.memory.slot (kernel.directory env) va = some slot)
    (absent : (kernel.memory.tables slot).present = false) : Optimal after env := by
  have initialized : after.optimalInitialized = true := by
    obtain ⟨_, _, _, _, _, same⟩ := entered.shape
    rw [same]
  have algorithm : after.pageRepAlgoType = kernel.pageRepAlgoType := by
    obtain ⟨_, _, _, _, _, same⟩ := entered.shape
    rw [same]
  have nextTable : after.nextTable = kernel.nextTable := by
    obtain ⟨_, _, _, _, _, same⟩ := entered.shape
    rw [same]
  refine ⟨⟨?_, ?_, ?_, ?_⟩, algorithm.trans optimal.algorithm, entered.created,
    ?_, ?_, ?_, ?_⟩
  · intro element member
    have active : after.elementVa element ∈ after.effectiveVas env := by
      rw [effectiveVas, if_pos initialized]
      exact List.mem_map_of_mem member
    rcases entered.effective_mem active with old | new
    · exact optimal.effective_user old
    · rw [new]
      exact roundDown_isUserPage user
  · rw [entered.directories]
    exact optimal.orderly.separate
  · rw [entered.directories, nextTable]
    exact optimal.orderly.fresh
  · rw [algorithm]
    exact optimal.orderly.implemented
  · obtain ⟨stream, envEq⟩ := entered.env_eq
    rw [envEq]
    intro element member
    obtain ⟨old, page⟩ := optimal.known element member
    refine ⟨Nat.lt_of_lt_of_le old entered.more, ?_⟩
    rw [elementVa, entered.kept element old]
    exact page
  · intro active listed
    rw [entered.slot_eq]
    rcases entered.effective_mem listed with old | new
    · exact optimal.located active old
    · rw [new, Memory.slot_roundDown, located, Option.isSome_some]
  · intro page present
    obtain ⟨drops, kept⟩ := entered.pageEntry optimal user located page
    rw [← pageEntry_present] at present
    by_cases dropped : kernel.Drops env va page
    · rw [drops dropped, PageTableEntry.present, PageTableEntry.setPerms_clear_perm,
        Perm.has_clear_of_subset _ (by decide)] at present
      cases present
    · rw [kept dropped] at present ⊢
      split
      · exact entered.entry_lasting optimal absent
      · rename_i different
        rw [if_neg different, pageEntry_present] at present
        exact optimal.lasting page present
  · obtain ⟨free, represents, reserved⟩ := optimal.reserved
    rw [entered.freeFrameList]
    cases held : (kernel.memory.tables slot).holdsFrame with
    | true =>
        rw [(entered.presents.kept held).2.2]
        exact ⟨free, represents, reserved⟩
    | false =>
        obtain ⟨rest, rfl, represents'⟩ := entered.presents.taken held free represents
        exact ⟨rest, represents', fun zero => reserved (List.mem_cons_of_mem _ zero)⟩

/-- The page of the fault enters the active set. -/
theorem views {state : ActiveSet UserPage} (views : Views kernel env state)
    (optimal : Optimal kernel env) (user : va < userTop)
    (located : kernel.memory.slot (kernel.directory env) va = some slot) :
    Views after env (state.enter (kernel.envs env).pageWsMaxSize (.of va user)) := by
  have initialized : after.optimalInitialized = true := by
    obtain ⟨_, _, _, _, _, same⟩ := entered.shape
    rw [same]
  have listed : roundDown va pageSize ∈ kernel.effectiveVas env ↔
      UserPage.of va user ∈ state.active := views.mem_active (.of va user)
  have length : (kernel.effectiveVas env).length = state.active.length := by
    rw [views.active, List.length_map]
  have drops : ∀ page : UserPage, kernel.Drops env va page ↔
    UserPage.of va user ∉ state.active ∧
      state.active.length = (kernel.envs env).pageWsMaxSize ∧ page ∈ state.active := by
    intro page
    rw [Drops, listed, length, views.mem_active]
  have faulted : ∀ page : UserPage, page.1 = roundDown va pageSize ↔
      page = UserPage.of va user :=
    fun page => ⟨fun same => Subtype.ext same, fun same => congrArg Subtype.val same⟩
  have present : entry.present = true := entered.presents.present
  refine ⟨?_, fun page => ?_, fun page => ?_, ?_⟩
  · rw [effectiveVas, if_pos initialized, entered.active, ActiveSet.enter]
    simp only [listed, length]
    split
    · exact views.active
    · split
      · rfl
      · rw [views.active, List.map_append]
        rfl
  · obtain ⟨dropped, kept⟩ := entered.pageEntry optimal user located page
    rw [← pageEntry_present]
    by_cases drop : kernel.Drops env va page
    · obtain ⟨miss, full, active⟩ := (drops page).mp drop
      have different : page ≠ UserPage.of va user := fun same => miss (same ▸ active)
      rw [dropped drop, ActiveSet.enter, if_neg miss, if_pos full, PageTableEntry.present,
        PageTableEntry.setPerms_clear_perm, Perm.has_clear_of_subset _ (by decide)]
      simp [different, active]
    · rw [kept drop]
      simp only [faulted]
      by_cases here : page = UserPage.of va user
      · rw [if_pos here, here]
        exact ⟨fun _ => ActiveSet.mem_enter_present, fun _ => present⟩
      · rw [if_neg here, pageEntry_present, views.present, ActiveSet.enter]
        rw [drops] at drop
        split
        · simp [here]
        · rename_i miss
          split
          · rename_i full
            have inactive : page ∉ state.active := fun active => drop ⟨miss, full, active⟩
            simp [here, inactive]
          · simp [here]
  · rw [ActiveSet.enter_resident, Set.mem_insert_iff, ← views.resident, ← faulted]
    exact entered.holdsFrame_iff optimal user located page
  · rw [entered.stream, List.map_append, views.stream, ActiveSet.enter]
    simp only [listed]
    split
    · simp
    · split
      · simp [UserPage.of]
      · simp [UserPage.of]

end Entered

end Kernel

end FosKernel
