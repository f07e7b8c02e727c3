import FosKernel.Trap.FaultGuard
import FosKernel.Trap.FrameAccounts

/-!
# The frames of the user heap

Runs of page faults, `allocate_user_mem` and `free_user_mem` of one environment under
CLOCK. As long as `allocate_user_mem` marks absent pages only, no frame is lost and no
page is placed twice. On a resident page it clears the present bit and leaves the
element and the frame where they are, and the next fault places the page again.
-/

namespace FosKernel

namespace Kernel

variable {kernel before after : Kernel} {env va fuel : Nat} {pool : Set Nat} {free : List Nat}

/-- Every frame of the pool with references is held by a page-table entry of the environment, all
its present pages have frames of the pool, and its working set holds no page twice. -/
structure KeepsFrames (kernel : Kernel) (env : Nat) (pool : Set Nat) : Prop where
  placed : ∀ va < userTop, kernel.pagePresent env va = true →
    (kernel.pageEntry env va).frame ∈ pool
  held : ∀ frame ∈ pool, (kernel.memory.frames frame).references ≠ 0 →
    ∃ va < userTop, kernel.memory.getFrameInfo (kernel.directory env) va = some frame
  distinct : (kernel.wsPages env).Nodup

/-- What the runs keep. -/
structure Keeping (kernel : Kernel) (env : Nat) (pool : Set Nat) : Prop where
  clock : ClockRunning kernel env
  clocks : Clocks kernel
  accounted : ∃ free, Accounted kernel env pool free

/-- No page was placed or evicted: the working set and its hand are the same, and so are the frames
and the presence of all pages, the free frames and the references. -/
structure SameResidency (env : Nat) (before after : Kernel) : Prop where
  settles : Settles before after
  list : (after.envs env).pageWsList = (before.envs env).pageWsList
  size : (after.envs env).pageWsMaxSize = (before.envs env).pageWsMaxSize
  hand : (after.envs env).pageLastWsElement = (before.envs env).pageLastWsElement
  elements : after.elements = before.elements
  next : after.nextElement = before.nextElement
  active : after.pageActiveWsList = before.pageActiveWsList
  free : after.memory.freeFrameList = before.memory.freeFrameList
  references : ∀ frame,
    (after.memory.frames frame).references = (before.memory.frames frame).references
  entries : ∀ slot, (after.memory.tables slot).present = (before.memory.tables slot).present ∧
    (after.memory.tables slot).frame = (before.memory.tables slot).frame

/-- The accounts say where every frame of the pool is. -/
theorem Accounted.keepsFrames (accounted : Accounted kernel env pool free) :
    kernel.KeepsFrames env pool where
  placed va user present := by
    have member := (accounted.workingSet.mapped.present va user).mp present
    refine (accounted.mem_pool _).mpr (.inr ⟨_, member, ?_⟩)
    rw [pageEntry_roundDown]
  held frame inside referenced := by
    rcases (accounted.mem_pool frame).mp inside with idle | ⟨page, member, maps⟩
    · exact absurd (accounted.idle frame idle) referenced
    · obtain ⟨start, user⟩ := accounted.workingSet.mapped.user page member
      have present : kernel.pagePresent env page = true := by
        rw [accounted.workingSet.mapped.present page user, (show IsUserPage page from
          ⟨start, user⟩).roundDown_eq]
        exact member
      obtain ⟨slot, located⟩ := exists_slot present
      refine ⟨page, user, ?_⟩
      have here := pageEntry_eq located
      rw [Memory.getFrameInfo_eq located, if_pos, ← here, maps]
      exact PageTableEntry.holdsFrame_of_present (by rwa [← here, pageEntry_present])
  distinct := accounted.workingSet.mapped.nodup

namespace SameResidency

theorem refl (kernel : Kernel) : SameResidency env kernel kernel :=
  ⟨.refl kernel, rfl, rfl, rfl, rfl, rfl, rfl, rfl, fun _ => rfl, fun _ => ⟨rfl, rfl⟩⟩

theorem trans {middle : Kernel} (first : SameResidency env before middle)
    (second : SameResidency env middle after) : SameResidency env before after where
  settles := first.settles.trans second.settles
  list := second.list.trans first.list
  size := second.size.trans first.size
  hand := second.hand.trans first.hand
  elements := second.elements.trans first.elements
  next := second.next.trans first.next
  active := second.active.trans first.active
  free := second.free.trans first.free
  references frame := (second.references frame).trans (first.references frame)
  entries slot :=
    ⟨(second.entries slot).1.trans (first.entries slot).1,
      (second.entries slot).2.trans (first.entries slot).2⟩

theorem elementVa (same : SameResidency env before after) : after.elementVa = before.elementVa := by
  unfold Kernel.elementVa
  rw [same.elements]

theorem pageEntry (same : SameResidency env before after) (page : Nat) :
    (after.pageEntry env page).present = (before.pageEntry env page).present ∧
      (after.pageEntry env page).frame = (before.pageEntry env page).frame := by
  unfold Kernel.pageEntry Memory.entry
  rw [same.settles.directory, Memory.slot_congr same.settles.directories]
  cases before.memory.slot (before.directory env) page with
  | none => exact ⟨rfl, rfl⟩
  | some slot => exact same.entries slot

/-- A permission change that does not touch the present bit. -/
theorem setPagePermissions {set clear : Perm} (env other va : Nat)
    (unset : set &&& permPresent = 0#12) (kept : ~~~clear &&& permPresent = permPresent)
    (changed : kernel.setPagePermissions other va set clear = .ok after) :
    SameResidency env kernel after := by
  have settles := (setPagePermissions_settles kernel other va set clear).of_ok changed
  cases located : kernel.memory.slot (kernel.directory other) va with
  | none =>
      rw [setPagePermissions_of_missing kernel located] at changed
      cases changed
  | some slot =>
      rw [setPagePermissions_eq kernel located] at changed
      obtain rfl := Except.ok.inj changed
      refine ⟨settles, rfl, rfl, rfl, rfl, rfl, rfl, rfl, fun _ => rfl, fun place => ?_⟩
      by_cases same : place = slot
      · subst same
        rw [Memory.setEntry_tables, Function.update_self, PageTableEntry.present,
          PageTableEntry.setPerms_has _ unset kept]
        exact ⟨rfl, rfl⟩
      · rw [Memory.setEntry_tables, Function.update_of_ne same]
        exact ⟨rfl, rfl⟩

/-- Marking an absent page, with its present bit cleared. -/
theorem mark (absent : kernel.pagePresent env va = false)
    (marked : kernel.setPagePermissions env va permUHPage permPresent = .ok after) :
    SameResidency env kernel after := by
  have settles := (setPagePermissions_settles kernel env va _ _).of_ok marked
  cases located : kernel.memory.slot (kernel.directory env) va with
  | none =>
      rw [setPagePermissions_of_missing kernel located] at marked
      cases marked
  | some slot =>
      rw [setPagePermissions_eq kernel located] at marked
      obtain rfl := Except.ok.inj marked
      rw [pagePresent_eq located] at absent
      refine ⟨settles, rfl, rfl, rfl, rfl, rfl, rfl, rfl, fun _ => rfl, fun place => ?_⟩
      by_cases same : place = slot
      · subst same
        rw [Memory.setEntry_tables, Function.update_self, absent]
        exact ⟨Perm.has_clear_of_subset _ (by decide), rfl⟩
      · rw [Memory.setEntry_tables, Function.update_of_ne same]
        exact ⟨rfl, rfl⟩

theorem ofBytes (kernel : Kernel) (bytes : Nat → Nat → UInt8) : SameResidency env kernel
    { kernel with memory := { kernel.memory with bytes := bytes } } :=
  ⟨.of_memory rfl, rfl, rfl, rfl, rfl, rfl, rfl, rfl, fun _ => rfl, fun _ => ⟨rfl, rfl⟩⟩

/-- The read of a page of the page file writes its bytes and clears its modified bit. -/
theorem pfReadEnvPage (kernel : Kernel) (env va : Nat) :
    Ends (kernel.pfReadEnvPage env va) (fun result => SameResidency env kernel result.2)
      fun _ => True := by
  unfold Kernel.pfReadEnvPage
  dsimp only
  split
  · exact .ok (.refl kernel)
  split
  · exact .error trivial
  refine Ends.bind (.of_returns fun cleared changed =>
    SameResidency.setPagePermissions env env _ (by decide) (by decide) changed)
      fun cleared same => ?_
  exact .ok ((ofBytes kernel _).trans same)

/-- The removal of a page from the page file changes the disk and the disk tables. -/
theorem pfRemoveEnvPage (kernel : Kernel) (env va : Nat) :
    SameResidency env kernel (kernel.pfRemoveEnvPage env va) := by
  unfold Kernel.pfRemoveEnvPage
  split
  · exact .refl kernel
  split
  · exact .refl kernel
  rename_i table _
  have freed : Settles kernel { kernel with disk := kernel.disk.freeDiskFrame (table (ptx va)) } :=
    { Settles.refl kernel with }
  refine ⟨freed.trans (.of_setEnv rfl), ?_, ?_, ?_, rfl, rfl, rfl, rfl, fun _ => rfl,
    fun _ => ⟨rfl, rfl⟩⟩ <;> rw [setEnv_self] <;> rfl

end SameResidency

namespace Keeping

theorem of_same (keeping : Keeping before env pool) (same : SameResidency env before after) :
    Keeping after env pool := by
  obtain ⟨⟨running, positive, first⟩, clocks, free, accounted⟩ := keeping
  have workingSet : WorkingSet after env free :=
    accounted.workingSet.congr same.list same.size same.elementVa same.next same.settles.directories
      (same.settles.directory env) same.free same.entries
  refine ⟨⟨⟨same.settles.orderly running.orderly, ⟨free, workingSet⟩,
    same.active.trans running.active,
    same.settles.algorithm ▸ running.replaces⟩, ?_, ?_⟩, ?_, free, ?_⟩
  · rwa [same.size]
  · unfold HandFirst
    rw [same.list, same.size, same.hand]
    exact first
  · unfold Clocks
    rw [same.settles.algorithm]
    exact clocks
  · refine accounted.congr workingSet ?_ (fun page _ => (same.pageEntry page).2) same.references
    unfold wsPages
    rw [same.list, same.elementVa]

theorem createPageTable (keeping : Keeping kernel env pool)
    (missing : kernel.memory.getPageTable (kernel.directory env) va = none) :
    Keeping (kernel.createPageTable env va) env pool := by
  obtain ⟨⟨running, positive, first⟩, clocks, free, accounted⟩ := keeping
  have workingSet := accounted.workingSet.createPageTable running.orderly missing
  refine ⟨⟨⟨running.orderly.createPageTable env va, ⟨free, workingSet⟩, running.active,
    running.replaces⟩, positive, first⟩, clocks, free, ?_⟩
  refine accounted.congr workingSet rfl (fun page _ => ?_) fun _ => rfl
  rw [createPageTable_pageEntry running.orderly missing]

/-- A handled fault of an absent page. -/
theorem pageFaultHandler (keeping : Keeping kernel env pool) (user : va < userTop)
    (absent : kernel.pagePresent env va = false)
    (returned : kernel.pageFaultHandler env va fuel = .ok after) : Keeping after env pool := by
  obtain ⟨⟨running, positive, first⟩, clocks, free, accounted⟩ := keeping
  have listed := first.listed positive
  have served := accounted.workingSet.pageFaultHandler_served running.replaces running.active
    (fun _ => listed) user absent returned
  have settles := (pageFaultHandler_settles kernel env va fuel running.orderly.implemented
    absent).of_ok returned
  refine ⟨⟨⟨settles.orderly running.orderly, served.workingSet,
    served.active.trans running.active,
    served.algorithm ▸ running.replaces⟩, ?_, ?_⟩, ?_, ?_⟩
  · rwa [served.size]
  · exact Steps.handFirst (.fault clocks served.rearranged served.size)
      accounted.workingSet.fits first
  · unfold Clocks
    rw [served.algorithm]
    exact clocks
  · exact accounted.pageFaultHandler clocks running.active listed user absent returned

theorem notedFault (keeping : Keeping kernel env pool) (va : Nat) :
    Keeping (kernel.notedFault env va) env pool :=
  keeping.of_same ⟨{ Settles.refl kernel with }, rfl, rfl, rfl, rfl, rfl, rfl, rfl, fun _ => rfl,
    fun _ => ⟨rfl, rfl⟩⟩

/-- A fault of the environment or, at a user address, of the kernel. -/
theorem faultHandlerFrom (keeping : Keeping kernel env pool) (userTrap : Bool)
    (user : userTrap = false → va < userTop) (fuel : Nat) :
    Ends (faultHandlerFrom userTrap kernel env va fuel) (fun after => Keeping after env pool)
      fun _ => True := by
  have noted := keeping.notedFault va
  unfold Kernel.faultHandlerFrom
  cases userTrap with
  | true =>
      rw [if_pos rfl]
      refine faultHandler_ends kernel env va fuel trivial trivial noted.createPageTable ?_
      intro below _ absent
      refine .of_returns fun after returned => noted.pageFaultHandler ?_ absent returned
      unfold uStackTop at below
      omega
  | false =>
      rw [if_neg Bool.false_ne_true]
      by_cases repeated : kernel.RepeatedThrice env va
      · rw [kernelFaultHandler_of_repeated repeated]
        exact .error trivial
      · rw [kernelFaultHandler_eq repeated]
        cases held : kernel.memory.getPageTable (kernel.directory env) va with
        | none => exact .ok (noted.createPageTable held)
        | some table =>
            dsimp only
            split
            · exact .error trivial
            split
            · exact .error trivial
            rename_i absent _
            refine .of_returns fun after returned => noted.pageFaultHandler (user rfl) ?_ returned
            have located : (kernel.notedFault env va).memory.slot
                ((kernel.notedFault env va).directory env) va = some (table, ptx va) := by
              change kernel.memory.slot (kernel.directory env) va = _
              rw [Memory.slot, held, Option.map_some]
            rw [pagePermissions_eq located] at absent
            rw [pagePresent_eq located]
            exact eq_false_of_ne_true absent

theorem stampLru (keeping : Keeping kernel env pool) : kernel.stampLru env = .ok kernel := by
  unfold Kernel.stampLru
  rw [if_neg]
  rcases keeping.clocks with same | same <;> rw [same] <;> nofun

/-- `env_page_ws_invalidate` frees the page's frame. -/
theorem envPageWsInvalidate (keeping : Keeping kernel env pool) (va : Nat) :
    Keeping (kernel.envPageWsInvalidate env va) env pool := by
  obtain ⟨clock, clocks, free, accounted⟩ := keeping
  refine ⟨WsMove.clockRunning clock (.invalidate va), ?_, accounted.envPageWsInvalidate va⟩
  unfold Clocks
  rw [(envPageWsInvalidate_settles kernel env va).algorithm]
  exact clocks

/-- A call on a kernel whose residency is kept. -/
theorem lift {log : FaultLog} {call : Except Stop Kernel}
    (kept : Ends call (fun after => Keeping after env pool) fun _ => True) :
    Ends (log.lift call) (fun log => Keeping log.kernel env pool) fun _ => True := by
  unfold FaultLog.lift
  cases call with
  | error stop => exact .error trivial
  | ok kernel => exact .ok (kept.of_ok rfl)

/-- `trap_dispatch` for a page fault. -/
theorem fault {log : FaultLog} (keeping : Keeping log.kernel env pool) (userTrap : Bool)
    (user : userTrap = false → va < userTop) (fuel : Nat) :
    Ends (log.fault userTrap env va fuel) (fun log => Keeping log.kernel env pool)
      fun _ => True := by
  have stamped : log.lift (log.kernel.stampLru env) = .ok log := by
    rw [keeping.stampLru]
    rfl
  unfold FaultLog.fault
  rw [stamped]
  dsimp only [bind, Except.bind]
  cases handled : log.kernel.faultHandlerFrom userTrap env va fuel with
  | error stop => exact .error trivial
  | ok kernel => exact .ok ((keeping.faultHandlerFrom userTrap user fuel).of_ok handled)

theorem touch (userTrap : Bool) (user : userTrap = false → va < userTop) (fuel rounds : Nat) :
    ∀ {log : FaultLog}, Keeping log.kernel env pool →
      Ends (FaultLog.touch userTrap env va fuel rounds log)
        (fun log => Keeping log.kernel env pool) fun _ => True := by
  induction rounds with
  | zero => exact fun _ => .error trivial
  | succ rounds ih =>
      intro log keeping
      unfold FaultLog.touch
      split
      · exact .ok keeping
      · exact (keeping.fault userTrap user fuel).bind fun _ keeping => ih keeping

theorem setPagePermissions (keeping : Keeping kernel env pool) (va : Nat) {set clear : Perm}
    (unset : set &&& permPresent = 0#12) (kept : ~~~clear &&& permPresent = permPresent) :
    Ends (kernel.setPagePermissions env va set clear) (fun after => Keeping after env pool)
      fun _ => True :=
  .of_returns fun _ changed =>
    keeping.of_same (SameResidency.setPagePermissions env env va unset kept changed)

/-- The part of `free_user_mem` that reads a page, removes it from the page file and the working
set. -/
theorem dropUserPage (keeping : Keeping kernel env pool) (curr : Nat) :
    Ends (kernel.dropUserPage env curr) (fun after => Keeping after env pool) fun _ => True := by
  unfold Kernel.dropUserPage
  refine (SameResidency.pfReadEnvPage kernel env curr).bind fun (found, read) same => ?_
  have keeping := keeping.of_same same
  have invalidated : ∀ removed : Kernel, Keeping removed env pool →
      Keeping (if removed.pageRepAlgoType = .lruListsApprox then removed
        else removed.envPageWsInvalidate env curr) env pool := by
    intro removed keeping
    split
    · exact keeping
    · exact keeping.envPageWsInvalidate curr
  cases found with
  | false => exact .ok (invalidated read keeping)
  | true => exact .ok (invalidated _ (keeping.of_same (.pfRemoveEnvPage read env curr)))

theorem freeUserPage {log : FaultLog} (keeping : Keeping log.kernel env pool) {curr : Nat}
    (user : curr < userTop) (fuel rounds : Nat) :
    Ends (FaultLog.freeUserPage env fuel rounds log curr) (fun log => Keeping log.kernel env pool)
      fun _ => True := by
  unfold FaultLog.freeUserPage
  refine (lift (keeping.setPagePermissions curr (by decide) (by decide))).bind
    fun log keeping => ?_
  dsimp only
  split
  · exact lift (keeping.dropUserPage curr)
  · have below : roundDown curr pageSize < userTop := (roundDown_isUserPage user).2
    exact (touch false (fun _ => below) fuel rounds keeping).bind fun log keeping =>
      lift (keeping.dropUserPage curr)

end Keeping

/-- The range lies in the user heap. -/
def InUserHeap (va size : Nat) : Prop := userHeapStart ≤ va ∧ va + size ≤ userHeapMax

instance (va size : Nat) : Decidable (InUserHeap va size) :=
  inferInstanceAs (Decidable (_ ∧ _))

theorem InUserHeap.chunkPages {size curr : Nat} (heap : InUserHeap va size)
    (member : curr ∈ chunkPages va size) : curr < userTop := by
  obtain ⟨index, inside, rfl⟩ := List.mem_map.mp member
  obtain ⟨lower, upper⟩ := heap
  have count := List.mem_range.mp inside
  unfold userHeapMax pageSize at *
  unfold userTop
  omega

theorem Keeping.freeUserMem {size : Nat} {log : FaultLog} (keeping : Keeping log.kernel env pool)
    (heap : InUserHeap va size) (fuel rounds : Nat) :
    Ends (log.freeUserMem env fuel rounds va size) (fun log => Keeping log.kernel env pool)
      fun _ => True :=
  Ends.foldlM _ (fun _ _ member keeping =>
    keeping.freeUserPage (heap.chunkPages member) fuel rounds) log keeping

/-- The pages of a range that `allocate_user_mem` marks are absent. -/
def OnAbsent (env : Nat) (kernel : Kernel) (va size : Nat) : Prop :=
  ∀ curr ∈ chunkPages va size, kernel.pagePresent env curr = false

/-- `allocate_user_mem` on absent pages places and evicts nothing. -/
theorem Keeping.allocateUserMem {size : Nat} (keeping : Keeping kernel env pool)
    (absent : OnAbsent env kernel va size) :
    Ends (kernel.allocateUserMem env va size) (fun after => Keeping after env pool)
      fun _ => True := by
  unfold Kernel.allocateUserMem
  split
  · exact .ok keeping
  · refine Ends.mono (show Ends _ (fun marked : Kernel =>
        Keeping marked env pool ∧ OnAbsent env marked va size) (fun _ => True) from
      Ends.foldlM _ (fun marked curr member => ?_) kernel ⟨keeping, absent⟩)
      (fun _ kept => kept.1) fun _ _ => trivial
    rintro ⟨keeping, absent⟩
    have table : ∀ located : Kernel, Keeping located env pool → OnAbsent env located va size →
        Ends (located.setPagePermissions env curr permUHPage permPresent)
          (fun marked => Keeping marked env pool ∧ OnAbsent env marked va size)
              fun _ => True := by
      intro located keeping absent
      refine .of_returns fun marked changed => ?_
      have same := SameResidency.mark (absent curr member) changed
      refine ⟨keeping.of_same same, fun page inside => ?_⟩
      rw [← pageEntry_present, (same.pageEntry page).1, pageEntry_present]
      exact absent page inside
    dsimp only
    cases held : marked.memory.getPageTable (marked.directory env) curr with
    | none =>
        refine table _ (keeping.createPageTable held) fun page inside => ?_
        rw [← pageEntry_present, createPageTable_pageEntry keeping.clock.running.orderly held,
          pageEntry_present]
        exact absent page inside
    | some number => exact table marked keeping absent

/-- A page fault of the environment, a call of `allocate_user_mem` or `free_user_mem` on a range of
the user heap, or a change of permissions other than the present bit, as the processor makes. The
allocations are subject to a condition. -/
inductive HeapMove (env : Nat) (condition : Kernel → Nat → Nat → Prop) (before : FaultLog) :
    FaultLog → Prop
  | fault {after : FaultLog} (va fuel : Nat) (handled : before.fault true env va fuel = .ok after) :
      HeapMove env condition before after
  | allocate {after : FaultLog} (va size : Nat) (heap : InUserHeap va size)
      (met : condition before.kernel va size)
      (allocated : before.lift (before.kernel.allocateUserMem env va size) = .ok after) :
      HeapMove env condition before after
  | free {after : FaultLog} (va size fuel rounds : Nat) (heap : InUserHeap va size)
      (freed : before.freeUserMem env fuel rounds va size = .ok after) :
      HeapMove env condition before after
  | permissions {after : FaultLog} (va : Nat) {set clear : Perm}
      (unset : set &&& permPresent = 0#12) (kept : ~~~clear &&& permPresent = permPresent)
      (changed : before.lift (before.kernel.setPagePermissions env va set clear) = .ok after) :
      HeapMove env condition before after

/-- What every step keeps whose allocations mark absent pages. -/
theorem HeapMove.keeping {before after : FaultLog} (keeping : Keeping before.kernel env pool)
    (move : HeapMove env (OnAbsent env) before after) : Keeping after.kernel env pool := by
  cases move with
  | fault va fuel handled => exact (keeping.fault true nofun fuel).of_ok handled
  | allocate va size heap met allocated =>
      exact (Keeping.lift (keeping.allocateUserMem met)).of_ok allocated
  | free va size fuel rounds heap freed =>
      exact (keeping.freeUserMem heap fuel rounds).of_ok freed
  | permissions va unset kept changed =>
      exact (Keeping.lift (keeping.setPagePermissions va unset kept)).of_ok changed

/-- In every run under CLOCK whose allocations mark absent pages, no frame is lost and no page
occurs twice in the working set. -/
theorem keepsFrames_of_run (start log : FaultLog) (env : Nat) (pool : Set Nat)
    (clock : ClockRunning start.kernel env) (clocks : Clocks start.kernel)
    (accounted : ∃ free, Accounted start.kernel env pool free)
    (run : Relation.ReflTransGen (HeapMove env (OnAbsent env)) start log) :
    log.kernel.KeepsFrames env pool := by
  have keeping : Keeping log.kernel env pool := by
    induction run with
    | refl => exact ⟨clock, clocks, accounted⟩
    | tail _ move ih => exact move.keeping ih
  obtain ⟨free, accounted⟩ := keeping.accounted
  exact accounted.keepsFrames

theorem blank_accounted (algorithm : PageRepAlgoType) (replaces : algorithm.Replaces)
    (size env : Nat) :
    Accounted (blank algorithm size) env {frame | frame ∈ [258, 257, 256]} [258, 257, 256] where
  workingSet := by
    obtain ⟨free, workingSet⟩ := (blank_running algorithm replaces size env).workingSet
    rwa [← workingSet.mapped.represents.unique (blank_represents algorithm size)]
  mem_pool frame := (or_iff_left (by rintro ⟨page, member, -⟩; cases member)).symm
  idle := show ∀ frame ∈ [258, 257, 256],
      ((blank .clock 0).memory.frames frame).references = 0 by
    decide +kernel
  held := nofun

/-- The first allocation of a heap page and its first access. -/
theorem keepsFrames_of_run_blank : ∃ log, Relation.ReflTransGen (HeapMove 0 (OnAbsent 0))
    ⟨blank .clock 2, []⟩ log ∧ log.kernel.wsPages 0 = [0x80000000] ∧
      log.kernel.KeepsFrames 0 {frame | frame ∈ [258, 257, 256]} := by
  obtain ⟨allocated, called, observed⟩ := Returns.exists (show Returns
    ((⟨blank .clock 2, []⟩ : FaultLog).lift
      ((blank .clock 2).allocateUserMem 0 0x80000000 4096))
      (fun allocated => Returns (allocated.fault true 0 0x80000000 1) fun log =>
        decide (log.kernel.wsPages 0 = [0x80000000])) = true by decide +kernel)
  obtain ⟨log, handled, pages⟩ := Returns.exists observed
  have run : Relation.ReflTransGen (HeapMove 0 (OnAbsent 0)) ⟨blank .clock 2, []⟩ log :=
    (Relation.ReflTransGen.single (.allocate 0x80000000 4096 (by decide)
      (fun curr _ => blank_pagePresent .clock 2 0 curr) called)).tail (.fault _ 1 handled)
  exact ⟨log, run, of_decide_eq_true pages, keepsFrames_of_run ⟨blank .clock 2, []⟩ log 0 _
    ⟨blank_running .clock trivial 2 0, by decide, fun full => absurd full (by decide)⟩
      (.inl rfl)
    ⟨_, blank_accounted .clock trivial 2 0⟩ run⟩

/-- An allocation over a resident page. The next access places the page a second time, and the
frame of the first time is lost: it keeps its reference, and the page has another one. -/
theorem not_keepsFrames_after_remark : ∃ log, Relation.ReflTransGen (HeapMove 0 fun _ _ _ => True)
    ⟨blank .clock 2, []⟩ log ∧ log.kernel.wsPages 0 = [0x80000000, 0x80000000] ∧
      (log.kernel.memory.frames 258).references = 1 ∧
      log.kernel.memory.getFrameInfo (log.kernel.directory 0) 0x80000000 = some 257 ∧
      ¬ log.kernel.KeepsFrames 0 {frame | frame ∈ [258, 257, 256]} := by
  obtain ⟨allocated, called, observed⟩ := Returns.exists (show Returns
    ((⟨blank .clock 2, []⟩ : FaultLog).lift
      ((blank .clock 2).allocateUserMem 0 0x80000000 4096))
      (fun allocated => Returns (allocated.fault true 0 0x80000000 1) fun faulted =>
        Returns (faulted.lift (faulted.kernel.allocateUserMem 0 0x80000000 4096)) fun remarked =>
          Returns (remarked.fault true 0 0x80000000 1) fun log =>
            decide (log.kernel.wsPages 0 = [0x80000000, 0x80000000] ∧
              (log.kernel.memory.frames 258).references = 1 ∧
              log.kernel.memory.getFrameInfo (log.kernel.directory 0) 0x80000000 = some 257)) =
                true by decide +kernel)
  obtain ⟨faulted, handled, observed⟩ := Returns.exists observed
  obtain ⟨remarked, called', observed⟩ := Returns.exists observed
  obtain ⟨log, handled', twice⟩ := Returns.exists observed
  obtain ⟨pages, references, maps⟩ := of_decide_eq_true twice
  refine ⟨log, ?_, pages, references, maps, fun keeps => ?_⟩
  · exact (((Relation.ReflTransGen.single
      (.allocate 0x80000000 4096 (by decide) trivial called)).tail
      (.fault _ 1 handled)).tail (.allocate 0x80000000 4096 (by decide) trivial called')).tail
        (.fault _ 1 handled')
  · have distinct := keeps.distinct
    rw [pages] at distinct
    exact absurd distinct (by decide)

end Kernel

end FosKernel
