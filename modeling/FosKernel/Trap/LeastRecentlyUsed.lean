import FosKernel.Lib.AgingStamps
import FosKernel.Trap.Aging
import FosKernel.Trap.PrivateRuns

/-!
# The least recently used page

Under LRU by time stamps an environment uses pages, faults and is interrupted by the
clock. Every page fault and clock interrupt is a tick of the stamps. A page fault on a
full working set evicts a page whose last use was not later than that of any page
used within the last 32 ticks.
-/

namespace FosKernel

namespace Kernel

variable {kernel first before after : Kernel} {env va fuel element other now : Nat}
  {free list : List Nat} {last : Nat → Option Nat}

theorem Ticked.directory (ticked : Ticked before after) (env : Nat) :
    after.directory env = before.directory env := by
  rw [Kernel.directory, ticked.envs]
  rfl

theorem nextStamp_eq (kernel : Kernel) (env element : Nat) : kernel.nextStamp env element =
    ageStamp 31 (kernel.used env element) (kernel.elements element).timeStamp := rfl

/-- The used bit of an element is that of its entry. -/
theorem used_of_located
    (located : ∃ slot, kernel.memory.slot (kernel.directory env) (kernel.elementVa element) =
      some slot) :
    kernel.used env element =
      Perm.has (kernel.pageEntry env (kernel.elementVa element)).perm permUsed := by
  obtain ⟨slot, place⟩ := located
  rw [used, pagePermissions_eq place, pageEntry_eq place]

/-- A round of the update leaves the used bits of the other pages. -/
theorem stampElement_used (separate : kernel.SeparateTables env)
    (user : IsUserPage (kernel.elementVa element)) (user' : IsUserPage (kernel.elementVa other))
    (different : kernel.elementVa other ≠ kernel.elementVa element)
    (located : kernel.pagePresent env (kernel.elementVa element) = true)
    (located' : kernel.pagePresent env (kernel.elementVa other) = true)
    (returned : kernel.stampElement env element = .ok after) :
    after.used env other = kernel.used env other := by
  obtain ⟨slot, place⟩ := exists_slot located
  have ticked := ((kernel.stampElement_ends env element ⟨slot, place⟩).of_ok returned).1
  have located'' := exists_slot located'
  rw [used_of_located located'', used_of_located (by rwa [ticked.slot_eq, ticked.vas]), ticked.vas]
  unfold stampElement at returned
  dsimp only at returned
  split at returned
  · have marked : (kernel.stamped element ((kernel.elements element).timeStamp / 2 ||| 2 ^ 31)
        ).setPagePermissions env (kernel.elementVa element) 0 permUsed = .ok after := returned
    rw [setPagePermissions_eq (kernel.stamped element _) place, Except.ok.injEq] at marked
    have tables : after.memory.tables = Function.update kernel.memory.tables slot
        ((kernel.memory.tables slot).setPerms 0 permUsed) := by
      rw [← marked]
      rfl
    have updated := pageEntry_update separate ticked.directories (ticked.directory env) place tables
      user.lt user'.lt
    rw [updated, user.roundDown_eq, user'.roundDown_eq, if_neg different]
  · obtain rfl := Except.ok.inj returned
    rfl

/-- The rounds give every element its next stamp. -/
theorem stampElements_stamps (env : Nat) (list : List Nat) : ∀ kernel : Kernel,
    kernel.SeparateTables env → (list.map kernel.elementVa).Nodup →
    (∀ element ∈ list, IsUserPage (kernel.elementVa element)) →
    (∀ element ∈ list, kernel.pagePresent env (kernel.elementVa element) = true) →
    list.foldlM (stampElement env) kernel = .ok after →
    ∀ element ∈ list, (after.elements element).timeStamp = kernel.nextStamp env element := by
  induction list with
  | nil => exact fun _ _ _ _ _ _ element member => absurd member List.not_mem_nil
  | cons head rest ih =>
      intro kernel separate nodup user present returned
      rw [List.foldlM_cons] at returned
      obtain ⟨first, stamped, returned⟩ := bind_eq_ok.mp returned
      have located := present head List.mem_cons_self
      obtain ⟨ticked, -, stamp, others⟩ :=
        (kernel.stampElement_ends env head (exists_slot located)).of_ok stamped
      rw [List.map_cons, List.nodup_cons] at nodup
      obtain ⟨outside, nodup⟩ := nodup
      have different : ∀ element ∈ rest, kernel.elementVa element ≠
          kernel.elementVa head := by
        intro element member same
        exact outside (List.mem_map.mpr ⟨element, member, same⟩)
      have rest' : ∀ element ∈ rest, element ∈ head :: rest := fun _ => List.mem_cons_of_mem _
      have separate' : first.SeparateTables env := by
        unfold SeparateTables
        rw [ticked.directories, ticked.directory]
        exact separate
      have present' : ∀ element ∈ rest,
          first.pagePresent env (first.elementVa element) = true := by
        intro element member
        rw [ticked.pagePresent, ticked.vas]
        exact present element (rest' element member)
      have stamps := ih first separate' (ticked.vas ▸ nodup)
        (fun element member => ticked.vas ▸ user element (rest' element member)) present' returned
      have ends := stampElements_ends env rest first (List.Nodup.of_map _ nodup)
        fun element member => exists_slot (present' element member)
      intro element member
      rcases List.mem_cons.mp member with same | inside
      · have untouched : element ∉ rest := fun inside => different element inside (by rw [same])
        rw [(ends.of_ok returned).2.1 element untouched, same, stamp]
      · have apart := different element inside
        rw [stamps element inside, nextStamp_eq, nextStamp_eq, others element fun same =>
          apart (by rw [same]), stampElement_used separate (user head List.mem_cons_self)
            (user element member) apart located (present element member) stamped]

/-- What loading a page does to the elements of the working set: a new one for the page, and the
others keep their stamps and used bits. -/
structure LoadsElement (kernel : Kernel) (env va : Nat) (after : Kernel) : Prop where
  present : after.pagePresent env va = true
  newest : after.elements kernel.nextElement = ⟨roundDown va pageSize, 0⟩
  kept : ∀ element ∈ (after.envs env).pageWsList, element ≠ kernel.nextElement →
    element ∈ (kernel.envs env).pageWsList ∧
      after.elements element = kernel.elements element ∧
      after.used env element = kernel.used env element

theorem LoadsElement.of_entries (resident : Resident kernel env) (resident' : Resident after env)
    (present : after.pagePresent env va = true)
    (elements : after.elements =
      Function.update kernel.elements kernel.nextElement ⟨roundDown va pageSize, 0⟩)
    (kept : ∀ element ∈ (after.envs env).pageWsList, element ≠ kernel.nextElement →
      element ∈ (kernel.envs env).pageWsList ∧
        after.pageEntry env (kernel.elementVa element) =
          kernel.pageEntry env (kernel.elementVa element)) :
    LoadsElement kernel env va after where
  present := present
  newest := by rw [elements, Function.update_self]
  kept element member old := by
    obtain ⟨member', entry⟩ := kept element member old
    have same : after.elements element = kernel.elements element := by
      rw [elements, Function.update_of_ne old]
    have page : after.elementVa element = kernel.elementVa element :=
      congrArg WorkingSetElement.virtualAddress same
    refine ⟨member', same, ?_⟩
    rw [used_of_located (resident'.located element member), page, entry,
      used_of_located (resident.located element member')]

/-- A page is placed while there is room. -/
theorem WorkingSet.placement_loadsElement (ws : WorkingSet kernel env free) (user : va < userTop)
    (absent : kernel.pagePresent env va = false)
    (room : (kernel.envs env).pageWsList.length < (kernel.envs env).pageWsMaxSize)
    (returned : kernel.placement env va = .ok after) : LoadsElement kernel env va after := by
  obtain ⟨free', ws'⟩ := (ws.placement_served user absent room returned).workingSet
  obtain ⟨slot, frame, memory, loads, rfl⟩ := (placement_returns user absent).of_ok returned
  obtain ⟨entry, directories, tables, present, -⟩ := loads.tables
  obtain ⟨taken, fetch⟩ := loads.fetch
  have bound : va < 2 ^ 32 := Nat.lt_trans user (by decide)
  have directory : (({ kernel with memory := memory } : Kernel).placed env va).directory env =
      kernel.directory env := (({ kernel with memory := memory } : Kernel).placed_directory env
        va env)
  have entries : ∀ page < 2 ^ 32,
      (({ kernel with memory := memory } : Kernel).placed env va).pageEntry env page =
        if roundDown page pageSize = roundDown va pageSize then entry else
            kernel.pageEntry env page :=
    fun page below => pageEntry_update ws.mapped.separate directories directory fetch.located tables
      bound below
  refine .of_entries ws.resident ws'.resident ?_ rfl fun element member old => ?_
  · rw [← pageEntry_present, entries va bound, if_pos rfl]
    exact present
  · rw [placed_self] at member
    have member' : element ∈ (kernel.envs env).pageWsList :=
      (List.mem_append.mp member).resolve_right fun new => old (List.mem_singleton.mp new)
    have start := ws.user member'
    refine ⟨member', ?_⟩
    rw [entries _ start.lt, if_neg]
    intro same
    have shown := ws.pagePresent member'
    rw [← pagePresent_roundDown, same, pagePresent_roundDown, absent] at shown
    cases shown

/-- LRU evicts a page of the least stamp from a full working set. -/
theorem WorkingSet.lru_loadsElement (ws : WorkingSet kernel env free)
    (lru : kernel.pageRepAlgoType = .lruTimeApprox) (active : kernel.pageActiveWsList = [])
    (legal : LegalFault kernel env va)
    (full : (kernel.envs env).pageWsList.length = (kernel.envs env).pageWsMaxSize)
    (returned : kernel.pageFaultHandler env va (fuel + 1) = .ok after) :
    LoadsElement kernel env va after ∧ ∃ victim ∈ (kernel.envs env).pageWsList,
      (∀ element ∈ (kernel.envs env).pageWsList,
        (kernel.elements victim).timeStamp ≤ (kernel.elements element).timeStamp) ∧
      after.pagePresent env (kernel.elementVa victim) = false ∧
      ∀ element ∈ (kernel.envs env).pageWsList, element ≠ victim →
        after.pagePresent env (kernel.elementVa element) = true := by
  have resident := ws.resident
  have replaces : kernel.pageRepAlgoType.Replaces := by
    rw [lru]
    trivial
  obtain ⟨free', ws'⟩ := (ws.pageFaultHandler_served replaces active
    (fun notLru => absurd lru notLru)
    legal.user legal.absent returned).workingSet
  rw [pageFaultHandler_lru lru full] at returned
  rcases kernel.lruVictim_cases env with
    ⟨none, -⟩ | ⟨victim, found, front, back, split, -, early, late⟩
  · rw [lruReplacement, none] at returned
    cases returned
  have member : victim ∈ (kernel.envs env).pageWsList := by simp [split]
  have stay : ∀ element ∈ front ++ back, element ∈ (kernel.envs env).pageWsList := by
    intro element inside
    rw [split, List.mem_append, List.mem_cons]
    exact (List.mem_append.mp inside).imp_right .inr
  rw [lruReplacement_eq lru resident found split] at returned
  obtain ⟨evicted, evicts, perm, slot, frame, memory, -, loads, rfl⟩ :=
    (replace_returns resident member legal.user legal.absent).of_ok returned
  have replaced := evicts.replaced resident (.refl kernel env) member stay legal loads
  have kept : ∀ element ∈ (kernel.envs env).pageWsList, element ≠ victim →
      (({ evicted with memory := memory } : Kernel).served env va).pageEntry env
        (kernel.elementVa element) = kernel.pageEntry env (kernel.elementVa element) := by
    intro element inside different
    have start := resident.user element inside
    rw [replaced.entries _ start.lt ?_ ?_, List.map_nil, if_neg List.not_mem_nil]
    · intro same
      have shown := resident.present element inside
      rw [← pagePresent_roundDown, same, pagePresent_roundDown, legal.absent] at shown
      cases shown
    · rw [start.roundDown_eq]
      exact fun same => different (List.inj_on_of_nodup_map resident.nodup_pages inside member same)
  obtain ⟨outside, -⟩ := List.nodup_cons.mp
    ((List.perm_middle.nodup_iff).mp (split ▸ resident.nodup))
  refine ⟨.of_entries resident ws'.resident replaced.loaded ?_
    fun element inside old => ?_, victim,
    member, fun element inside => ?_, replaced.unmapped, fun element inside different => ?_⟩
  · obtain ⟨place, disk, directory, -, -, same⟩ := evicts
    rw [(({ evicted with memory := memory } : Kernel).served_fields env va).2.2.2.1, same]
    rfl
  · rw [replaced.arranged] at inside
    have inside' : element ∈ front ++ back :=
      (List.mem_append.mp inside).resolve_right fun new => old (List.mem_singleton.mp new)
    have different : element ≠ victim := fun same => outside (same ▸ inside')
    exact ⟨stay element inside', kept element (stay element inside') different⟩
  · rw [split, List.mem_append, List.mem_cons] at inside
    rcases inside with before | same | behind
    · exact Nat.le_of_lt (early element before)
    · rw [same]
    · exact late element behind
  · rw [← pageEntry_present, kept element inside different, pageEntry_present]
    exact resident.present element inside

theorem Accessible.legalFault (accessible : kernel.Accessible env va)
    (absent : kernel.pagePresent env va = false)
    (located : (kernel.memory.slot (kernel.directory env) va).isSome = true) :
    LegalFault kernel env va where
  user := accessible.user
  absent := absent
  table := Option.isSome_iff_exists.mp located
  legal := by
    obtain ⟨slot, place⟩ := Option.isSome_iff_exists.mp located
    rcases accessible.loadable with stored | inside
    · exact .inl stored
    · right
      rcases of_decide_eq_true inside with heap | stack
      · refine .inr ⟨heap.1, heap.2, ?_⟩
        rw [pagePermissions_eq place, ← pageEntry_eq place]
        exact accessible.marked heap.1 heap.2
      · exact .inl stack

/-- The stamps of the working set tell when its pages were last used. -/
def AgedPages (kernel : Kernel) (env now : Nat) (last : Nat → Option Nat) : Prop :=
  ∀ element ∈ (kernel.envs env).pageWsList,
    Aged 31 now (last (kernel.elementVa element)) (kernel.used env element)
      (kernel.elements element).timeStamp

/-- The last uses after a fault: the load of a page is a use where it sets the used bit. -/
def lastLoaded (after : Kernel) (env va now : Nat) (last : Nat → Option Nat) :
    Nat → Option Nat :=
  if after.pagePresent env va then
    Function.update last (roundDown va pageSize)
      (if Perm.has (after.pageEntry env va).perm permUsed then some now else none)
  else last

/-- A tick of the stamps. -/
theorem AgedPages.stampLru (aged : AgedPages kernel env now last) (storing : Storing kernel env)
    (lru : kernel.pageRepAlgoType = .lruTimeApprox) (stamped : kernel.stampLru env = .ok after) :
    AgedPages after env (now + 1) last ∧ ∀ element ∈ (kernel.envs env).pageWsList,
      after.used env element = false := by
  obtain ⟨-, ticked, cleared⟩ := storing.stampLru_ends.of_ok stamped
  obtain ⟨free, ws⟩ := storing.running.workingSet
  rw [Kernel.stampLru, if_pos lru] at stamped
  have stamps := stampElements_stamps env (kernel.envs env).pageWsList kernel ws.mapped.separate
    ws.mapped.nodup (fun element => ws.user) (fun element => ws.pagePresent) stamped
  refine ⟨fun element member => ?_, fun element member => (cleared lru element member).1⟩
  rw [ticked.envs] at member
  rw [(cleared lru element member).1, stamps element member, ticked.vas]
  exact (aged element member).tick

/-- A use of a page. -/
theorem AgedPages.use (aged : AgedPages kernel env now last) (storing : Storing kernel env)
    (user : va < userTop) (present : kernel.pagePresent env va = true) {set : Perm}
    (sets : Perm.has set permUsed = true)
    (marked : kernel.setPagePermissions env va set 0 = .ok after) :
    AgedPages after env now (Function.update last (roundDown va pageSize) (some now)) := by
  obtain ⟨slot, place⟩ := exists_slot present
  obtain ⟨free, ws⟩ := storing.running.workingSet
  rw [setPagePermissions_eq kernel place, Except.ok.injEq] at marked
  have elements : after.elements = kernel.elements := by rw [← marked]
  have envs : after.envs = kernel.envs := by rw [← marked]
  have vas : after.elementVa = kernel.elementVa := by rw [← marked]; rfl
  have directories : after.memory.directories = kernel.memory.directories := by rw [← marked]; rfl
  have directory : after.directory env = kernel.directory env := by rw [← marked]; rfl
  have tables : after.memory.tables = Function.update kernel.memory.tables slot
      ((kernel.memory.tables slot).setPerms set 0) := by
    rw [← marked]
    rfl
  intro element member
  rw [envs] at member
  have start := ws.user member
  have located := ws.located element member
  have located' : ∃ slot, after.memory.slot (after.directory env) (after.elementVa element) =
      some slot := by
    rw [directory, Memory.slot_congr directories, vas]
    exact located
  have updated := pageEntry_update ws.mapped.separate directories directory place tables
    (Nat.lt_trans user (by decide)) start.lt
  rw [start.roundDown_eq] at updated
  rw [used_of_located located', vas, elements, updated]
  by_cases here : kernel.elementVa element = roundDown va pageSize
  · have bit : Perm.has ((kernel.memory.tables slot).setPerms set 0).perm permUsed = true := by
      rw [PageTableEntry.setPerms, Perm.has_clear_of_disjoint _ (by decide), Perm.has_or, sets,
        Bool.or_true]
    rw [if_pos here, here, Function.update_self, bit]
    exact .of_use 31 now (storing.stamps element)
  · rw [if_neg here, Function.update_of_ne here, ← used_of_located located]
    exact aged element member

/-- A page fault: the used bits of the pages that stay are those after the tick. -/
theorem AgedPages.loaded {free' : List Nat} (aged : AgedPages kernel env now last)
    (ws : WorkingSet kernel env free) (ws' : WorkingSet after env free')
    (absent : kernel.pagePresent env va = false) (loads : LoadsElement kernel env va after) :
    AgedPages after env now (after.lastLoaded env va now last) := by
  rw [lastLoaded, if_pos loads.present]
  intro element member
  by_cases new : element = kernel.nextElement
  · have page : after.elementVa element = roundDown va pageSize := by
      rw [elementVa, new, loads.newest]
    rw [used_of_located (ws'.located element member), page, Function.update_self,
      pageEntry_roundDown,
      new, loads.newest]
    cases Perm.has (after.pageEntry env va).perm permUsed with
    | true => exact .of_use 31 now (Nat.two_pow_pos _)
    | false => exact .fresh 31 now
  · obtain ⟨member', same, used⟩ := loads.kept element member new
    have page : after.elementVa element = kernel.elementVa element :=
      congrArg WorkingSetElement.virtualAddress same
    have different : kernel.elementVa element ≠ roundDown va pageSize := by
      intro here
      have shown := ws.pagePresent member'
      rw [here, pagePresent_roundDown, absent] at shown
      cases shown
    rw [page, Function.update_of_ne different, used, same]
    exact aged element member'

/-- A new page table is no use of a page. -/
theorem AgedPages.createPageTable {free' : List Nat} (aged : AgedPages kernel env now last)
    (orderly : kernel.Orderly) (ws : WorkingSet kernel env free)
    (ws' : WorkingSet (kernel.createPageTable env va) env free')
    (missing : kernel.memory.slot (kernel.directory env) va = none)
    (absent : kernel.pagePresent env va = false) :
    AgedPages (kernel.createPageTable env va) env now
      ((kernel.createPageTable env va).lastLoaded env va now last) := by
  have missing' : kernel.memory.getPageTable (kernel.directory env) va = none := by
    rw [Memory.slot, Option.map_eq_none_iff] at missing
    exact missing
  have entries : ∀ page, (kernel.createPageTable env va).pageEntry env page =
      kernel.pageEntry env page :=
    createPageTable_pageEntry orderly missing'
  have absent' : (kernel.createPageTable env va).pagePresent env va = false := by
    rw [← pageEntry_present, entries, pageEntry_present, absent]
  rw [lastLoaded, if_neg (Bool.not_eq_true _ ▸ absent')]
  intro element member
  rw [used_of_located (ws'.located element member), entries]
  have used := used_of_located (ws.located element member)
  have old := aged element member
  rw [used] at old
  exact old

/-- The fault evicts a page whose last use was not later than that of any recently used page. -/
def EvictsOldest (kernel : Kernel) (env now : Nat) (last : Nat → Option Nat) (after : Kernel) :
    Prop :=
  ∃ victim ∈ (kernel.envs env).pageWsList,
    after.pagePresent env (kernel.elementVa victim) = false ∧
    (∀ element ∈ (kernel.envs env).pageWsList, element ≠ victim →
      after.pagePresent env (kernel.elementVa element) = true) ∧
    ∀ element ∈ (kernel.envs env).pageWsList, ∀ tick tick',
      last (kernel.elementVa victim) = some tick →
        last (kernel.elementVa element) = some tick' →
        now - tick' < 32 → tick ≤ tick'

/-- A page fault under LRU. -/
theorem AgedPages.trapDispatch (aged : AgedPages kernel env now last) (storing : Storing kernel env)
    (quiet : kernel.Quiet env) (lru : kernel.pageRepAlgoType = .lruTimeApprox)
    (accessible : kernel.Accessible env va) (absent : kernel.pagePresent env va = false)
    (leaves : kernel.LeavesVictim env va)
    (returned : kernel.trapDispatch env va (fuel + 2) = .ok after) :
    AgedPages after env (now + 1) (after.lastLoaded env va (now + 1) last) ∧
      ((kernel.memory.slot (kernel.directory env) va).isSome = true →
        (kernel.envs env).pageWsList.length = (kernel.envs env).pageWsMaxSize →
          EvictsOldest kernel env now last after) := by
  obtain ⟨advances, -⟩ := storing.trapDispatch_advances quiet accessible absent leaves returned
  obtain ⟨middle, stamped, storing', ticked, -⟩ := storing.stampLru_ends.exists_ok
  obtain ⟨aged', cleared⟩ := aged.stampLru storing lru stamped
  have handled : middle.faultHandler env va (fuel + 2) = .ok after := by
    rw [Kernel.trapDispatch, stamped] at returned
    exact returned
  have absent' := (ticked.pagePresent env va).trans absent
  have pending := ticked.pending (quiet.calm.pending absent)
  have unrepeated : middle.Pending env va 1 := fun faulted same =>
    Nat.le_succ_of_le (pending faulted same)
  rw [faultHandler_of_accessible unrepeated.unrepeated storing'.unbuffered absent'
    (ticked.accessible accessible) (fuel + 2), ticked.slot_eq] at handled
  obtain ⟨free, ws⟩ := storing'.running.workingSet
  obtain ⟨free', ws'⟩ := advances.storing.running.workingSet
  have noted : WorkingSet (middle.notedFault env va) env free :=
    ws.congr rfl rfl rfl rfl rfl rfl rfl fun _ => ⟨rfl, rfl⟩
  have agedNoted : AgedPages (middle.notedFault env va) env (now + 1) last := aged'
  cases located : kernel.memory.slot (kernel.directory env) va with
  | none =>
      rw [located, Option.isSome_none, if_neg Bool.false_ne_true, Except.ok.injEq] at handled
      subst handled
      refine ⟨agedNoted.createPageTable (notedFault_orderly storing'.running.orderly) noted
        ws' ?_ absent',
        fun impossible => absurd impossible Bool.false_ne_true⟩
      exact (ticked.slot_eq env va).trans located
  | some slot =>
      rw [located, Option.isSome_some, if_pos rfl] at handled
      have lru' : (middle.notedFault env va).pageRepAlgoType = .lruTimeApprox :=
        ticked.algorithm.trans lru
      have table : (middle.memory.slot (middle.directory env) va).isSome = true := by
        rw [ticked.slot_eq, located, Option.isSome_some]
      have legal : LegalFault (middle.notedFault env va) env va := by
        have legal := (ticked.accessible accessible).legalFault absent' table
        exact ⟨legal.user, legal.absent, legal.table, legal.legal⟩
      have envs : ((middle.notedFault env va).envs env) = kernel.envs env :=
        congrFun ticked.envs env
      by_cases full : (kernel.envs env).pageWsList.length = (kernel.envs env).pageWsMaxSize
      · obtain ⟨loads, victim, member, least, gone, others⟩ := noted.lru_loadsElement lru'
          storing'.running.active legal (by rwa [envs]) handled
        refine ⟨agedNoted.loaded noted ws' absent' loads,
          fun _ _ => ⟨victim, ?_, ?_, ?_, ?_⟩⟩
        · rwa [← envs]
        · rw [← ticked.vas]
          exact gone
        · intro element inside different
          rw [← ticked.vas]
          exact others element (by rwa [envs]) different
        · intro element inside tick tick' is is' recent
          rw [envs] at member
          have inside' : element ∈ (middle.envs env).pageWsList := by rwa [ticked.envs]
          have member' : victim ∈ (middle.envs env).pageWsList := by rwa [ticked.envs]
          have older := aged' victim member'
          have newer := aged' element inside'
          rw [cleared victim member, ticked.vas] at older
          rw [cleared element inside, ticked.vas] at newer
          have bound := older.earlier tick is
          have bound' := newer.earlier tick' is'
          exact older.le_of_stamp_le newer (least element (by rwa [envs])) is is' (by omega)
      · have room : ((middle.notedFault env va).envs env).pageWsList.length <
            ((middle.notedFault env va).envs env).pageWsMaxSize := by
          refine Nat.lt_of_le_of_ne noted.fits ?_
          rw [envs]
          exact full
        have replaces : (middle.notedFault env va).pageRepAlgoType.Replaces :=
          storing'.running.replaces
        rw [pageFaultHandler_of_room (fuel + 1) replaces room] at handled
        refine ⟨agedNoted.loaded noted ws' absent' ?_,
          fun _ impossible => absurd impossible full⟩
        exact noted.placement_loadsElement accessible.user absent' room handled

/-- The kernel, the number of ticks so far, and in which of them each page was last used. -/
structure Recency where
  kernel : Kernel
  now : Nat
  last : Nat → Option Nat

/-- A use of a present page, a clock interrupt, or a page fault. -/
inductive RecencyMove (env : Nat) (before : Recency) : Recency → Prop
  | use {after : Kernel} (va : Nat) (set : Perm)
      (bits : set = permUsed ∨ set = permUsed ||| permModified) (user : va < userTop)
      (present : before.kernel.pagePresent env va = true)
      (marked : before.kernel.setPagePermissions env va set 0 = .ok after) :
      RecencyMove env before ⟨after, before.now,
        Function.update before.last (roundDown va pageSize) (some before.now)⟩
  | clockInterrupt {after : Kernel} (stamped : before.kernel.stampLru env = .ok after) :
      RecencyMove env before ⟨after, before.now + 1, before.last⟩
  | pageFault {after : Kernel} (va fuel : Nat) (accessible : before.kernel.Accessible env va)
      (absent : before.kernel.pagePresent env va = false)
      (leaves : before.kernel.LeavesVictim env va)
      (returned : before.kernel.trapDispatch env va (fuel + 2) = .ok after) :
      RecencyMove env before ⟨after, before.now + 1,
        after.lastLoaded env va (before.now + 1) before.last⟩

/-- What every step of a run under LRU keeps. -/
structure Recency.Kept (state : Recency) (env : Nat) : Prop where
  storing : Storing state.kernel env
  quiet : state.kernel.Quiet env
  lru : state.kernel.pageRepAlgoType = .lruTimeApprox
  aged : AgedPages state.kernel env state.now state.last

theorem RecencyMove.kept {before after : Recency} (kept : before.Kept env)
    (move : RecencyMove env before after) : after.Kept env := by
  obtain ⟨storing, quiet, lru, aged⟩ := kept
  cases move with
  | use va set bits user present marked =>
      have unset : set &&& permPresent = 0#12 := by rcases bits with rfl | rfl <;> decide
      have sets : Perm.has set permUsed = true := by rcases bits with rfl | rfl <;> decide
      obtain ⟨advances, -⟩ := storing.mark_advances quiet user present unset marked
      exact ⟨advances.storing, advances.quiet, advances.confined.algorithm.trans lru,
        aged.use storing user present sets marked⟩
  | clockInterrupt stamped =>
      obtain ⟨advances, -⟩ := storing.stampLru_advances quiet stamped
      exact ⟨advances.storing, advances.quiet, advances.confined.algorithm.trans lru,
        (aged.stampLru storing lru stamped).1⟩
  | pageFault va fuel accessible absent leaves returned =>
      obtain ⟨advances, -⟩ := storing.trapDispatch_advances quiet accessible absent
        leaves returned
      exact ⟨advances.storing, advances.quiet, advances.confined.algorithm.trans lru,
        (aged.trapDispatch storing quiet lru accessible absent leaves returned).1⟩

theorem Recency.kept_of_run {start : Kernel} {state : Recency} (storing : Storing start env)
    (quiet : start.Quiet env) (lru : start.pageRepAlgoType = .lruTimeApprox)
    (empty : (start.envs env).pageWsList = [])
    (run : Relation.ReflTransGen (RecencyMove env) ⟨start, 0, fun _ => none⟩ state) :
    state.Kept env := by
  induction run with
  | refl =>
      refine ⟨storing, quiet, lru, fun element member => ?_⟩
      rw [show (Recency.mk start 0 fun _ => none).kernel = start from rfl, empty] at member
      exact absurd member List.not_mem_nil
  | tail _ move ih => exact move.kept ih

/-- In every run under LRU a page fault on a full working set ends with the eviction of one page,
and each other page that was used within the last 32 ticks was last used in the same tick as the
victim or later. -/
theorem lru_evictsOldest_of_run (start : Kernel) (env va fuel : Nat) (state : Recency)
    (storing : Storing start env) (quiet : start.Quiet env)
    (lru : start.pageRepAlgoType = .lruTimeApprox) (empty : (start.envs env).pageWsList = [])
    (run : Relation.ReflTransGen (RecencyMove env) ⟨start, 0, fun _ => none⟩ state)
    (accessible : state.kernel.Accessible env va)
    (absent : state.kernel.pagePresent env va = false)
    (located : (state.kernel.memory.slot (state.kernel.directory env) va).isSome = true)
    (full : (state.kernel.envs env).pageWsList.length = (state.kernel.envs env).pageWsMaxSize)
    (leaves : state.kernel.LeavesVictim env va) :
    Ends (state.kernel.trapDispatch env va (fuel + 2))
      (EvictsOldest state.kernel env state.now state.last) Exhausted := by
  obtain ⟨storing', quiet', lru', aged⟩ := Recency.kept_of_run storing quiet lru empty run
  have pending := quiet'.calm.pending absent
  have ends := storing'.trapDispatch_serves (fun faulted same =>
    Nat.le_succ_of_le (pending faulted same)) absent accessible located leaves fuel
  cases returned : state.kernel.trapDispatch env va (fuel + 2) with
  | error halt => exact .error (ends.of_error returned)
  | ok after => exact .ok ((aged.trapDispatch storing' quiet' lru' accessible absent leaves
      returned).2 located full)

/-- Two stack pages are used in turn, and the first one once more after a clock interrupt. -/
def twoPagesUsed : Except Stop Kernel := do
  let kernel ← (blank .lruTimeApprox 2).trapDispatch 0 0xEEBFD000 2
  let kernel ← kernel.setPagePermissions 0 0xEEBFD000 permUsed 0
  let kernel ← kernel.trapDispatch 0 0xEEBFC000 2
  let kernel ← kernel.setPagePermissions 0 0xEEBFC000 permUsed 0
  let kernel ← kernel.stampLru 0
  kernel.setPagePermissions 0 0xEEBFD000 permUsed 0

/-- The next fault evicts the second page. -/
theorem lru_evictsOldest_of_run_twoPages : ∃ kernel, twoPagesUsed = .ok kernel ∧
    Ends (kernel.trapDispatch 0 0xEEBFB000 2) (fun after =>
      after.pagePresent 0 0xEEBFC000 = false ∧ after.pagePresent 0 0xEEBFD000 = true)
          Exhausted := by
  have stack : ∀ (kernel : Kernel) va, 0xEEBFB000 ≤ va → va < uStackTop →
      kernel.Accessible 0 va := by
    intro kernel va above below
    exact accessible_of_stack kernel 0 (Nat.le_trans (by decide) above) below
  obtain ⟨first, faulted, observed⟩ := Returns.exists (show Returns
    ((blank .lruTimeApprox 2).trapDispatch 0 0xEEBFD000 2) (fun first =>
      first.pagePresent 0 0xEEBFD000 && Returns (first.setPagePermissions 0 0xEEBFD000 permUsed 0)
        (fun used => !used.pagePresent 0 0xEEBFC000 &&
          decide ((used.envs 0).pageWsList.length ≠ (used.envs 0).pageWsMaxSize) &&
          Returns (used.trapDispatch 0 0xEEBFC000 2) (fun second =>
            second.pagePresent 0 0xEEBFC000 &&
              Returns (second.setPagePermissions 0 0xEEBFC000 permUsed 0) (fun marked =>
                Returns (marked.stampLru 0) (fun ticked => ticked.pagePresent 0 0xEEBFD000 &&
                  Returns (ticked.setPagePermissions 0 0xEEBFD000 permUsed 0) (fun last =>
                    decide ((last.envs 0).pageWsList = [0, 1] ∧
                      (last.envs 0).pageWsMaxSize = 2 ∧
                      last.elementVa 0 = 0xEEBFD000 ∧ last.elementVa 1 = 0xEEBFC000 ∧
                      last.pagePresent 0 0xEEBFB000 = false ∧
                      (last.memory.slot (last.directory 0) 0xEEBFB000).isSome = true ∧
                      last.nextStamp 0 1 < 2 ^ 32 - 1))))))) = true by decide +kernel)
  obtain ⟨present, observed⟩ := Bool.and_eq_true_iff.mp observed
  obtain ⟨used, marked, observed⟩ := Returns.exists observed
  obtain ⟨state, observed⟩ := Bool.and_eq_true_iff.mp observed
  obtain ⟨absent, room⟩ := Bool.and_eq_true_iff.mp state
  obtain ⟨second, faulted', observed⟩ := Returns.exists observed
  obtain ⟨present', observed⟩ := Bool.and_eq_true_iff.mp observed
  obtain ⟨marked₂, marked', observed⟩ := Returns.exists observed
  obtain ⟨ticked, stamped, observed⟩ := Returns.exists observed
  obtain ⟨present'', observed⟩ := Bool.and_eq_true_iff.mp observed
  obtain ⟨last, marked'', observed⟩ := Returns.exists observed
  obtain ⟨list, size, page, page', absent', table, stamp⟩ := of_decide_eq_true observed
  have user : 0xEEBFD000 < userTop := by decide
  have user' : 0xEEBFC000 < userTop := by decide
  have run : Relation.ReflTransGen (RecencyMove 0)
      ⟨blank .lruTimeApprox 2, 0, fun _ => none⟩ _ :=
    .single (.pageFault 0xEEBFD000 0 (stack _ _ (by decide) (by decide)) (blank_pagePresent ..)
      (fun _ _ _ full => absurd (show 0 = 2 from full) (by decide)) faulted)
  have run := run.tail (.use 0xEEBFD000 permUsed (.inl rfl) user present marked)
  have run := run.tail (.pageFault 0xEEBFC000 0 (stack _ _ (by decide) (by decide))
    ((Bool.not_eq_true' _).mp absent) (fun _ _ _ full => absurd full (of_decide_eq_true room))
      faulted')
  have run := run.tail (.use 0xEEBFC000 permUsed (.inl rfl) user' present' marked')
  have run := run.tail (.clockInterrupt stamped)
  have run := run.tail (.use 0xEEBFD000 permUsed (.inl rfl) user present'' marked'')
  have listed : ∀ {element : Nat}, element = 0 ∨ element = 1 →
      element ∈ (last.envs 0).pageWsList := by
    intro element either
    rw [list]
    rcases either with rfl | rfl <;> simp
  refine ⟨last, ?_, ?_⟩
  · rw [twoPagesUsed, faulted]
    change (first.setPagePermissions 0 0xEEBFD000 permUsed 0 >>= _) = _
    rw [marked]
    change (used.trapDispatch 0 0xEEBFC000 2 >>= _) = _
    rw [faulted']
    change (second.setPagePermissions 0 0xEEBFC000 permUsed 0 >>= _) = _
    rw [marked']
    change (marked₂.stampLru 0 >>= _) = _
    rw [stamped]
    exact marked''
  · apply (lru_evictsOldest_of_run (blank .lruTimeApprox 2) 0 0xEEBFB000 0 _
      (blank_storing .lruTimeApprox trivial Nat.two_pos 0)
        (fun faulted => by cases faulted) rfl rfl run
      (stack _ _ (by decide) (by decide)) absent' table (by rw [list, size]; rfl)
      (fun _ _ _ _ => ⟨1, listed (.inr rfl), stamp⟩)).mono _ fun _ exhausted => exhausted
    rintro after ⟨victim, member, gone, others, oldest⟩
    have second : victim = 1 := by
      have either : victim ∈ [0, 1] := list ▸ member
      rcases List.mem_cons.mp either with same | other
      · have late := oldest 1 (listed (.inr rfl)) 3 2 (by rw [same, page]; rfl)
          (by rw [page']; rfl)
          (show 3 - 2 < 32 by decide)
        exact absurd late (by decide)
      · exact List.mem_singleton.mp other
    rw [second] at gone others
    rw [page'] at gone
    have stays := others 0 (listed (.inl rfl)) (by decide)
    rw [page] at stays
    exact ⟨gone, stays⟩

end Kernel

end FosKernel
