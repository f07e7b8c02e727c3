import FosKernel.Trap.Progress
import FosKernel.Trap.Replacement

/-!
# Runs of page faults and invalidations

The hand of the clock over runs that mix faults of one environment with
`env_page_ws_invalidate` and with all that happens between faults. Under CLOCK and
Modified CLOCK the hand of a full working set is its first element. LRU leaves the
hand where it is, at a freed element when that was its victim.
-/

namespace FosKernel

namespace Kernel

/-- `env_page_ws_invalidate`, in its branch for the algorithms other than LRU by lists. -/
def envPageWsInvalidate (kernel : Kernel) (env va : Nat) : Kernel :=
  let list := (kernel.envs env).pageWsList
  let found := list.find? fun wse =>
    roundDown (kernel.elementVa wse) pageSize = roundDown va pageSize
  match found with
  | none => kernel
  | some wse =>
      let memory := kernel.memory.unmapFrame (kernel.directory env) (kernel.elementVa wse)
      let invalidated := kernel.envs env
      { kernel with memory := memory }.setEnv env
        { invalidated with
          pageLastWsElement :=
            if invalidated.pageLastWsElement = some wse then listNext list wse
            else invalidated.pageLastWsElement
          pageWsList := list.erase wse }

/-- A page fault of an environment, an invalidation, or what happens between them: the processor
and system calls change permissions other than the present bit, the algorithm is switched, and the
clock updates time stamps. A page fault is subject to a condition on the state. -/
inductive WsMove (env : Nat) (condition : Kernel → Prop) (before : Kernel) : Kernel → Prop
  | fault {after : Kernel} (va fuel : Nat)
      (met : (before.memory.getPageTable (before.directory env) va).isSome = true →
        condition before)
      (handled : before.faultHandler env va fuel = .ok after) : WsMove env condition before after
  | invalidate (va : Nat) : WsMove env condition before (before.envPageWsInvalidate env va)
  | permissions {after : Kernel} (other va : Nat) {set clear : Perm}
      (unset : set &&& permPresent = 0#12) (kept : ~~~clear &&& permPresent = permPresent)
      (changed : before.setPagePermissions other va set clear = .ok after) :
      WsMove env condition before after
  | setPageReplacmentAlgorithm {algorithm : PageRepAlgoType} (replaces : algorithm.Replaces) :
      WsMove env condition before { before with pageRepAlgoType := algorithm }
  | tick {after : Kernel} (other : Nat) (stamped : before.updateWsTimeStamps other = .ok after) :
      WsMove env condition before after

/-- An environment with a well-formed working set between faults, while OPTIMAL is not used. -/
structure Running (kernel : Kernel) (env : Nat) : Prop where
  orderly : kernel.Orderly
  workingSet : ∃ free, WorkingSet kernel env free
  active : kernel.pageActiveWsList = []
  replaces : kernel.pageRepAlgoType.Replaces

variable {kernel before after : Kernel} {env va fuel : Nat} {free : List Nat}

/-- A new page table holds no page. -/
theorem createPageTable_pageEntry (orderly : kernel.Orderly)
    (missing : kernel.memory.getPageTable (kernel.directory env) va = none) (page : Nat) :
    (kernel.createPageTable env va).pageEntry env page = kernel.pageEntry env page :=
  createPageTable_pageEntry_of_fresh (orderly.fresh _) missing page

theorem WorkingSet.createPageTable (ws : WorkingSet kernel env free) (orderly : kernel.Orderly)
    (missing : kernel.memory.getPageTable (kernel.directory env) va = none) :
    WorkingSet (kernel.createPageTable env va) env free where
  mapped := by
    have entries := createPageTable_pageEntry orderly missing
    exact { ws.mapped with
      separate := (orderly.createPageTable env va).separateTables env
      present := fun page user => by
        rw [← pageEntry_present, entries, pageEntry_present]
        exact ws.mapped.present page user
      owns := fun page member page' member' => by
        rw [entries, entries]
        exact ws.mapped.owns page member page' member'
      apart := fun page member => by
        rw [entries]
        exact ws.mapped.apart page member }
  created := ws.created
  fits := ws.fits

/-- What an invalidation does to the list and the hand. -/
theorem envPageWsInvalidate_cases (kernel : Kernel) (env va : Nat) :
    kernel.envPageWsInvalidate env va = kernel ∨
      ∃ front wse back, (kernel.envs env).pageWsList = front ++ wse :: back ∧
        kernel.envPageWsInvalidate env va =
          (kernel.evicted env (kernel.elementVa wse) kernel.disk (kernel.envs env).diskEnvPgdir
            (front ++ back)).setHand env
              (if (kernel.envs env).pageLastWsElement = some wse then back.head?
              else (kernel.envs env).pageLastWsElement) := by
  unfold envPageWsInvalidate
  dsimp only
  split
  · exact .inl rfl
  · rename_i wse found
    have member := List.mem_of_find?_eq_some found
    obtain ⟨front, back, split, outside⟩ := List.eq_append_cons_of_mem member
    refine .inr ⟨front, wse, back, split, ?_⟩
    rw [split, List.erase_append_right _ outside, List.erase_cons_head, listNext_append outside]
    simp [evicted, withDisk, withList, setHand, setEnv]

theorem WorkingSet.envPageWsInvalidate (ws : WorkingSet kernel env free) (va : Nat) :
    ∃ free', WorkingSet (kernel.envPageWsInvalidate env va) env free' := by
  rcases envPageWsInvalidate_cases kernel env va with same | ⟨front, wse, back, split, same⟩
  · rw [same]
    exact ⟨free, ws⟩
  · obtain ⟨free', ws', -⟩ := ws.of_evicted kernel.disk (kernel.envs env).diskEnvPgdir split
      (List.Perm.refl (front ++ back))
    rw [same]
    exact ⟨free', ws'.of_searched (.setHand ..)⟩

/-- An invalidation changes page-table entries and one environment. -/
theorem envPageWsInvalidate_settles (kernel : Kernel) (env va : Nat) :
    Settles kernel (kernel.envPageWsInvalidate env va) := by
  unfold Kernel.envPageWsInvalidate
  dsimp only
  split
  · exact .refl kernel
  · rename_i wse _
    exact (unmapFrame_withdraws kernel env (kernel.elementVa wse)).settles.trans (.of_setEnv rfl)

theorem envPageWsInvalidate_active (kernel : Kernel) (env va : Nat) :
    (kernel.envPageWsInvalidate env va).pageActiveWsList = kernel.pageActiveWsList := by
  unfold Kernel.envPageWsInvalidate
  dsimp only
  split <;> rfl

/-- Permissions and time stamps are apart from the environments. -/
def SameEnvs (before after : Kernel) : Prop :=
  after.envs = before.envs ∧ after.pageActiveWsList = before.pageActiveWsList

theorem setPagePermissions_sameEnvs (kernel : Kernel) (env va : Nat) (set clear : Perm) :
    Ends (kernel.setPagePermissions env va set clear) (SameEnvs kernel) Stop.Unrejected := by
  cases located : kernel.memory.slot (kernel.directory env) va with
  | none =>
      rw [setPagePermissions_of_missing kernel located]
      exact .error trivial
  | some slot =>
      rw [setPagePermissions_eq kernel located]
      exact .ok ⟨rfl, rfl⟩

theorem updateWsTimeStamps_sameEnvs (kernel : Kernel) (env : Nat) :
    Ends (kernel.updateWsTimeStamps env) (SameEnvs kernel) Stop.Unrejected := by
  unfold updateWsTimeStamps
  refine Ends.foldlM (SameEnvs kernel) ?_ kernel ⟨rfl, rfl⟩
  intro stamped element _ ⟨envs, active⟩
  dsimp only
  split
  · apply (setPagePermissions_sameEnvs _ env _ 0 permUsed).mono _ fun _ unrejected => unrejected
    intro after ⟨envs', active'⟩
    exact ⟨envs'.trans envs, active'.trans active⟩
  · exact .ok ⟨envs, active⟩

/-- What a step does to the environment's record: nothing, what a page fault does, or the removal
of an invalidated element, whose successor the hand takes. -/
inductive Steps (condition : Kernel → Prop) (before : Kernel) (env : Nat) (value : Env) : Prop
  | kept (same : value = before.envs env)
  | fault (met : condition before) (rearranged : Rearranged before env value)
      (size : value.pageWsMaxSize = (before.envs env).pageWsMaxSize)
  | invalidate {front back : List Nat} {wse : Nat}
      (split : (before.envs env).pageWsList = front ++ wse :: back)
      (list : value.pageWsList = front ++ back)
      (hand : value.pageLastWsElement =
        if (before.envs env).pageLastWsElement = some wse then back.head?
        else (before.envs env).pageLastWsElement)
      (size : value.pageWsMaxSize = (before.envs env).pageWsMaxSize)

theorem Rearranged.of_noted {value : Env}
    (rearranged : Rearranged (kernel.notedFault env va) env value) :
        Rearranged kernel env value := by
  cases rearranged with
  | placement room list hand => exact .placement room list hand
  | clock full filled hand => exact .clock full filled hand
  | lru algorithm full oldest split list hand => exact .lru algorithm full oldest split list hand

/-- A fault that the handler returns from: a page table was created, or a page was served. -/
theorem Running.faultHandler (running : Running kernel env)
    (hand : kernel.pageRepAlgoType ≠ .lruTimeApprox →
      (kernel.envs env).pageWsList.length = (kernel.envs env).pageWsMaxSize →
        kernel.HandListed env)
    (handled : kernel.faultHandler env va fuel = .ok after) :
    Running after env ∧
      (kernel.memory.getPageTable (kernel.directory env) va = none ∧
          after.envs env = kernel.envs env ∨
        (kernel.memory.getPageTable (kernel.directory env) va).isSome = true ∧
        Rearranged kernel env (after.envs env) ∧
        (after.envs env).pageWsMaxSize = (kernel.envs env).pageWsMaxSize) := by
  obtain ⟨free, ws⟩ := running.workingSet
  have orderly := (faultHandler_orderly kernel env va fuel running.orderly).of_ok handled
  have noted : WorkingSet (kernel.notedFault env va) env free :=
    ws.congr rfl rfl rfl rfl rfl rfl rfl fun _ => ⟨rfl, rfl⟩
  have ends : Ends (kernel.faultHandler env va fuel)
      (fun after => after.Orderly → Running after env ∧
        (kernel.memory.getPageTable (kernel.directory env) va = none ∧
          after.envs env = kernel.envs env ∨
        (kernel.memory.getPageTable (kernel.directory env) va).isSome = true ∧
          Rearranged kernel env (after.envs env) ∧
          (after.envs env).pageWsMaxSize = (kernel.envs env).pageWsMaxSize))
      fun _ => True := by
    apply faultHandler_ends
    · trivial
    · trivial
    · intro missing orderly
      exact ⟨⟨orderly, ⟨free,
        noted.createPageTable (notedFault_orderly running.orderly) missing⟩,
        running.active, running.replaces⟩, .inl ⟨missing, rfl⟩⟩
    · intro below located absent
      refine .of_returns fun after returned orderly => ?_
      have user : va < userTop := by
        unfold uStackTop at below
        omega
      have served := noted.pageFaultHandler_served running.replaces running.active
        hand user absent returned
      refine ⟨⟨orderly, served.workingSet, served.active.trans running.active,
        served.algorithm ▸ running.replaces⟩,
          .inr ⟨?_, served.rearranged.of_noted, served.size⟩⟩
      rwa [Memory.slot, Option.isSome_map] at located
  exact ends.of_ok handled orderly

/-- What every step keeps, and what it does to the environment's record. -/
theorem WsMove.steps {condition : Kernel → Prop} (running : Running before env)
    (hand : before.pageRepAlgoType ≠ .lruTimeApprox →
      (before.envs env).pageWsList.length = (before.envs env).pageWsMaxSize →
        before.HandListed env)
    (move : WsMove env condition before after) :
    Running after env ∧ Steps condition before env (after.envs env) := by
  obtain ⟨free, ws⟩ := running.workingSet
  cases move with
  | fault va fuel met handled =>
      obtain ⟨running', ⟨-, same⟩ | ⟨located, rearranged, size⟩⟩ :=
        running.faultHandler hand handled
      · exact ⟨running', .kept same⟩
      · exact ⟨running', .fault (met located) rearranged size⟩
  | invalidate va =>
      have settles := envPageWsInvalidate_settles before env va
      have active := envPageWsInvalidate_active before env va
      refine ⟨⟨settles.orderly running.orderly, ws.envPageWsInvalidate va,
        active.trans running.active,
        settles.algorithm ▸ running.replaces⟩, ?_⟩
      rcases envPageWsInvalidate_cases before env va with same | ⟨front, wse, back, split, same⟩
      · exact .kept (by rw [same])
      · have value : (before.envPageWsInvalidate env va).envs env =
            { before.envs env with
              pageWsList := front ++ back
              pageLastWsElement := if (before.envs env).pageLastWsElement = some wse then back.head?
                else (before.envs env).pageLastWsElement } := by
          rw [same, setHand, setEnv_self, evicted_self]
        rw [value]
        exact .invalidate split rfl rfl rfl
  | permissions other va unset kept changed =>
      have settles := (setPagePermissions_settles before other va _ _).of_ok changed
      obtain ⟨envs, active⟩ := (setPagePermissions_sameEnvs before other va _ _).of_ok changed
      have ws' := (ws.of_setPagePermissions unset kept other va).of_ok changed
      exact ⟨⟨settles.orderly running.orderly, ⟨free, ws'⟩, active.trans running.active,
        settles.algorithm ▸ running.replaces⟩, .kept (congrFun envs env)⟩
  | setPageReplacmentAlgorithm replaces =>
      exact ⟨⟨{ running.orderly with implemented := .inr replaces },
        ⟨free, ws.congr rfl rfl rfl rfl rfl rfl rfl fun _ => ⟨rfl, rfl⟩⟩,
          running.active, replaces⟩,
        .kept rfl⟩
  | tick other stamped =>
      have settles := (updateWsTimeStamps_settles before other).of_ok stamped
      obtain ⟨envs, active⟩ := (updateWsTimeStamps_sameEnvs before other).of_ok stamped
      have ws' := (ws.of_updateWsTimeStamps other).of_ok stamped
      exact ⟨⟨settles.orderly running.orderly, ⟨free, ws'⟩, active.trans running.active,
        settles.algorithm ▸ running.replaces⟩, .kept (congrFun envs env)⟩

/-- CLOCK or Modified CLOCK handles the faults. -/
def Clocks (kernel : Kernel) : Prop :=
  kernel.pageRepAlgoType = .clock ∨ kernel.pageRepAlgoType = .modifiedClock

/-- The hand of a full working set is its first element. -/
def HandFirst (kernel : Kernel) (env : Nat) : Prop :=
  (kernel.envs env).pageWsList.length = (kernel.envs env).pageWsMaxSize →
    (kernel.envs env).pageLastWsElement = (kernel.envs env).pageWsList.head?

/-- The working set has distinct user pages, not more than allowed, which are the present ones; each
has a frame of its own, and the hand of a full working set is its first element. -/
structure ClockConsistent (kernel : Kernel) (env : Nat) : Prop where
  distinct : (kernel.wsPages env).Nodup
  aligned : ∀ page ∈ kernel.wsPages env, IsUserPage page
  fits : (kernel.envs env).pageWsList.length ≤ (kernel.envs env).pageWsMaxSize
  present : ∀ va < userTop,
    kernel.pagePresent env va = true ↔ roundDown va pageSize ∈ kernel.wsPages env
  owns : ∀ page ∈ kernel.wsPages env, ∀ page' ∈ kernel.wsPages env,
    (kernel.pageEntry env page).frame = (kernel.pageEntry env page').frame → page = page'
  hand : kernel.HandFirst env

/-- The first element of a full working set is an element. -/
theorem HandFirst.listed (first : kernel.HandFirst env)
    (positive : 0 < (kernel.envs env).pageWsMaxSize)
    (full : (kernel.envs env).pageWsList.length = (kernel.envs env).pageWsMaxSize) :
    kernel.HandListed env := by
  have hand := first full
  cases list : (kernel.envs env).pageWsList with
  | nil =>
      rw [list, List.length_nil] at full
      exact absurd positive (by rw [← full]; exact Nat.lt_irrefl 0)
  | cons head rest =>
      rw [list] at hand
      exact ⟨head, by rw [list]; exact List.mem_cons_self .., hand⟩

/-- Under CLOCK and Modified CLOCK every step keeps the hand of a full working set first. -/
theorem Steps.handFirst (steps : Steps Clocks before env (after.envs env))
    (fits : (before.envs env).pageWsList.length ≤ (before.envs env).pageWsMaxSize)
    (first : before.HandFirst env) : after.HandFirst env := by
  intro full
  cases steps with
  | kept same =>
      rw [same] at full ⊢
      exact first full
  | fault met rearranged size =>
      cases rearranged with
      | placement room list hand => rw [hand, if_pos full]
      | clock full filled hand => exact hand
      | lru algorithm =>
          rcases met with other | other <;> rw [algorithm] at other <;> cases other
  | invalidate split list hand size =>
      rw [list, size, List.length_append] at full
      rw [split, List.length_append, List.length_cons] at fits
      omega

/-- What every step of CLOCK and Modified CLOCK keeps. -/
structure ClockRunning (kernel : Kernel) (env : Nat) : Prop where
  running : Running kernel env
  positive : 0 < (kernel.envs env).pageWsMaxSize
  first : kernel.HandFirst env

theorem Steps.size {condition : Kernel → Prop} {value : Env}
    (steps : Steps condition before env value) :
    value.pageWsMaxSize = (before.envs env).pageWsMaxSize := by
  cases steps with
  | kept same => rw [same]
  | fault _ _ size => exact size
  | invalidate _ _ _ size => exact size

theorem WsMove.clockRunning (clock : ClockRunning before env)
    (move : WsMove env Clocks before after) : ClockRunning after env := by
  obtain ⟨running, positive, first⟩ := clock
  obtain ⟨running', steps⟩ := move.steps running fun _ full => first.listed positive full
  obtain ⟨free, ws⟩ := running.workingSet
  exact ⟨running', by rwa [steps.size], steps.handFirst ws.fits first⟩

theorem ClockRunning.of_run {start : Kernel} (clock : ClockRunning start env)
    (run : Relation.ReflTransGen (WsMove env Clocks) start kernel) : ClockRunning kernel env := by
  induction run with
  | refl => exact clock
  | tail _ move ih => exact move.clockRunning ih

/-- In every run of faults under CLOCK and Modified CLOCK and of invalidations the working set stays
consistent, and a placement that does not fill it leaves no hand. -/
theorem clockConsistent_of_run (start kernel : Kernel) (env : Nat) (running : Running start env)
    (positive : 0 < (start.envs env).pageWsMaxSize) (first : start.HandFirst env)
    (run : Relation.ReflTransGen (WsMove env Clocks) start kernel) :
    kernel.ClockConsistent env ∧ ∀ va fuel after,
      kernel.faultHandler env va fuel = .ok after →
      (kernel.memory.getPageTable (kernel.directory env) va).isSome = true →
        (kernel.envs env).pageWsList.length < (kernel.envs env).pageWsMaxSize →
          (after.envs env).pageWsList.length ≠ (after.envs env).pageWsMaxSize →
            (after.envs env).pageLastWsElement = none := by
  obtain ⟨running, positive, first⟩ := ClockRunning.of_run ⟨running, positive, first⟩ run
  obtain ⟨free, ws⟩ := running.workingSet
  refine ⟨⟨ws.mapped.nodup, ws.mapped.user, ws.fits, ws.mapped.present,
    ws.mapped.owns, first⟩, ?_⟩
  intro va fuel after handled located room unfilled
  obtain ⟨-, ⟨missing, -⟩ | ⟨-, rearranged, -⟩⟩ :=
    running.faultHandler (fun _ full => first.listed positive full) handled
  · rw [missing] at located
    cases located
  · cases rearranged with
    | placement _ _ hand => rw [hand, if_neg unfilled]
    | clock full => exact absurd room (by rw [full]; exact Nat.lt_irrefl _)
    | lru _ full => exact absurd room (by rw [full]; exact Nat.lt_irrefl _)

theorem blank_pagePresent (algorithm : PageRepAlgoType) (size env va : Nat) :
    (blank algorithm size).pagePresent env va = false := by
  unfold pagePresent Memory.entry
  cases (blank algorithm size).memory.slot ((blank algorithm size).directory env) va with
  | none => rfl
  | some slot =>
      have empty : (blank algorithm size).memory.tables slot =
        .zero := by simp [blank, Memory.blank]
      rw [Option.map_some, empty]
      rfl

theorem blank_represents (algorithm : PageRepAlgoType) (size : Nat) :
    (blank algorithm size).memory.freeFrameList.Represents [258, 257, 256] := by
  apply Memory.freeFrame_represents (Memory.freeFrame_represents
    (Memory.freeFrame_represents ?_ (by simp)) (by simp)) (by simp)
  exact ⟨List.nodup_nil, rfl, rfl, rfl, trivial⟩

theorem blank_running (algorithm : PageRepAlgoType) (replaces : algorithm.Replaces)
    (size env : Nat) : Running (blank algorithm size) env := by
  have orderly := blank_orderly algorithm (.inr replaces) size
  have mapped : Mapped (blank algorithm size) env [] [258, 257, 256] := {
    separate := orderly.separateTables env
    nodup := List.nodup_nil
    user := nofun
    present := fun va _ => by simp [blank_pagePresent]
    owns := nofun
    represents := blank_represents algorithm size
    apart := nofun }
  exact ⟨orderly, ⟨_, mapped, nofun, Nat.zero_le _⟩, rfl, replaces⟩

/-- Three stack pages in a working set of two pages: the third one replaces the first. -/
theorem clockConsistent_of_run_blank : ∃ kernel : Kernel,
    kernel.wsPages 0 = [0xEEBFC000, 0xEEBFB000] ∧ kernel.ClockConsistent 0 := by
  obtain ⟨first, faulted, observed⟩ := Returns.exists (show Returns
    ((blank .clock 2).faultHandler 0 0xEEBFD000 2) (fun first =>
      decide (first.pageRepAlgoType = .clock) && Returns (first.faultHandler 0 0xEEBFC000 2)
        (fun second => decide (second.pageRepAlgoType = .clock) && Returns
          (second.faultHandler 0 0xEEBFB000 2)
            (fun third => third.wsPages 0 == [0xEEBFC000, 0xEEBFB000]))) = true by decide +kernel)
  obtain ⟨clock, observed⟩ := Bool.and_eq_true_iff.mp observed
  obtain ⟨second, faulted', observed⟩ := Returns.exists observed
  obtain ⟨clock', observed⟩ := Bool.and_eq_true_iff.mp observed
  obtain ⟨third, faulted'', pages⟩ := Returns.exists observed
  refine ⟨third, beq_iff_eq.mp pages, (clockConsistent_of_run (blank .clock 2) third 0
    (blank_running .clock trivial 2 0) (by decide) (fun full => absurd full (by decide)) ?_).1⟩
  exact ((Relation.ReflTransGen.single (.fault _ 2 (fun _ => .inl rfl) faulted)).tail
    (.fault _ 2 (fun _ => .inl (of_decide_eq_true clock)) faulted')).tail
      (.fault _ 2 (fun _ => .inl (of_decide_eq_true clock')) faulted'')

/-- The hand is an element of the working set, or the working set is not full and there is none. -/
def HandValid (kernel : Kernel) (env : Nat) : Prop :=
  kernel.HandListed env ∨
    (kernel.envs env).pageWsList.length < (kernel.envs env).pageWsMaxSize ∧
      (kernel.envs env).pageLastWsElement = none

instance (kernel : Kernel) (env : Nat) : Decidable (kernel.HandValid env) :=
  inferInstanceAs (Decidable ((∃ hand ∈ (kernel.envs env).pageWsList,
    (kernel.envs env).pageLastWsElement = some hand) ∨ _ ∧ _ = none))

/-- LRU does not evict the element at the hand. -/
def SparesHand (env : Nat) (kernel : Kernel) : Prop :=
  kernel.pageRepAlgoType = .lruTimeApprox →
    (kernel.envs env).pageWsList.length = (kernel.envs env).pageWsMaxSize →
      ∀ hand, (kernel.envs env).pageLastWsElement = some hand → ¬ kernel.Oldest env hand

/-- Some element of a full working set is older than the one at the hand. -/
def SparesAny (kernel : Kernel) (env : Nat) : Prop :=
  (kernel.envs env).pageWsList.length = (kernel.envs env).pageWsMaxSize →
    ∃ hand ∈ (kernel.envs env).pageWsList, (kernel.envs env).pageLastWsElement = some hand ∧
      ∃ other ∈ (kernel.envs env).pageWsList,
        (kernel.elements other).timeStamp < (kernel.elements hand).timeStamp

instance (kernel : Kernel) (env : Nat) : Decidable (kernel.SparesAny env) :=
  inferInstanceAs (Decidable (_ = _ → _))

theorem SparesAny.sparesHand (spares : kernel.SparesAny env) : SparesHand env kernel := by
  intro _ full hand place oldest
  obtain ⟨hand', -, place', other, member, older⟩ := spares full
  obtain rfl := Option.some.inj (place.symm.trans place')
  obtain ⟨front, back, split, -, before, behind⟩ := oldest
  rw [split, List.mem_append, List.mem_cons] at member
  rcases member with member | rfl | member
  · exact Nat.lt_asymm older (before other member)
  · exact Nat.lt_irrefl _ older
  · exact Nat.not_lt.mpr (behind other member) older

theorem HandValid.listed (valid : kernel.HandValid env)
    (full : (kernel.envs env).pageWsList.length = (kernel.envs env).pageWsMaxSize) :
    kernel.HandListed env := by
  rcases valid with listed | ⟨room, -⟩
  · exact listed
  · rw [full] at room
    exact absurd room (Nat.lt_irrefl _)

/-- A step keeps the hand valid unless it lets LRU evict the element at the hand. -/
theorem Steps.handValid (steps : Steps (SparesHand env) before env (after.envs env))
    (fits : (before.envs env).pageWsList.length ≤ (before.envs env).pageWsMaxSize)
    (fits' : (after.envs env).pageWsList.length ≤ (after.envs env).pageWsMaxSize)
    (valid : before.HandValid env) : after.HandValid env := by
  -- the first element of a list that is not empty
  have head : (after.envs env).pageWsList ≠ [] →
      (after.envs env).pageLastWsElement = (after.envs env).pageWsList.head? →
        after.HandValid env := by
    intro nonempty hand
    cases list : (after.envs env).pageWsList with
    | nil => exact absurd list nonempty
    | cons first rest =>
        rw [list] at hand
        exact .inl ⟨first, by rw [list]; exact List.mem_cons_self .., hand⟩
  cases steps with
  | kept same =>
      unfold HandValid HandListed
      rw [same]
      exact valid
  | fault met rearranged size =>
      cases rearranged with
      | placement room list hand =>
          by_cases full : (after.envs env).pageWsList.length = (after.envs env).pageWsMaxSize
          · rw [if_pos full] at hand
            exact head (by rw [list]; exact List.append_ne_nil_of_right_ne_nil _ (by simp)) hand
          · rw [if_neg full] at hand
            exact .inr ⟨Nat.lt_of_le_of_ne fits' full, hand⟩
      | clock full filled hand =>
          refine head (fun empty => ?_) hand
          obtain ⟨element, member, -⟩ := valid.listed full
          have positive := List.length_pos_of_mem member
          rw [empty, List.length_nil, size, ← full] at filled
          omega
      | @lru front back victim algorithm full oldest split list hand =>
          obtain ⟨element, member, pointed⟩ := valid.listed full
          have different : element ≠ victim := fun same =>
            met algorithm full element pointed (same ▸ oldest)
          refine .inl ⟨element, ?_, hand.trans pointed⟩
          rw [split, List.mem_append, List.mem_cons] at member
          rw [list]
          simp only [List.mem_append]
          tauto
  | @invalidate front back wse split list hand size =>
      have shorter : (after.envs env).pageWsList.length < (after.envs env).pageWsMaxSize := by
        rw [list, size, List.length_append]
        rw [split, List.length_append, List.length_cons] at fits
        omega
      by_cases removed : (before.envs env).pageLastWsElement = some wse
      · rw [if_pos removed] at hand
        cases back with
        | nil => exact .inr ⟨shorter, hand⟩
        | cons next back =>
            exact .inl ⟨next, by rw [list]; simp, hand⟩
      · rw [if_neg removed] at hand
        rcases valid with ⟨element, member, pointed⟩ | ⟨-, none⟩
        · have different : element ≠ wse := fun same => removed (same ▸ pointed)
          refine .inl ⟨element, ?_, hand.trans pointed⟩
          rw [split, List.mem_append, List.mem_cons] at member
          rw [list, List.mem_append]
          tauto
        · exact .inr ⟨shorter, hand.trans none⟩

/-- What every step keeps as long as LRU spares the element at the hand. -/
theorem WsMove.handValid (running : Running before env) (valid : before.HandValid env)
    (move : WsMove env (SparesHand env) before after) :
        Running after env ∧ after.HandValid env := by
  obtain ⟨running', steps⟩ := move.steps running fun _ full => valid.listed full
  obtain ⟨free, ws⟩ := running.workingSet
  obtain ⟨free', ws'⟩ := running'.workingSet
  exact ⟨running', steps.handValid ws.fits ws'.fits valid⟩

/-- The handler follows no hand that is not an element: its search reaches no `NULL` and does not
go around without end. -/
def SearchSafe (kernel : Kernel) (env : Nat) : Prop :=
  ∀ va fuel, (kernel.pageRepAlgoType = .clock ∨ kernel.pageRepAlgoType = .modifiedClock) →
    kernel.pagePresent env va = false → va < userTop →
      Ends (kernel.pageFaultHandler env va (fuel + 2)) (fun _ => True)
        fun halt => halt ≠ .nullPointer ∧ halt ≠ .hang

/-- With a valid hand the search of CLOCK and of Modified CLOCK is safe. -/
theorem HandValid.searchSafe (running : Running kernel env) (valid : kernel.HandValid env) :
    kernel.SearchSafe env := by
  intro va fuel clocks absent user
  obtain ⟨free, ws⟩ := running.workingSet
  have loadStops : ∀ loading : Kernel, ∀ halt, loading.LoadStops env va halt →
      halt ≠ .nullPointer ∧ halt ≠ .hang := by
    rintro loading halt (same | ⟨-, same⟩ | ⟨-, -, stopped, same, -⟩) <;> rw [same] <;>
      exact ⟨nofun, nofun⟩
  by_cases room : (kernel.envs env).pageWsList.length < (kernel.envs env).pageWsMaxSize
  · rw [pageFaultHandler_of_room (fuel + 1) running.replaces room]
    exact (placement_returns user absent).mono (fun _ _ => trivial) (loadStops kernel)
  · have full := Nat.le_antisymm ws.fits (Nat.le_of_not_lt room)
    have lru : kernel.pageRepAlgoType ≠ .lruTimeApprox := by
      rcases clocks with same | same <;> rw [same] <;> nofun
    have hasVictim : kernel.HasVictim env := by
      unfold HasVictim
      rw [if_neg lru]
      exact valid.listed full
    obtain ⟨searched, victim, front, back, list, chosen, handled⟩ :=
      pageFaultHandler_of_full fuel running.replaces ws
        (not_skips_of_inactive running.active env va)
        full hasVictim
    rw [handled]
    have ws' := ws.of_searched chosen.search
    have member : victim ∈ (searched.envs env).pageWsList := by
      rw [chosen.search.pageWsList, chosen.split]
      simp
    apply (replace_returns ws'.resident member user (chosen.search.withdraws.absent absent)).mono
      fun _ _ => trivial
    rintro halt ((same | ⟨same, -⟩) | ⟨evicted, -, stops⟩)
    · rw [same]
      exact ⟨nofun, nofun⟩
    · rw [same]
      exact ⟨nofun, nofun⟩
    · exact loadStops evicted halt stops

/-- In every run in which LRU spares the element at the hand, the hand is valid and its search is
safe. -/
theorem handValid_of_run (start kernel : Kernel) (env : Nat) (running : Running start env)
    (valid : start.HandValid env)
    (run : Relation.ReflTransGen (WsMove env (SparesHand env)) start kernel) :
    kernel.HandValid env ∧ kernel.SearchSafe env := by
  have holds : Running kernel env ∧ kernel.HandValid env := by
    induction run with
    | refl => exact ⟨running, valid⟩
    | tail _ move ih => exact move.handValid ih.1 ih.2
  exact ⟨holds.2, holds.2.searchSafe holds.1⟩

/-- The first one of two stack pages is at the hand and used. LRU evicts the other one for a third
page. -/
theorem handValid_of_run_blank : ∃ kernel : Kernel,
    kernel.wsPages 0 = [0xEEBFD000, 0xEEBFB000] ∧ kernel.HandValid 0 := by
  obtain ⟨first, faulted, observed⟩ := Returns.exists (show Returns
    ((blank .lruTimeApprox 2).faultHandler 0 0xEEBFD000 2) (fun first =>
      decide (first.SparesAny 0) && Returns (first.faultHandler 0 0xEEBFC000 2) (fun second =>
        Returns (second.setPagePermissions 0 0xEEBFD000 permUsed 0) (fun used =>
          Returns (used.updateWsTimeStamps 0) (fun stamped =>
            decide (stamped.SparesAny 0) && Returns (stamped.faultHandler 0 0xEEBFB000 2)
              (fun third => third.wsPages 0 == [0xEEBFD000, 0xEEBFB000]))))) = true by
        decide +kernel)
  obtain ⟨spares, observed⟩ := Bool.and_eq_true_iff.mp observed
  obtain ⟨second, faulted', observed⟩ := Returns.exists observed
  obtain ⟨used, accessed, observed⟩ := Returns.exists observed
  obtain ⟨stamped, ticked, observed⟩ := Returns.exists observed
  obtain ⟨spares', observed⟩ := Bool.and_eq_true_iff.mp observed
  obtain ⟨third, faulted'', pages⟩ := Returns.exists observed
  have start : (blank .lruTimeApprox 2).SparesAny 0 := by decide
  refine ⟨third, beq_iff_eq.mp pages, (handValid_of_run (blank .lruTimeApprox 2) third 0
    (blank_running .lruTimeApprox trivial 2 0) (.inr ⟨by decide, rfl⟩) ?_).1⟩
  have filled : Relation.ReflTransGen (WsMove 0 (SparesHand 0)) (blank .lruTimeApprox 2) second :=
    (Relation.ReflTransGen.single (.fault _ 2 (fun _ => start.sparesHand) faulted)).tail
      (.fault _ 2 (fun _ => (of_decide_eq_true spares).sparesHand) faulted')
  exact ((filled.tail (.permissions 0 _ (by decide) (by decide) accessed)).tail
    (.tick 0 ticked)).tail (.fault _ 2 (fun _ => (of_decide_eq_true spares').sparesHand) faulted'')

/-- LRU evicts the only page of a working set and leaves the hand at its freed element. -/
theorem not_handValid_after_lru : ∃ kernel,
    Relation.ReflTransGen (WsMove 0 fun _ => True) (blank .lruTimeApprox 1) kernel ∧
      ¬ kernel.HandValid 0 := by
  obtain ⟨first, faulted, observed⟩ := Returns.exists (show Returns
    ((blank .lruTimeApprox 1).faultHandler 0 0xEEBFD000 1) (fun first => Returns
      (first.faultHandler 0 0xEEBFC000 1) (fun second => decide (¬ second.HandValid 0))) = true by
        decide +kernel)
  obtain ⟨second, faulted', dangling⟩ := Returns.exists observed
  exact ⟨second, (Relation.ReflTransGen.single (.fault _ 1 (fun _ => trivial) faulted)).tail
    (.fault _ 1 (fun _ => trivial) faulted'), of_decide_eq_true dangling⟩

end Kernel

end FosKernel
