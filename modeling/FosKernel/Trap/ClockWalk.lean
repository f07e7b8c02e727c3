import FosKernel.Lib.ClockRing
import FosKernel.Trap.Replacement

/-!
# The walk of the hand

What the loops of CLOCK and Modified CLOCK do on a working set of present pages:
they go around the circular sequence of the elements from the hand on, and
change nothing but the hand and the used bits of the pages they pass.
-/

namespace FosKernel

open ClockRing

namespace Kernel

variable {kernel before middle after : Kernel} {env va element : Nat} {slot : Slot}
  {ring passed more elements elements' : List Nat}

/-- The modified bit of an element's page. -/
def modified (kernel : Kernel) (env element : Nat) : Bool :=
  Perm.has (kernel.pagePermissions env (kernel.elementVa element)) permModified

/-- The elements of the working set in circular order, from the hand on. -/
def RingAt (kernel : Kernel) (env : Nat) (ring : List Nat) : Prop :=
  ∃ hand, (kernel.envs env).pageLastWsElement = some hand ∧
    RingOf (kernel.envs env).pageWsList hand ring

/-- A search that cleared the used bits of the pages of some elements and no others. -/
structure Cleared (env : Nat) (before after : Kernel) (elements : List Nat) : Prop where
  search : Searched env before after
  entries : ∀ va < 2 ^ 32, after.pageEntry env va =
    if roundDown va pageSize ∈ elements.map before.elementVa then
      (before.pageEntry env va).setPerms 0 permUsed
    else before.pageEntry env va

namespace Cleared

theorem refl (kernel : Kernel) (env : Nat) : Cleared env kernel kernel [] where
  search := .refl kernel env
  entries va _ := by rw [List.map_nil, if_neg List.not_mem_nil]

theorem setHand (kernel : Kernel) (env : Nat) (hand : Option Nat) :
    Cleared env kernel (kernel.setHand env hand) [] where
  search := .setHand kernel env hand
  entries va _ := by
    rw [List.map_nil, if_neg List.not_mem_nil]
    have memory : (kernel.setHand env hand).memory = kernel.memory := rfl
    exact pageEntry_congr (congrArg Memory.tables memory) (congrArg Memory.directories memory)
      (setHand_directory ..) va

theorem elementVa (cleared : Cleared env before after elements) :
    after.elementVa = before.elementVa := by
  unfold Kernel.elementVa
  rw [cleared.search.withdraws.elements]

theorem trans (first : Cleared env before middle elements)
    (second : Cleared env middle after elements') :
    Cleared env before after (elements ++ elements') where
  search := first.search.trans second.search
  entries va bound := by
    rw [second.entries va bound, first.entries va bound, first.elementVa, List.map_append]
    simp only [List.mem_append]
    by_cases inFirst : roundDown va pageSize ∈ elements.map before.elementVa
    · by_cases inSecond : roundDown va pageSize ∈ elements'.map before.elementVa
      · rw [if_pos inSecond, if_pos inFirst, if_pos (.inl inFirst),
          PageTableEntry.setPerms_clear_clear]
      · rw [if_neg inSecond, if_pos inFirst, if_pos (.inl inFirst)]
    · by_cases inSecond : roundDown va pageSize ∈ elements'.map before.elementVa
      · rw [if_pos inSecond, if_neg inFirst, if_pos (.inr inSecond)]
      · rw [if_neg inSecond, if_neg inFirst, if_neg (not_or.mpr ⟨inFirst, inSecond⟩)]

/-- Clearing the bit of one element. -/
theorem one (separate : kernel.SeparateTables env) (user : IsUserPage (kernel.elementVa element))
    (place : kernel.memory.slot (kernel.directory env) (kernel.elementVa element) = some slot) :
    Cleared env kernel (kernel.clearUsed slot) [element] where
  search := by
    have ends := Searched.setPagePermissions kernel env (kernel.elementVa element)
    rw [setPagePermissions_eq kernel place] at ends
    exact ends
  entries va bound := by
    have directories : (kernel.clearUsed slot).memory.directories = kernel.memory.directories := rfl
    have written : (kernel.clearUsed slot).memory.tables =
        Function.update kernel.memory.tables slot
          ((kernel.memory.tables slot).setPerms 0 permUsed) := rfl
    rw [pageEntry_update separate directories rfl place written user.lt bound, user.roundDown_eq,
      List.map_singleton]
    simp only [List.mem_singleton]
    split
    · rename_i same
      rw [← pageEntry_roundDown kernel env va, same, pageEntry_eq place]
    · rfl

end Cleared

/-- Residence depends on the list, the pages of its elements and the presence of pages. -/
theorem Resident.congr (resident : Resident before env)
    (list : (after.envs env).pageWsList = (before.envs env).pageWsList)
    (size : (after.envs env).pageWsMaxSize = (before.envs env).pageWsMaxSize)
    (vas : after.elementVa = before.elementVa) (next : after.nextElement = before.nextElement)
    (directories : after.memory.directories = before.memory.directories)
    (directory : after.directory env = before.directory env)
    (present : ∀ slot, (after.memory.tables slot).present = (before.memory.tables slot).present) :
    Resident after env := by
  have place : ∀ va, after.memory.slot (after.directory env) va =
      before.memory.slot (before.directory env) va := fun va => by
    rw [directory, Memory.slot_congr directories]
  obtain ⟨separate, nodup, user, held, created, fits⟩ := resident
  refine ⟨?_, ?_, ?_, ?_, ?_, ?_⟩
  · unfold SeparateTables
    rw [directories, directory]
    exact separate
  · rw [wsPages, list, vas]
    exact nodup
  · rw [list, vas]
    exact user
  · rw [list, vas]
    intro element member
    have here := held element member
    obtain ⟨slot, located⟩ := exists_slot here
    rw [pagePresent_eq located] at here
    rw [pagePresent_eq ((place _).trans located), present]
    exact here
  · rw [list, next]
    exact created
  · rw [list, size]
    exact fits

/-- A search keeps the resident pages. -/
theorem Resident.of_searched (resident : Resident before env) (search : Searched env before after) :
    Resident after env := by
  have withdraws := search.withdraws
  have vas : after.elementVa = before.elementVa := by
    unfold Kernel.elementVa
    rw [withdraws.elements]
  have next : after.nextElement = before.nextElement := by
    obtain ⟨⟨tables, hand, rfl⟩, _⟩ := search
    rfl
  refine resident.congr search.pageWsList search.pageWsMaxSize vas next withdraws.directories
    (withdraws.directory env) fun slot => ?_
  rcases search.entries slot with same | cleared
  · rw [same]
  · rw [cleared, PageTableEntry.present, PageTableEntry.setPerms_has _ (by decide) (by decide)]
    rfl

/-- The bits of an element's page are those of its entry. -/
theorem Resident.used_eq (resident : Resident kernel env)
    (member : element ∈ (kernel.envs env).pageWsList) :
    kernel.used env element =
      Perm.has (kernel.pageEntry env (kernel.elementVa element)).perm permUsed := by
  obtain ⟨slot, place⟩ := resident.located element member
  rw [used, pagePermissions_eq place, pageEntry_eq place]

theorem Resident.modified_eq (resident : Resident kernel env)
    (member : element ∈ (kernel.envs env).pageWsList) :
    kernel.modified env element =
      Perm.has (kernel.pageEntry env (kernel.elementVa element)).perm permModified := by
  obtain ⟨slot, place⟩ := resident.located element member
  rw [modified, pagePermissions_eq place, pageEntry_eq place]

/-- Different elements have different pages. -/
theorem Resident.page_mem_iff (resident : Resident kernel env)
    (member : element ∈ (kernel.envs env).pageWsList)
    (members : ∀ other ∈ elements, other ∈ (kernel.envs env).pageWsList) :
    kernel.elementVa element ∈ elements.map kernel.elementVa ↔ element ∈ elements := by
  refine ⟨fun inside => ?_, List.mem_map_of_mem⟩
  obtain ⟨other, listed, same⟩ := List.mem_map.mp inside
  have equal := List.inj_on_of_nodup_map resident.nodup_pages (members other listed) member same
  exact equal ▸ listed

/-- A search changes no modified bit and no frame. -/
theorem Cleared.modified (cleared : Cleared env before after elements)
    (resident : Resident before env) (member : element ∈ (before.envs env).pageWsList) :
    after.modified env element = before.modified env element ∧
      (after.pageEntry env (before.elementVa element)).frame =
        (before.pageEntry env (before.elementVa element)).frame := by
  have resident' := resident.of_searched cleared.search
  have member' : element ∈ (after.envs env).pageWsList := by rwa [cleared.search.pageWsList]
  have user := resident.user element member
  rw [resident'.modified_eq member', resident.modified_eq member, cleared.elementVa,
    cleared.entries _ user.lt]
  split
  · exact ⟨PageTableEntry.setPerms_has _ (by decide) (by decide), rfl⟩
  · exact ⟨rfl, rfl⟩

/-- Which bits of the elements a search changes. -/
theorem Cleared.bits (cleared : Cleared env before after elements) (resident : Resident before env)
    (members : ∀ other ∈ elements, other ∈ (before.envs env).pageWsList)
    (member : element ∈ (before.envs env).pageWsList) :
    (after.used env element = if element ∈ elements then false else before.used env element) ∧
      after.modified env element = before.modified env element := by
  refine ⟨?_, (cleared.modified resident member).1⟩
  have resident' := resident.of_searched cleared.search
  have member' : element ∈ (after.envs env).pageWsList := by rwa [cleared.search.pageWsList]
  have user := resident.user element member
  rw [resident'.used_eq member', resident.used_eq member, cleared.elementVa,
    cleared.entries _ user.lt, user.roundDown_eq]
  by_cases inside : element ∈ elements
  · rw [if_pos ((resident.page_mem_iff member members).mpr inside), if_pos inside,
      PageTableEntry.setPerms_clear_perm]
    exact Perm.has_clear_of_subset _ (by decide)
  · rw [if_neg (fun mapped => inside ((resident.page_mem_iff member members).mp mapped)),
      if_neg inside]

/-- Both ways of moving the hand on go to the next element of the ring. -/
theorem ring_step {list rest : List Nat} {hand : Nat} (nodup : list.Nodup)
    (isRing : RingOf list hand (hand :: rest)) :
    ∃ next, (if list.getLast? = some hand then list.head? else listNext list hand) = some next ∧
      nextOrFirst list hand = some next ∧ RingOf list next (rest ++ [hand]) := by
  obtain ⟨front, back, next, split, found, isRing⟩ := isRing.step
  refine ⟨next, ?_, ?_, isRing⟩
  all_goals
    rw [split] at nodup found ⊢
    obtain ⟨-, nodup', apart⟩ := List.nodup_append.mp nodup
    have outside : hand ∉ front := fun member =>
      apart hand member hand (List.mem_cons_self ..) rfl
    cases back with
    | nil => simpa [nextOrFirst, listNext_append outside] using found
    | cons other back =>
        have notLast : (front ++ hand :: other :: back).getLast? ≠ some hand := by
          intro last
          refine (List.nodup_cons.mp nodup').1 (List.mem_of_getLast? ?_)
          simpa [List.getLast?_append, List.getLast?_cons_cons] using last
        simp only [if_neg notLast, nextOrFirst, listNext_append outside]
        simpa using found

/-- One round of a search that passes the element at the hand. -/
theorem RingAt.advance {hand : Nat} (isRing : kernel.RingAt env (hand :: more))
    (nodup : (kernel.envs env).pageWsList.Nodup) :
    (kernel.envs env).pageLastWsElement = some hand ∧ hand ∈ (kernel.envs env).pageWsList ∧
      ∃ next, (if (kernel.envs env).pageWsList.getLast? = some hand then
          (kernel.envs env).pageWsList.head?
        else listNext (kernel.envs env).pageWsList hand) = some next ∧
        nextOrFirst (kernel.envs env).pageWsList hand = some next ∧
        ∀ searched, Searched env kernel searched →
          (searched.setHand env (some next)).RingAt env (more ++ [hand]) := by
  obtain ⟨hand', pointed, isRing⟩ := isRing
  obtain ⟨rest, same⟩ := isRing.head
  obtain ⟨rfl, rfl⟩ := List.cons.inj same
  refine ⟨pointed, isRing.perm.mem_iff.mp (List.mem_cons_self ..), ?_⟩
  obtain ⟨next, clock, wrapped, isRing'⟩ := ring_step nodup isRing
  refine ⟨next, clock, wrapped, fun searched search =>
    ⟨next, setHand_pageLastWsElement .., ?_⟩⟩
  rw [setHand_pageWsList, search.pageWsList]
  exact isRing'

/-- The elements of a ring are those of the working set. -/
theorem RingAt.mem_iff (isRing : kernel.RingAt env ring) :
    element ∈ ring ↔ element ∈ (kernel.envs env).pageWsList := by
  obtain ⟨_, _, around⟩ := isRing
  exact around.perm.mem_iff

theorem RingAt.nodup (isRing : kernel.RingAt env ring) (resident : Resident kernel env) :
    ring.Nodup := by
  obtain ⟨_, _, around⟩ := isRing
  exact around.perm.nodup_iff.mpr resident.nodup

/-- One round of a search that clears the used bit at the hand. -/
theorem RingAt.clearRound {hand : Nat} (isRing : kernel.RingAt env (hand :: more))
    (resident : Resident kernel env) :
    ∃ slot next,
      kernel.memory.slot (kernel.directory env) (kernel.elementVa hand) = some slot ∧
      (if (kernel.envs env).pageWsList.getLast? = some hand then (kernel.envs env).pageWsList.head?
        else listNext (kernel.envs env).pageWsList hand) = some next ∧
      nextOrFirst (kernel.envs env).pageWsList hand = some next ∧
      Cleared env kernel ((kernel.clearUsed slot).setHand env (some next)) [hand] ∧
      ((kernel.clearUsed slot).setHand env (some next)).RingAt env (more ++ [hand]) ∧
      ∀ element ∈ more,
        ((kernel.clearUsed slot).setHand env (some next)).used env element =
          kernel.used env element := by
  obtain ⟨pointed, member, next, clock, wrapped, arrives⟩ := isRing.advance resident.nodup
  obtain ⟨slot, place⟩ := resident.located hand member
  have one := Cleared.one resident.separate (resident.user hand member) place
  have cleared : Cleared env kernel ((kernel.clearUsed slot).setHand env (some next)) [hand] :=
    one.trans (.setHand _ env (some next))
  refine ⟨slot, next, place, clock, wrapped, cleared, arrives _ one.search, ?_⟩
  intro element inside
  have different : element ∉ [hand] := fun same =>
    (List.nodup_cons.mp (isRing.nodup resident)).1 (List.mem_singleton.mp same ▸ inside)
  have listed := isRing.mem_iff.mp (List.mem_cons_of_mem _ inside)
  rw [(cleared.bits resident (fun other single => List.mem_singleton.mp single ▸ member)
    listed).1,
    if_neg different]

/-- The hand of CLOCK passes the used elements that come first in the ring. -/
theorem clockVictim_walk (env : Nat) (passed : List Nat) : ∀ (kernel : Kernel) (more : List Nat)
    (fuel : Nat), Resident kernel env → kernel.RingAt env (passed ++ more) →
      (∀ element ∈ passed, kernel.used env element = true) →
      ∃ after, kernel.clockVictim env (passed.length + fuel) = after.clockVictim env fuel ∧
        Cleared env kernel after passed ∧ after.RingAt env (more ++ passed) := by
  induction passed with
  | nil =>
      intro kernel more fuel _ isRing _
      refine ⟨kernel, by rw [List.length_nil, Nat.zero_add], .refl kernel env, ?_⟩
      rwa [List.append_nil]
  | cons hand passed ih =>
      intro kernel more fuel resident isRing used
      have pointed := (isRing.advance resident.nodup).1
      obtain ⟨slot, next, place, step, -, cleared, isRing', kept⟩ := isRing.clearRound resident
      have used' : ∀ element ∈ passed,
          ((kernel.clearUsed slot).setHand env (some next)).used env element = true := by
        intro element inside
        rw [kept element (List.mem_append_left _ inside)]
        exact used element (List.mem_cons_of_mem _ inside)
      rw [List.append_eq, List.append_assoc] at isRing'
      obtain ⟨after, same, cleared', isRing''⟩ := ih _ (more ++ [hand]) fuel
        (resident.of_searched cleared.search) isRing' used'
      refine ⟨after, ?_, cleared.trans cleared', by simpa using isRing''⟩
      have mark : Perm.has (kernel.pagePermissions env (kernel.elementVa hand)) permUsed = true :=
        used hand (List.mem_cons_self ..)
      rw [List.length_cons, Nat.add_right_comm, clockVictim]
      simp only [pointed]
      rw [if_pos mark, setPagePermissions_eq kernel place]
      change ((kernel.clearUsed slot).setHand env (if (kernel.envs env).pageWsList.getLast? =
        some hand then (kernel.envs env).pageWsList.head? else
          listNext (kernel.envs env).pageWsList hand)).clockVictim env (passed.length + fuel) = _
      rw [step]
      exact same

/-- Try 2 of Modified CLOCK passes the used elements in the same way. -/
theorem tryUnused_walk (env : Nat) (passed : List Nat) : ∀ (kernel : Kernel) (more : List Nat)
    (count : Nat), Resident kernel env → kernel.RingAt env (passed ++ more) →
      (∀ element ∈ passed, kernel.used env element = true) →
      ∃ after, kernel.tryUnused env (passed.length + count) = after.tryUnused env count ∧
        Cleared env kernel after passed ∧ after.RingAt env (more ++ passed) := by
  induction passed with
  | nil =>
      intro kernel more count _ isRing _
      refine ⟨kernel, by rw [List.length_nil, Nat.zero_add], .refl kernel env, ?_⟩
      rwa [List.append_nil]
  | cons hand passed ih =>
      intro kernel more count resident isRing used
      have pointed := (isRing.advance resident.nodup).1
      obtain ⟨slot, next, place, -, step, cleared, isRing', kept⟩ := isRing.clearRound resident
      have used' : ∀ element ∈ passed,
          ((kernel.clearUsed slot).setHand env (some next)).used env element = true := by
        intro element inside
        rw [kept element (List.mem_append_left _ inside)]
        exact used element (List.mem_cons_of_mem _ inside)
      rw [List.append_eq, List.append_assoc] at isRing'
      obtain ⟨after, same, cleared', isRing''⟩ := ih _ (more ++ [hand]) count
        (resident.of_searched cleared.search) isRing' used'
      refine ⟨after, ?_, cleared.trans cleared', by simpa using isRing''⟩
      have mark : Perm.has (kernel.pagePermissions env (kernel.elementVa hand)) permUsed = true :=
        used hand (List.mem_cons_self ..)
      rw [List.length_cons, Nat.add_right_comm, tryUnused]
      simp only [pointed]
      rw [if_pos mark, setPagePermissions_eq kernel place]
      change ((kernel.clearUsed slot).setHand env
        (nextOrFirst (kernel.envs env).pageWsList hand)).tryUnused env (passed.length + count) = _
      rw [step]
      exact same

/-- Try 1 of Modified CLOCK passes the elements that are used or modified. -/
theorem tryUnmodified_walk (env : Nat) (passed : List Nat) : ∀ (kernel : Kernel)
    (more : List Nat) (count : Nat), Resident kernel env → kernel.RingAt env (passed ++ more) →
      (∀ element ∈ passed, kernel.used env element = true ∨
        kernel.modified env element = true) →
      ∃ after, kernel.tryUnmodified env (passed.length + count) =
        after.tryUnmodified env count ∧
        Cleared env kernel after [] ∧ after.RingAt env (more ++ passed) := by
  induction passed with
  | nil =>
      intro kernel more count _ isRing _
      refine ⟨kernel, by rw [List.length_nil, Nat.zero_add], .refl kernel env, ?_⟩
      rwa [List.append_nil]
  | cons hand passed ih =>
      intro kernel more count resident isRing marked
      obtain ⟨pointed, member, next, -, step, arrives⟩ := isRing.advance resident.nodup
      have cleared := Cleared.setHand kernel env (some next)
      have marked' : ∀ element ∈ passed,
          (kernel.setHand env (some next)).used env element = true ∨
            (kernel.setHand env (some next)).modified env element = true := by
        intro element inside
        have listed := isRing.mem_iff.mp (List.mem_append_left _ (List.mem_cons_of_mem _ inside))
        obtain ⟨used, modified⟩ := cleared.bits resident nofun listed
        rw [used, modified, if_neg List.not_mem_nil]
        exact marked element (List.mem_cons_of_mem _ inside)
      have isRing' := arrives kernel (.refl kernel env)
      rw [List.append_eq, List.append_assoc] at isRing'
      obtain ⟨after, same, cleared', isRing''⟩ := ih _ (more ++ [hand]) count
        (resident.of_searched cleared.search) isRing' marked'
      refine ⟨after, ?_, cleared.trans cleared', by simpa using isRing''⟩
      have mark : ¬ (¬ Perm.has (kernel.pagePermissions env (kernel.elementVa hand)) permUsed ∧
          ¬ Perm.has (kernel.pagePermissions env (kernel.elementVa hand)) permModified) := by
        rw [← not_or, not_not]
        exact marked hand (List.mem_cons_self ..)
      rw [List.length_cons, Nat.add_right_comm, tryUnmodified]
      simp only [pointed]
      rw [if_neg mark, step]
      exact same

end Kernel

end FosKernel
